import Mathlib.Algebra.Group.Nat.Defs
import Mathlib.Data.List.Basic
import Mathlib.Data.Int.Notation
import Mathlib.Data.Nat.Notation
import Mathlib.Data.List.Chain

/-!
# Retrying a call

The interceptors of `RetryInterceptor.kt` around `executeReal`. A call is a chain
of them, and what the attempts come to is read from outside.
-/

namespace KatHttp3

inductive KatHttp3TimeoutPhase
  | dns | connect | handshake | responseHeaders | read | write | call
  deriving DecidableEq

/-- What a call may throw. -/
inductive Throwable
  | dns
  | timeout (phase : KatHttp3TimeoutPhase)
  | closed
  | cancelled
  | bodyTooLarge
  | consumerStallTimeout
  | networkLost
  | connectionWorkerLimit
  | native (code : ℤ)
  | responseException (statusCode : ℤ)
  | certificateVerificationException
  | tlsHandshakeException
  | quicTransportException
  /-- The coroutine is cancelled. -/
  | cancellationException
  /-- An exception of the application's own code. -/
  | otherException
  /-- A `Throwable` that is no `Exception`. -/
  | fatal
  deriving DecidableEq

/-- `mapError`, from the error codes of the native library. -/
def mapError (code : ℤ) : Throwable :=
  match code with
  | -1 => .dns
  | -3 => .quicTransportException
  | -4 => .tlsHandshakeException
  | -5 | -6 | -7 => .certificateVerificationException
  | -9 => .timeout .call
  | -10 => .cancelled
  | -15 => .timeout .dns
  | -16 => .timeout .connect
  | -17 => .timeout .handshake
  | -18 => .timeout .responseHeaders
  | -19 => .timeout .read
  | -20 => .timeout .write
  | -21 => .timeout .call
  | -22 => .consumerStallTimeout
  | -23 => .networkLost
  | -24 => .connectionWorkerLimit
  | -13 => .closed
  | code => .native code

def isSafeConnectionRetry : Throwable → Bool
  | .quicTransportException | .dns | .networkLost => true
  | .timeout phase => phase ∈ [.dns, .connect, .handshake]
  | _ => false

structure KatHttp3Request where
  method : String

structure KatHttp3RetryPolicy where
  maxAttempts : ℤ := 2
  retryIdempotentMethods : Bool := true
  retryOnConnectionFailure : Bool := true
  initialBackoffMillis : Int64 := 100
  maxBackoffMillis : Int64 := 2000
  valid : 1 ≤ maxAttempts ∧ 0 ≤ initialBackoffMillis ∧ initialBackoffMillis ≤ maxBackoffMillis := by
    decide

/-- The methods that `canRetry` lists. -/
def idempotentMethods : List String := ["GET", "HEAD", "OPTIONS", "TRACE", "PUT", "DELETE"]

def KatHttp3RetryPolicy.canRetry (policy : KatHttp3RetryPolicy) (request : KatHttp3Request)
    (error : Throwable) : Bool :=
  if !policy.retryOnConnectionFailure || error == .cancellationException then false
  else if error == .certificateVerificationException || error == .tlsHandshakeException then false
  else if !isSafeConnectionRetry error then false
  else policy.retryIdempotentMethods && idempotentMethods.contains request.method

/-! ### Attempts -/

/-- How an attempt ends. -/
inductive AttemptOutcome
  /-- The client is closed, and `NativeBridge.execute` is not called. -/
  | refused
  /-- `NativeBridge.execute` returns false. -/
  | unsubmitted
  | complete (status : ℤ)
  | failed (code : ℤ)
  | overflow
  /-- The source of the request body throws. -/
  | sourceFailed (error : Throwable)
  /-- The coroutine is cancelled. -/
  | cancelled
  deriving DecidableEq

/-- One run of `executeReal`, and whether the native library had set
`native_request_committed` for it. -/
structure Attempt where
  outcome : AttemptOutcome
  committed : Bool
  deriving DecidableEq

/-- The status of the response, or what `executeReal` throws. -/
def Attempt.result (expectSuccess : Bool) (attempt : Attempt) : Except Throwable ℤ :=
  match attempt.outcome with
  | .refused => .error .closed
  | .unsubmitted => .error (.native (-7))
  | .complete status =>
    if expectSuccess && 400 ≤ status then .error (.responseException status) else .ok status
  | .failed code => .error (mapError code)
  | .overflow => .error .bodyTooLarge
  | .sourceFailed error => .error error
  | .cancelled => .error .cancellationException

/-- What is outside the interceptors. -/
structure Surroundings where
  expectSuccess : Bool
  /-- What the attempt after so many others comes to. -/
  attempt : ℕ → Attempt
  /-- The call is cancelled in the delay after so many attempts. -/
  cancelled : ℕ → Bool
  /-- What `Random.nextLong` returns after so many attempts. -/
  random : ℕ → Int64

/-- What a call has done so far. -/
structure CallHistory where
  attempts : List Attempt := []
  delays : List Int64 := []
  deriving DecidableEq

/-- A `suspend` function of a call. -/
abbrev Suspending (α : Type) := CallHistory → Except Throwable α × CallHistory

namespace Surroundings

variable (surroundings : Surroundings)

def executeReal : Suspending ℤ := fun history =>
  let attempt := surroundings.attempt history.attempts.length
  (attempt.result surroundings.expectSuccess,
    { history with attempts := history.attempts ++ [attempt] })

/-- `delay`, which does nothing unless the time is positive. -/
def delay (timeMillis : Int64) : Suspending Unit := fun history =>
  if timeMillis ≤ 0 then (.ok (), history)
  else
    (if surroundings.cancelled history.attempts.length then .error .cancellationException
      else .ok (),
      { history with delays := history.delays ++ [timeMillis] })

/-- The loop of both interceptors, for as many retries as are left. -/
def retryLoop (retries : Throwable → Bool) (pause : ℕ → Int64 → Int64) (longer : Int64 → Int64)
    (proceed : Suspending ℤ) : ℕ → Int64 → Suspending ℤ
  | 0, _, history => proceed history
  | left + 1, backoff, history =>
    match proceed history with
    | (.ok response, history') => (.ok response, history')
    | (.error error, history') =>
      if retries error then
        match surroundings.delay (pause history'.attempts.length backoff) history' with
        | (.ok (), waited) =>
          retryLoop retries pause longer proceed left (longer backoff) waited
        | (.error cancellation, waited) => (.error cancellation, waited)
      else (.error error, history')

end Surroundings

structure RetryInterceptor where
  maxRetries : ℤ := 3
  initialDelayMillis : Int64 := 500
  maxDelayMillis : Int64 := 10000
  retryable : Throwable → Bool := isSafeConnectionRetry

/-- An exception is retried, but no cancellation. -/
def RetryInterceptor.retries (interceptor : RetryInterceptor) (error : Throwable) : Bool :=
  error != .fatal && error != .cancellationException && interceptor.retryable error

def RetryInterceptor.intercept (interceptor : RetryInterceptor) (surroundings : Surroundings)
    (proceed : Suspending ℤ) : Suspending ℤ :=
  surroundings.retryLoop interceptor.retries (fun _ delayMs => delayMs)
    (fun delayMs => min (delayMs * 2) interceptor.maxDelayMillis) proceed
    interceptor.maxRetries.toNat interceptor.initialDelayMillis

/-- `PolicyRetryInterceptor.intercept`. -/
def KatHttp3RetryPolicy.intercept (policy : KatHttp3RetryPolicy) (request : KatHttp3Request)
    (surroundings : Surroundings) (proceed : Suspending ℤ) : Suspending ℤ :=
  surroundings.retryLoop (policy.canRetry request)
    (fun attempt backoff => if 0 < backoff then backoff + surroundings.random attempt else 0)
    (fun backoff => min (backoff * 2) policy.maxBackoffMillis) proceed
    (policy.maxAttempts - 1).toNat policy.initialBackoffMillis

inductive HttpInterceptor
  | retry (interceptor : RetryInterceptor)
  | policyRetry (policy : KatHttp3RetryPolicy)

def HttpInterceptor.intercept (interceptor : HttpInterceptor) (request : KatHttp3Request)
    (surroundings : Surroundings) (proceed : Suspending ℤ) : Suspending ℤ :=
  match interceptor with
  | .retry interceptor => interceptor.intercept surroundings proceed
  | .policyRetry policy => policy.intercept request surroundings proceed

/-- `InterceptorChainImpl.proceed`, with the interceptors that are left. -/
def proceed (request : KatHttp3Request) (surroundings : Surroundings) :
    List HttpInterceptor → Suspending ℤ
  | [] => surroundings.executeReal
  | interceptor :: interceptors =>
    interceptor.intercept request surroundings (proceed request surroundings interceptors)

/-! ### When an attempt is repeated -/

/-- `proceed` makes at least one attempt, each after the first only behind one that `repeats`
allows, and returns what the last one came to unless the call is cancelled. -/
def Repeats (expectSuccess : Bool) (repeats : Attempt → Prop) (proceed : Suspending ℤ) : Prop :=
  ∀ history, ∃ earlier last,
    (proceed history).2.attempts = history.attempts ++ (earlier ++ [last]) ∧
      (∀ attempt ∈ earlier, repeats attempt) ∧
      ((proceed history).1 = last.result expectSuccess ∨
        (proceed history).1 = .error .cancellationException)

namespace Surroundings

variable {surroundings : Surroundings} {repeats : Attempt → Prop}

theorem executeReal_repeats :
    Repeats surroundings.expectSuccess repeats surroundings.executeReal := by
  intro history
  exact ⟨[], surroundings.attempt history.attempts.length, rfl, by simp, Or.inl rfl⟩

@[simp] theorem delay_attempts (surroundings : Surroundings) (timeMillis : Int64)
    (history : CallHistory) :
    (surroundings.delay timeMillis history).2.attempts = history.attempts := by
  unfold delay
  split
  · rfl
  · rfl

theorem delay_error {timeMillis : Int64} {history waited : CallHistory} {error : Throwable}
    (h : surroundings.delay timeMillis history = (.error error, waited)) :
    error = .cancellationException := by
  unfold delay at h
  split_ifs at h
  · cases h
  · cases h
    rfl
  · cases h

/-- Retrying keeps the rule if what may be retried is an error that the rule allows. -/
theorem retryLoop_repeats {retries : Throwable → Bool} {pause : ℕ → Int64 → Int64}
    {longer : Int64 → Int64} {proceed : Suspending ℤ}
    (hproceed : Repeats surroundings.expectSuccess repeats proceed)
    (hretries : ∀ attempt error, attempt.result surroundings.expectSuccess = .error error →
      retries error = true → repeats attempt)
    (hcancelled : retries .cancellationException = false) (left : ℕ) (backoff : Int64) :
    Repeats surroundings.expectSuccess repeats
      (surroundings.retryLoop retries pause longer proceed left backoff) := by
  induction left generalizing backoff with
  | zero => exact hproceed
  | succ left ih =>
    intro history
    obtain ⟨earlier, last, hattempts, hearlier, hresult⟩ := hproceed history
    unfold retryLoop
    split
    case h_1 response history' heq =>
      rw [heq] at hattempts hresult
      exact ⟨earlier, last, hattempts, hearlier, hresult⟩
    case h_2 error history' heq =>
      rw [heq] at hattempts hresult
      split_ifs with hretry
      · have hlast : last.result surroundings.expectSuccess = .error error := by
          rcases hresult with hresult | hcancellation
          · exact hresult.symm
          · cases hcancellation
            rw [hcancelled] at hretry
            cases hretry
        have hdelay := surroundings.delay_attempts
          (pause history'.attempts.length backoff) history'
        split
        case h_1 waited hwait =>
          rw [hwait] at hdelay
          obtain ⟨later, last', hlater, hrepeats, hresult'⟩ := ih (longer backoff) waited
          refine ⟨earlier ++ last :: later, last', ?_, ?_, hresult'⟩
          · rw [hlater, hdelay, hattempts]
            simp
          · intro attempt hmem
            rcases List.mem_append.mp hmem with hmem | hmem
            · exact hearlier attempt hmem
            · rcases List.mem_cons.mp hmem with rfl | hmem
              · exact hretries attempt error hlast hretry
              · exact hrepeats attempt hmem
        case h_2 cancellation waited hwait =>
          rw [hwait] at hdelay
          refine ⟨earlier, last, hdelay.trans hattempts, hearlier, Or.inr ?_⟩
          rw [delay_error hwait]
      · exact ⟨earlier, last, hattempts, hearlier, hresult⟩

theorem retryLoop_length_le {retries : Throwable → Bool} {pause : ℕ → Int64 → Int64}
    {longer : Int64 → Int64} {proceed : Suspending ℤ} {n : ℕ}
    (hproceed : ∀ history, (proceed history).2.attempts.length ≤ history.attempts.length + n)
    (left : ℕ) (backoff : Int64) (history : CallHistory) :
    (surroundings.retryLoop retries pause longer proceed left backoff history).2.attempts.length ≤
      history.attempts.length + (left + 1) * n := by
  induction left generalizing backoff history with
  | zero => simpa [retryLoop] using hproceed history
  | succ left ih =>
    have hfirst := hproceed history
    have hbudget : n ≤ (left + 1 + 1) * n := Nat.le_mul_of_pos_left n (Nat.succ_pos _)
    unfold retryLoop
    split
    case h_1 response history' heq =>
      rw [heq] at hfirst
      exact hfirst.trans (Nat.add_le_add_left hbudget _)
    case h_2 error history' heq =>
      rw [heq] at hfirst
      split
      · have hdelay := surroundings.delay_attempts
          (pause history'.attempts.length backoff) history'
        split
        case h_1 waited hwait =>
          rw [hwait] at hdelay
          have hmore := ih (longer backoff) waited
          dsimp only at hfirst hdelay
          rw [hdelay] at hmore
          have hsplit : (left + 1 + 1) * n = (left + 1) * n + n := Nat.succ_mul _ _
          omega
        case h_2 cancellation waited hwait =>
          rw [hwait] at hdelay
          rw [hdelay]
          exact hfirst.trans (Nat.add_le_add_left hbudget _)
      · exact hfirst.trans (Nat.add_le_add_left hbudget _)

end Surroundings

/-- How many attempts an interceptor makes out of each attempt of the chain behind it. -/
def HttpInterceptor.budget : HttpInterceptor → ℕ
  | .retry interceptor => interceptor.maxRetries.toNat + 1
  | .policyRetry policy => (policy.maxAttempts - 1).toNat + 1

section

variable {surroundings : Surroundings} {request : KatHttp3Request} {repeats : Attempt → Prop}

theorem RetryInterceptor.intercept_repeats (interceptor : RetryInterceptor)
    {proceed : Suspending ℤ} (hproceed : Repeats surroundings.expectSuccess repeats proceed)
    (hretries : ∀ attempt error, attempt.result surroundings.expectSuccess = .error error →
      interceptor.retryable error = true → repeats attempt) :
    Repeats surroundings.expectSuccess repeats (interceptor.intercept surroundings proceed) := by
  apply Surroundings.retryLoop_repeats hproceed
  · intro attempt error hresult hretry
    simp only [retries, Bool.and_eq_true] at hretry
    exact hretries attempt error hresult hretry.2
  · simp [retries]

theorem KatHttp3RetryPolicy.idempotent_of_canRetry {policy : KatHttp3RetryPolicy}
    {error : Throwable} (h : policy.canRetry request error = true) :
    request.method ∈ idempotentMethods := by
  unfold canRetry at h
  split_ifs at h
  simp only [Bool.and_eq_true, List.contains_iff_mem] at h
  exact h.2

theorem KatHttp3RetryPolicy.intercept_repeats (policy : KatHttp3RetryPolicy)
    {proceed : Suspending ℤ} (hproceed : Repeats surroundings.expectSuccess repeats proceed)
    (hmethod : request.method ∉ idempotentMethods) :
    Repeats surroundings.expectSuccess repeats
      (policy.intercept request surroundings proceed) := by
  apply Surroundings.retryLoop_repeats hproceed
  · intro attempt error _ hretry
    exact absurd (idempotent_of_canRetry hretry) hmethod
  · simp [canRetry]

theorem proceed_repeats (chain : List HttpInterceptor)
    (hmethod : request.method ∉ idempotentMethods)
    (hretries : ∀ interceptor, .retry interceptor ∈ chain → ∀ attempt error,
      attempt.result surroundings.expectSuccess = .error error →
        interceptor.retryable error = true → repeats attempt) :
    Repeats surroundings.expectSuccess repeats (proceed request surroundings chain) := by
  induction chain with
  | nil => exact Surroundings.executeReal_repeats
  | cons interceptor chain ih =>
    have hrest := ih fun interceptor hmem =>
      hretries interceptor (List.mem_cons_of_mem _ hmem)
    cases interceptor with
    | retry interceptor =>
      exact interceptor.intercept_repeats hrest (hretries interceptor List.mem_cons_self)
    | policyRetry policy => exact policy.intercept_repeats hrest hmethod

/-- The budgets of nested interceptors multiply. -/
theorem proceed_length_le (chain : List HttpInterceptor) (history : CallHistory) :
    (proceed request surroundings chain history).2.attempts.length ≤
      history.attempts.length + (chain.map HttpInterceptor.budget).prod := by
  induction chain generalizing history with
  | nil => simp [proceed, Surroundings.executeReal]
  | cons interceptor chain ih =>
    rw [List.map_cons, List.prod_cons]
    cases interceptor with
    | retry interceptor => exact Surroundings.retryLoop_length_le ih _ _ history
    | policyRetry policy => exact Surroundings.retryLoop_length_le ih _ _ history

/-- A request whose method is not idempotent is executed again only by a `RetryInterceptor`,
and only after a connection failure. -/
theorem proceed_repeats_connectionFailure (request : KatHttp3Request)
    (surroundings : Surroundings) (chain : List HttpInterceptor)
    (hmethod : request.method ∉ idempotentMethods)
    (hdefault : ∀ interceptor, .retry interceptor ∈ chain →
      interceptor.retryable = isSafeConnectionRetry) :
    (∀ attempt ∈ (proceed request surroundings chain {}).2.attempts.dropLast,
      ∃ error, attempt.result surroundings.expectSuccess = .error error ∧
        isSafeConnectionRetry error = true) ∧
      ((∀ interceptor, .retry interceptor ∉ chain) →
        (proceed request surroundings chain {}).2.attempts.length = 1) := by
  constructor
  · have hrepeats : Repeats surroundings.expectSuccess (fun attempt =>
        ∃ error, attempt.result surroundings.expectSuccess = .error error ∧
          isSafeConnectionRetry error = true) (proceed request surroundings chain) := by
      apply proceed_repeats chain hmethod
      intro interceptor hmem attempt error hresult hretry
      rw [hdefault interceptor hmem] at hretry
      exact ⟨error, hresult, hretry⟩
    obtain ⟨earlier, last, hattempts, hearlier, -⟩ := hrepeats {}
    rw [hattempts, List.nil_append, List.dropLast_concat]
    exact hearlier
  · intro hnone
    have hrepeats : Repeats surroundings.expectSuccess (fun _ => False)
        (proceed request surroundings chain) :=
      proceed_repeats chain hmethod fun interceptor hmem => absurd hmem (hnone interceptor)
    obtain ⟨earlier, last, hattempts, hearlier, -⟩ := hrepeats {}
    have hempty : earlier = [] := List.eq_nil_iff_forall_not_mem.mpr hearlier
    simp [hattempts, hempty]

/-! ### One call -/

/-- The network is lost under a request whose stream is open, and nothing fails after that. -/
def lostAfterCommit : Surroundings where
  expectSuccess := true
  attempt
    | 0 => { outcome := .failed (-23), committed := true }
    | _ => { outcome := .complete 200, committed := true }
  cancelled _ := false
  random _ := 0

theorem proceed_repeats_connectionFailure_post :
    (∀ attempt ∈
        (proceed ⟨"POST"⟩ lostAfterCommit [.policyRetry {}, .retry {}] {}).2.attempts.dropLast,
      ∃ error, attempt.result true = .error error ∧ isSafeConnectionRetry error = true) ∧
      ((∀ interceptor, .retry interceptor ∉ [HttpInterceptor.policyRetry {}, .retry {}]) →
        (proceed ⟨"POST"⟩ lostAfterCommit [.policyRetry {}, .retry {}] {}).2.attempts.length = 1) :=
  proceed_repeats_connectionFailure ⟨"POST"⟩ lostAfterCommit [.policyRetry {}, .retry {}]
    (by decide) (by simp)

/-- A `POST` that the server may have seen is sent again. -/
theorem proceed_repeats_committed :
    (proceed ⟨"POST"⟩ lostAfterCommit [.retry {}] {}).2.attempts =
      [{ outcome := .failed (-23), committed := true },
        { outcome := .complete 200, committed := true }] := by
  decide

end

end KatHttp3
