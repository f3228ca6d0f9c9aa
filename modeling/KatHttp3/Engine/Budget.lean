import KatHttp3.Engine.Credentials

/-!
# The redirect budget

Every hop counts the redirects before it, and a redirect is followed while its
hop counts fewer than `kDefaultMaxRedirects`. The option `max_redirects` of the
client is stored and never read.
-/

namespace KatHttp3

/-- An engine with the options that it was made with. Nothing reads `maxRedirects`. -/
structure ConfiguredEngine (J : Type) extends EngineConfig J where
  maxRedirects : ℕ := 10

variable {J : Type} {engine : EngineConfig J}

/-- A redirect is followed while some budget remains. -/
theorem redirectTarget_count {job : Job} {status : ℕ} {headers : HeaderList}
    {target : RedirectDecision × Url}
    (h : redirectTarget engine.net job status headers = some target) :
    job.redirectCount < kDefaultMaxRedirects := by
  by_contra hspent
  have hzero : kDefaultMaxRedirects - job.redirectCount = 0 := by omega
  have hrefused : ∀ response, (evaluate engine.net job.request.method job.url response true 0).follow =
      false := by
    intro response
    unfold evaluate
    simp
  unfold redirectTarget at h
  dsimp only at h
  rw [hzero, hrefused] at h
  split_ifs at h with hredirect hfollow
  simp at hfollow

theorem startJob_redirectCount (shared : Shared J) (id : ℤ) (request : Request) (url : Url)
    (redirectCount : ℕ) (now : ClockReading) :
    (startJob shared id request url redirectCount now).2.redirectCount = redirectCount := by
  unfold startJob prepareCache
  dsimp only
  split
  · rfl
  · split
    · rfl
    · rfl
    · rfl

theorem Hop.next_redirectCount {hop next : Hop} {shared shared' : Shared J} {now : ClockReading}
    (h : hop.next shared now = some (shared', next)) :
    next.job.redirectCount = hop.job.redirectCount + 1 := by
  obtain ⟨⟨dec, request, url⟩, -, heq⟩ := Option.map_eq_some_iff.mp h
  cases heq
  exact startJob_redirectCount shared hop.job.id request url (hop.job.redirectCount + 1) now

/-- A redirect response that is not followed is exposed, if its Content-Length is readable. -/
theorem onJobHeaders_exposes (shared : Shared J) (job : Job) {status : ℕ} {headers : HeaderList}
    (now : ClockReading) (hstatus : isRedirectStatus status = true)
    (htarget : redirectTarget engine.net job status headers = none)
    (hlength : (contentLength headers).isSome = true) :
    (engine.onJobHeaders shared job status headers now).2.2 = some (.expose status headers) := by
  obtain ⟨hlow, hhigh, h304⟩ : 200 ≤ status ∧ status < 500 ∧ status ≠ 304 := by
    simp only [isRedirectStatus, decide_eq_true_eq] at hstatus
    omega
  obtain ⟨length, hlength⟩ := Option.isSome_iff_exists.mp hlength
  have hdrop : ∃ shared', dropValidation shared
      { job with response := { statusCode := status, headers := headers } } status =
        (shared', { job with
          response := { statusCode := status, headers := headers }
          cacheValidation := none }) := by
    unfold dropValidation
    split
    · rw [if_pos ⟨hlow, hhigh, h304⟩]
      exact ⟨_, rfl⟩
    · rename_i hnone
      dsimp only at hnone
      rw [← hnone]
      exact ⟨_, rfl⟩
  obtain ⟨shared', hdrop⟩ := hdrop
  have hsame : redirectTarget engine.net { job with
      response := { statusCode := status, headers := headers }
      cacheValidation := none } status headers = none := htarget
  unfold EngineConfig.onJobHeaders
  dsimp only
  rw [hdrop]
  dsimp only
  rw [hsame]
  dsimp only
  unfold EngineConfig.onResponseHeaders
  rw [hlength]
  rfl

namespace Call

variable {c c' : Call J}

/-- The hops count the redirects before them, as far as the budget goes. -/
structure Counted (c : Call J) : Prop where
  position : ∀ (k : ℕ) (hop : Hop), c.hops[k]? = some hop → hop.job.redirectCount = k
  following : ∀ hop ∈ c.hops, hop.following ≠ none → hop.job.redirectCount < kDefaultMaxRedirects
  length : c.hops.length ≤ kDefaultMaxRedirects + 1

theorem Counted.set (h : c.Counted) {k : ℕ} {hop hop' : Hop} {shared : Shared J} {live : Bool}
    {log : List AppEvent} (hk : c.hops[k]? = some hop)
    (hcount : hop'.job.redirectCount = hop.job.redirectCount)
    (hfollowing : hop'.following ≠ none → hop'.job.redirectCount < kDefaultMaxRedirects) :
    Counted { c with shared := shared, hops := c.hops.set k hop', live := live, log := log } where
  position j x hj := by
    rcases CallStacks.getElem?_set_cases hj with ⟨rfl, rfl⟩ | ⟨-, hold⟩
    · rw [hcount]
      exact h.position j hop hk
    · exact h.position j x hold
  following x hx := by
    rcases List.mem_or_eq_of_mem_set hx with hold | rfl
    · exact h.following x hold
    · exact hfollowing
  length := by
    rw [List.length_set]
    exact h.length

theorem Counted.step (hshape : c.Shape) (h : c.Counted) {i : CallStep J}
    (hstep : c.Steps engine i c') : c'.Counted := by
  cases hstep with
  | interfered => exact ⟨h.position, h.following, h.length⟩
  | @moved k hop hop' shared chunked hk hidle hm _ hfollows _ =>
    apply h.set hk hm.grows.request.redirectCount
    intro hfollowing
    obtain ⟨status, headers, now, rfl, dec, url, cookie, htarget, -⟩ := hfollows hfollowing
    rw [hm.grows.request.redirectCount]
    exact redirectTarget_count htarget
  | @delivered k hop event rest hk hpending =>
    have hkept : ({ hop with pending := rest } : Hop).job.redirectCount = hop.job.redirectCount := rfl
    exact h.set hk hkept (h.following hop (List.mem_iff_getElem?.mpr ⟨k, hk⟩))
  | @followed k hop next shared now hk hnext =>
    obtain ⟨dec, request, url, hfollowing, -, -, -, -, hnew, -⟩ := next_cases hnext
    have hsome : hop.following ≠ none := by simp [hfollowing]
    have hlast := hshape.last_of_following hk hsome
    have hcount := h.position k hop hk
    have hbudget := h.following hop (List.mem_iff_getElem?.mpr ⟨k, hk⟩) hsome
    have hkept : ({ hop with following := none } : Hop).job.redirectCount = hop.job.redirectCount :=
      rfl
    have hold : Counted { c with hops := c.hops.set k { hop with following := none } } :=
      h.set hk hkept (fun hne => absurd rfl hne)
    constructor
    case position =>
      intro j x hj
      rcases getElem?_append_singleton hj with hj | ⟨rfl, rfl⟩
      · exact hold.position j x hj
      · rw [Hop.next_redirectCount hnext, List.length_set, hcount, hlast]
    case following =>
      intro x hx
      rcases List.mem_append.mp hx with hx | hx
      · exact hold.following x hx
      · rw [List.mem_singleton.mp hx, hnew]
        exact fun hne => absurd rfl hne
    case length =>
      rw [List.length_append, List.length_set, List.length_singleton]
      omega
  | aborted => exact ⟨h.position, h.following, h.length⟩

theorem counted_execute {shared : Shared J} {id : ℤ} {request : Request} {now : ClockReading}
    (h : execute engine shared id request now = some c) : c.Counted := by
  unfold execute at h
  split at h
  · cases h
  · rename_i url _
    cases h
    constructor
    case position =>
      intro k hop hk
      cases k with
      | zero =>
        cases hk
        exact startJob_redirectCount _ id _ url 0 now
      | succ k => cases hk
    case following =>
      intro hop hmem hne
      rw [List.mem_singleton.mp hmem] at hne
      exact absurd rfl hne
    case length => exact Nat.le_add_left 1 _

/-- A request keeps a budget: no more redirects are followed, and the redirect response that
comes after them is told. -/
structure KeepsBudget (engine : EngineConfig J) (budget : ℕ) (c : Call J) : Prop where
  followed : c.hops.length ≤ budget + 1
  told : ∀ k status headers now t, c.step engine (.headers k status headers now) = some t →
    isRedirectStatus status = true → c.hops.length = budget + 1 →
    (contentLength headers).isSome = true →
      ∃ hop : Hop, t.hops[k]? = some hop ∧ hop.pending = [.headers status headers]

theorem Counted.keepsBudget (hshape : c.Shape) (h : c.Counted) {budget : ℕ}
    (hbudget : kDefaultMaxRedirects ≤ budget) : c.KeepsBudget engine budget := by
  constructor
  case followed => exact h.length.trans (Nat.succ_le_succ hbudget)
  case told =>
    intro k status headers now t hstep hstatus hspent hlength
    obtain ⟨hop, shared, hop', hk, hidle, hheaders, rfl⟩ := callback_cases hstep
    have hlt := (List.getElem?_eq_some_iff.mp hk).1
    unfold Hop.headers at hheaders
    split_ifs at hheaders with hwaiting
    have hlast : ¬ k + 1 < c.hops.length := by
      intro hearlier
      rcases (hshape.earlier k hop hk hearlier).1.stage with hstage | hstage
      · rw [hwaiting] at hstage
        cases hstage
      · rw [hwaiting] at hstage
        cases hstage
    have hcount : kDefaultMaxRedirects ≤ hop.job.redirectCount := by
      rw [h.position k hop hk]
      omega
    have htarget : redirectTarget engine.net hop.job status headers = none := by
      cases htarget : redirectTarget engine.net hop.job status headers with
      | none => rfl
      | some target => exact absurd (redirectTarget_count htarget) (Nat.not_lt.mpr hcount)
    have hreply := onJobHeaders_exposes c.shared hop.job now hstatus htarget hlength
    rcases hcall : engine.onJobHeaders c.shared hop.job status headers now with
      ⟨shared', job, reply⟩
    rw [hcall] at hheaders hreply
    dsimp only at hreply
    subst hreply
    cases hheaders
    exact ⟨_, List.getElem?_set_self hlt, rfl⟩

/-! ### Ten redirects -/

/-- A hop to a connection is redirected to another path of its origin. -/
def redirectOnce (k : ℕ) : List (CallStep Unit) :=
  [.route k true, .headers k 302 [⟨"location".toList, "/x".toList⟩] plainNow, .hop k plainNow]

theorem run_ten_redirects :
    ∃ c, Transition.run (step plainEngine) plainStart ((List.range 10).flatMap redirectOnce) = some c ∧
      c.hops.length = 11 :=
  Option.map_eq_some_iff.mp
    (show (Transition.run (step plainEngine) plainStart ((List.range 10).flatMap redirectOnce)).map
      (fun c => c.hops.length) = some 11 by decide +kernel)

/-- Clients keep their redirect budget exactly if it is at least ten. -/
theorem keepsBudget_iff (budget : ℕ) :
    (∀ (J : Type) (client : ConfiguredEngine J), client.maxRedirects = budget →
      ∀ (shared : Shared J) (id : ℤ) (request : Request) (now : ClockReading)
        (steps : List (CallStep J)) (c c' : Call J),
        execute client.toEngineConfig shared id request now = some c →
        Transition.run (step client.toEngineConfig) c steps = some c' →
          c'.KeepsBudget client.toEngineConfig budget) ↔ kDefaultMaxRedirects ≤ budget := by
  constructor
  · intro hkeeps
    obtain ⟨c, hrun, hlength⟩ := run_ten_redirects
    have hkept := hkeeps Unit { plainEngine with maxRedirects := budget } rfl ⟨none, ()⟩ 7 plainGet
      plainNow _ _ c execute_plainStart hrun
    have hfollowed := hkept.followed
    rw [hlength] at hfollowed
    exact Nat.succ_le_succ_iff.mp hfollowed
  · rintro hbudget J client - shared id request now steps c c' hexecute hrun
    have hinv : c'.Shape ∧ c'.Counted := by
      apply Transition.run_invariant_of_step _ hrun
      · exact ⟨(inv_execute hexecute).toShape, counted_execute hexecute⟩
      · intro s i s' h hstep
        have hcases := step_cases h.1 hstep
        exact ⟨h.1.step hcases, h.2.step h.1 hcases⟩
    exact hinv.2.keepsBudget hinv.1 hbudget

/-- A client that is not to follow redirects follows one. -/
theorem redirect_without_budget :
    ∃ (client : ConfiguredEngine Unit) (c : Call Unit), client.maxRedirects = 0 ∧
      execute client.toEngineConfig ⟨none, ()⟩ 7 plainGet plainNow = some plainStart ∧
      Transition.run (step client.toEngineConfig) plainStart (redirectOnce 0) = some c ∧
      ¬ c.KeepsBudget client.toEngineConfig 0 := by
  obtain ⟨c, hrun, hlength⟩ := Option.map_eq_some_iff.mp
    (show (Transition.run (step plainEngine) plainStart (redirectOnce 0)).map
      (fun c => c.hops.length) = some 2 by decide +kernel)
  refine ⟨{ plainEngine with maxRedirects := 0 }, c, rfl, execute_plainStart, hrun, ?_⟩
  intro hkept
  have hfollowed := hkept.followed
  rw [hlength] at hfollowed
  omega

end Call

end KatHttp3
