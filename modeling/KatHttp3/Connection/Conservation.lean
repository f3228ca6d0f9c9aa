import KatHttp3.Connection.ReceiveCredit

/-!
# Conservation of receive credit

Every byte that nghttp3 has processed is credited, queued to be credited, or
payload that the application has not consumed, as long as the branches that lose
credit are not taken.
-/

namespace KatHttp3

open Ledger WeightedList

namespace CreditState

/-- The step does not lose or misdirect credit: nghttp3 returns nothing for a streaming
job, the stream of a job is closed when its payload was consumed, and what `consume` is
called for came on the stream of the first active job of the request, which is open. -/
def returnsCredit (s : CreditState) : CreditStep → Bool
  | .readStream streamId n => n == 0 || (s.findJob streamId).all fun job => !job.streaming
  | .streamClose streamId =>
    (s.findJob streamId).all fun job => job.deliveredUnconsumedBytes == 0
  | .consume id n =>
    n == 0 || decide (s.outstanding id < n) ||
      (s.activeJobs.find? fun job => job.id == id).all fun job =>
        !job.cancelled && !job.completed && decide (n ≤ job.deliveredUnconsumedBytes) &&
          amount (· == (id, job.streamId)) (s.oldest id n).1 == n
  | _ => true

/-- Every byte is accounted for. -/
structure Conserved (s : CreditState) : Prop where
  /-- On every stream, neither more nor less than was received. -/
  stream : ∀ streamId, amount (· == streamId) s.streamOffsets +
    amount (· == streamId) s.pendingConsumes + s.unconsumed (· == streamId) +
      s.deferred streamId = amount (· == streamId) s.received
  /-- What was delivered and not consumed could always be consumed. -/
  accepted : s.refused = []
  /-- The consumed bytes are credited to the streams that delivered them. -/
  credited : ∀ id streamId, amount (· == (id, streamId)) s.consumed =
    amount (· == (id, streamId)) s.owed
  /-- The other delivered ones are kept for the streams that delivered them. -/
  kept : ∀ id streamId, s.unsettled (· == (id, streamId)) =
    amount (· == (id, streamId)) s.awaiting
  /-- The connection gets the credit of all streams. -/
  connection : s.maxOffset = (s.streamOffsets.map Prod.snd).sum
  /-- Nothing is kept back of a stream that is no longer active. -/
  closed : ∀ streamId, s.findJob streamId = none → amount (· == streamId) s.streamOffsets +
    amount (· == streamId) s.pendingConsumes + s.deferred streamId =
      amount (· == streamId) s.received

/-! ### The invariant -/

structure Balanced (s : CreditState) : Prop where
  streams : ∀ p, amount p s.streamOffsets + amount p s.pendingConsumes + s.unconsumed p =
    amount p s.processed
  requests : ∀ p, amount p s.consumed + s.unsettled p = amount p s.delivered
  awaits : ∀ p, amount p s.owed + amount p s.awaiting = amount p s.delivered
  credited : ∀ p, amount p s.consumed = amount p s.owed
  connection : s.maxOffset = (s.streamOffsets.map Prod.snd).sum
  held : ∀ streamId, amount (· == streamId) s.processed ≤ amount (· == streamId) s.received
  coalesced : ∀ job ∈ s.activeJobs, job.pendingCreditBytes = 0
  accepted : s.refused = []

variable {s s' : CreditState}

theorem unconsumed_eq_zero {p : ℕ → Bool} (h : ∀ job ∈ s.activeJobs, p job.streamId = false) :
    s.unconsumed p = 0 := by
  apply total_eq_zero
  intro job hjob
  exact if_neg (by simp [h job hjob])

theorem Balanced.conserved (h : s.Balanced) : s.Conserved := by
  have hstream : ∀ streamId, amount (· == streamId) s.streamOffsets +
      amount (· == streamId) s.pendingConsumes + s.unconsumed (· == streamId) +
        s.deferred streamId = amount (· == streamId) s.received := by
    intro streamId
    have hsum := h.streams (· == streamId)
    have hheld := h.held streamId
    unfold deferred
    omega
  have hkept : ∀ p, s.unsettled p = amount p s.awaiting := by
    intro p
    have hsum := h.requests p
    have hawaits := h.awaits p
    have hcredited := h.credited p
    omega
  refine ⟨hstream, h.accepted, fun id streamId => h.credited _, fun id streamId => hkept _,
    h.connection, ?_⟩
  intro streamId hnone
  have hzero : s.unconsumed (· == streamId) = 0 := by
    apply unconsumed_eq_zero
    intro job hjob
    exact Bool.eq_false_iff.mpr (List.find?_eq_none.mp hnone job hjob)
  have hsum := hstream streamId
  omega

theorem balanced_start : Balanced {} where
  streams p := rfl
  requests p := rfl
  awaits p := rfl
  credited p := rfl
  connection := rfl
  held streamId := Nat.le_refl _
  coalesced job hjob := by cases hjob
  accepted := rfl

/-- A change of the jobs that credit does not depend on. -/
theorem Balanced.jobs (h : s.Balanced) {jobs : List CreditJob}
    (hunconsumed : ∀ p, unconsumed { s with activeJobs := jobs } p = s.unconsumed p)
    (hunsettled : ∀ p, unsettled { s with activeJobs := jobs } p = s.unsettled p)
    (hcoalesced : ∀ job ∈ jobs, job.pendingCreditBytes = 0) :
    Balanced { s with activeJobs := jobs } where
  streams p := by
    rw [hunconsumed]
    exact h.streams p
  requests p := by
    rw [hunsettled]
    exact h.requests p
  awaits := h.awaits
  credited := h.credited
  connection := h.connection
  held := h.held
  coalesced := hcoalesced
  accepted := h.accepted

/-- Marking a job. -/
theorem Balanced.mark (h : s.Balanced) (p : CreditJob → Bool) {f : CreditJob → CreditJob}
    (hid : ∀ job, (f job).id = job.id) (hstream : ∀ job, (f job).streamId = job.streamId)
    (hbytes : ∀ job, (f job).deliveredUnconsumedBytes = job.deliveredUnconsumedBytes)
    (hcredit : ∀ job, (f job).pendingCreditBytes = job.pendingCreditBytes) :
    Balanced { s with activeJobs := updateFirst p f s.activeJobs } := by
  apply h.jobs
  · intro q
    apply total_updateFirst_of_eq
    intro job
    simp only [CreditJob.unconsumed, hstream, hbytes]
  · intro q
    apply total_updateFirst_of_eq
    intro job
    simp only [CreditJob.unsettled, hid, hstream, hbytes]
  · intro job hjob
    rcases mem_updateFirst hjob with hold | ⟨before, hbefore, rfl⟩
    · exact h.coalesced job hold
    · rw [hcredit]
      exact h.coalesced before hbefore

theorem process_cases {streamId n : ℕ} (h : s.process streamId n = some s') :
    n ≤ s.deferred streamId ∧ s' = { s with processed := s.processed ++ [(streamId, n)] } := by
  unfold process at h
  split_ifs at h with hheld
  cases h
  exact ⟨hheld, rfl⟩

theorem Balanced.held_process (h : s.Balanced) {streamId n : ℕ} (hheld : n ≤ s.deferred streamId)
    (other : ℕ) : amount (· == other) (s.processed ++ [(streamId, n)]) ≤
      amount (· == other) s.received := by
  have hother := h.held other
  rw [amount_append, amount_cons, amount_nil, Nat.add_zero]
  by_cases heq : streamId = other
  · subst heq
    unfold deferred at hheld
    rw [if_pos (beq_self_eq_true streamId)]
    omega
  · rw [if_neg (by simpa using heq)]
    exact hother

/-- nghttp3 has processed bytes, and they are credited at once. -/
theorem Balanced.extend (h : s.Balanced) {streamId n : ℕ} (hprocess : s.process streamId n = some s') :
    Balanced (s'.extend streamId n) := by
  obtain ⟨hheld, rfl⟩ := process_cases hprocess
  constructor
  case streams =>
    intro p
    have hsum := h.streams p
    have hsame : (CreditState.extend { s with processed := s.processed ++ [(streamId, n)] }
      streamId n).unconsumed p = s.unconsumed p := rfl
    rw [hsame]
    simp only [CreditState.extend, amount_append, amount_cons, amount_nil]
    omega
  case requests => exact h.requests
  case awaits => exact h.awaits
  case credited => exact h.credited
  case connection =>
    have hsum := h.connection
    simp only [CreditState.extend, List.map_append, List.sum_append]
    simpa using hsum
  case held => exact h.held_process hheld
  case coalesced => exact h.coalesced
  case accepted => exact h.accepted

/-- The payload of a streaming job waits for `consume`. -/
theorem Balanced.recvData (h : s.Balanced) {streamId n : ℕ} {job : CreditJob}
    (hjob : s.findJob streamId = some job) (hprocess : s.process streamId n = some s') :
    Balanced (s'.recvData job n) := by
  have hid : job.streamId = streamId := by simpa using List.find?_some hjob
  subst hid
  unfold CreditState.recvData
  split_ifs
  · obtain ⟨hheld, rfl⟩ := process_cases hprocess
    constructor
    case streams =>
      intro p
      have hsum := h.streams p
      have hupdate : total (CreditJob.unconsumed p) _ + _ = _ + _ :=
        total_updateFirst (·.deliver n) hjob
      have hdeliver : (job.deliver n).unconsumed p =
          job.unconsumed p + if p job.streamId then n else 0 := by
        unfold CreditJob.unconsumed CreditJob.deliver
        split_ifs
        · rfl
        · rfl
      rw [hdeliver] at hupdate
      unfold unconsumed at hsum ⊢
      rw [amount_append, amount_cons, amount_nil]
      dsimp only
      omega
    case requests =>
      intro p
      have hsum := h.requests p
      have hupdate : total (CreditJob.unsettled p) _ + _ = _ + _ :=
        total_updateFirst (·.deliver n) hjob
      have hdeliver : (job.deliver n).unsettled p =
          job.unsettled p + if p (job.id, job.streamId) then n else 0 := by
        unfold CreditJob.unsettled CreditJob.deliver
        split_ifs
        · rfl
        · rfl
      rw [hdeliver] at hupdate
      unfold unsettled at hsum ⊢
      rw [amount_append, amount_cons, amount_nil]
      dsimp only
      omega
    case awaits =>
      intro p
      have hsum := h.awaits p
      simp only [amount_append]
      omega
    case credited => exact h.credited
    case connection => exact h.connection
    case held => exact h.held_process hheld
    case coalesced =>
      intro job hmem
      rcases mem_updateFirst hmem with hold | ⟨before, hbefore, rfl⟩
      · exact h.coalesced job hold
      · exact h.coalesced before hbefore
    case accepted => exact h.accepted
  · exact h.extend hprocess

theorem Balanced.streamClose (h : s.Balanced) {streamId : ℕ}
    (hclose : s.returnsCredit (.streamClose streamId) = true) :
    Balanced { s with
      activeJobs := s.activeJobs.eraseP fun job => job.streamId == streamId } := by
  cases hjob : s.findJob streamId with
  | none =>
    rw [List.eraseP_of_forall_not (List.find?_eq_none.mp hjob)]
    exact h
  | some job =>
    have hzero : job.deliveredUnconsumedBytes = 0 := by
      simpa [returnsCredit, hjob] using hclose
    apply h.jobs
    · intro p
      have herase : total (CreditJob.unconsumed p) _ + _ = _ := total_eraseP hjob
      have hnone : job.unconsumed p = 0 := by
        unfold CreditJob.unconsumed
        rw [hzero, ite_self]
      rw [hnone] at herase
      exact herase
    · intro p
      have herase : total (CreditJob.unsettled p) _ + _ = _ := total_eraseP hjob
      have hnone : job.unsettled p = 0 := by
        unfold CreditJob.unsettled
        rw [hzero, ite_self]
      rw [hnone] at herase
      exact herase
    · intro other hmem
      exact h.coalesced other (List.mem_of_mem_eraseP hmem)

/-- For a job that is not streaming, what nghttp3 returns is credited. -/
theorem Balanced.readStream (h : s.Balanced) {streamId n : ℕ}
    (hread : s.returnsCredit (.readStream streamId n) = true)
    (hprocess : s.process streamId n = some s') : Balanced (s'.recvStreamData streamId n) := by
  have hsame : s'.findJob streamId = s.findJob streamId := by
    obtain ⟨-, rfl⟩ := process_cases hprocess
    rfl
  unfold recvStreamData
  rw [hsame]
  cases hjob : s.findJob streamId with
  | none => exact h.extend hprocess
  | some job =>
    dsimp only
    split_ifs with hstreaming
    · have hzero : n = 0 := by simpa [returnsCredit, hjob, hstreaming] using hread
      subst hzero
      obtain ⟨hheld, rfl⟩ := process_cases hprocess
      refine ⟨?_, h.requests, h.awaits, h.credited, h.connection, h.held_process hheld,
        h.coalesced, h.accepted⟩
      intro p
      rw [amount_append, amount_cons, amount_nil, ite_self]
      exact h.streams p
    · exact h.extend hprocess

/-- The queued credit is given to the streams and to the connection. -/
theorem Balanced.processWakeup (h : s.Balanced) : s.processWakeup.Balanced where
  streams p := by
    have hsum := h.streams p
    have hsame : s.processWakeup.unconsumed p = s.unconsumed p := rfl
    rw [hsame, CreditState.processWakeup, amount_append, amount_collect, amount_nil, Nat.add_zero]
    exact hsum
  requests := h.requests
  awaits := h.awaits
  credited := h.credited
  connection := by
    have hsum := h.connection
    unfold CreditState.processWakeup
    rw [List.map_append, List.sum_append, sum_collect, hsum]
  held := h.held
  coalesced := h.coalesced
  accepted := h.accepted

/-- What the application has not consumed is what the jobs of the request hold. -/
theorem Balanced.outstanding_eq (h : s.Balanced) (id : ℤ) :
    s.outstanding id = s.unsettled fun key => key.1 == id := by
  have hsum := h.requests fun key => key.1 == id
  have hawaits := h.awaits fun key => key.1 == id
  have hcredited := h.credited fun key => key.1 == id
  unfold outstanding
  omega

/-- Nothing that is outstanding is refused. -/
theorem Balanced.consume_refused (h : s.Balanced) {id : ℤ} {n : ℕ} {result : ConsumeResult}
    (hreturns : s.returnsCredit (.consume id n) = true) (hresult : s.consume id n = (s', result))
    (hrefused : result ≠ .ok) : s' = s ∧ s.outstanding id < n := by
  unfold CreditState.consume at hresult
  split_ifs at hresult with hzero
  · cases hresult
    exact absurd rfl hrefused
  · split at hresult
    · rename_i hnone
      cases hresult
      have hheld : (s.unsettled fun key => key.1 == id) = 0 := by
        apply total_eq_zero
        intro job hjob
        exact if_neg (List.find?_eq_none.mp hnone job hjob)
      rw [h.outstanding_eq, hheld]
      exact ⟨rfl, Nat.pos_of_ne_zero hzero⟩
    · rename_i job hjob
      split_ifs at hresult with hinvalid
      · cases hresult
        refine ⟨rfl, ?_⟩
        by_contra hle
        have hopen : ((job.cancelled = false ∧ job.completed = false) ∧
            n ≤ job.deliveredUnconsumedBytes) ∧
              amount (· == (id, job.streamId)) (s.oldest id n).1 = n := by
          simpa [returnsCredit, hzero, hle, hjob] using hreturns
        simp [hopen.1.1.1, hopen.1.1.2] at hinvalid
        omega
      · cases hresult
        exact absurd rfl hrefused

/-- No more than what is outstanding can be delivered and unconsumed of an active job. -/
theorem Balanced.le_outstanding (h : s.Balanced) {id : ℤ} {job : CreditJob}
    (hjob : s.activeJobs.find? (fun job => job.id == id) = some job) :
    job.deliveredUnconsumedBytes ≤ s.outstanding id := by
  have hid : job.id = id := by simpa using List.find?_some hjob
  rw [h.outstanding_eq]
  have hle : job.unsettled (fun key => key.1 == id) ≤ s.unsettled fun key => key.1 == id :=
    weight_le_total (List.mem_of_find?_eq_some hjob)
  simpa [CreditJob.unsettled, hid] using hle

/-- Where the oldest bytes came on one stream, they are booked under it alone. -/
theorem amount_oldest {id : ℤ} {n streamId : ℕ}
    (hle : n ≤ s.outstanding id)
    (hsole : amount (· == (id, streamId)) (s.oldest id n).1 = n) (p : ℤ × ℕ → Bool) :
    amount p (s.oldest id n).1 = if p (id, streamId) then n else 0 := by
  have htaken : amount (fun key => key.1 == id) (s.oldest id n).1 = n := by
    unfold oldest
    rw [amount_withdrawn]
    exact Nat.min_eq_left hle
  have hall : amount (fun _ => true) (s.oldest id n).1 = n :=
    (amount_withdrawn_true _ _ _).trans htaken
  rw [amount_of_sole p _ (hsole.trans hall.symm), hsole]

theorem unconsumed_settle {job : CreditJob} {n : ℕ} (hle : n ≤ job.deliveredUnconsumedBytes)
    (p : ℕ → Bool) :
    (job.settle n).unconsumed p + (if p job.streamId then n else 0) = job.unconsumed p := by
  unfold CreditJob.unconsumed CreditJob.settle
  split_ifs
  · exact Nat.sub_add_cancel hle
  · rfl

theorem unsettled_settle {job : CreditJob} {n : ℕ} (hle : n ≤ job.deliveredUnconsumedBytes)
    (p : ℤ × ℕ → Bool) :
    (job.settle n).unsettled p + (if p (job.id, job.streamId) then n else 0) = job.unsettled p := by
  unfold CreditJob.unsettled CreditJob.settle
  split_ifs
  · exact Nat.sub_add_cancel hle
  · rfl

theorem Balanced.consume (h : s.Balanced) {id : ℤ} {n : ℕ}
    (hreturns : s.returnsCredit (.consume id n) = true)
    (hresult : s.consume id n = (s', .ok)) : s'.Balanced := by
  unfold CreditState.consume at hresult
  split_ifs at hresult with hzero
  · cases hresult
    exact h
  · split at hresult
    · cases hresult
    · rename_i job hjob
      split_ifs at hresult with hinvalid
      · cases hresult
      · cases hresult
        have hid : job.id = id := by simpa using List.find?_some hjob
        have hle : n ≤ job.deliveredUnconsumedBytes := by
          simp at hinvalid
          exact hinvalid.2
        have hcredit := h.coalesced job (List.mem_of_find?_eq_some hjob)
        have houtstanding := hle.trans (h.le_outstanding hjob)
        have hsole : amount (· == (id, job.streamId)) (s.oldest id n).1 = n := by
          have hopen := hreturns
          simp [returnsCredit, hzero, hjob, Nat.not_lt.mpr houtstanding] at hopen
          exact hopen.2
        constructor
        case streams =>
          intro p
          have hsum := h.streams p
          have hupdate : total (CreditJob.unconsumed p) _ + _ = _ + _ :=
            total_updateFirst (·.settle n) hjob
          have hsettle := unconsumed_settle hle p
          unfold unconsumed at hsum ⊢
          rw [amount_append, amount_cons, amount_nil, hcredit]
          dsimp only at hupdate ⊢
          rw [Nat.zero_add]
          omega
        case requests =>
          intro p
          have hsum := h.requests p
          have hupdate : total (CreditJob.unsettled p) _ + _ = _ + _ :=
            total_updateFirst (·.settle n) hjob
          have hsettle := unsettled_settle hle p
          rw [hid] at hsettle
          unfold unsettled at hsum ⊢
          rw [amount_append, amount_cons, amount_nil]
          dsimp only at hupdate ⊢
          omega
        case awaits =>
          intro p
          have hsum := h.awaits p
          have htaken := amount_withdraw (fun key => key.1 == id) s.awaiting p n
          simp only [amount_append, oldest]
          omega
        case credited =>
          intro p
          have hsum := h.credited p
          have htaken := amount_oldest houtstanding hsole p
          rw [amount_append, amount_append, amount_cons, amount_nil, htaken]
          omega
        case connection => exact h.connection
        case held => exact h.held
        case coalesced =>
          intro other hmem
          rcases mem_updateFirst hmem with hold | ⟨before, -, rfl⟩
          · exact h.coalesced other hold
          · rfl
        case accepted => exact h.accepted

/-! ### Runs -/

theorem Balanced.step (h : s.Balanced) {label : CreditStep} (hreturns : s.returnsCredit label = true)
    (hstep : CreditState.step s label = some s') : s'.Balanced := by
  cases label with
  | submit id streamId streaming =>
    cases hstep
    apply h.jobs
    · intro p
      simp [unconsumed, CreditJob.unconsumed]
    · intro p
      simp [unsettled, CreditJob.unsettled]
    · intro job hjob
      rcases List.mem_append.mp hjob with hold | hnew
      · exact h.coalesced job hold
      · cases List.mem_singleton.mp hnew
        rfl
  | receive streamId n =>
    cases hstep
    refine ⟨h.streams, h.requests, h.awaits, h.credited, h.connection, ?_, h.coalesced,
      h.accepted⟩
    intro other
    rw [amount_append]
    exact (h.held other).trans (Nat.le_add_right _ _)
  | recvData streamId n =>
    unfold CreditState.step at hstep
    dsimp only at hstep
    split at hstep
    · cases hstep
    · rename_i job hjob
      obtain ⟨after, hprocess, rfl⟩ := Option.map_eq_some_iff.mp hstep
      exact h.recvData hjob hprocess
  | readStream streamId n =>
    obtain ⟨after, hprocess, rfl⟩ := Option.map_eq_some_iff.mp hstep
    exact h.readStream hreturns hprocess
  | deferredConsume streamId n =>
    obtain ⟨after, hprocess, rfl⟩ := Option.map_eq_some_iff.mp hstep
    exact h.extend hprocess
  | endStream streamId | cancelStream streamId | cancelJob streamId =>
    cases hstep
    exact h.mark _ (fun _ => rfl) (fun _ => rfl) (fun _ => rfl) (fun _ => rfl)
  | streamClose streamId =>
    cases hstep
    exact h.streamClose hreturns
  | consume id n =>
    unfold CreditState.step at hstep
    dsimp only at hstep
    split at hstep
    · rename_i after hresult
      cases hstep
      exact h.consume hreturns hresult
    · rename_i after result hrefused hresult
      cases hstep
      obtain ⟨rfl, hlt⟩ := h.consume_refused hreturns hresult hrefused
      rw [if_neg (Nat.not_le.mpr hlt)]
      exact h
  | processWakeup =>
    cases hstep
    exact h.processWakeup

/-- What nghttp3 consumes of a streaming response is lost to its stream. -/
theorem Balanced.returnsCredit_readStream (h : s.Balanced) {streamId n : ℕ}
    (hprocess : s.process streamId n = some s')
    (hconserved : (recvStreamData s' streamId n).Conserved) :
    s.returnsCredit (.readStream streamId n) = true := by
  obtain ⟨hheld, rfl⟩ := process_cases hprocess
  cases hjob : s.findJob streamId with
  | none => simp [returnsCredit, hjob]
  | some job =>
    by_contra hlost
    obtain ⟨hn, hstreaming⟩ : n ≠ 0 ∧ job.streaming = true := by
      simpa [returnsCredit, hjob] using hlost
    have hkept : recvStreamData { s with processed := s.processed ++ [(streamId, n)] } streamId n =
        { s with processed := s.processed ++ [(streamId, n)] } := by
      have hfound : findJob { s with processed := s.processed ++ [(streamId, n)] } streamId =
          some job := hjob
      unfold recvStreamData
      rw [hfound]
      exact if_pos hstreaming
    rw [hkept] at hconserved
    have hafter := hconserved.stream streamId
    have hbefore := h.conserved.stream streamId
    have hless : deferred { s with processed := s.processed ++ [(streamId, n)] } streamId =
        s.deferred streamId - n := by
      unfold deferred
      rw [amount_append, amount_cons, amount_nil, if_pos (beq_self_eq_true streamId)]
      dsimp only
      omega
    rw [hless] at hafter
    unfold unconsumed at hafter hbefore
    dsimp only at hafter
    omega

/-- What is not consumed when a stream is closed is lost to it. -/
theorem Balanced.returnsCredit_streamClose (h : s.Balanced) {streamId : ℕ}
    (hstep : CreditState.step s (.streamClose streamId) = some s') (hconserved : s'.Conserved) :
    s.returnsCredit (.streamClose streamId) = true := by
  cases hstep
  cases hjob : s.findJob streamId with
  | none => simp [returnsCredit, hjob]
  | some job =>
    have hid : job.streamId = streamId := by simpa using List.find?_some hjob
    have herase : total (CreditJob.unconsumed (· == streamId)) _ + _ = _ := total_eraseP hjob
    have hholds : job.unconsumed (· == streamId) = job.deliveredUnconsumedBytes :=
      if_pos (by simp [hid])
    rw [hholds] at herase
    have hafter := hconserved.stream streamId
    have hbefore := h.conserved.stream streamId
    unfold unconsumed deferred at hafter hbefore
    dsimp only at hafter
    have hzero : job.deliveredUnconsumedBytes = 0 := by omega
    simp [returnsCredit, hjob, hzero]

/-- Credit that goes to another stream than the oldest bytes is not what the streams are owed. -/
theorem Balanced.returnsCredit_consume (h : s.Balanced) {id : ℤ} {n : ℕ}
    (hstep : CreditState.step s (.consume id n) = some s') (hconserved : s'.Conserved) :
    s.returnsCredit (.consume id n) = true := by
  by_contra hlost
  unfold CreditState.step at hstep
  dsimp only at hstep
  split at hstep
  · rename_i after hresult
    unfold CreditState.consume at hresult
    split_ifs at hresult with hzero
    · exact hlost (by simp [returnsCredit, hzero])
    · split at hresult
      · cases hresult
      · rename_i job hjob
        split_ifs at hresult with hinvalid
        · cases hresult
        · cases hresult
          cases hstep
          have hafter := hconserved.credited id job.streamId
          have hbefore := h.credited (· == (id, job.streamId))
          simp only [amount_append, amount_cons, amount_nil, beq_self_eq_true, if_true] at hafter
          have hsole : amount (· == (id, job.streamId)) (s.oldest id n).1 = n := by omega
          simp at hinvalid
          exact hlost (by simp [returnsCredit, hjob, hinvalid, hsole])
  · rename_i after result hrefused hresult
    cases hstep
    have hle : n ≤ s.outstanding id := by
      by_contra hlt
      exact hlost (by simp [returnsCredit, Nat.not_le.mp hlt])
    rw [if_pos hle] at hconserved
    have haccepted := hconserved.accepted
    simp at haccepted

/-- A step that loses credit leaves a byte that is not accounted for. -/
theorem Balanced.returnsCredit_of_conserved (h : s.Balanced) {label : CreditStep}
    (hstep : CreditState.step s label = some s') (hconserved : s'.Conserved) :
    s.returnsCredit label = true := by
  cases label with
  | readStream streamId n =>
    obtain ⟨after, hprocess, rfl⟩ := Option.map_eq_some_iff.mp hstep
    exact h.returnsCredit_readStream hprocess hconserved
  | streamClose streamId => exact h.returnsCredit_streamClose hstep hconserved
  | consume id n => exact h.returnsCredit_consume hstep hconserved
  | _ => rfl

/-- The states that a run reaches account for every byte if and only if no step loses or
misdirects credit. -/
theorem run_conserved_iff (steps : List CreditStep) (s : CreditState)
    (hrun : Transition.run step {} steps = some s) :
    Transition.Meets step (fun s label => s.returnsCredit label = true) {} steps ↔
      ∀ before after t, steps = before ++ after → Transition.run step {} before = some t →
        t.Conserved := by
  apply Transition.meets_iff _ _ _ hrun balanced_start
  · intro s hbalanced
    exact hbalanced.conserved
  · intro s label s' hbalanced hreturns hstep
    exact hbalanced.step hreturns hstep
  · intro s label s' hbalanced hstep hconserved
    exact hbalanced.returnsCredit_of_conserved hstep hconserved

/-! ### Two runs -/

/-- Two streams of a streaming request; the payload of the first is consumed before that
stream is closed, and then the payload of the second. -/
def consumedSteps : List CreditStep :=
  [.submit 7 0 true, .receive 0 5, .recvData 0 5, .readStream 0 0, .submit 7 4 true,
    .receive 4 3, .recvData 4 3, .consume 7 5, .processWakeup, .endStream 0, .streamClose 0,
    .consume 7 2, .consume 7 1, .processWakeup]

theorem run_conserved_iff_consumed :
    ∃ s, Transition.run step {} consumedSteps = some s ∧ s.streamOffsets = [(0, 5), (4, 3)] ∧
      s.Conserved := by
  obtain ⟨s, hrun, hoffsets⟩ := Option.map_eq_some_iff.mp
    (show (Transition.run step {} consumedSteps).map (fun s => s.streamOffsets) =
      some [(0, 5), (4, 3)] by decide +kernel)
  exact ⟨s, hrun, hoffsets, (run_conserved_iff consumedSteps s hrun).mp (by decide +kernel)
    consumedSteps [] s (List.append_nil _).symm hrun⟩

/-- The header section of a streaming response. -/
def headerSteps : List CreditStep := [.submit 7 0 true, .receive 0 20, .readStream 0 20]

theorem run_header_uncredited :
    ∃ s, Transition.run step {} headerSteps = some s ∧ s.streamOffsets = [] ∧
      amount (· == 0) s.received = 20 ∧ ¬ s.Conserved := by
  refine ⟨_, rfl, rfl, rfl, ?_⟩
  intro hconserved
  exact absurd (hconserved.stream 0) (by decide +kernel)

end CreditState

end KatHttp3
