import KatHttp3.Kotlin.StreamingStart

/-!
# Who has the permit

Every action moves the permit of a streaming call from one place to the next: from the
scheduler to the start coroutine, into the slot, into the hands of the thread that ends
the call, and back. Counts over the threads say where it is.
-/

namespace KatHttp3

open Parties WeightedList

/-! ### What the threads hold -/

namespace EndingPhase

/-- The thread has won, and the slot is not closed yet. -/
def beforeRelease : EndingPhase → ℕ
  | removing | releasing => 1
  | _ => 0

/-- The thread has won, and the response queue is not ended yet. -/
def beforeFinish : EndingPhase → ℕ
  | removing | releasing | closing | finishing => 1
  | _ => 0

/-- The thread has the permit in its hands. -/
def closes : EndingPhase → ℕ
  | closing => 1
  | _ => 0

/-- The thread is going to claim the end of the call. -/
def claims : EndingPhase → ℕ
  | cancellingFirst | claiming => 1
  | _ => 0

/-- Only after the end of a call is its start coroutine cancelled. -/
def afterEnd : EndingPhase → Bool
  | cancellingStart | late => true
  | _ => false

end EndingPhase

namespace StartPhase

/-- The coroutine has the permit in its hands. -/
def holds : StartPhase → ℕ
  | publishing | closingLate => 1
  | _ => 0

def closesLate : StartPhase → ℕ
  | closingLate => 1
  | _ => 0

/-- The scheduler has been asked for the permit and has given it. -/
def granted : StartPhase → Bool
  | unstarted | acquiring | forgotten => false
  | _ => true

/-- The coroutine has no more to do. -/
def ended : StartPhase → Bool
  | done | forgotten => true
  | _ => false

end StartPhase

/-- How many threads are in one of the phases. -/
def count (phases : EndingPhase → ℕ) (enders : List Ender) : ℕ :=
  total (fun ender => phases ender.phase) enders

namespace StreamingSystem

open EndingPhase (beforeRelease beforeFinish closes claims)

/-- The permit is at one place, one thread has won the end of the call, and it ends the
queue once. -/
structure Accounts (s : StreamingSystem) : Prop where
  claimed : count beforeRelease s.parties + s.shared.slot.terminal.toNat = s.shared.terminal.toNat
  finished : count beforeFinish s.parties + s.shared.ended.length = s.shared.terminal.toNat
  permits : count closes s.parties + s.shared.start.holds + s.shared.slot.value.isSome.toNat +
    s.shared.releases = s.shared.granted.toNat
  early : count closes s.parties + s.shared.start.closesLate + s.shared.releases ≤
    s.shared.slot.terminal.toNat
  emptied : s.shared.slot.terminal = true → s.shared.slot.value = none
  released : s.shared.released = true → s.shared.releases = 1

/-- How far the start coroutine has come, and that it is stopped for a reason only. -/
structure Progress (s : StreamingSystem) : Prop where
  asked : s.shared.start.granted = false → s.shared.granted = false
  placed : s.shared.start = .checking ∨ s.shared.start = .submitting ∨
    s.shared.start = .executing ∨ s.shared.request.executed = true → s.shared.granted = true
  submitted : s.shared.request.executed = true →
    s.shared.start = .refused ∨ s.shared.start = .done
  answered : s.shared.start = .done →
    s.shared.request.executed = true ∨ s.shared.terminal = true ∨ 1 ≤ count claims s.parties
  stopped : s.shared.startCancelled = true ∨ s.shared.start = .forgotten →
    s.shared.terminal = true ∨ s.shared.closed = true
  late : ∀ ender ∈ s.parties, ender.phase.afterEnd = true → s.shared.terminal = true

variable {s s' : StreamingSystem} {i : ℕ} {ender ender' : Ender} {shared' : StreamingShared}
  {granted : Bool} {submission : ExecuteResult}

theorem accounts_initial : initial.Accounts := ⟨rfl, rfl, rfl, le_rfl, fun _ => rfl, nofun⟩

theorem progress_initial : initial.Progress where
  asked _ := rfl
  placed h := by simp [initial] at h
  submitted := nofun
  answered := nofun
  stopped h := by simp [initial] at h
  late := nofun

/-- What an action of one thread changes of a count. -/
theorem count_set {enders : List Ender} (hget : enders[i]? = some ender) (ender' : Ender)
    (phases : EndingPhase → ℕ) :
    count phases (enders.set i ender') + phases ender.phase =
      count phases enders + phases ender'.phase :=
  total_set hget ender'

@[simp] theorem count_cons (ender : Ender) (enders : List Ender) (phases : EndingPhase → ℕ) :
    count phases (ender :: enders) = phases ender.phase + count phases enders :=
  total_cons ender enders

@[simp] theorem count_append (enders more : List Ender) (phases : EndingPhase → ℕ) :
    count phases (enders ++ more) = count phases enders + count phases more :=
  total_append enders more

theorem count_pos (hget : s.parties[i]? = some ender) (phases : EndingPhase → ℕ) :
    phases ender.phase ≤ count phases s.parties :=
  @weight_le_total _ (fun ender => phases ender.phase) _ _ (List.mem_of_getElem? hget)

/-! ### The threads that end the call -/

/-- An action that leaves the permit, the flag and the queue alone. -/
theorem Accounts.keep (h : s.Accounts) (hget : s.parties[i]? = some ender)
    (hshared : shared' = { s.shared with
      active := shared'.active
      request := shared'.request
      startCancelled := shared'.startCancelled })
    (hrelease : ender'.phase.beforeRelease = ender.phase.beforeRelease)
    (hfinish : ender'.phase.beforeFinish = ender.phase.beforeFinish)
    (hcloses : ender'.phase.closes = ender.phase.closes) :
    Accounts ⟨shared', s.parties.set i ender'⟩ := by
  have hreleases := count_set hget ender' beforeRelease
  have hfinishes := count_set hget ender' beforeFinish
  have hclosings := count_set hget ender' closes
  obtain ⟨hclaimed, hfinished, hpermits, hearly, hemptied, hreleased⟩ := h
  rw [hshared]
  refine ⟨?_, ?_, ?_, ?_, hemptied, hreleased⟩
  all_goals
    dsimp only
    omega

/-- The first thread that claims the end of the call wins it. -/
theorem Accounts.claim (h : s.Accounts) (hget : s.parties[i]? = some ender)
    (hphase : ender.phase = .claiming) (hopen : s.shared.terminal = false) :
    Accounts ⟨{ s.shared with terminal := true },
      s.parties.set i { ender with phase := .removing }⟩ := by
  have hreleases := count_set hget { ender with phase := .removing } beforeRelease
  have hfinishes := count_set hget { ender with phase := .removing } beforeFinish
  have hclosings := count_set hget { ender with phase := .removing } closes
  simp only [hphase, beforeRelease, beforeFinish, closes] at hreleases hfinishes hclosings
  obtain ⟨hclaimed, hfinished, hpermits, hearly, hemptied, hreleased⟩ := h
  simp only [hopen, Bool.toNat_false] at hclaimed hfinished
  refine ⟨?_, ?_, ?_, ?_, hemptied, hreleased⟩
  all_goals
    simp only [Bool.toNat_true]
    omega

/-- The winner closes the slot and has the permit in its hands, if there is one. -/
theorem Accounts.release (h : s.Accounts) (hget : s.parties[i]? = some ender)
    (hphase : ender.phase = .releasing) (hphase' : ender'.phase =
      if s.shared.slot.close.2.isSome then .closing else .finishing) :
    Accounts ⟨{ s.shared with slot := s.shared.slot.close.1 }, s.parties.set i ender'⟩ := by
  have hreleases := count_set hget ender' beforeRelease
  have hfinishes := count_set hget ender' beforeFinish
  have hclosings := count_set hget ender' closes
  have hone := count_pos hget beforeRelease
  obtain ⟨hclaimed, hfinished, hpermits, hearly, hemptied, hreleased⟩ := h
  have hterminal := Bool.toNat_le s.shared.terminal
  -- the slot is still open, since this thread is the one that closes it
  have hopen : s.shared.slot.terminal = false := by
    rw [hphase] at hone
    by_contra hclosed
    rw [Bool.eq_true_of_not_eq_false hclosed, Bool.toNat_true] at hclaimed
    simp only [beforeRelease] at hone
    omega
  have hslot : s.shared.slot.close = ({ terminal := true, value := none }, s.shared.slot.value) := by
    rw [CloseOnceSlot.close, hopen]
    rfl
  rw [hslot] at hphase' ⊢
  rw [hopen, Bool.toNat_false] at hclaimed hearly
  rw [hphase, hphase'] at hreleases hfinishes hclosings
  refine ⟨?_, ?_, ?_, ?_, fun _ => rfl, hreleased⟩
  all_goals
    cases hvalue : s.shared.slot.value <;>
      simp_all only [beforeRelease, beforeFinish, closes, Option.isSome_none, Option.isSome_some,
        Bool.toNat_true, Bool.toNat_false, Bool.false_eq_true, if_true, if_false] <;>
      omega

theorem closePermit_eq {shared : StreamingShared} (hreleased : shared.released = true →
    shared.releases = 1) (hnone : shared.releases = 0) :
    shared.closePermit = { shared with released := true, releases := 1 } := by
  unfold StreamingShared.closePermit
  split_ifs with hclosed
  · have := hreleased hclosed
    omega
  · rw [hnone]

/-- The permit is closed by the thread that has it. -/
theorem Accounts.close (h : s.Accounts) (hget : s.parties[i]? = some ender)
    (hphase : ender.phase = .closing) :
    Accounts ⟨s.shared.closePermit, s.parties.set i { ender with phase := .finishing }⟩ := by
  have hreleases := count_set hget { ender with phase := .finishing } beforeRelease
  have hfinishes := count_set hget { ender with phase := .finishing } beforeFinish
  have hclosings := count_set hget { ender with phase := .finishing } closes
  have hone := count_pos hget closes
  simp only [hphase, beforeRelease, beforeFinish, closes] at hreleases hfinishes hclosings hone
  obtain ⟨hclaimed, hfinished, hpermits, hearly, hemptied, hreleased⟩ := h
  have hgranted := Bool.toNat_le s.shared.granted
  have hnone : s.shared.releases = 0 := by omega
  rw [closePermit_eq hreleased hnone]
  refine ⟨?_, ?_, ?_, ?_, hemptied, fun _ => rfl⟩
  all_goals
    dsimp only
    omega

/-- The winner ends the queue. -/
theorem Accounts.finish (h : s.Accounts) (hget : s.parties[i]? = some ender)
    (hphase : ender.phase = .finishing)
    (hphase' : ender'.phase = .cancellingStart ∨ ender'.phase = .done) (ending : Ending) :
    Accounts ⟨{ s.shared with ended := s.shared.ended ++ [ending] }, s.parties.set i ender'⟩ := by
  have hreleases := count_set hget ender' beforeRelease
  have hfinishes := count_set hget ender' beforeFinish
  have hclosings := count_set hget ender' closes
  have hzero : beforeRelease ender'.phase = 0 ∧ beforeFinish ender'.phase = 0 ∧
      closes ender'.phase = 0 := by
    rcases hphase' with hphase' | hphase' <;> rw [hphase'] <;> decide
  rw [hzero.1] at hreleases
  rw [hzero.2.1] at hfinishes
  rw [hzero.2.2] at hclosings
  simp only [hphase, beforeRelease, beforeFinish, closes] at hreleases hfinishes hclosings
  obtain ⟨hclaimed, hfinished, hpermits, hearly, hemptied, hreleased⟩ := h
  refine ⟨?_, ?_, ?_, ?_, hemptied, hreleased⟩
  all_goals
    simp only [List.length_append, List.length_singleton]
    omega

/-- No action of such a thread takes the start coroutine a step back. -/
theorem Progress.set (h : s.Progress) (hget : s.parties[i]? = some ender)
    (hstart : shared'.start = s.shared.start) (hgranted : shared'.granted = s.shared.granted)
    (hexecuted : shared'.request.executed = s.shared.request.executed)
    (hclosed : shared'.closed = s.shared.closed)
    (hterminal : s.shared.terminal = true → shared'.terminal = true)
    (hcancelled : shared'.startCancelled = true →
      s.shared.startCancelled = true ∨ shared'.terminal = true)
    (hclaims : ender'.phase.claims = ender.phase.claims ∨ shared'.terminal = true)
    (hlate : ender'.phase.afterEnd = true → shared'.terminal = true) :
    Progress ⟨shared', s.parties.set i ender'⟩ := by
  have hcount := count_set hget ender' claims
  constructor
  case asked =>
    dsimp only
    rw [hstart, hgranted]
    exact h.asked
  case placed =>
    dsimp only
    rw [hstart, hgranted, hexecuted]
    exact h.placed
  case submitted =>
    dsimp only
    rw [hstart, hexecuted]
    exact h.submitted
  case answered =>
    dsimp only
    rw [hstart, hexecuted]
    intro hdone
    rcases hclaims with hclaims | hended
    · rcases h.answered hdone with hrunning | hended | hpos
      · exact Or.inl hrunning
      · exact Or.inr (Or.inl (hterminal hended))
      · exact Or.inr (Or.inr (by omega))
    · exact Or.inr (Or.inl hended)
  case stopped =>
    dsimp only
    rw [hstart, hclosed]
    rintro (hstopped | hforgotten)
    · rcases hcancelled hstopped with hold | hended
      · exact (h.stopped (Or.inl hold)).imp_left hterminal
      · exact Or.inl hended
    · exact (h.stopped (Or.inr hforgotten)).imp_left hterminal
  case late =>
    intro other hother hphase
    rcases List.mem_or_eq_of_mem_set hother with hold | rfl
    · exact hterminal (h.late other hold hphase)
    · exact hlate hphase

/-- Cancelling the request changes the request only. -/
theorem cancelNative_cases {shared : StreamingShared} {next : StreamingShared × Ender}
    (h : (shared.cancelNative.map fun shared => (shared, ender')) = some next) :
    ∃ request : NativeRequest, request.executed = shared.request.executed ∧
      next = ({ shared with request := request }, ender') := by
  obtain ⟨cancelled, hcancel, rfl⟩ := Option.map_eq_some_iff.mp h
  unfold StreamingShared.cancelNative at hcancel
  split_ifs at hcancel
  · cases hcancel
    exact ⟨shared.request, rfl, rfl⟩
  · cases hcancel
    exact ⟨shared.request.cancel, rfl, rfl⟩

theorem accounts_ender (h : s.Accounts) (hstep : s.move i Ender.advance = some s') :
    s'.Accounts := by
  obtain ⟨ender, shared', ender', hget, hadvance, rfl⟩ := System.move_eq_some.mp hstep
  unfold Ender.advance at hadvance
  split at hadvance
  · rename_i hphase
    obtain ⟨request, -, hnext⟩ := cancelNative_cases hadvance
    cases hnext
    exact h.keep hget rfl (by rw [hphase]; rfl) (by rw [hphase]; rfl) (by rw [hphase]; rfl)
  · rename_i hphase
    split_ifs at hadvance with hended hcaller
    · cases hadvance
      exact h.keep hget rfl (by rw [hphase]; rfl) (by rw [hphase]; rfl) (by rw [hphase]; rfl)
    · cases hadvance
      exact h.keep hget rfl (by rw [hphase]; rfl) (by rw [hphase]; rfl) (by rw [hphase]; rfl)
    · cases hadvance
      exact h.claim hget hphase (Bool.eq_false_of_not_eq_true hended)
  · rename_i hphase
    cases hadvance
    exact h.keep hget rfl (by rw [hphase]; rfl) (by rw [hphase]; rfl) (by rw [hphase]; rfl)
  · rename_i hphase
    cases hadvance
    exact h.release hget hphase rfl
  · rename_i hphase
    cases hadvance
    exact h.close hget hphase
  · rename_i hphase
    cases hadvance
    refine h.finish hget hphase ?_ ender.ending
    dsimp only
    split_ifs
    · exact Or.inl rfl
    · exact Or.inr rfl
  · rename_i hphase
    cases hadvance
    exact h.keep hget rfl (by rw [hphase]; rfl) (by rw [hphase]; rfl) (by rw [hphase]; rfl)
  · rename_i hphase
    obtain ⟨request, -, hnext⟩ := cancelNative_cases hadvance
    cases hnext
    exact h.keep hget rfl (by rw [hphase]; rfl) (by rw [hphase]; rfl) (by rw [hphase]; rfl)
  · rename_i hphase
    cases hadvance
    exact h.keep hget rfl (by rw [hphase]; rfl) (by rw [hphase]; rfl) (by rw [hphase]; rfl)
  · cases hadvance

/-- What closing the permit leaves alone. -/
theorem closePermit_same (shared : StreamingShared) :
    shared.closePermit.start = shared.start ∧ shared.closePermit.granted = shared.granted ∧
      shared.closePermit.request = shared.request ∧ shared.closePermit.closed = shared.closed ∧
      shared.closePermit.terminal = shared.terminal ∧
      shared.closePermit.startCancelled = shared.startCancelled := by
  unfold StreamingShared.closePermit
  split_ifs <;> exact ⟨rfl, rfl, rfl, rfl, rfl, rfl⟩

theorem Accounts.terminal_of_finishing (h : s.Accounts) (hget : s.parties[i]? = some ender)
    (hphase : beforeFinish ender.phase = 1) : s.shared.terminal = true := by
  have hone := count_pos hget beforeFinish
  have hfinished := h.finished
  by_contra hopen
  rw [Bool.eq_false_of_not_eq_true hopen, Bool.toNat_false] at hfinished
  omega

theorem progress_ender (ha : s.Accounts) (h : s.Progress)
    (hstep : s.move i Ender.advance = some s') : s'.Progress := by
  obtain ⟨ender, shared', ender', hget, hadvance, rfl⟩ := System.move_eq_some.mp hstep
  have hlate := h.late ender (List.mem_of_getElem? hget)
  unfold Ender.advance at hadvance
  split at hadvance
  · rename_i hphase
    obtain ⟨request, hexecuted, hnext⟩ := cancelNative_cases hadvance
    cases hnext
    exact h.set hget rfl rfl hexecuted rfl id Or.inl
      (Or.inl (by rw [hphase]; rfl)) (fun hl => by cases hl)
  · rename_i hphase
    split_ifs at hadvance with hended hcaller
    · cases hadvance
      exact h.set hget rfl rfl rfl rfl id Or.inl (Or.inr hended) (fun _ => hended)
    · cases hadvance
      exact h.set hget rfl rfl rfl rfl id Or.inl (Or.inr hended) (fun _ => hended)
    · cases hadvance
      exact h.set hget rfl rfl rfl rfl (fun _ => rfl) Or.inl (Or.inr rfl) (fun _ => rfl)
  · rename_i hphase
    cases hadvance
    exact h.set hget rfl rfl rfl rfl id Or.inl (Or.inl (by rw [hphase]; rfl))
      (fun hl => by cases hl)
  · rename_i hphase
    cases hadvance
    refine h.set hget rfl rfl rfl rfl id Or.inl (Or.inl ?_) ?_
    · rw [hphase]
      dsimp only
      split_ifs <;> rfl
    · dsimp only
      split_ifs
      · intro hl
        cases hl
      · intro hl
        cases hl
  · rename_i hphase
    cases hadvance
    obtain ⟨hstart, hgranted, hrequest, hclosed, hterminal, hcancelled⟩ := closePermit_same s.shared
    exact h.set hget hstart hgranted (by rw [hrequest]) hclosed (fun he => by rw [hterminal, he])
      (fun hc => Or.inl (by rw [← hcancelled, hc])) (Or.inl (by rw [hphase]; rfl))
      (fun hl => by cases hl)
  · rename_i hphase
    cases hadvance
    have hended := ha.terminal_of_finishing hget (by rw [hphase]; rfl)
    exact h.set hget rfl rfl rfl rfl id Or.inl (Or.inr hended) (fun _ => hended)
  · rename_i hphase
    cases hadvance
    have hended := hlate (by rw [hphase]; rfl)
    exact h.set hget rfl rfl rfl rfl id (fun _ => Or.inr hended) (Or.inl (by rw [hphase]; rfl))
      (fun hl => by cases hl)
  · rename_i hphase
    obtain ⟨request, hexecuted, hnext⟩ := cancelNative_cases hadvance
    cases hnext
    exact h.set hget rfl rfl hexecuted rfl id Or.inl
      (Or.inl (by rw [hphase]; rfl)) (fun hl => by cases hl)
  · rename_i hphase
    cases hadvance
    have hended := hlate (by rw [hphase]; rfl)
    exact h.set hget rfl rfl rfl rfl id (fun _ => Or.inr hended) (Or.inl (by rw [hphase]; rfl))
      (fun hl => by cases hl)
  · cases hadvance

/-! ### The start coroutine -/

/-- Failures that are reported have not been claimed yet. -/
theorem count_claiming {enders : List Ender} (hnew : ∀ ender ∈ enders, ender.phase.claims = 1) :
    count beforeRelease enders = 0 ∧ count beforeFinish enders = 0 ∧ count closes enders = 0 ∧
      count claims enders = enders.length := by
  induction enders with
  | nil => exact ⟨rfl, rfl, rfl, rfl⟩
  | cons ender enders ih =>
    obtain ⟨hrelease, hfinish, hcloses, hclaims⟩ := ih fun x hx => hnew x (List.mem_cons_of_mem _ hx)
    have hphase := hnew ender List.mem_cons_self
    have hzero : beforeRelease ender.phase = 0 ∧ beforeFinish ender.phase = 0 ∧
        closes ender.phase = 0 := by
      cases hp : ender.phase <;> rw [hp] at hphase <;> cases hphase <;> decide
    simp only [count_cons, hzero, hrelease, hfinish, hcloses, hclaims, hphase, List.length_cons]
    exact ⟨trivial, trivial, trivial, Nat.add_comm _ _⟩

/-- Threads that begin to end the call. -/
theorem Accounts.append (h : s.Accounts) {enders : List Ender}
    (hnew : ∀ ender ∈ enders, ender.phase.claims = 1)
    (hterminal : shared'.terminal = s.shared.terminal) (hended : shared'.ended = s.shared.ended)
    (hslot : shared'.slot.terminal = s.shared.slot.terminal)
    (hpermits : count closes s.parties + shared'.start.holds + shared'.slot.value.isSome.toNat +
      shared'.releases = shared'.granted.toNat)
    (hearly : count closes s.parties + shared'.start.closesLate + shared'.releases ≤
      s.shared.slot.terminal.toNat)
    (hemptied : shared'.slot.terminal = true → shared'.slot.value = none)
    (hreleased : shared'.released = true → shared'.releases = 1) :
    Accounts ⟨shared', s.parties ++ enders⟩ := by
  obtain ⟨hrelease, hfinish, hcloses, -⟩ := count_claiming hnew
  constructor
  case claimed =>
    simp only [count_append, hrelease, hslot, hterminal]
    exact h.claimed
  case finished =>
    simp only [count_append, hfinish, hterminal, hended]
    exact h.finished
  case permits =>
    simp only [count_append, hcloses]
    exact hpermits
  case early =>
    simp only [count_append, hcloses, hslot]
    exact hearly
  case emptied => exact hemptied
  case released => exact hreleased

/-- An action that leaves the slot and the permit alone. -/
theorem Accounts.append_same (h : s.Accounts) {enders : List Ender}
    (hnew : ∀ ender ∈ enders, ender.phase.claims = 1)
    (hshared : shared' = { s.shared with
      start := shared'.start
      active := shared'.active
      request := shared'.request
      closed := shared'.closed
      startCancelled := shared'.startCancelled
      cancelled := shared'.cancelled })
    (hholds : shared'.start.holds = s.shared.start.holds)
    (hlate : shared'.start.closesLate = s.shared.start.closesLate) :
    Accounts ⟨shared', s.parties ++ enders⟩ := by
  have hpermits := h.permits
  have hearly := h.early
  rw [← hholds] at hpermits
  rw [← hlate] at hearly
  rw [hshared]
  exact h.append hnew rfl rfl rfl hpermits hearly h.emptied h.released

/-- The coroutine has got its permit from the scheduler. -/
theorem Accounts.grant (h : s.Accounts) (hp : s.Progress) (hphase : s.shared.start = .acquiring) :
    Accounts ⟨{ s.shared with start := .publishing, granted := true }, s.parties ++ []⟩ := by
  have hnone := hp.asked (by rw [hphase]; rfl)
  have hpermits := h.permits
  have hearly := h.early
  rw [hphase, hnone] at hpermits
  rw [hphase] at hearly
  simp only [StartPhase.holds, Bool.toNat_false] at hpermits
  refine h.append (by simp) rfl rfl rfl ?_ hearly h.emptied h.released
  simp only [StartPhase.holds, Bool.toNat_true]
  omega

/-- The permit goes into the open slot, or stays with the coroutine if the call has ended. -/
theorem Accounts.publish (h : s.Accounts) (hphase : s.shared.start = .publishing)
    {next : StreamingShared × List Ender}
    (hadvance : s.shared.advance granted submission = some next) :
    Accounts ⟨next.1, s.parties ++ next.2⟩ := by
  have hpermits := h.permits
  have hearly := h.early
  have hgranted := Bool.toNat_le s.shared.granted
  rw [hphase] at hpermits hearly
  simp only [StartPhase.holds, StartPhase.closesLate] at hpermits hearly
  -- the coroutine has the only permit, so there is none in the slot
  have hvalue : s.shared.slot.value = none := by
    cases hv : s.shared.slot.value with
    | none => rfl
    | some _ =>
      rw [hv, Option.isSome_some, Bool.toNat_true] at hpermits
      omega
  unfold StreamingShared.advance CloseOnceSlot.publish at hadvance
  rw [hphase, hvalue] at hadvance
  rw [hvalue] at hpermits
  cases hterminal : s.shared.slot.terminal with
  | false =>
    simp only [hterminal, Bool.false_eq_true, if_false, Option.isSome_none] at hadvance
    cases hadvance
    refine h.append (by simp) rfl rfl hterminal.symm ?_ ?_ (fun he => by cases he) h.released
    · simp only [StartPhase.holds, Option.isSome_some, Option.isSome_none, Bool.toNat_true,
        Bool.toNat_false] at hpermits ⊢
      omega
    · exact hearly
  | true =>
    simp only [hterminal, if_true] at hadvance
    cases hadvance
    refine h.append (by simp) rfl rfl rfl ?_ ?_ h.emptied h.released
    · rw [hvalue]
      exact hpermits
    · simp only [StartPhase.closesLate, hterminal, Bool.toNat_true]
      omega

/-- The coroutine closes the permit that came too late. -/
theorem Accounts.closeLate (h : s.Accounts) (hphase : s.shared.start = .closingLate) :
    Accounts ⟨{ s.shared.closePermit with start := .done }, s.parties ++ []⟩ := by
  have hpermits := h.permits
  have hearly := h.early
  have hgranted := Bool.toNat_le s.shared.granted
  rw [hphase] at hpermits hearly
  simp only [StartPhase.holds, StartPhase.closesLate] at hpermits hearly
  rw [closePermit_eq h.released (by omega)]
  refine h.append (by simp) rfl rfl rfl ?_ ?_ h.emptied (fun _ => rfl)
  · simp only [StartPhase.holds]
    omega
  · simp only [StartPhase.closesLate]
    omega

theorem accounts_start (h : s.Accounts) (hp : s.Progress) {next : StreamingShared × List Ender}
    (hadvance : s.shared.advance granted submission = some next) :
    Accounts ⟨next.1, s.parties ++ next.2⟩ := by
  cases hphase : s.shared.start with
  | unstarted =>
    unfold StreamingShared.advance at hadvance
    rw [hphase] at hadvance
    dsimp only at hadvance
    split_ifs at hadvance
    all_goals
      cases hadvance
      exact h.append_same (by simp) rfl (by rw [hphase]; rfl) (by rw [hphase]; rfl)
  | acquiring =>
    unfold StreamingShared.advance at hadvance
    rw [hphase] at hadvance
    dsimp only at hadvance
    split_ifs at hadvance
    · cases hadvance
      exact h.grant hp hphase
    · cases hadvance
      exact h.append_same (by simp [claims]) rfl (by rw [hphase]; rfl) (by rw [hphase]; rfl)
  | publishing => exact h.publish hphase hadvance
  | closingLate =>
    unfold StreamingShared.advance at hadvance
    rw [hphase] at hadvance
    cases hadvance
    exact h.closeLate hphase
  | checking | submitting =>
    unfold StreamingShared.advance at hadvance
    rw [hphase] at hadvance
    dsimp only at hadvance
    split_ifs at hadvance
    all_goals
      cases hadvance
      exact h.append_same (by simp [claims]) rfl (by rw [hphase]; rfl) (by rw [hphase]; rfl)
  | executing =>
    unfold StreamingShared.advance at hadvance
    rw [hphase] at hadvance
    cases submission
    all_goals
      cases hadvance
      exact h.append_same (by simp [claims]) rfl (by rw [hphase]; rfl) (by rw [hphase]; rfl)
  | refused =>
    unfold StreamingShared.advance at hadvance
    rw [hphase] at hadvance
    cases hadvance
    refine h.append_same ?_ rfl (by rw [hphase]; rfl) (by rw [hphase]; rfl)
    split_ifs <;> simp [claims]
  | done | forgotten =>
    unfold StreamingShared.advance at hadvance
    rw [hphase] at hadvance
    cases hadvance

/-- What a step has to show that lets the coroutine or the client go on. -/
theorem Progress.append (h : s.Progress) {enders : List Ender}
    (hnew : ∀ ender ∈ enders, ender.phase.claims = 1)
    (hterminal : shared'.terminal = s.shared.terminal)
    (hclosed : s.shared.closed = true → shared'.closed = true)
    (hcancelled : shared'.startCancelled = true →
      s.shared.startCancelled = true ∨ shared'.closed = true)
    (hasked : shared'.start.granted = false → shared'.granted = false)
    (hplaced : shared'.start = .checking ∨ shared'.start = .submitting ∨
      shared'.start = .executing ∨ shared'.request.executed = true → shared'.granted = true)
    (hsubmitted : shared'.request.executed = true →
      shared'.start = .refused ∨ shared'.start = .done)
    (hanswered : shared'.start = .done → shared'.request.executed = true ∨
      s.shared.terminal = true ∨ 1 ≤ count claims s.parties + enders.length)
    (hforgotten : shared'.start = .forgotten →
      s.shared.startCancelled = true ∨ s.shared.start = .forgotten) :
    Progress ⟨shared', s.parties ++ enders⟩ := by
  obtain ⟨-, -, -, hclaims⟩ := count_claiming hnew
  have hstopped : s.shared.startCancelled = true ∨ s.shared.start = .forgotten →
      shared'.terminal = true ∨ shared'.closed = true := by
    intro hold
    rw [hterminal]
    exact (h.stopped hold).imp_right hclosed
  constructor
  case asked => exact hasked
  case placed => exact hplaced
  case submitted => exact hsubmitted
  case answered =>
    simp only [count_append, hclaims, hterminal]
    exact hanswered
  case stopped =>
    rintro (hstop | hforgot)
    · exact (hcancelled hstop).elim (fun hold => hstopped (Or.inl hold)) Or.inr
    · exact hstopped (hforgotten hforgot)
  case late =>
    intro ender hmem hafter
    dsimp only
    rw [hterminal]
    rcases List.mem_append.mp hmem with hold | hmem
    · exact h.late ender hold hafter
    · have hclaim := hnew ender hmem
      cases hphase : ender.phase <;> rw [hphase] at hclaim hafter <;> cases hclaim <;> cases hafter

theorem progress_start (ha : s.Accounts) (h : s.Progress) {next : StreamingShared × List Ender}
    (hadvance : s.shared.advance granted submission = some next) :
    Progress ⟨next.1, s.parties ++ next.2⟩ := by
  -- the request is executed by the coroutine alone, and as its last action but one
  have hsubmitted := h.submitted
  have hpermits := ha.permits
  cases hphase : s.shared.start with
  | unstarted =>
    have hasked := h.asked (by rw [hphase]; rfl)
    rw [hphase] at hsubmitted
    unfold StreamingShared.advance at hadvance
    rw [hphase] at hadvance
    dsimp only at hadvance
    split_ifs at hadvance with hstopped
    · cases hadvance
      exact h.append (by simp) rfl id Or.inl (fun _ => hasked) (by simp_all) (by simp_all)
        (by simp) (fun _ => Or.inl hstopped)
    · cases hadvance
      exact h.append (by simp) rfl id Or.inl (fun _ => hasked) (by simp_all) (by simp_all)
        (by simp) (by simp)
  | acquiring =>
    rw [hphase] at hsubmitted
    unfold StreamingShared.advance at hadvance
    rw [hphase] at hadvance
    dsimp only at hadvance
    split_ifs at hadvance
    · cases hadvance
      exact h.append (by simp) rfl id Or.inl (by simp [StartPhase.granted]) (by simp)
        (by simp_all) (by simp) (by simp)
    · cases hadvance
      exact h.append (by simp [claims]) rfl id Or.inl (by simp [StartPhase.granted]) (by simp_all)
        (by simp_all) (by simp) (by simp)
  | publishing =>
    rw [hphase] at hsubmitted hpermits
    have hgranted : s.shared.granted = true := by
      rw [← Bool.toNat_eq_one]
      have := Bool.toNat_le s.shared.granted
      simp only [StartPhase.holds] at hpermits
      omega
    unfold StreamingShared.advance at hadvance
    rw [hphase] at hadvance
    dsimp only at hadvance
    split at hadvance
    all_goals
      cases hadvance
      exact h.append (by simp [claims]) rfl id Or.inl (by simp [hgranted, StartPhase.granted])
        (fun _ => hgranted) (by simp_all) (by simp) (by simp)
  | closingLate =>
    rw [hphase] at hsubmitted hpermits
    have hlate := ha.early
    have hclaimed := ha.claimed
    have hgranted := Bool.toNat_le s.shared.granted
    rw [hphase] at hlate
    simp only [StartPhase.holds, StartPhase.closesLate] at hpermits hlate
    have hterminal : s.shared.terminal = true := by
      rw [← Bool.toNat_eq_one]
      have := Bool.toNat_le s.shared.terminal
      omega
    unfold StreamingShared.advance at hadvance
    rw [hphase, closePermit_eq ha.released (by omega)] at hadvance
    cases hadvance
    exact h.append (by simp) rfl id Or.inl (by simp [StartPhase.granted]) (by simp_all)
      (by simp_all) (fun _ => Or.inr (Or.inl hterminal)) (by simp)
  | checking =>
    have hgranted := h.placed (Or.inl hphase)
    rw [hphase] at hsubmitted
    unfold StreamingShared.advance at hadvance
    rw [hphase] at hadvance
    dsimp only at hadvance
    split_ifs at hadvance
    all_goals
      cases hadvance
      exact h.append (by simp [claims]) rfl id Or.inl (by simp [StartPhase.granted])
        (fun _ => hgranted) (by simp_all) (by simp) (by simp)
  | submitting =>
    have hgranted := h.placed (Or.inr (Or.inl hphase))
    rw [hphase] at hsubmitted
    unfold StreamingShared.advance at hadvance
    rw [hphase] at hadvance
    dsimp only at hadvance
    split_ifs at hadvance
    all_goals
      cases hadvance
      exact h.append (by simp) rfl id Or.inl (by simp [StartPhase.granted])
        (fun _ => hgranted) (by simp_all) (by simp) (by simp)
  | executing =>
    have hgranted := h.placed (Or.inr (Or.inr (Or.inl hphase)))
    unfold StreamingShared.advance at hadvance
    rw [hphase] at hadvance
    cases submission
    all_goals
      cases hadvance
      exact h.append (by simp [claims]) rfl id Or.inl (by simp [StartPhase.granted])
        (fun _ => hgranted) (by simp) (fun _ => Or.inl rfl) (by simp)
  | refused =>
    have hplaced := h.placed
    unfold StreamingShared.advance at hadvance
    rw [hphase] at hadvance
    dsimp only at hadvance
    cases hadvance
    refine h.append ?_ rfl id Or.inl (by simp [StartPhase.granted]) (by simp_all) (by simp) ?_
      (by simp)
    · split_ifs <;> simp [claims]
    · intro _
      split_ifs with hterminal
      · exact Or.inr (Or.inl hterminal)
      · exact Or.inr (Or.inr (Nat.le_add_left _ _))
  | done | forgotten =>
    unfold StreamingShared.advance at hadvance
    rw [hphase] at hadvance
    cases hadvance

/-! ### Every step -/

/-- A step of another thread than the coroutine, which may begin to end the call. -/
theorem Progress.append_same (h : s.Progress) {enders : List Ender}
    (hnew : ∀ ender ∈ enders, ender.phase.claims = 1)
    (hterminal : shared'.terminal = s.shared.terminal)
    (hstart : shared'.start = s.shared.start) (hgranted : shared'.granted = s.shared.granted)
    (hexecuted : shared'.request.executed = s.shared.request.executed)
    (hclosed : s.shared.closed = true → shared'.closed = true)
    (hcancelled : shared'.startCancelled = true →
      s.shared.startCancelled = true ∨ shared'.closed = true) :
    Progress ⟨shared', s.parties ++ enders⟩ := by
  refine h.append hnew hterminal hclosed hcancelled ?_ ?_ ?_ ?_ ?_
  · rw [hstart, hgranted]
    exact h.asked
  · rw [hstart, hgranted, hexecuted]
    exact h.placed
  · rw [hstart, hexecuted]
    exact h.submitted
  · rw [hstart, hexecuted]
    intro hdone
    exact (h.answered hdone).imp_right (Or.imp_right fun hpos => by omega)
  · rw [hstart]
    exact Or.inr

theorem preserved_by_step (ha : s.Accounts) (hp : s.Progress) (step : StreamingStep)
    (hstep : s.step step = some s') : s'.Accounts ∧ s'.Progress := by
  cases step with
  | start granted submission =>
    obtain ⟨next, hadvance, rfl⟩ := Option.map_eq_some_iff.mp hstep
    exact ⟨accounts_start ha hp hadvance, progress_start ha hp hadvance⟩
  | terminate completed =>
    dsimp only [StreamingSystem.step] at hstep
    split_ifs at hstep
    all_goals
      cases hstep
      exact ⟨ha.append_same (by simp [claims]) rfl rfl rfl,
        hp.append_same (by simp [claims]) rfl rfl rfl rfl id Or.inl⟩
  | abandon cancelsFirst =>
    dsimp only [StreamingSystem.step, System.join] at hstep
    split_ifs at hstep
    all_goals
      cases hstep
      exact ⟨ha.append_same (by simp [claims]) rfl rfl rfl,
        hp.append_same (by simp [claims]) rfl rfl rfl rfl id Or.inl⟩
  | cancel =>
    dsimp only [StreamingSystem.step] at hstep
    split_ifs at hstep
    · cases hstep
      exact ⟨ha, hp⟩
    · cases hstep
      exact ⟨ha.append_same (by simp [claims]) rfl rfl rfl,
        hp.append_same (by simp [claims]) rfl rfl rfl rfl id Or.inl⟩
  | ender i => exact ⟨accounts_ender ha hstep, progress_ender ha hp hstep⟩
  | close =>
    dsimp only [StreamingSystem.step] at hstep
    split_ifs at hstep
    cases hstep
    rw [← List.append_nil s.parties]
    exact ⟨ha.append_same (by simp) rfl rfl rfl,
      hp.append_same (by simp) rfl rfl rfl rfl (fun _ => rfl) Or.inl⟩
  | cancelScope =>
    dsimp only [StreamingSystem.step] at hstep
    split_ifs at hstep with hclosed
    cases hstep
    rw [← List.append_nil s.parties]
    exact ⟨ha.append_same (by simp) rfl rfl rfl,
      hp.append_same (by simp) rfl rfl rfl rfl id (fun _ => Or.inr hclosed)⟩

/-! ### Every run -/

theorem preserved_by_run {steps : List StreamingStep}
    (hrun : Transition.run step initial steps = some s) : s.Accounts ∧ s.Progress :=
  Transition.run_invariant_of_step
    (fun _ label _ h hstep => preserved_by_step h.1 h.2 label hstep) hrun
    ⟨accounts_initial, progress_initial⟩

/-- No thread has anything more to do. -/
def Quiet (s : StreamingSystem) : Prop :=
  s.shared.start.ended = true ∧ ∀ ender ∈ s.parties, ender.phase = .done

instance : DecidablePred Quiet := fun s =>
  inferInstanceAs (Decidable (s.shared.start.ended = true ∧ ∀ ender ∈ s.parties,
    ender.phase = .done))

theorem count_done {enders : List Ender} (hdone : ∀ ender ∈ enders, ender.phase = .done)
    {phases : EndingPhase → ℕ} (hzero : phases .done = 0) : count phases enders = 0 := by
  induction enders with
  | nil => rfl
  | cons ender enders ih =>
    rw [count_cons, hdone ender List.mem_cons_self, hzero,
      ih fun x hx => hdone x (List.mem_cons_of_mem _ hx)]

/-- A call that is submitted and goes on keeps its permit in the slot. -/
theorem Accounts.held (ha : s.Accounts) (hp : s.Progress)
    (hexecuted : s.shared.request.executed = true) (hopen : s.shared.terminal = false) :
    s.shared.slot.value = some () ∧ s.shared.releases = 0 := by
  have hgranted := hp.placed (Or.inr (Or.inr (Or.inr hexecuted)))
  have hholds : s.shared.start.holds = 0 := by
    rcases hp.submitted hexecuted with hstart | hstart <;> rw [hstart] <;> rfl
  obtain ⟨hclaimed, -, hpermits, hearly, -, -⟩ := ha
  rw [hopen, Bool.toNat_false] at hclaimed
  rw [hgranted, hholds, Bool.toNat_true] at hpermits
  cases hvalue : s.shared.slot.value with
  | none =>
    rw [hvalue, Option.isSome_none, Bool.toNat_false] at hpermits
    omega
  | some _ => exact ⟨rfl, by omega⟩

/-- When nothing is left to do, an ended call has given its permit back. -/
theorem Accounts.settled (ha : s.Accounts) (hquiet : s.Quiet)
    (hterminal : s.shared.terminal = true) :
    s.shared.releases = s.shared.granted.toNat ∧ ∃ ending, s.shared.ended = [ending] := by
  obtain ⟨hstart, hdone⟩ := hquiet
  obtain ⟨hclaimed, hfinished, hpermits, -, hemptied, -⟩ := ha
  have hholds : s.shared.start.holds = 0 := by
    cases hphase : s.shared.start <;> rw [hphase] at hstart <;> cases hstart <;> rfl
  rw [count_done hdone rfl, hterminal, Bool.toNat_true] at hclaimed hfinished
  have hslot : s.shared.slot.terminal = true := by
    rw [← Bool.toNat_eq_one]
    omega
  rw [count_done hdone rfl, hholds, hemptied hslot, Option.isSome_none, Bool.toNat_false]
    at hpermits
  exact ⟨by omega, List.length_eq_one_iff.mp (by omega)⟩

/-- A call that has come to rest was submitted, has ended, or was stopped with its client. -/
theorem Progress.answered_of_quiet (hp : s.Progress) (hquiet : s.Quiet) :
    s.shared.request.executed = true ∨ s.shared.terminal = true ∨ s.shared.closed = true := by
  obtain ⟨hstart, hdone⟩ := hquiet
  cases hphase : s.shared.start with
  | done =>
    have hanswered := hp.answered hphase
    rw [count_done hdone rfl] at hanswered
    rcases hanswered with hexecuted | hterminal | hpos
    · exact Or.inl hexecuted
    · exact Or.inr (Or.inl hterminal)
    · cases hpos
  | forgotten => exact Or.inr (hp.stopped (Or.inr hphase))
  | _ =>
    rw [hphase] at hstart
    cases hstart

/-- The permit of a streaming call is held from its submission to its end, and the scheduler
gets it back once, however the threads that end the call are interleaved. -/
theorem run_permit {steps : List StreamingStep}
    (hrun : Transition.run step initial steps = some s) :
    s.shared.releases ≤ 1 ∧ s.shared.ended.length ≤ 1 ∧
      (s.shared.request.executed = true → s.shared.terminal = false →
        s.shared.slot.value = some () ∧ s.shared.releases = 0) ∧
      (s.Quiet →
        (s.shared.terminal = true → s.shared.releases = s.shared.granted.toNat ∧
          ∃ ending, s.shared.ended = [ending]) ∧
        (s.shared.request.executed = true ∨ s.shared.terminal = true ∨
          s.shared.closed = true)) := by
  obtain ⟨ha, hp⟩ := preserved_by_run hrun
  have hgranted := Bool.toNat_le s.shared.granted
  have hterminal := Bool.toNat_le s.shared.terminal
  have hpermits := ha.permits
  have hfinished := ha.finished
  exact ⟨by omega, by omega, ha.held hp, fun hquiet =>
    ⟨ha.settled hquiet, hp.answered_of_quiet hquiet⟩⟩

/-- The caller cancels while the permit is on its way. -/
theorem run_permit_late : ∃ s, Transition.run step initial
    [.start true .running, .start true .running, .cancel, .ender 0, .ender 0, .ender 0,
      .start true .running, .start true .running, .ender 0, .ender 0, .ender 0] = some s ∧
    s.shared.releases = 1 ∧ s.shared.ended = [.cancelByCaller] := by
  refine ⟨_, rfl, ?_⟩
  have h := (@run_permit _ ([.start true .running, .start true .running, .cancel, .ender 0,
    .ender 0, .ender 0, .start true .running, .start true .running, .ender 0, .ender 0,
    .ender 0] : List StreamingStep) rfl).2.2.2 (by decide)
  exact ⟨(h.1 rfl).1, rfl⟩

end StreamingSystem

end KatHttp3
