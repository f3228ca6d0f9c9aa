import KatHttp3.Engine.Events
import KatHttp3.Engine.Threads

/-!
# One terminal event

The terminal event of a request is owed by one call at a time: by `execute`
until it has handed the job on, then by the registry entry, then by the delivery,
`cancel` or `destroy` that has taken the entry. A thread that is about to call
the application's callback holds the callback lock, so that no other event can
come in between.
-/

namespace KatHttp3

open CallStacks WeightedList

namespace Frame

/-- The frame holds the lifecycle lock. -/
def holdsLifecycle : Frame → ℕ
  | execute _ _ phase =>
    match phase with
    | .checking | .queueing | .submitting | .failing _ | .calling true => 1
    | _ => 0
  | cancel _ phase =>
    match phase with
    | .locking | .checking | .releasing => 1
    | _ => 0
  | destroy phase =>
    match phase with
    | .closing | .collecting | .releasing _ => 1
    | _ => 0
  | _ => 0

/-- How often the frame has locked the callback lock. -/
def holdsCallback : Frame → ℕ
  | cancel _ phase =>
    match phase with
    | .checking | .releasing | .invoking | .calling => 1
    | _ => 0
  | destroy phase =>
    match phase with
    | .invoking .. | .calling _ => 1
    | _ => 0
  | deliver _ _ phase => if phase = .entering then 0 else 1
  | _ => 0

/-- The frame waits for the call it made to return. -/
def suspended : Frame → Bool
  | callback _ _ => true
  | frame => frame.runsUserCode

variable (x : ℤ)

/-- An `execute` of the request that has not yet handed on its job or failed. -/
def decides : Frame → ℕ
  | execute id _ phase =>
    match phase with
    | .entering | .checking | .queueing | .submitting => if id = x then 1 else 0
    | _ => 0
  | _ => 0

/-- An `execute` that has registered the request but not handed on its job. -/
def registers : Frame → ℕ
  | execute id _ phase =>
    match phase with
    | .queueing | .submitting => if id = x then 1 else 0
    | _ => 0
  | _ => 0

/-- `execute` is handing the job of the request to its connection. -/
def submits : Frame → Bool
  | execute id _ .submitting => id == x
  | _ => false

/-- An `execute` that has failed and not yet told the application. -/
def fails : Frame → ℕ
  | execute id _ phase =>
    match phase with
    | .failing _ | .throwing => if id = x then 1 else 0
    | _ => 0
  | _ => 0

/-- The terminal events of the request that the frame is going to deliver. -/
def owes : Frame → ℕ
  | execute id request phase => fails x (execute id request phase)
  | cancel id phase =>
    match phase with
    | .releasing | .invoking => if id = x then 1 else 0
    | _ => 0
  | destroy phase =>
    match phase with
    | .releasing pending => pending.count x
    | .telling pending => pending.count x
    | .invoking id rest => (id :: rest).count x
    | .calling rest => rest.count x
    | _ => 0
  | deliver id event phase => if id = x ∧ event.isTerminal ∧ phase = .invoking then 1 else 0
  | _ => 0

/-- The frame is going to deliver another event of the request. -/
def speaks : Frame → Bool
  | deliver id event phase => id == x && !event.isTerminal && phase == .invoking
  | _ => false

/-- The frame belongs to a job of the request. -/
def worksFor : Frame → Bool
  | callback id _ => id == x
  | deliver id _ _ => id == x
  | _ => false

end Frame

/-! ### The registry -/

namespace Registry

variable {registry : Registry} {id x : ℤ} {entry : ReqEntry}

theorem isSome_lookup_erase (h : ((registry.erase id).lookup x).isSome = true) :
    id ≠ x ∧ (registry.lookup x).isSome = true := by
  rw [lookup_erase] at h
  split_ifs at h with hx
  · cases h
  · exact ⟨Ne.symm hx, h⟩

theorem isSome_lookup_put (hid : id ≠ x) (h : ((registry.put id entry).lookup x).isSome = true) :
    (registry.lookup x).isSome = true := by
  rwa [lookup_put, if_neg (Ne.symm hid)] at h

/-- The request has an entry that has not had its terminal event. -/
def isOpen (registry : Registry) (x : ℤ) : Bool :=
  (registry.lookup x).any fun entry => !entry.terminal

theorem isOpen_erase (registry : Registry) (id x : ℤ) :
    (registry.erase id).isOpen x = (id != x && registry.isOpen x) := by
  unfold isOpen
  rw [lookup_erase]
  by_cases hid : id = x
  · simp [hid]
  · simp [hid, Ne.symm hid]

theorem isOpen_put (registry : Registry) (id x : ℤ) (entry : ReqEntry) :
    (registry.put id entry).isOpen x = if id = x then !entry.terminal else registry.isOpen x := by
  unfold isOpen
  rw [lookup_put]
  by_cases hid : id = x
  · simp [hid]
  · simp [hid, Ne.symm hid]

theorem isOpen_of_lookup (found : registry.lookup x = some entry) (live : entry.terminal = false) :
    registry.isOpen x = true := by
  simp [isOpen, found, live]

theorem isOpen_eq_false_of_lookup (h : (registry.lookup x).isSome = false) :
    registry.isOpen x = false := by
  have hnone : registry.lookup x = none := by simpa using h
  simp [isOpen, hnone]

def Distinct (registry : Registry) : Prop := (registry.map Prod.fst).Nodup

theorem Distinct.erase (h : registry.Distinct) (id : ℤ) : (registry.erase id).Distinct :=
  List.Nodup.sublist ((List.filter_sublist).map Prod.fst) h

theorem Distinct.put (h : registry.Distinct) (id : ℤ) (entry : ReqEntry) :
    (registry.put id entry).Distinct := by
  rw [Distinct, Registry.put, List.map_append, List.map_singleton]
  refine (h.erase id).append (List.nodup_singleton id) ?_
  rw [List.disjoint_singleton]
  intro hmem
  obtain ⟨other, hother, heq⟩ := List.mem_map.mp hmem
  have hne := (List.mem_filter.mp hother).2
  simp [heq] at hne

theorem mem_of_mem_openIds (h : x ∈ registry.openIds) : x ∈ registry.map Prod.fst := by
  obtain ⟨entry, hentry, rfl⟩ := List.mem_map.mp h
  exact List.mem_map_of_mem (List.mem_filter.mp hentry).1

/-- Only an open request is to be closed by `destroy`, and only once. -/
theorem count_openIds (h : registry.Distinct) :
    registry.openIds.count x ≤ (registry.isOpen x).toNat := by
  induction registry with
  | nil => exact Nat.zero_le _
  | cons head registry ih =>
    obtain ⟨id, entry⟩ := head
    obtain ⟨hnew, hrest⟩ := List.nodup_cons.mp h
    unfold openIds isOpen
    rw [List.lookup_cons, List.filter_cons]
    by_cases hid : x = id
    · subst hid
      have hzero : List.count x (openIds registry) = 0 :=
        List.count_eq_zero.mpr fun hmem => hnew (mem_of_mem_openIds hmem)
      have hself : (x == x) = true := beq_self_eq_true x
      rw [hself]
      cases hterminal : entry.terminal with
      | true =>
        rw [if_neg (by simp)]
        exact (Nat.le_of_eq hzero).trans (Nat.zero_le _)
      | false =>
        dsimp only [Option.any_some]
        rw [hterminal]
        split_ifs
        · rw [List.map_cons, List.count_cons_self]
          exact Nat.succ_le_succ (Nat.le_of_eq hzero)
        · exact (Nat.le_of_eq hzero).trans (Nat.zero_le _)
    · have hne : (x == id) = false := by simpa using hid
      rw [hne]
      split_ifs
      · rw [List.map_cons, List.count_cons_of_ne (Ne.symm hid)]
        exact ih hrest
      · exact ih hrest

end Registry

/-! ### The invariant -/

namespace EngineCore

variable (core : EngineCore) (x : ℤ)

/-- How many hold the lifecycle lock. -/
def locked : ℕ := core.lifecycle.isSome.toNat

theorem locked_le_one : core.locked ≤ 1 := Bool.toNat_le _

@[simp] theorem locked_unlockLifecycle : core.unlockLifecycle.locked = 0 := rfl

/-- The events of one request that the application was called with. -/
def told : List AppEvent := (core.log.filter fun entry => entry.1 == x).map Prod.snd

def ended : ℕ := (core.told x).countP AppEvent.isTerminal

def published : ℕ := if x ∈ core.jobs then 1 else 0

/-- The entry of a request whose job was handed on owes it a terminal event. -/
def live : ℕ := if x ∈ core.jobs then (core.registry.isOpen x).toNat else 0

theorem published_publish (id : ℤ) :
    (core.publish id).published x ≤ core.published x + if id = x then 1 else 0 := by
  unfold published publish
  by_cases hid : id = x
  · rw [if_pos hid]
    have hone : (if x ∈ id :: core.jobs then 1 else 0) ≤ 1 := ite_le_one le_rfl (Nat.zero_le 1)
    exact hone.trans (Nat.le_add_left 1 _)
  · simp [hid, Ne.symm hid]

@[simp] theorem published_unlockLifecycle :
    core.unlockLifecycle.published x = core.published x := rfl

@[simp] theorem published_unlockCallback :
    core.unlockCallback.published x = core.published x := rfl

@[simp] theorem published_register (id : ℤ) :
    (core.register id).published x = core.published x := rfl

@[simp] theorem published_erase (id : ℤ) : (core.erase id).published x = core.published x := rfl

@[simp] theorem published_tell (id : ℤ) (event : AppEvent) :
    (core.tell id event).published x = core.published x := rfl

theorem live_erase_le (id : ℤ) : (core.erase id).live x ≤ core.live x := by
  unfold live erase
  rw [Registry.isOpen_erase]
  split_ifs
  · exact Bool.toNat_le_toNat (Bool.and_le_right _ _)
  · exact le_rfl

variable {core x} in
theorem live_of_mem (h : x ∈ core.jobs) : core.live x = (core.registry.isOpen x).toNat := if_pos h

theorem live_le_one : core.live x ≤ 1 := ite_le_one (Bool.toNat_le _) (Nat.zero_le 1)

variable {core x} in
theorem live_register {id : ℤ} (h : x ∈ core.jobs → id ≠ x) :
    (core.register id).live x = core.live x := by
  unfold live register
  dsimp only
  split_ifs with hjob
  · rw [Registry.isOpen_put, if_neg (h hjob)]
  · rfl

variable {core x} in
theorem live_publish {id : ℤ} (h : id ≠ x) : (core.publish id).live x = core.live x := by
  simp [live, publish, Ne.symm h]

@[simp] theorem live_unlockLifecycle : core.unlockLifecycle.live x = core.live x := rfl

@[simp] theorem live_unlockCallback : core.unlockCallback.live x = core.live x := rfl

@[simp] theorem live_tell (id : ℤ) (event : AppEvent) : (core.tell id event).live x = core.live x :=
  rfl

@[simp] theorem ended_unlockLifecycle : core.unlockLifecycle.ended x = core.ended x := rfl

@[simp] theorem ended_unlockCallback : core.unlockCallback.ended x = core.ended x := rfl

@[simp] theorem ended_register (id : ℤ) : (core.register id).ended x = core.ended x := rfl

@[simp] theorem ended_erase (id : ℤ) : (core.erase id).ended x = core.ended x := rfl

@[simp] theorem ended_publish (id : ℤ) : (core.publish id).ended x = core.ended x := rfl

theorem told_tell (id : ℤ) (event : AppEvent) :
    (core.tell id event).told x = core.told x ++ if id = x then [event] else [] := by
  unfold told tell
  rw [List.filter_append, List.map_append]
  by_cases hid : id = x
  · simp [hid]
  · simp [hid]

theorem ended_tell (id : ℤ) (event : AppEvent) :
    (core.tell id event).ended x =
      core.ended x + if id = x ∧ event.isTerminal = true then 1 else 0 := by
  unfold ended
  rw [told_tell, List.countP_append]
  by_cases hid : id = x
  · simp [hid, List.countP_cons]
  · simp [hid]

end EngineCore

namespace EngineState

/-- The locks are held by the frames that took them, and only the innermost frame
of a thread is not suspended. -/
structure Locked (s : EngineState) : Prop where
  lifecycle : total Frame.holdsLifecycle s.threads.flatten = s.core.locked
  callback : ∀ (t : ℕ) stack, s.threads[t]? = some stack →
    total Frame.holdsCallback stack = s.core.callback.depth t
  suspended : ∀ (t : ℕ) frame rest, s.threads[t]? = some (frame :: rest) →
    ∀ other ∈ rest, Frame.suspended other = true

/-- After `n` calls of `execute` for the request. -/
structure Silent (x : ℤ) (n : ℕ) (s : EngineState) : Prop where
  distinct : s.core.registry.Distinct
  working : ∀ frame ∈ s.threads.flatten, frame.worksFor x = true → x ∈ s.core.jobs
  registered : x ∉ s.core.jobs → (s.core.registry.lookup x).isSome = true →
    0 < total (Frame.registers x) s.threads.flatten
  decided : s.core.published x + total (Frame.decides x) s.threads.flatten +
    total (Frame.fails x) s.threads.flatten ≤ n
  tickets : s.core.ended x + s.core.live x + total (Frame.decides x) s.threads.flatten +
    total (Frame.owes x) s.threads.flatten ≤ n
  quiet : ∀ frame ∈ s.threads.flatten, frame.speaks x = true → s.core.ended x = 0
  silence : (s.core.told x).Pairwise fun event _ => event.isTerminal = false

end EngineState

/-! ### The locks -/

namespace Frame.Advances

variable {t : ℕ} {core core' : EngineCore} {outcome : Outcome} {frame : Frame} {frames : List Frame}

theorem lifecycle (h : Advances t core outcome frame core' frames)
    (hheld : frame.holdsLifecycle ≤ core.locked) :
    total holdsLifecycle frames + core.locked = frame.holdsLifecycle + core'.locked := by
  have hone := core.locked_le_one
  cases h with
  | executeEntered free | cancelEntered free | destroyEntered free =>
    simp [holdsLifecycle, EngineCore.locked, free]
  | executeThrew | executeThrewLate | cancelIgnored | cancelReleased | destroyIgnored
  | destroyReleased =>
    simp only [holdsLifecycle] at hheld
    simp [holdsLifecycle]
    omega
  | executeRegistered next =>
    rcases next with rfl | rfl
    · rfl
    · rfl
  | executePublished before =>
    rcases before with rfl | rfl
    · simp only [holdsLifecycle] at hheld
      simp [holdsLifecycle]
      omega
    · simp only [holdsLifecycle] at hheld
      simp [holdsLifecycle]
      omega
  | @executeReturned _ _ _ locked =>
    cases locked with
    | true =>
      simp only [holdsLifecycle] at hheld
      simp [holdsLifecycle]
      omega
    | false => simp [holdsLifecycle]
  | deliverErased before => simp [holdsLifecycle, EngineCore.locked, EngineCore.unlockCallback,
      EngineCore.erase]
  | _ => simp [holdsLifecycle, EngineCore.locked, EngineCore.unlockCallback, EngineCore.erase,
      EngineCore.tell]

theorem callback (h : Advances t core outcome frame core' frames)
    (hheld : frame.holdsCallback ≤ core.callback.depth t) (u : ℕ) :
    (if u = t then total holdsCallback frames else 0) + core.callback.depth u =
      (if u = t then frame.holdsCallback else 0) + core'.callback.depth u := by
  have hrelease : 0 < core.callback.depth t → core.callback.depth u =
      core.unlockCallback.callback.depth u + if u = t then 1 else 0 :=
    fun hpos => RecursiveLock.depth_eq_release_add hpos u
  cases h with
  | cancelLocked acquired | destroyLocked acquired | deliverLocked acquired =>
    simp only [RecursiveLock.depth_acquire acquired]
    simp [holdsCallback]
    omega
  | cancelIgnored | cancelReturned | destroyUnlocked | deliverIgnored | deliverReturned =>
    have hback := hrelease hheld
    simp [holdsCallback, EngineCore.unlockLifecycle]
    omega
  | deliverErased before =>
    rcases before with rfl | rfl
    · have hback := hrelease hheld
      simp only [EngineCore.unlockCallback] at hback
      simp [holdsCallback, EngineCore.unlockCallback, EngineCore.erase]
      omega
    · have hback := hrelease hheld
      simp only [EngineCore.unlockCallback] at hback
      simp [holdsCallback, EngineCore.unlockCallback, EngineCore.erase]
      omega
  | executeRegistered | executePublished | executeReturned =>
    simp [holdsCallback, EngineCore.unlockLifecycle, EngineCore.register, EngineCore.publish,
      apply_ite]
  | _ => simp [holdsCallback, EngineCore.unlockLifecycle, EngineCore.erase, EngineCore.tell]

theorem suspended (h : Advances t core outcome frame core' frames) :
    ∀ other ∈ frames.tail, other.suspended = true := by
  cases h
  all_goals simp [Frame.suspended]

end Frame.Advances

/-! ### The request -/

namespace Frame.Advances

variable {t : ℕ} {core core' : EngineCore} {outcome : Outcome} {frame : Frame} {frames : List Frame}
  {x : ℤ}

theorem distinct (h : Advances t core outcome frame core' frames)
    (hdistinct : core.registry.Distinct) : core'.registry.Distinct := by
  cases h with
  | executeRegistered | deliverEnds => exact hdistinct.put _ _
  | executeRefused | cancelErased | deliverErased => exact hdistinct.erase _
  | destroyCollected => exact List.nodup_nil
  | @executeReturned _ _ _ locked =>
    cases locked with
    | true => exact hdistinct
    | false => exact hdistinct
  | _ => exact hdistinct

/-- A job once handed on stays so. -/
theorem jobs (h : Advances t core outcome frame core' frames) (hjob : x ∈ core.jobs) :
    x ∈ core'.jobs := by
  cases h with
  | executePublished => exact List.mem_cons_of_mem _ hjob
  | @executeReturned _ _ _ locked =>
    cases locked with
    | true => exact hjob
    | false => exact hjob
  | _ => exact hjob

theorem working (h : Advances t core outcome frame core' frames) :
    ∀ new ∈ frames, new.worksFor x = true → frame.worksFor x = true := by
  cases h
  all_goals simp [Frame.worksFor]

theorem decided (h : Advances t core outcome frame core' frames) :
    core'.published x + total (decides x) frames + total (fails x) frames ≤
      core.published x + frame.decides x + frame.fails x := by
  cases h with
  | @executePublished _ id _ _ before =>
    have hpublish := core.published_publish x id
    rcases before with rfl | rfl
    · simpa [decides, fails] using hpublish
    · simpa [decides, fails] using hpublish
  | executeRegistered next =>
    rcases next with rfl | rfl
    · exact le_rfl
    · exact le_rfl
  | @executeReturned _ _ _ locked =>
    cases locked with
    | true => simp [decides, fails]
    | false => simp [decides, fails]
  | executeThrew | executeFailed | executeRefused | executeThrewLate | executeTold
  | executeReported => simp [decides, fails]
  | _ => exact le_rfl

/-- A request without a job keeps its entry only while the `execute` that made it runs. -/
theorem registered (h : Advances t core outcome frame core' frames)
    (hworking : frame.worksFor x = true → x ∈ core.jobs)
    (hlate : outcome = .thrown → ∀ request, frame ≠ .execute x request .submitting)
    (hjob : x ∉ core'.jobs) (hentry : (core'.registry.lookup x).isSome = true) :
    0 < total (registers x) frames ∨
      (core.registry.lookup x).isSome = true ∧ frame.registers x = 0 := by
  cases h with
  | @executeRegistered _ id _ _ next =>
    by_cases hid : id = x
    · rcases next with rfl | rfl
      · exact Or.inl (by simp [registers, hid])
      · exact Or.inl (by simp [registers, hid])
    · exact Or.inr ⟨Registry.isSome_lookup_put hid hentry, rfl⟩
  | executeRefused =>
    obtain ⟨hid, hfound⟩ := Registry.isSome_lookup_erase hentry
    exact Or.inr ⟨hfound, if_neg hid⟩
  | @executePublished _ id _ _ before =>
    have hid : id ≠ x := fun hid => hjob (List.mem_cons.mpr (Or.inl hid.symm))
    rcases before with rfl | rfl
    · exact Or.inr ⟨hentry, if_neg hid⟩
    · exact Or.inr ⟨hentry, if_neg hid⟩
  | @executeThrewLate id request =>
    have hid : id ≠ x := fun hid => hlate rfl request (by rw [hid])
    exact Or.inr ⟨hentry, if_neg hid⟩
  | cancelErased | deliverErased =>
    exact Or.inr ⟨(Registry.isSome_lookup_erase hentry).2, rfl⟩
  | destroyCollected => cases hentry
  | @deliverEnds _ id event entry _ _ _ =>
    have hid : id ≠ x := fun hid => hjob (hworking (by simp [worksFor, hid]))
    exact Or.inr ⟨Registry.isSome_lookup_put hid hentry, rfl⟩
  | @executeReturned _ _ _ locked =>
    cases locked with
    | true => exact Or.inr ⟨hentry, rfl⟩
    | false => exact Or.inr ⟨hentry, rfl⟩
  | _ => exact Or.inr ⟨hentry, rfl⟩

/-- What a step tells the application of the request. -/
theorem told (h : Advances t core outcome frame core' frames) :
    core'.told x = core.told x ∨ ∃ event, core'.told x = core.told x ++ [event] ∧
      (event.isTerminal = true ∧ 0 < frame.owes x ∧
          (0 < frame.fails x ∨ 0 < frame.holdsCallback) ∨
        event.isTerminal = false ∧ frame.speaks x = true) := by
  have htell : ∀ id event, id = x →
      (core.tell id event).told x = core.told x ++ [event] := by
    intro id event hid
    rw [EngineCore.told_tell, if_pos hid]
  have hother : ∀ id event, id ≠ x → (core.tell id event).told x = core.told x := by
    intro id event hid
    rw [EngineCore.told_tell, if_neg hid, List.append_nil]
  cases h with
  | @executeTold _ id _ code =>
    by_cases hid : id = x
    · exact Or.inr ⟨_, htell id _ hid, Or.inl ⟨rfl, by simp [owes, fails, hid],
        Or.inl (by simp [fails, hid])⟩⟩
    · exact Or.inl (hother id _ hid)
  | @executeReported _ id _ =>
    by_cases hid : id = x
    · exact Or.inr ⟨_, htell id _ hid, Or.inl ⟨rfl, by simp [owes, fails, hid],
        Or.inl (by simp [fails, hid])⟩⟩
    · exact Or.inl (hother id _ hid)
  | @cancelTold _ id =>
    by_cases hid : id = x
    · exact Or.inr ⟨_, htell id _ hid, Or.inl ⟨rfl, by simp [owes, hid], Or.inr Nat.one_pos⟩⟩
    · exact Or.inl (hother id _ hid)
  | @destroyTold _ id rest =>
    by_cases hid : id = x
    · exact Or.inr ⟨_, htell id _ hid, Or.inl ⟨rfl, by simp [owes, hid], Or.inr Nat.one_pos⟩⟩
    · exact Or.inl (hother id _ hid)
  | @deliverTold _ id event =>
    by_cases hid : id = x
    · cases hterminal : event.isTerminal with
      | true =>
        exact Or.inr ⟨_, htell id _ hid, Or.inl ⟨hterminal, by simp [owes, hid, hterminal],
          Or.inr Nat.one_pos⟩⟩
      | false =>
        exact Or.inr ⟨_, htell id _ hid, Or.inr ⟨hterminal, by simp [speaks, hid, hterminal]⟩⟩
    · exact Or.inl (hother id _ hid)
  | @executeReturned _ _ _ locked =>
    cases locked with
    | true => exact Or.inl rfl
    | false => exact Or.inl rfl
  | _ => exact Or.inl rfl

/-- No step adds to the terminal events that were delivered or are owed. -/
theorem tickets (h : Advances t core outcome frame core' frames)
    (hdistinct : core.registry.Distinct)
    (hworking : frame.worksFor x = true → x ∈ core.jobs)
    (hdecided : x ∈ core.jobs → frame.decides x = 0)
    (hregistered : (core.registry.lookup x).isSome = true → 0 < frame.holdsLifecycle →
      frame.registers x = 0 → x ∈ core.jobs) :
    core'.ended x + core'.live x + total (decides x) frames + total (owes x) frames ≤
      core.ended x + core.live x + frame.decides x + frame.owes x := by
  have htold : ∀ id code, (core.tell id (.error code)).ended x =
      core.ended x + if id = x then 1 else 0 := by
    intro id code
    rw [EngineCore.ended_tell]
    simp [AppEvent.isTerminal]
  cases h with
  | executeThrew | executeFailed => simp [decides, owes, fails]
  | executeThrewLate => simp [decides, owes, fails]
  | @executeRegistered _ id _ _ next =>
    have hlive : (core.register id).live x = core.live x := by
      apply EngineCore.live_register
      intro hjob hid
      have hzero := hdecided hjob
      simp [decides, hid] at hzero
    rcases next with rfl | rfl
    · simp [decides, owes, fails, hlive]
    · simp [decides, owes, fails, hlive]
  | @executeRefused _ id _ =>
    have herase := core.live_erase_le x id
    simp [decides, owes, fails]
    omega
  | @executePublished _ id request phase before =>
    have hone : decides x (.execute id request phase) = if id = x then 1 else 0 := by
      rcases before with rfl | rfl
      · rfl
      · rfl
    have hlive : (core.publish id).live x ≤ core.live x + if id = x then 1 else 0 := by
      by_cases hid : id = x
      · rw [if_pos hid]
        exact (EngineCore.live_le_one _ x).trans (Nat.le_add_left 1 _)
      · rw [EngineCore.live_publish hid]
        exact Nat.le_add_right _ _
    simp [hone]
    omega
  | @executeTold _ id _ code =>
    have hone := htold id code
    simp [decides, owes, fails]
    omega
  | @executeReported _ id _ =>
    have hone := htold id .nomem
    simp [decides, owes, fails]
    omega
  | @executeReturned _ _ _ locked =>
    cases locked with
    | true => simp [decides, owes, fails]
    | false => simp [decides, owes, fails]
  | @cancelErased _ id entry found live =>
    by_cases hid : id = x
    · subst hid
      have hjob := hregistered (by rw [found]; rfl) Nat.one_pos rfl
      have hbefore : core.live id = 1 := by
        rw [EngineCore.live_of_mem hjob, Registry.isOpen_of_lookup found live]
        rfl
      have hafter : (core.erase id).live id = 0 := by
        rw [EngineCore.live_of_mem (by exact hjob)]
        simp [EngineCore.erase, Registry.isOpen_erase]
      simp [decides, owes, hbefore, hafter]
    · simpa [decides, owes, hid] using core.live_erase_le x id
  | @cancelTold _ id =>
    have hone := htold id .cancelled
    simp [decides, owes]
    omega
  | destroyCollected =>
    have hcount := Registry.count_openIds (x := x) hdistinct
    have hlive : core.registry.openIds.count x ≤ core.live x := by
      cases hfound : (core.registry.lookup x).isSome with
      | true =>
        rw [EngineCore.live_of_mem (hregistered hfound Nat.one_pos rfl)]
        exact hcount
      | false =>
        rw [Registry.isOpen_eq_false_of_lookup hfound] at hcount
        exact hcount.trans (Nat.zero_le _)
    have hafter : EngineCore.live { core with registry := [] } x = 0 := by
      simp [EngineCore.live, Registry.isOpen]
    have hended : EngineCore.ended { core with registry := [] } x = core.ended x := rfl
    simp [decides, owes, hafter, hended]
    exact hlive
  | @destroyTold _ id rest =>
    have hone := htold id .closed
    simp [decides, owes, List.count_cons]
    omega
  | @deliverErased _ id _ _ before =>
    have herase := core.live_erase_le x id
    rcases before with rfl | rfl
    · simpa [decides, owes] using herase
    · simpa [decides, owes] using herase
  | @deliverEnds _ id event entry found live terminal =>
    have hended : EngineCore.ended { core with
        registry := core.registry.put id { entry with terminal := true } } x = core.ended x := rfl
    by_cases hid : id = x
    · subst hid
      have hjob := hworking (by simp [worksFor])
      have hbefore : core.live id = 1 := by
        rw [EngineCore.live_of_mem hjob, Registry.isOpen_of_lookup found live]
        rfl
      have hafter : EngineCore.live { core with
          registry := core.registry.put id { entry with terminal := true } } id = 0 := by
        rw [EngineCore.live_of_mem (by exact hjob), Registry.isOpen_put, if_pos rfl]
        rfl
      simp [decides, owes, hbefore, hafter, hended, terminal]
    · have hafter : EngineCore.live { core with
          registry := core.registry.put id { entry with terminal := true } } x = core.live x := by
        simp [EngineCore.live, Registry.isOpen_put, hid]
      simp [decides, owes, hafter, hended, hid]
  | @deliverTold _ id event =>
    have hone := core.ended_tell x id event
    simp [decides, owes]
    omega
  | deliverSpeaks found live unended => simp [decides, owes, unended]
  | deliverLocked =>
    simp [decides, owes]
    exact Nat.le_refl _
  | callbackDelivers | deliverReturned | deliverEnded | deliverIgnored => simp [decides, owes]
  | _ => exact Nat.le_refl _

/-- Another event is only delivered to a request that is open. -/
theorem speaking (h : Advances t core outcome frame core' frames) {new : Frame}
    (hnew : new ∈ frames) (hspeaks : new.speaks x = true) :
    core' = core ∧ frame.worksFor x = true ∧ core.registry.isOpen x = true := by
  cases h with
  | @deliverSpeaks _ id event entry found live unended =>
    cases List.mem_singleton.mp hnew
    have hid : id = x := by simpa [speaks, unended] using hspeaks
    subst hid
    exact ⟨rfl, by simp [worksFor], Registry.isOpen_of_lookup found live⟩
  | deliverEnds found live terminal =>
    cases List.mem_singleton.mp hnew
    simp [speaks, terminal] at hspeaks
  | callbackDelivers =>
    rcases List.mem_cons.mp hnew with rfl | hrest
    · simp [speaks] at hspeaks
    · cases List.mem_singleton.mp hrest
      cases hspeaks
  | executePublished | executeReturned | cancelIgnored | cancelReturned | destroyIgnored
  | destroyReturned | callbackReturned | deliverIgnored | deliverErased | deliverReturned =>
    cases hnew
  | deliverLocked | deliverTold | deliverEnded =>
    cases List.mem_singleton.mp hnew
    simp [speaks] at hspeaks
  | _ =>
    cases List.mem_singleton.mp hnew
    cases hspeaks

end Frame.Advances

theorem Frame.suspended_of_runsUserCode {frame : Frame} (h : frame.runsUserCode = true) :
    frame.suspended = true := by
  cases frame with
  | callback id events => rfl
  | _ => exact h

theorem Frame.registers_le {x : ℤ} (frame : Frame) :
    frame.registers x ≤ frame.holdsLifecycle := by
  cases frame with
  | execute id request phase =>
    cases phase with
    | queueing | submitting => exact ite_le_one le_rfl (Nat.zero_le 1)
    | _ => exact Nat.zero_le _
  | _ => exact Nat.zero_le _

theorem Frame.speaks_holds {frame : Frame} {x : ℤ} (h : frame.speaks x = true) :
    0 < frame.holdsCallback ∧ frame.suspended = false ∧ frame.worksFor x = true := by
  cases frame with
  | deliver id event phase =>
    have hphase : phase = .invoking := by
      simp [Frame.speaks] at h
      exact h.2
    have hid : id = x := by
      simp [Frame.speaks] at h
      exact h.1.1
    subst hphase hid
    exact ⟨Nat.one_pos, rfl, by simp [Frame.worksFor]⟩
  | _ => cases h

/-! ### The steps of the engine -/

namespace EngineState

variable {x : ℤ} {n t : ℕ} {s : EngineState} {core : EngineCore} {outcome : Outcome}
  {frame new : Frame} {frames rest stack : List Frame}

theorem Locked.holds (h : s.Locked) (hstack : s.threads[t]? = some (frame :: rest)) :
    frame.holdsLifecycle ≤ s.core.locked ∧ frame.holdsCallback ≤ s.core.callback.depth t := by
  constructor
  · rw [← h.lifecycle]
    apply weight_le_total
    exact List.mem_flatten.mpr ⟨_, List.mem_of_getElem? hstack, List.mem_cons_self⟩
  · rw [← h.callback t _ hstack]
    exact weight_le_total List.mem_cons_self

theorem Locked.advance (h : s.Locked) (hstack : s.threads[t]? = some (frame :: rest))
    (hadvance : Frame.Advances t s.core outcome frame core frames) :
    Locked { core := core, threads := s.threads.set t (frames ++ rest) } where
  lifecycle := by
    obtain ⟨others, hbefore, hafter, -⟩ := exists_others hstack
    have hstep := hadvance.lifecycle (h.holds hstack).1
    have hsum := h.lifecycle
    rw [total_perm hbefore, total_cons] at hsum
    rw [total_perm (hafter frames), total_append]
    dsimp only
    omega
  callback u stack hu := by
    have hstep := hadvance.callback (h.holds hstack).2 u
    rcases getElem?_set_cases hu with ⟨rfl, rfl⟩ | ⟨hut, hold⟩
    · have hsum := h.callback u _ hstack
      rw [total_cons] at hsum
      rw [if_pos rfl, if_pos rfl] at hstep
      rw [total_append]
      dsimp only
      omega
    · rw [if_neg hut, if_neg hut] at hstep
      rw [h.callback u stack hold]
      dsimp only
      omega
  suspended u top below hu other hother := by
    rcases getElem?_set_cases hu with ⟨rfl, heq⟩ | ⟨-, hold⟩
    · cases frames with
      | nil =>
        have hmem : other ∈ rest := by
          rw [List.nil_append] at heq
          rw [← heq]
          exact List.mem_cons_of_mem top hother
        exact h.suspended u frame rest hstack other hmem
      | cons new frames =>
        obtain ⟨rfl, rfl⟩ := List.cons.inj heq
        rcases List.mem_append.mp hother with hnew | hrest
        · exact hadvance.suspended other hnew
        · exact h.suspended u frame rest hstack other hrest
    · exact h.suspended u top below hold other hother

theorem Locked.call (h : s.Locked) (hstack : s.threads[t]? = some stack)
    (hlifecycle : new.holdsLifecycle = 0) (hcallback : new.holdsCallback = 0)
    (hsuspended : stack.head?.all Frame.suspended = true) :
    Locked { s with threads := s.threads.set t (new :: stack) } where
  lifecycle := by
    rw [total_perm (flatten_call hstack new), total_cons, hlifecycle, Nat.zero_add]
    exact h.lifecycle
  callback u found hu := by
    rcases getElem?_set_cases hu with ⟨rfl, rfl⟩ | ⟨-, hold⟩
    · rw [total_cons, hcallback, Nat.zero_add]
      exact h.callback u stack hstack
    · exact h.callback u found hold
  suspended u top below hu other hother := by
    rcases getElem?_set_cases hu with ⟨rfl, heq⟩ | ⟨-, hold⟩
    · obtain ⟨rfl, rfl⟩ := List.cons.inj heq
      cases below with
      | nil => cases hother
      | cons caller below =>
        rcases List.mem_cons.mp hother with rfl | hbelow
        · simpa using hsuspended
        · exact h.suspended u caller below hstack other hbelow
    · exact h.suspended u top below hold other hother

/-- Whoever has not yet told of an open request without a job is still registering it,
under the lifecycle lock. -/
theorem Silent.job_of_registered (h : s.Silent x n) (hlocked : s.Locked)
    (hstack : s.threads[t]? = some (frame :: rest))
    (hfound : (s.core.registry.lookup x).isSome = true) (hheld : 0 < frame.holdsLifecycle)
    (hframe : frame.registers x = 0) : x ∈ s.core.jobs := by
  by_contra hjob
  obtain ⟨others, hbefore, -, -⟩ := exists_others hstack
  have hregisters := h.registered hjob hfound
  rw [total_perm hbefore, total_cons, hframe, Nat.zero_add] at hregisters
  have hle : total (Frame.registers x) others ≤ total Frame.holdsLifecycle others := by
    apply List.sum_le_sum
    intro other _
    exact Frame.registers_le other
  have hone := s.core.locked_le_one
  have hsum := hlocked.lifecycle
  rw [total_perm hbefore, total_cons] at hsum
  omega

theorem Silent.frame_decided (h : s.Silent x n) (hn : n ≤ 1)
    (hstack : s.threads[t]? = some (frame :: rest)) (hjob : x ∈ s.core.jobs) :
    frame.decides x = 0 ∧ frame.fails x = 0 := by
  have hmem : frame ∈ s.threads.flatten :=
    List.mem_flatten.mpr ⟨_, List.mem_of_getElem? hstack, List.mem_cons_self⟩
  have hdecides : frame.decides x ≤ total (Frame.decides x) s.threads.flatten :=
    weight_le_total hmem
  have hfails : frame.fails x ≤ total (Frame.fails x) s.threads.flatten := weight_le_total hmem
  have hpublished : s.core.published x = 1 := if_pos hjob
  have hsum := h.decided
  omega

/-- While another event of the request is about to be delivered no step ends it. -/
theorem Silent.not_ended (h : s.Silent x n) (hn : n ≤ 1) (hlocked : s.Locked)
    (hstack : s.threads[t]? = some (frame :: rest)) {other : Frame}
    (hother : other ∈ rest ∨
      ∃ (u : ℕ) (stack : List Frame), u ≠ t ∧ s.threads[u]? = some stack ∧ other ∈ stack)
    (hspeaks : other.speaks x = true) : ¬ (0 < frame.fails x ∨ 0 < frame.holdsCallback) := by
  obtain ⟨hholds, hactive, hworks⟩ := Frame.speaks_holds hspeaks
  have hmem : other ∈ s.threads.flatten := by
    rcases hother with hrest | ⟨u, found, -, hu, hin⟩
    · exact List.mem_flatten.mpr
        ⟨_, List.mem_of_getElem? hstack, List.mem_cons_of_mem frame hrest⟩
    · exact List.mem_flatten.mpr ⟨_, List.mem_of_getElem? hu, hin⟩
  rintro (hfails | hcallback)
  · have hzero := (h.frame_decided hn hstack (h.working other hmem hworks)).2
    omega
  · rcases hother with hrest | ⟨u, found, hut, hu, hin⟩
    · have hsuspended := hlocked.suspended t frame rest hstack other hrest
      rw [hactive] at hsuspended
      cases hsuspended
    · have ht := (hlocked.holds hstack).2
      have hdepth : 0 < s.core.callback.depth u := by
        rw [← hlocked.callback u found hu]
        exact hholds.trans_le (weight_le_total hin)
      exact hut (RecursiveLock.eq_of_depth_pos hdepth (hcallback.trans_le ht))

theorem Silent.advance (h : s.Silent x n) (hn : n ≤ 1) (hlocked : s.Locked)
    (hstack : s.threads[t]? = some (frame :: rest))
    (hadvance : Frame.Advances t s.core outcome frame core frames)
    (hlate : outcome = .thrown → ∀ request, frame ≠ .execute x request .submitting) :
    Silent x n { core := core, threads := s.threads.set t (frames ++ rest) } := by
  obtain ⟨others, hbefore, hafter, hothers⟩ := exists_others hstack
  have hmem : frame ∈ s.threads.flatten := hbefore.mem_iff.mpr List.mem_cons_self
  have hworking := h.working frame hmem
  have hregistered := h.job_of_registered hlocked hstack
  have hjobs := hadvance.jobs (x := x)
  have htickets := hadvance.tickets h.distinct hworking
    (fun hjob => (h.frame_decided hn hstack hjob).1) hregistered
  have hsum := h.tickets
  rw [total_perm hbefore, total_perm hbefore, total_cons, total_cons] at hsum
  have hdecided := h.decided
  rw [total_perm hbefore, total_perm hbefore, total_cons, total_cons] at hdecided
  constructor
  case distinct => exact hadvance.distinct h.distinct
  case working =>
    intro new hnew hworks
    rcases List.mem_append.mp ((hafter frames).mem_iff.mp hnew) with hframes | hold
    · exact hjobs (hworking (hadvance.working new hframes hworks))
    · exact hjobs (h.working new (hbefore.mem_iff.mpr (List.mem_cons_of_mem frame hold)) hworks)
  case registered =>
    intro hjob hfound
    rw [total_perm (hafter frames), total_append]
    rcases hadvance.registered hworking hlate hjob hfound with hnew | ⟨hold, hframe⟩
    · exact Nat.add_pos_left hnew _
    · have hregisters := h.registered (fun hin => hjob (hjobs hin)) hold
      rw [total_perm hbefore, total_cons, hframe, Nat.zero_add] at hregisters
      exact Nat.add_pos_right _ hregisters
  case decided =>
    have hstep := hadvance.decided (x := x)
    rw [total_perm (hafter frames), total_perm (hafter frames), total_append, total_append]
    dsimp only
    omega
  case tickets =>
    rw [total_perm (hafter frames), total_perm (hafter frames), total_append, total_append]
    dsimp only
    omega
  case quiet =>
    intro new hnew hspeaks
    rcases List.mem_append.mp ((hafter frames).mem_iff.mp hnew) with hframes | hold
    · obtain ⟨rfl, hworks, hopen⟩ := hadvance.speaking hframes hspeaks
      have hlive : s.core.live x = 1 := by
        rw [EngineCore.live_of_mem (hworking hworks), hopen]
        rfl
      dsimp only
      omega
    · have hzero := h.quiet new (hbefore.mem_iff.mpr (List.mem_cons_of_mem frame hold)) hspeaks
      have hnot := h.not_ended hn hlocked hstack (hothers new hold) hspeaks
      rcases hadvance.told (x := x) with hsame | ⟨event, htold, hends | ⟨hunended, -⟩⟩
      · unfold EngineCore.ended at hzero ⊢
        rwa [hsame]
      · exact absurd hends.2.2 hnot
      · unfold EngineCore.ended at hzero ⊢
        rw [htold, List.countP_append, hzero, List.countP_singleton, hunended]
        rfl
  case silence =>
    rcases hadvance.told (x := x) with hsame | ⟨event, htold, hevent⟩
    · rw [hsame]
      exact h.silence
    · have hzero : s.core.ended x = 0 := by
        rcases hevent with ⟨-, howes, -⟩ | ⟨-, hspeaks⟩
        · omega
        · exact h.quiet frame hmem hspeaks
      rw [htold, List.pairwise_append]
      refine ⟨h.silence, List.pairwise_singleton _ _, ?_⟩
      intro earlier hearlier _ _
      exact Bool.eq_false_iff.mpr (List.countP_eq_zero.mp hzero earlier hearlier)

/-- A call begins with nothing to say. -/
theorem Silent.call (h : s.Silent x n) (hstack : s.threads[t]? = some stack)
    (hworking : new.worksFor x = true → x ∈ s.core.jobs) (hfails : new.fails x = 0)
    (howes : new.owes x = 0) (hspeaks : new.speaks x = false) :
    Silent x (n + new.decides x) { s with threads := s.threads.set t (new :: stack) } := by
  have hperm := flatten_call hstack new
  have hdecided := h.decided
  have htickets := h.tickets
  constructor
  case distinct => exact h.distinct
  case working =>
    intro frame hframe hworks
    rcases List.mem_cons.mp (hperm.mem_iff.mp hframe) with rfl | hold
    · exact hworking hworks
    · exact h.working frame hold hworks
  case registered =>
    intro hjob hfound
    rw [total_perm hperm, total_cons]
    exact Nat.add_pos_right _ (h.registered hjob hfound)
  case decided =>
    rw [total_perm hperm, total_perm hperm, total_cons, total_cons]
    dsimp only
    omega
  case tickets =>
    rw [total_perm hperm, total_perm hperm, total_cons, total_cons]
    dsimp only
    omega
  case quiet =>
    intro frame hframe hframeSpeaks
    rcases List.mem_cons.mp (hperm.mem_iff.mp hframe) with rfl | hold
    · rw [hspeaks] at hframeSpeaks
      cases hframeSpeaks
    · exact h.quiet frame hold hframeSpeaks
  case silence => exact h.silence

/-- The step is a call of `execute` for the request. -/
def uses (x : ℤ) : ThreadStep → Bool
  | .call _ (.execute id _) => id == x
  | _ => false

/-- No exception leaves `submit_job` while `execute` hands on the job of the request. -/
def submitReturns (x : ℤ) (s : EngineState) : ThreadStep → Bool
  | .advance t .thrown => !(s.threads[t]?.bind List.head?).any (Frame.submits x)
  | _ => true

theorem start_locked (threads : ℕ) : (start threads).Locked where
  lifecycle := by simp [start, EngineCore.locked]
  callback t stack ht := by
    obtain rfl := List.eq_of_mem_replicate (List.mem_of_getElem? ht)
    rfl
  suspended t frame rest ht := by
    cases List.eq_of_mem_replicate (List.mem_of_getElem? ht)

theorem start_silent (x : ℤ) (threads : ℕ) : (start threads).Silent x 0 := by
  constructor <;> simp [start, EngineCore.published, EngineCore.ended, EngineCore.live,
    EngineCore.told, Registry.Distinct]

theorem step_locked_silent {net : InetPton} {s s' : EngineState} {label : ThreadStep}
    (hstep : step net s label = some s') (hsubmit : submitReturns x s label = true)
    (hn : n + (uses x label).toNat ≤ 1) (hlocked : s.Locked) (hsilent : s.Silent x n) :
    s'.Locked ∧ s'.Silent x (n + (uses x label).toNat) := by
  cases label with
  | call t call =>
    unfold step at hstep
    dsimp only at hstep
    split at hstep
    · cases hstep
    · rename_i stack hstack
      split_ifs at hstep with huser
      cases hstep
      have hdecides : call.frame.decides x = (uses x (.call t call)).toNat := by
        cases call with
        | execute id request =>
          by_cases hid : id = x
          · simp [ApiCall.frame, Frame.decides, uses, hid]
          · have hne : (id == x) = false := by simpa using hid
            simp [ApiCall.frame, Frame.decides, uses, hid, hne]
        | cancel id => rfl
        | destroy => rfl
      constructor
      · apply hlocked.call hstack
        · cases call
          all_goals rfl
        · cases call
          all_goals rfl
        · cases stack with
          | nil => rfl
          | cons caller stack => exact Frame.suspended_of_runsUserCode huser
      · rw [← hdecides]
        apply hsilent.call hstack
        · intro hworks
          cases call
          all_goals cases hworks
        all_goals
          cases call
          all_goals rfl
  | callback t id reply =>
    unfold step at hstep
    dsimp only at hstep
    split_ifs at hstep with hstart
    cases hstep
    obtain ⟨hstack, hjob⟩ := hstart
    constructor
    · exact hlocked.call hstack rfl rfl rfl
    · have hworking : (Frame.callback id reply.events).worksFor x = true → x ∈ s.core.jobs := by
        intro hworks
        rwa [← beq_iff_eq.mp hworks]
      exact hsilent.call hstack hworking rfl rfl rfl
  | advance t outcome =>
    unfold step at hstep
    dsimp only at hstep
    split at hstep
    · rename_i frame rest hstack
      obtain ⟨⟨core, frames⟩, hadvance, rfl⟩ := Option.map_eq_some_iff.mp hstep
      have hcases := Frame.advance_cases hadvance
      refine ⟨hlocked.advance hstack hcases, hsilent.advance hn hlocked hstack hcases ?_⟩
      rintro rfl request rfl
      simp [submitReturns, hstack, Frame.submits] at hsubmit
    · cases hstep

/-- The invariant of the runs that use the request id once. -/
def UsedOnce (x : ℤ) (steps : List ThreadStep) (s : EngineState) : Prop :=
  steps.countP (uses x) ≤ 1 → s.Locked ∧ s.Silent x (steps.countP (uses x))

theorem UsedOnce.step {net : InetPton} {steps : List ThreadStep} {s s' : EngineState}
    {label : ThreadStep} (h : UsedOnce x steps s) (hsubmit : submitReturns x s label = true)
    (hstep : EngineState.step net s label = some s') : UsedOnce x (steps ++ [label]) s' := by
  intro hcount
  have hsum : (steps ++ [label]).countP (uses x) =
      steps.countP (uses x) + (uses x label).toNat := by
    rw [List.countP_append, List.countP_singleton]
    cases uses x label
    all_goals rfl
  rw [hsum] at hcount ⊢
  obtain ⟨hlocked, hsilent⟩ := h ((Nat.le_add_right _ _).trans hcount)
  exact step_locked_silent hstep hsubmit hcount hlocked hsilent

/-- A request id is used once. If no exception leaves `submit_job` for it, the application
is told at most one terminal event, and nothing after it. -/
theorem run_silence (net : InetPton) (x : ℤ) (threads : ℕ) (steps : List ThreadStep)
    (s : EngineState) (hrun : Transition.run (step net) (start threads) steps = some s)
    (honce : steps.countP (uses x) ≤ 1)
    (hsubmit : Transition.Meets (step net) (fun s label => submitReturns x s label = true)
      (start threads) steps) :
    (s.core.told x).countP AppEvent.isTerminal ≤ 1 ∧
      (s.core.told x).Pairwise fun event _ => event.isTerminal = false := by
  have hinv : UsedOnce x steps s := by
    apply Transition.run_invariant_history _ hrun hsubmit
    · intro _
      exact ⟨start_locked threads, start_silent x threads⟩
    · intro steps s label s' _ hinv hok hstep
      exact hinv.step hok hstep
  obtain ⟨-, hsilent⟩ := hinv honce
  have htickets := hsilent.tickets
  unfold EngineCore.ended at htickets
  exact ⟨by omega, hsilent.silence⟩

/-! ### Two runs -/

/-- A worker completes the request, and the application cancels it too late. -/
def completedSteps : List ThreadStep :=
  .call 0 (.execute 7 plainGet) :: List.replicate 3 (.advance 0 .done) ++
    .callback 1 7 .complete :: List.replicate 7 (.advance 1 .done) ++
    .call 0 (.cancel 7) :: List.replicate 3 (.advance 0 .done)

theorem run_silence_completed :
    ∃ s, Transition.run (step noLiterals) (start 2) completedSteps = some s ∧
      s.core.told 7 = [.complete] ∧ (s.core.told 7).countP AppEvent.isTerminal ≤ 1 ∧
      (s.core.told 7).Pairwise fun event _ => event.isTerminal = false := by
  obtain ⟨s, hrun, htold⟩ := Option.map_eq_some_iff.mp
    (show (Transition.run (step noLiterals) (start 2) completedSteps).map
        (fun s => s.core.told 7) = some [.complete] by decide +kernel)
  exact ⟨s, hrun, htold, run_silence noLiterals 7 2 completedSteps s hrun (by decide)
    (by decide +kernel)⟩

/-- The worker thread of a new connection cannot be started, which `execute` reports, and
the application cancels the request, which is still registered. -/
def failedSteps : List ThreadStep :=
  .call 0 (.execute 7 plainGet) :: List.replicate 2 (.advance 0 .done) ++
    .advance 0 .thrown :: List.replicate 2 (.advance 0 .done) ++
    .call 0 (.cancel 7) :: List.replicate 5 (.advance 0 .done)

theorem run_told_twice :
    ∃ s, Transition.run (step noLiterals) (start 1) failedSteps = some s ∧
      failedSteps.countP (uses 7) = 1 ∧
      s.core.told 7 = [.error .nomem, .error .cancelled] ∧
      ¬ ((s.core.told 7).countP AppEvent.isTerminal ≤ 1 ∧
        (s.core.told 7).Pairwise fun event _ => event.isTerminal = false) := by
  obtain ⟨s, hrun, htold⟩ := Option.map_eq_some_iff.mp
    (show (Transition.run (step noLiterals) (start 1) failedSteps).map
        (fun s => s.core.told 7) = some [.error .nomem, .error .cancelled] by decide +kernel)
  refine ⟨s, hrun, by decide, htold, ?_⟩
  rintro ⟨hcount, -⟩
  rw [htold] at hcount
  exact absurd hcount (by decide)

end EngineState

end KatHttp3
