import KatHttp3.Engine.Locks
import KatHttp3.Library.CallStacks
import KatHttp3.Library.Transition
import Mathlib.Logic.Relation

/-!
# The order of the locks

A callback's call takes `lifecycle_mutex_` under `callback_mutex_`, and `cancel` the
other way round; a destructor joins a worker that may be in a callback or in a
lookup. There is no cycle of waits as long as no thread is at a join, or at
`callback_mutex_` with `lifecycle_mutex_`, while a callback's call waits, and as
long as no lookup joins a worker that is in a lookup. Then every wait goes down in
an order of the locks and joins, which has two forms: with such a call and without.
-/

namespace KatHttp3

open Transition

/-! ### When the locks are in order -/

namespace LockThread

variable (thread : LockThread)

/-- A call that the application makes from its callback has come to `lifecycle_mutex_`. -/
def reenters : Bool :=
  thread.held.contains .callback && thread.awaits == some (.mutex .lifecycle)

/-- The thread is at a join, or at `callback_mutex_` with `lifecycle_mutex_`. -/
def blocks : Bool :=
  match thread.awaits with
  | some (.mutex mutex) => mutex == .callback && thread.held.contains .lifecycle
  | some _ => true
  | none => false

/-- The thread comes there with its next operation. -/
def comesToBlock (pool discarded : List ℕ) : Bool :=
  thread.ops.head? == some .discard && discarded != [] ||
    thread.ops.head? == some .clear && pool != [] || thread.ops[1]? == some .joinDispatcher ||
    thread.ops[1]? == some (.lock .callback) &&
      (thread.ops.head? == some (.lock .lifecycle) || thread.held.contains .lifecycle)

/-- The thread is in `get_or_create_client`, or will be. -/
def looksUp : Bool := thread.ops.contains (.lock .pool) || thread.held.contains .pool

end LockThread

namespace LockState

variable (s : LockState)

/-- Another thread has `lifecycle_mutex_`. -/
def taken (t : ℕ) : Bool := (s.others t).any fun other => other.held.contains .lifecycle

/-- A callback's call waits for `lifecycle_mutex_`. -/
def reentered : Bool :=
  (List.range s.threads.length).any fun t => s.taken t && s.threads[t]?.any LockThread.reenters

def blocked : Bool := s.threads.any LockThread.blocks

/-- What keeps the waits in order. A callback makes no call on a thread that has
`lifecycle_mutex_` itself. Its call waits for this lock, with `callback_mutex_`, only while
nobody blocks, and nobody comes to block while one waits. A lookup destroys no client whose
worker is in one, and such a worker begins none. -/
def Orderly : LockStep → Prop
  | .call t _ =>
    ∀ thread ∈ s.threads[t]?, thread.ops ≠ [] →
      .lifecycle ∉ thread.held ∧ (.callback ∈ thread.held → s.taken t → s.blocked = false)
  | .task t task =>
    ∀ thread ∈ s.threads[t]?, .lock .pool ∈ task.ops →
      ∀ other ∈ s.threads, .pool ∈ other.held →
        ∀ client ∈ other.joining, thread.role ≠ .worker client
  | .advance t discarded =>
    ∀ thread ∈ s.threads[t]?,
      (s.reentered ∨ thread.next = some (.lock .lifecycle) ∧ (s.others t).any LockThread.reenters →
        s.blocked = false ∧ thread.comesToBlock s.pool discarded = false) ∧
      (thread.next = some .discard → ∀ client ∈ discarded, ∀ other ∈ s.threads,
        other.role = .worker client → other.looksUp = false)
  | _ => True

end LockState

/-! ### Threads that stick to the order -/

namespace LockThread

structure Sound (thread : LockThread) : Prop where
  ordered : OrderedOps thread.role thread.held thread.ops
  joins : thread.joining ≠ [] → (.pool ∈ thread.held ∨ thread.role = .application) ∧
    .callback ∉ thread.held ∧ .registry ∉ thread.held ∧
      thread.ops.head? ≠ some (.lock .lifecycle)

variable {thread : LockThread} {pool discarded : List ℕ}

theorem awaits_mutex {mutex : EngineMutex} (h : thread.awaits = some (.mutex mutex)) :
    thread.joining = [] ∧ thread.ops.head? = some (.lock mutex) := by
  unfold awaits at h
  split at h
  · cases h
  · rename_i hjoining
    split at h
    · rename_i hops
      cases h
      exact ⟨hjoining, by rw [hops]; rfl⟩
    · cases h
    · cases h

theorem awaits_worker {client : ℕ} (h : thread.awaits = some (.worker client)) :
    client ∈ thread.joining := by
  unfold awaits at h
  split at h
  · rename_i hjoining
    cases h
    rw [hjoining]
    exact List.mem_cons_self
  · split at h <;> cases h

theorem awaits_dispatcher (h : thread.awaits = some .dispatcher) :
    thread.ops.head? = some .joinDispatcher := by
  unfold awaits at h
  split at h
  · cases h
  · split at h
    · cases h
    · rename_i hops
      rw [hops]
      rfl
    · cases h

namespace Sound

theorem allowed (h : thread.Sound) {op : LockOp} (hop : thread.ops.head? = some op) :
    op.Allowed thread.role thread.held := by
  obtain ⟨rest, hops⟩ := List.head?_eq_some_iff.mp hop
  have hordered := h.ordered
  rw [hops] at hordered
  exact hordered.1

theorem allowed_lock (h : thread.Sound) {mutex : EngineMutex}
    (hawaits : thread.awaits = some (.mutex mutex)) :
    (LockOp.lock mutex).Allowed thread.role thread.held :=
  h.allowed (awaits_mutex hawaits).2

theorem joins_worker (h : thread.Sound) {client : ℕ}
    (hawaits : thread.awaits = some (.worker client)) :
    (.pool ∈ thread.held ∨ thread.role = .application) ∧
      .callback ∉ thread.held ∧ .registry ∉ thread.held := by
  obtain ⟨hpool, hcallback, hregistry, -⟩ :=
    h.joins (List.ne_nil_of_mem (awaits_worker hawaits))
  exact ⟨hpool, hcallback, hregistry⟩

theorem proceed (h : thread.Sound) : (thread.proceed pool discarded).Sound := by
  unfold LockThread.proceed
  split
  · rename_i hjoining
    obtain ⟨hpool, hcallback, hregistry, hhead⟩ := h.joins (by simp [hjoining])
    exact ⟨h.ordered, fun _ => ⟨hpool, hcallback, hregistry, hhead⟩⟩
  · split
    · exact h
    · rename_i op rest hops
      have hordered := h.ordered
      rw [hops] at hordered
      obtain ⟨hallowed, hhead, hrest⟩ := hordered
      refine ⟨hrest, fun hdestroys => ?_⟩
      cases op with
      | discard =>
        obtain ⟨hpool, hcallback, hregistry⟩ := hallowed
        exact ⟨.inl hpool, hcallback, hregistry, hhead⟩
      | clear =>
        obtain ⟨hrole, -, hcallback, hregistry⟩ := hallowed
        exact ⟨.inr hrole, fun hmem => hcallback (List.mem_of_mem_erase hmem),
          fun hmem => hregistry (List.mem_of_mem_erase hmem), hhead⟩
      | lock | unlock | callback | create | joinDispatcher => exact absurd rfl hdestroys

/-- No call that is under way comes back to `lifecycle_mutex_`. -/
theorem reenters_proceed (h : thread.Sound) (hbusy : thread.joining ≠ [] ∨ thread.ops ≠ []) :
    (thread.proceed pool discarded).reenters = false := by
  rw [← Bool.not_eq_true]
  intro hreenters
  simp only [reenters, Bool.and_eq_true, beq_iff_eq] at hreenters
  obtain ⟨-, hhead⟩ := awaits_mutex hreenters.2
  unfold LockThread.proceed at hhead
  split at hhead
  · rename_i hjoining
    exact (h.joins (by simp [hjoining])).2.2.2 hhead
  · rename_i hjoining
    split at hhead
    · rename_i hops
      exact hbusy.elim (fun hne => hne hjoining) fun hne => hne hops
    · rename_i hops
      have hordered := h.ordered
      rw [hops] at hordered
      exact hordered.2.1 hhead

/-- A thread that does nothing holds nothing. -/
theorem of_idle (h : thread.Sound) (hidle : thread.idle = true) :
    thread.joining = [] ∧ thread.ops = [] ∧ thread.held = [] := by
  simp only [idle, Bool.and_eq_true, beq_iff_eq] at hidle
  obtain ⟨⟨hjoining, hops⟩, -⟩ := hidle
  have hordered := h.ordered
  rw [hops] at hordered
  exact ⟨hjoining, hops, hordered⟩

end Sound

theorem next_eq_some {op : LockOp} (h : thread.next = some op) :
    thread.joining = [] ∧ ∃ rest, thread.ops = op :: rest := by
  unfold next at h
  split_ifs at h with hjoining
  exact ⟨hjoining, List.head?_eq_some_iff.mp h⟩

theorem role_proceed : (thread.proceed pool discarded).role = thread.role := by
  unfold proceed
  split
  · rfl
  · split <;> rfl

theorem mem_after {held : List EngineMutex} {op : LockOp} {mutex : EngineMutex}
    (h : mutex ∈ op.after held) : mutex ∈ held ∨ op = .lock mutex := by
  cases op with
  | lock other =>
    rcases List.mem_cons.mp h with rfl | hold
    · exact .inr rfl
    · exact .inl hold
  | unlock | clear => exact .inl (List.mem_of_mem_erase h)
  | callback | discard | create | joinDispatcher => exact .inl h

theorem mem_held_proceed {mutex : EngineMutex} (h : mutex ∈ (thread.proceed pool discarded).held) :
    mutex ∈ thread.held ∨ thread.next = some (.lock mutex) := by
  unfold proceed at h
  split at h
  · exact .inl h
  · rename_i hjoining
    split at h
    · exact .inl h
    · rename_i hops
      refine (mem_after h).imp_right fun hop => ?_
      rw [next, if_pos hjoining, hops, hop]
      rfl

theorem looksUp_proceed (h : (thread.proceed pool discarded).looksUp = true) :
    thread.looksUp = true := by
  simp only [looksUp, Bool.or_eq_true, List.contains_iff_mem] at h ⊢
  rcases h with hops | hheld
  · left
    unfold proceed at hops
    split at hops
    · exact hops
    · split at hops
      · exact hops
      · rename_i heq
        rw [heq]
        exact List.mem_cons_of_mem _ hops
  · rcases mem_held_proceed hheld with hold | hnext
    · exact .inr hold
    · left
      unfold next at hnext
      split at hnext
      · exact List.mem_of_head? hnext
      · cases hnext

/-- Who is to destroy a client with `pool_mutex_` held it before, and chose the client now
or has come to it. -/
theorem joining_proceed (h : thread.Sound) {client : ℕ}
    (hclient : client ∈ (thread.proceed pool discarded).joining)
    (hpool : .pool ∈ (thread.proceed pool discarded).held) :
    .pool ∈ thread.held ∧
      (client ∈ thread.joining ∨ thread.next = some .discard ∧ client ∈ discarded) := by
  unfold proceed at hclient hpool
  split at hclient
  · rename_i hjoining
    rw [hjoining]
    simp only [hjoining] at hpool
    exact ⟨hpool, .inl (List.mem_cons_of_mem _ hclient)⟩
  · rename_i hjoining
    simp only [hjoining] at hpool
    split at hclient
    · rw [hjoining] at hclient
      cases hclient
    · rename_i op rest hops
      simp only [hops] at hpool
      have hordered := h.ordered
      rw [hops] at hordered
      cases op with
      | discard => exact ⟨hpool, .inr ⟨by rw [next, if_pos hjoining, hops]; rfl, hclient⟩⟩
      | clear => exact absurd hpool hordered.1.2.1
      | lock | unlock | callback | create | joinDispatcher => cases hclient

theorem blocks_proceed (h : (thread.proceed pool discarded).blocks = true) :
    thread.blocks = true ∨ thread.comesToBlock pool discarded = true := by
  cases hjoining : thread.joining with
  | cons client rest =>
    left
    simp [blocks, awaits, hjoining]
  | nil =>
    cases hops : thread.ops with
    | nil =>
      left
      rwa [proceed, hjoining, hops] at h
    | cons op rest =>
      right
      rw [proceed, hjoining, hops] at h
      unfold comesToBlock
      rw [hops]
      cases hdestroys : op.destroys pool discarded with
      | cons client others => cases op <;> simp_all [LockOp.destroys]
      | nil =>
        simp only [blocks, awaits, hdestroys] at h
        cases rest with
        | nil => cases h
        | cons next later =>
          cases next with
          | lock mutex =>
            simp only [Bool.and_eq_true, beq_iff_eq, List.contains_iff_mem] at h
            obtain ⟨rfl, hlifecycle⟩ := h
            rcases mem_after hlifecycle with hold | rfl
            · simp [hold]
            · simp
          | joinDispatcher => simp
          | unlock | callback | discard | create | clear => cases h

end LockThread

/-! ### The invariant -/

namespace LockState

theorem mem_others {s : LockState} {t : ℕ} {other : LockThread} :
    other ∈ s.others t ↔ ∃ u, u ≠ t ∧ s.threads[u]? = some other :=
  List.mem_eraseIdx_iff_getElem?

theorem taken_iff {s : LockState} {t : ℕ} :
    s.taken t = true ↔ ∃ u other, u ≠ t ∧ s.threads[u]? = some other ∧ .lifecycle ∈ other.held := by
  simp only [taken, List.any_eq_true, List.contains_iff_mem, mem_others]
  constructor
  · rintro ⟨other, ⟨u, hut, hother⟩, hheld⟩
    exact ⟨u, other, hut, hother, hheld⟩
  · rintro ⟨u, other, hut, hother, hheld⟩
    exact ⟨other, ⟨u, hut, hother⟩, hheld⟩

theorem reentered_iff {s : LockState} :
    s.reentered = true ↔
      ∃ t thread, s.threads[t]? = some thread ∧ thread.reenters = true ∧ s.taken t = true := by
  simp only [reentered, List.any_eq_true, Bool.and_eq_true, List.mem_range, Option.any_eq_true]
  constructor
  · rintro ⟨t, -, htaken, thread, hthread, hreenters⟩
    exact ⟨t, thread, hthread, hreenters, htaken⟩
  · rintro ⟨t, thread, hthread, hreenters, htaken⟩
    exact ⟨t, (List.getElem?_eq_some_iff.mp hthread).1, htaken, thread, hthread, hreenters⟩

theorem blocked_eq_false {s : LockState} :
    s.blocked = false ↔ ∀ thread ∈ s.threads, thread.blocks = false := by
  simp [blocked]

/-- The threads stick to the order of the locks, nobody blocks while a callback's call
waits for `lifecycle_mutex_`, and no worker that a lookup joins is in a lookup. -/
structure Intact (s : LockState) : Prop where
  sound : ∀ thread ∈ s.threads, thread.Sound
  calm : s.reentered = true → s.blocked = false
  apart : ∀ thread ∈ s.threads, .pool ∈ thread.held → ∀ client ∈ thread.joining,
    ∀ other ∈ s.threads, other.role = .worker client → other.looksUp = false

variable {s s' : LockState} {t : ℕ} {thread thread' : LockThread}

/-- Where a wait for `lifecycle_mutex_` in a callback comes from, when one thread changes. -/
theorem reentered_set (hthreads : s'.threads = s.threads.set t thread')
    (h : s'.reentered = true) :
    thread'.reenters = true ∧ s.taken t = true ∨
      .lifecycle ∈ thread'.held ∧ (s.others t).any LockThread.reenters = true ∨
      s.reentered = true := by
  obtain ⟨x, waiting, hwaiting, hreenters, htaken⟩ := reentered_iff.mp h
  obtain ⟨u, owner, hux, howner, hheld⟩ := taken_iff.mp htaken
  rw [hthreads] at hwaiting howner
  rcases CallStacks.getElem?_set_cases hwaiting with ⟨rfl, rfl⟩ | ⟨hxt, hold⟩
  · left
    rw [List.getElem?_set_ne (Ne.symm hux)] at howner
    exact ⟨hreenters, taken_iff.mpr ⟨u, owner, hux, howner, hheld⟩⟩
  · right
    rcases CallStacks.getElem?_set_cases howner with ⟨rfl, rfl⟩ | ⟨-, hownerold⟩
    · left
      exact ⟨hheld, List.any_eq_true.mpr ⟨waiting, mem_others.mpr ⟨x, hxt, hold⟩, hreenters⟩⟩
    · right
      exact reentered_iff.mpr
        ⟨x, waiting, hold, hreenters, taken_iff.mpr ⟨u, owner, hux, hownerold, hheld⟩⟩

/-- One thread changes, and the pool. -/
theorem Intact.set (h : s.Intact) (hthread : s.threads[t]? = some thread)
    (hthreads : s'.threads = s.threads.set t thread') (hsound : thread'.Sound)
    (hrole : thread'.role = thread.role)
    (hcalm : s'.reentered = true → s.blocked = false ∧ thread'.blocks = false)
    (hjoining : ∀ client ∈ thread'.joining, .pool ∈ thread'.held →
      thread.looksUp = true ∧
        ∀ other ∈ s.threads, other.role = .worker client → other.looksUp = false)
    (hlooksUp : thread'.looksUp = true → thread.looksUp = true ∨
      ∀ other ∈ s.threads, .pool ∈ other.held →
        ∀ client ∈ other.joining, thread.role ≠ .worker client) : s'.Intact := by
  have hmem : thread ∈ s.threads := List.mem_of_getElem? hthread
  constructor
  · intro x hx
    rw [hthreads] at hx
    rcases List.mem_or_eq_of_mem_set hx with hold | rfl
    · exact h.sound x hold
    · exact hsound
  · intro hreentered
    obtain ⟨hblocked, hblocks⟩ := hcalm hreentered
    rw [blocked_eq_false] at hblocked ⊢
    intro x hx
    rw [hthreads] at hx
    rcases List.mem_or_eq_of_mem_set hx with hold | rfl
    · exact hblocked x hold
    · exact hblocks
  · intro x hx hpool client hclient y hy hworker
    rw [hthreads] at hx hy
    rcases List.mem_or_eq_of_mem_set hx with holdx | rfl
    · rcases List.mem_or_eq_of_mem_set hy with holdy | rfl
      · exact h.apart x holdx hpool client hclient y holdy hworker
      · rw [← Bool.not_eq_true]
        intro hlooks
        rw [hrole] at hworker
        rcases hlooksUp hlooks with hbefore | hnone
        · rw [h.apart x holdx hpool client hclient thread hmem hworker] at hbefore
          cases hbefore
        · exact hnone x holdx hpool client hclient hworker
    · obtain ⟨hlooks, hothers⟩ := hjoining client hclient hpool
      rcases List.mem_or_eq_of_mem_set hy with holdy | rfl
      · exact hothers y holdy hworker
      · rw [hrole] at hworker
        rw [hothers thread hmem hworker] at hlooks
        cases hlooks

theorem Intact.call {call : EngineCall} (h : s.Intact) (hok : s.Orderly (.call t call))
    (hstep : s.step (.call t call) = some s') : s'.Intact := by
  dsimp only [step] at hstep
  split at hstep
  · cases hstep
  · rename_i thread hthread
    obtain ⟨hcan, heq⟩ := Option.ite_none_right_eq_some.mp hstep
    cases heq
    have hsound := h.sound thread (List.mem_of_getElem? hthread)
    have hfree : LockThread.blocks { thread with ops := call.ops ++ thread.ops } = false ∨
        thread.joining ≠ [] := by
      obtain ⟨mutex, rest, hops, hne⟩ := call.exists_ops
      cases hjoining : thread.joining with
      | nil => simp [LockThread.blocks, LockThread.awaits, hops, hne]
      | cons => exact .inr nofun
    rcases hcan with ⟨hrole, hidle⟩ | ⟨hnext, hcall⟩
    · obtain ⟨hjoining, hops, hheld⟩ := hsound.of_idle hidle
      refine h.set hthread rfl ⟨?_, fun hne => absurd hjoining hne⟩ rfl (fun hreentered => ?_)
        (fun client hclient => ?_) fun _ => .inr fun _ _ _ _ _ => ?_
      · simpa [hrole, hheld, hops] using call.orderedOps
      · refine ⟨?_, hfree.resolve_right fun hne => hne hjoining⟩
        rcases reentered_set rfl hreentered with ⟨hreenters, -⟩ | ⟨hlifecycle, -⟩ | hbefore
        · simp [LockThread.reenters, hheld] at hreenters
        · simp [hheld] at hlifecycle
        · exact h.calm hbefore
      · simp [hjoining] at hclient
      · rw [hrole]
        exact nofun
    · obtain ⟨hjoining, rest, hops⟩ := LockThread.next_eq_some hnext
      obtain ⟨hlifecycle, htaken⟩ := hok thread hthread (by simp [hops])
      refine h.set hthread rfl ⟨?_, fun hne => absurd hjoining hne⟩ rfl (fun hreentered => ?_)
        (fun client hclient => ?_) fun hlooks => .inl ?_
      · have hordered := hsound.ordered
        rw [hops] at hordered ⊢
        exact EngineCall.orderedOps_append hcall hordered hlifecycle
      · refine ⟨?_, hfree.resolve_right fun hne => hne hjoining⟩
        rcases reentered_set rfl hreentered with ⟨hreenters, htakes⟩ | ⟨hheld, -⟩ | hbefore
        · simp only [LockThread.reenters, Bool.and_eq_true, List.contains_iff_mem] at hreenters
          exact htaken hreenters.1 htakes
        · exact absurd hheld hlifecycle
        · exact h.calm hbefore
      · simp [hjoining] at hclient
      · have hpool := EngineCall.not_mem_ops hcall
        simpa [LockThread.looksUp, hpool] using hlooks

theorem Intact.task {task : WorkerTask} (h : s.Intact) (hok : s.Orderly (.task t task))
    (hstep : s.step (.task t task) = some s') : s'.Intact := by
  dsimp only [step] at hstep
  split at hstep
  · cases hstep
  · rename_i thread hthread
    obtain ⟨⟨hrole, hidle, -⟩, heq⟩ := Option.ite_none_right_eq_some.mp hstep
    cases heq
    have hsound := h.sound thread (List.mem_of_getElem? hthread)
    obtain ⟨hjoining, hops, hheld⟩ := hsound.of_idle hidle
    refine h.set hthread rfl ⟨?_, fun hne => absurd hjoining hne⟩ rfl (fun hreentered => ?_)
      (fun client hclient => ?_) fun hlooks => .inr ?_
    · simpa [hheld] using task.orderedOps thread.role
    · constructor
      · rcases reentered_set rfl hreentered with ⟨hreenters, -⟩ | ⟨hlifecycle, -⟩ | hbefore
        · simp [LockThread.reenters, hheld] at hreenters
        · simp [hheld] at hlifecycle
        · exact h.calm hbefore
      · obtain ⟨mutex, rest, htask⟩ := task.exists_ops
        simp [LockThread.blocks, LockThread.awaits, hjoining, htask, hheld]
    · simp [hjoining] at hclient
    · have hpool : .lock .pool ∈ task.ops := by simpa [LockThread.looksUp, hheld] using hlooks
      exact hok thread hthread hpool

theorem Intact.finish (h : s.Intact) (hstep : s.step (.finish t) = some s') : s'.Intact := by
  dsimp only [step] at hstep
  split at hstep
  · cases hstep
  · rename_i thread hthread
    obtain ⟨⟨-, hidle⟩, heq⟩ := Option.ite_none_right_eq_some.mp hstep
    cases heq
    have hsound := h.sound thread (List.mem_of_getElem? hthread)
    obtain ⟨hjoining, hops, hheld⟩ := hsound.of_idle hidle
    refine h.set hthread rfl ⟨hsound.ordered, hsound.joins⟩ rfl (fun hreentered => ?_)
      (fun client hclient => ?_) fun hlooks => .inl hlooks
    · constructor
      · rcases reentered_set rfl hreentered with ⟨hreenters, -⟩ | ⟨hlifecycle, -⟩ | hbefore
        · simp [LockThread.reenters, hheld] at hreenters
        · simp [hheld] at hlifecycle
        · exact h.calm hbefore
      · simp [LockThread.blocks, LockThread.awaits, hjoining, hops]
    · simp [hjoining] at hclient

theorem Intact.start {client : ℕ} (h : s.Intact) (hstep : s.step (.start client) = some s') :
    s'.Intact := by
  dsimp only [step] at hstep
  obtain ⟨-, heq⟩ := Option.ite_none_right_eq_some.mp hstep
  cases heq
  have hold : ∀ {u : ℕ} {thread : LockThread},
      (s.threads ++ [{ role := .worker client }])[u]? = some thread → thread.held ≠ [] →
        s.threads[u]? = some thread := by
    intro u thread hu hheld
    by_cases hlt : u < s.threads.length
    · rwa [List.getElem?_append_left hlt] at hu
    · rw [List.getElem?_append_right (not_lt.mp hlt)] at hu
      rw [List.mem_singleton.mp (List.mem_of_getElem? hu)] at hheld
      exact absurd rfl hheld
  constructor
  · intro thread hthread
    rcases List.mem_append.mp hthread with hmem | hnew
    · exact h.sound thread hmem
    · rw [List.mem_singleton.mp hnew]
      exact ⟨rfl, fun hne => absurd rfl hne⟩
  · intro hreentered
    obtain ⟨t, thread, hthread, hreenters, htaken⟩ := reentered_iff.mp hreentered
    obtain ⟨u, other, hut, hother, hheld⟩ := taken_iff.mp htaken
    have hcallback : .callback ∈ thread.held := by
      simp only [LockThread.reenters, Bool.and_eq_true, List.contains_iff_mem] at hreenters
      exact hreenters.1
    have hbefore : s.reentered = true :=
      reentered_iff.mpr ⟨t, thread, hold hthread (List.ne_nil_of_mem hcallback), hreenters,
        taken_iff.mpr ⟨u, other, hut, hold hother (List.ne_nil_of_mem hheld), hheld⟩⟩
    have hblocked := blocked_eq_false.mp (h.calm hbefore)
    rw [blocked_eq_false]
    intro x hx
    rcases List.mem_append.mp hx with hmem | hnew
    · exact hblocked x hmem
    · rw [List.mem_singleton.mp hnew]
      rfl
  · intro thread hthread hpool joined hjoined other hother hworker
    rcases List.mem_append.mp hthread with hmem | hnew
    · rcases List.mem_append.mp hother with hmem' | hnew'
      · exact h.apart thread hmem hpool joined hjoined other hmem' hworker
      · rw [List.mem_singleton.mp hnew']
        rfl
    · rw [List.mem_singleton.mp hnew] at hpool
      cases hpool

theorem Intact.advance {discarded : List ℕ} (h : s.Intact)
    (hok : s.Orderly (.advance t discarded)) (hstep : s.step (.advance t discarded) = some s') :
    s'.Intact := by
  dsimp only [step] at hstep
  split at hstep
  · cases hstep
  · rename_i thread hthread
    unfold LockState.advance at hstep
    obtain ⟨hready, heq⟩ := Option.ite_none_right_eq_some.mp hstep
    cases heq
    obtain ⟨hcalm, hapart⟩ := hok thread hthread
    have hmem : thread ∈ s.threads := List.mem_of_getElem? hthread
    have hsound := h.sound thread hmem
    refine h.set hthread rfl hsound.proceed LockThread.role_proceed (fun hreentered => ?_)
      (fun client hclient hpool => ?_) fun hlooks => .inl (LockThread.looksUp_proceed hlooks)
    · have hwaits : s.reentered = true ∨
          thread.next = some (.lock .lifecycle) ∧ (s.others t).any LockThread.reenters = true := by
        rcases reentered_set rfl hreentered with ⟨hreenters, -⟩ | ⟨hheld, hany⟩ | hbefore
        · rw [hsound.reenters_proceed hready.1] at hreenters
          cases hreenters
        · rcases LockThread.mem_held_proceed hheld with hold | hnext
          · left
            obtain ⟨other, hother, hreenters⟩ := List.any_eq_true.mp hany
            obtain ⟨u, hut, hother⟩ := mem_others.mp hother
            exact reentered_iff.mpr
              ⟨u, other, hother, hreenters, taken_iff.mpr ⟨t, thread, hut.symm, hthread, hold⟩⟩
          · exact .inr ⟨hnext, hany⟩
        · exact .inl hbefore
      obtain ⟨hblocked, hcomes⟩ := hcalm hwaits
      refine ⟨hblocked, ?_⟩
      rw [← Bool.not_eq_true]
      intro hblocks
      rcases LockThread.blocks_proceed hblocks with hbefore | hafter
      · rw [blocked_eq_false.mp hblocked thread hmem] at hbefore
        cases hbefore
      · rw [hcomes] at hafter
        cases hafter
    · obtain ⟨hheld, hchosen⟩ := LockThread.joining_proceed hsound hclient hpool
      have hlooks : thread.looksUp = true := by simp [LockThread.looksUp, hheld]
      refine ⟨hlooks, fun other hother hworker => ?_⟩
      rcases hchosen with hold | ⟨hdiscards, hnew⟩
      · exact h.apart thread hmem hheld client hold other hother hworker
      · exact hapart hdiscards client hnew other hother hworker

theorem Intact.step {i : LockStep} (h : s.Intact) (hok : s.Orderly i)
    (hstep : s.step i = some s') : s'.Intact := by
  cases i with
  | call => exact h.call hok hstep
  | task => exact h.task hok hstep
  | advance => exact h.advance hok hstep
  | finish => exact h.finish hstep
  | start => exact h.start hstep

theorem intact_initial (threads : ℕ) : (initial threads).Intact := by
  have hidle : ∀ thread ∈ (initial threads).threads,
      thread.held = [] ∧ thread.ops = [] ∧ thread.joining = [] := by
    intro thread hthread
    rcases List.mem_cons.mp hthread with rfl | hthread
    · exact ⟨rfl, rfl, rfl⟩
    · rw [List.eq_of_mem_replicate hthread]
      exact ⟨rfl, rfl, rfl⟩
  constructor
  · intro thread hthread
    obtain ⟨hheld, hops, hjoining⟩ := hidle thread hthread
    refine ⟨?_, fun hne => absurd hjoining hne⟩
    rw [hheld, hops]
    rfl
  · intro hreentered
    obtain ⟨t, thread, hthread, hreenters, -⟩ := reentered_iff.mp hreentered
    simp [LockThread.reenters, (hidle thread (List.mem_of_getElem? hthread)).1] at hreenters
  · intro thread hthread hpool
    simp [(hidle thread hthread).1] at hpool

end LockState

/-! ### Waits -/

namespace LockThread

variable {thread : LockThread} {reentered : Bool}

/-- What a thread waits for, in an order that every wait goes down. A callback's call that
waits for `lifecycle_mutex_` turns the order of this lock and `callback_mutex_` round. -/
def rank (reentered : Bool) (thread : LockThread) : ℕ :=
  match thread.awaits with
  | none => 0
  | some (.mutex .registry) => 1
  | some (.mutex .callback) =>
    if .callback ∈ thread.held then 0 else if reentered then 4 else 2
  | some (.mutex .pool) => if reentered then 2 else 4
  | some (.mutex .lifecycle) =>
    if reentered then 3 else if .callback ∈ thread.held then 0 else 6
  | some (.worker _) => if .pool ∈ thread.held then 3 else 5
  | some .dispatcher => 5

namespace Sound

theorem rank_of_registry (h : thread.Sound) (hheld : .registry ∈ thread.held) :
    thread.rank reentered = 0 := by
  unfold rank
  cases hawaits : thread.awaits with
  | none => rfl
  | some awaited =>
    cases awaited with
    | mutex mutex =>
      have hallowed := h.allowed_lock hawaits
      cases mutex with
      | registry => exact absurd hheld hallowed
      | pool => exact absurd hheld hallowed.2.2
      | callback => exact absurd hheld hallowed.2
      | lifecycle => exact absurd hheld hallowed.2.2.1
    | worker client => exact absurd hheld (h.joins_worker hawaits).2.2
    | dispatcher => exact absurd hheld (h.allowed (awaits_dispatcher hawaits)).2.2.2

theorem rank_of_pool (h : thread.Sound) (hheld : .pool ∈ thread.held)
    (hcalm : reentered = true → thread.blocks = false) :
    thread.rank reentered ≤ if reentered then 1 else 3 := by
  unfold rank
  cases hawaits : thread.awaits with
  | none => exact Nat.zero_le _
  | some awaited =>
    cases awaited with
    | mutex mutex =>
      have hallowed := h.allowed_lock hawaits
      cases mutex with
      | registry => cases reentered <;> simp
      | pool => exact absurd hheld hallowed.1
      | callback => exact absurd hheld hallowed.1
      | lifecycle => exact absurd hheld hallowed.2.1
    | worker client =>
      cases reentered with
      | true => simp [blocks, hawaits] at hcalm
      | false => simp [hheld]
    | dispatcher => exact absurd hheld (h.allowed (awaits_dispatcher hawaits)).2.2.1

theorem rank_of_callback (h : thread.Sound) (hheld : .callback ∈ thread.held) (reentered : Bool) :
    thread.rank reentered ≤ if reentered then 3 else 1 := by
  unfold rank
  cases hawaits : thread.awaits with
  | none => exact Nat.zero_le _
  | some awaited =>
    cases awaited with
    | mutex mutex =>
      have hallowed := h.allowed_lock hawaits
      cases mutex with
      | registry => cases reentered <;> simp
      | pool => exact absurd hheld hallowed.2.1
      | callback => simp [hheld]
      | lifecycle => cases reentered <;> simp [hheld]
    | worker client => exact absurd hheld (h.joins_worker hawaits).2.1
    | dispatcher => exact absurd hheld (h.allowed (awaits_dispatcher hawaits)).2.1

theorem rank_of_lifecycle (h : thread.Sound) (hheld : .lifecycle ∈ thread.held)
    (hcalm : reentered = true → thread.blocks = false) :
    thread.rank reentered ≤ if reentered then 2 else 5 := by
  unfold rank
  cases hawaits : thread.awaits with
  | none => exact Nat.zero_le _
  | some awaited =>
    cases awaited with
    | mutex mutex =>
      have hallowed := h.allowed_lock hawaits
      cases mutex with
      | registry => cases reentered <;> simp
      | pool => cases reentered <;> simp
      | callback =>
        cases reentered with
        | true => simp [blocks, hawaits, hheld] at hcalm
        | false => split_ifs <;> simp_all
      | lifecycle => exact absurd hheld hallowed.1
    | worker client =>
      cases reentered with
      | true => simp [blocks, hawaits] at hcalm
      | false => split_ifs <;> simp_all
    | dispatcher =>
      cases reentered with
      | true => simp [blocks, hawaits] at hcalm
      | false => simp

/-- A worker that is not in a lookup waits for no lookup. -/
theorem rank_of_worker (h : thread.Sound) (hrole : thread.role ≠ .application) :
    thread.rank false ≤ if thread.looksUp then 4 else 2 := by
  unfold rank
  cases hawaits : thread.awaits with
  | none => exact Nat.zero_le _
  | some awaited =>
    cases awaited with
    | mutex mutex =>
      have hallowed := h.allowed_lock hawaits
      cases mutex with
      | registry => split_ifs <;> simp
      | pool =>
        have hlooks : thread.looksUp = true := by
          simp [looksUp, List.mem_of_head? (awaits_mutex hawaits).2]
        simp [hlooks]
      | callback => split_ifs <;> simp_all
      | lifecycle => simp [hallowed.2.2.2 hrole]
    | worker client =>
      have hheld := (h.joins_worker hawaits).1.resolve_right hrole
      simp [hheld, looksUp]
    | dispatcher => exact absurd (h.allowed (awaits_dispatcher hawaits)).1 hrole

end Sound

end LockThread

namespace LockState

variable {s : LockState}

def rank (s : LockState) (t : ℕ) : ℕ := s.threads[t]?.elim 0 (LockThread.rank s.reentered)

namespace Intact

variable {thread other : LockThread} {t u : ℕ}

theorem calm_thread (h : s.Intact) (hmem : thread ∈ s.threads) (hreentered : s.reentered = true) :
    thread.blocks = false :=
  blocked_eq_false.mp (h.calm hreentered) thread hmem

theorem not_reentered (h : s.Intact) (hmem : thread ∈ s.threads) (hblocks : thread.blocks = true) :
    s.reentered = false := by
  rw [← Bool.not_eq_true]
  intro hreentered
  exact Bool.false_ne_true ((h.calm_thread hmem hreentered).symm.trans hblocks)

/-- A thread that waits for `lifecycle_mutex_` in a callback has come back into the engine. -/
theorem reentered_of_lifecycle (h : s.Intact) (hthread : s.threads[t]? = some thread)
    (hother : s.threads[u]? = some other) (hawaits : thread.awaits = some (.mutex .lifecycle))
    (hheld : .lifecycle ∈ other.held) (hcallback : .callback ∈ thread.held) :
    s.reentered = true := by
  have hut : u ≠ t := by
    rintro rfl
    cases hthread.symm.trans hother
    exact ((h.sound thread (List.mem_of_getElem? hthread)).allowed_lock hawaits).1 hheld
  have hreenters : thread.reenters = true := by
    simp [LockThread.reenters, hcallback, hawaits]
  exact reentered_iff.mpr
    ⟨t, thread, hthread, hreenters, taken_iff.mpr ⟨u, other, hut, hother, hheld⟩⟩

/-- Who holds a lock waits for less than who waits for it. -/
theorem rank_lt_of_mutex (h : s.Intact) (hthread : s.threads[t]? = some thread)
    (hother : s.threads[u]? = some other) {mutex : EngineMutex}
    (hawaits : thread.awaits = some (.mutex mutex)) (hheld : mutex ∈ other.held)
    (hagain : mutex = .callback → mutex ∉ thread.held) :
    other.rank s.reentered < thread.rank s.reentered := by
  have hmem : other ∈ s.threads := List.mem_of_getElem? hother
  have hsound := h.sound other hmem
  cases mutex with
  | registry =>
    rw [hsound.rank_of_registry hheld]
    simp [LockThread.rank, hawaits]
  | pool =>
    have hbound := hsound.rank_of_pool hheld (h.calm_thread hmem)
    have htop : thread.rank s.reentered = if s.reentered then 2 else 4 := by
      simp [LockThread.rank, hawaits]
    split_ifs at hbound htop <;> omega
  | callback =>
    have hbound := hsound.rank_of_callback hheld s.reentered
    have htop : thread.rank s.reentered = if s.reentered then 4 else 2 := by
      simp [LockThread.rank, hawaits, hagain rfl]
    split_ifs at hbound htop <;> omega
  | lifecycle =>
    have hbound := hsound.rank_of_lifecycle hheld (h.calm_thread hmem)
    by_cases hreentered : s.reentered = true
    · have htop : thread.rank s.reentered = 3 := by simp [LockThread.rank, hawaits, hreentered]
      rw [if_pos hreentered] at hbound
      omega
    · have hcallback : .callback ∉ thread.held :=
        mt (h.reentered_of_lifecycle hthread hother hawaits hheld) hreentered
      have htop : thread.rank s.reentered = 6 := by
        simp [LockThread.rank, hawaits, hreentered, hcallback]
      rw [if_neg hreentered] at hbound
      omega

theorem rank_lt_of_worker (h : s.Intact) (hmem : thread ∈ s.threads) (hmem' : other ∈ s.threads)
    {client : ℕ} (hawaits : thread.awaits = some (.worker client))
    (hrole : other.role = .worker client) :
    other.rank s.reentered < thread.rank s.reentered := by
  have hbound := (h.sound other hmem').rank_of_worker (by simp [hrole])
  rw [h.not_reentered hmem (by simp [LockThread.blocks, hawaits])]
  by_cases hpool : .pool ∈ thread.held
  · have hlooks := h.apart thread hmem hpool client (LockThread.awaits_worker hawaits) other hmem'
      hrole
    have htop : thread.rank false = 3 := by simp [LockThread.rank, hawaits, hpool]
    rw [hlooks] at hbound
    simp at hbound
    omega
  · have htop : thread.rank false = 5 := by simp [LockThread.rank, hawaits, hpool]
    split_ifs at hbound <;> omega

theorem rank_lt_of_dispatcher (h : s.Intact) (hmem : thread ∈ s.threads)
    (hmem' : other ∈ s.threads) (hawaits : thread.awaits = some .dispatcher)
    (hrole : other.role = .dispatcher) :
    other.rank s.reentered < thread.rank s.reentered := by
  have hbound := (h.sound other hmem').rank_of_worker (by simp [hrole])
  have htop : thread.rank false = 5 := by simp [LockThread.rank, hawaits]
  rw [h.not_reentered hmem (by simp [LockThread.blocks, hawaits])]
  split_ifs at hbound <;> omega

theorem rank_lt (h : s.Intact) (hwaits : s.Waits t u) : s.rank u < s.rank t := by
  obtain ⟨thread, other, hthread, hother, hwaits⟩ := hwaits
  have hmem : thread ∈ s.threads := List.mem_of_getElem? hthread
  have hmem' : other ∈ s.threads := List.mem_of_getElem? hother
  rw [rank, rank, hthread, hother, Option.elim_some, Option.elim_some]
  cases hawaits : thread.awaits with
  | none =>
    rw [hawaits] at hwaits
    exact hwaits.elim
  | some awaited =>
    rw [hawaits] at hwaits
    cases awaited with
    | mutex mutex => exact h.rank_lt_of_mutex hthread hother hawaits hwaits.1 hwaits.2
    | worker client => exact h.rank_lt_of_worker hmem hmem' hawaits hwaits.1
    | dispatcher => exact h.rank_lt_of_dispatcher hmem hmem' hawaits hwaits.1

end Intact

/-- In a run whose steps keep the waits in order there is no cycle of waits. -/
theorem run_acyclic {threads : ℕ} {steps : List LockStep}
    (hrun : run step (initial threads) steps = some s)
    (hok : Meets step Orderly (initial threads) steps) (t : ℕ) :
    ¬Relation.TransGen s.Waits t t := by
  have hintact : s.Intact := run_invariant (fun _ _ _ h hok hstep => h.step hok hstep) hrun hok
    (intact_initial threads)
  intro hcycle
  have hdescends : Relation.TransGen (· > ·) (s.rank t) (s.rank t) :=
    Relation.TransGen.lift (p := (· > ·)) s.rank (fun _ _ hwaits => hintact.rank_lt hwaits) _ _ hcycle
  rw [Relation.transGen_eq_self] at hdescends
  exact lt_irrefl _ hdescends

end LockState

/-! ### A callback that gives credit back -/

namespace LockState

instance (s : LockState) : ∀ i, Decidable (s.Orderly i)
  | .call t _ => inferInstanceAs (Decidable (∀ thread ∈ s.threads[t]?, _ → _))
  | .task t _ => inferInstanceAs (Decidable (∀ thread ∈ s.threads[t]?, _ → _))
  | .advance t _ => inferInstanceAs (Decidable (∀ thread ∈ s.threads[t]?, _ ∧ _))
  | .finish _ | .start _ => inferInstanceAs (Decidable True)

/-- A request opens a connection, and its worker is in the application's callback. -/
def speakingSteps : List LockStep :=
  List.flatten [[.call 1 (.execute (.looked .created))], List.replicate 8 (.advance 1 []),
    [.start 0, .task 3 (.deliver .spoken)], List.replicate 3 (.advance 3 [])]

/-- The callback calls `consume`, the request is cancelled when the callback has returned,
and another lookup destroys the client. -/
def consumedSteps : List LockStep :=
  List.flatten [speakingSteps, [.call 3 .consume], List.replicate 6 (.advance 3 []),
    [.call 2 (.cancel true)], List.replicate 7 (.advance 2 []),
    [.call 1 (.execute (.looked .created))], List.replicate 2 (.advance 1 []),
    [.advance 1 [0], .finish 3, .advance 1 []]]

theorem run_acyclic_consumed :
    ∃ s, run step (initial 2) consumedSteps = some s ∧ s.pool = [] ∧
      ∀ t, ¬Relation.TransGen s.Waits t t := by
  obtain ⟨s, hrun, hpool⟩ := Option.map_eq_some_iff.mp
    (show (run step (initial 2) consumedSteps).map pool = some [] by decide +kernel)
  exact ⟨s, hrun, hpool, run_acyclic hrun (by decide +kernel)⟩

/-- Another thread cancels while the callback runs, and then the callback calls `consume`. -/
def crossedSteps : List LockStep :=
  List.flatten [speakingSteps, [.call 2 (.cancel true), .advance 2 [], .call 3 .consume]]

theorem run_cycle :
    ∃ s, run step (initial 2) crossedSteps = some s ∧ s.Waits 2 3 ∧ s.Waits 3 2 ∧
      Relation.TransGen s.Waits 2 2 := by
  obtain ⟨s, hrun, hthreads⟩ := Option.map_eq_some_iff.mp
    (show (run step (initial 2) crossedSteps).map threads =
      some [{ role := .dispatcher }, {},
        { held := [.lifecycle], ops := (EngineCall.cancel true).ops.tail },
        { role := .worker 0, held := [.callback],
          ops := EngineCall.consume.ops ++ [.callback, .unlock .callback] }] by decide +kernel)
  have hcancel : s.Waits 2 3 := by
    rw [Waits, hthreads]
    exact ⟨_, _, rfl, rfl, List.mem_singleton_self _, fun _ => by decide⟩
  have hconsume : s.Waits 3 2 := by
    rw [Waits, hthreads]
    exact ⟨_, _, rfl, rfl, List.mem_singleton_self _, nofun⟩
  exact ⟨s, hrun, hcancel, hconsume, .tail (.single hcancel) hconsume⟩

end LockState

end KatHttp3
