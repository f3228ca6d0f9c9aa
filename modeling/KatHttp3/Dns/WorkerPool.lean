import KatHttp3.Text.Str
import Mathlib.Data.Nat.Notation

/-!
# The DNS worker pool

`DnsWorkerPool` of `dns.cc`: a bounded queue of tasks and a bounded overflow
queue, which only fills when the first one is full. Every operation holds the
mutex of the pool and first drops the work whose flight has been cancelled.
-/

namespace KatHttp3

open Str

def canonicalHost (host : Str) : Str :=
  let host := asciiLower host
  if 1 < host.length ∧ host.getLast? = some '.' then host.dropLast else host

/-- The key of a flight. A resolver is known by its address. -/
def dnsFlightKey (resolver : ℕ) (host : Str) (port generation : ℕ) : Str :=
  ofNat resolver ++ "|".toList ++ canonicalHost host ++ ":".toList ++ ofNat port ++ "@".toList ++
    ofNat generation

/-- The work of one flight. The number of the flight stands for its address. -/
structure DnsTask where
  resolver : ℕ
  host : Str
  port : ℕ
  key : Str
  flight : ℕ
  deriving DecidableEq

def kMaxQueuedTasks : ℕ := 32

def kMaxPendingHosts : ℕ := 128

/-- The two queues. The overflow queue has work only if the other one is full. -/
structure DnsWorkerPool where
  tasks : List DnsTask := []
  pendingHosts : List DnsTask := []
  stopping : Bool := false
  tasks_le : tasks.length ≤ kMaxQueuedTasks := by decide
  pendingHosts_le : pendingHosts.length ≤ kMaxPendingHosts := by decide
  full : pendingHosts ≠ [] → tasks.length = kMaxQueuedTasks := by decide

/-- The work whose flight, known by its number, has not been cancelled. -/
def pruneQueue (cancelled : ℕ → Bool) (queue : List DnsTask) : List DnsTask :=
  queue.filter fun work => !cancelled work.flight

def promotePending (tasks : List DnsTask) : List DnsTask → List DnsTask × List DnsTask
  | [] => (tasks, [])
  | work :: pendingHosts =>
    if tasks.length < kMaxQueuedTasks then promotePending (tasks ++ [work]) pendingHosts
    else (tasks, work :: pendingHosts)

theorem promotePending_append (tasks pendingHosts : List DnsTask) :
    (promotePending tasks pendingHosts).1 ++ (promotePending tasks pendingHosts).2 =
      tasks ++ pendingHosts := by
  induction pendingHosts generalizing tasks with
  | nil => rfl
  | cons work pendingHosts ih =>
    unfold promotePending
    split
    · rw [ih, List.append_assoc, List.singleton_append]
    · rfl

theorem promotePending_tasks_le {tasks : List DnsTask} (h : tasks.length ≤ kMaxQueuedTasks)
    (pendingHosts : List DnsTask) :
    (promotePending tasks pendingHosts).1.length ≤ kMaxQueuedTasks := by
  induction pendingHosts generalizing tasks with
  | nil => exact h
  | cons work pendingHosts ih =>
    unfold promotePending
    split
    case isTrue hroom =>
      apply ih
      rw [List.length_append, List.length_singleton]
      exact hroom
    case isFalse => exact h

theorem promotePending_pendingHosts_le (tasks pendingHosts : List DnsTask) :
    (promotePending tasks pendingHosts).2.length ≤ pendingHosts.length := by
  induction pendingHosts generalizing tasks with
  | nil => exact Nat.le_refl _
  | cons work pendingHosts ih =>
    unfold promotePending
    split
    · exact Nat.le_succ_of_le (ih _)
    · exact Nat.le_refl _

theorem promotePending_full {tasks : List DnsTask} (h : tasks.length ≤ kMaxQueuedTasks)
    (pendingHosts : List DnsTask) (hleft : (promotePending tasks pendingHosts).2 ≠ []) :
    (promotePending tasks pendingHosts).1.length = kMaxQueuedTasks := by
  induction pendingHosts generalizing tasks with
  | nil => exact absurd rfl hleft
  | cons work pendingHosts ih =>
    unfold promotePending at hleft ⊢
    split at hleft
    case isTrue hroom =>
      rw [if_pos hroom]
      apply ih _ hleft
      rw [List.length_append, List.length_singleton]
      exact hroom
    case isFalse hroom =>
      rw [if_neg hroom]
      exact Nat.le_antisymm h (Nat.not_lt.mp hroom)

namespace DnsWorkerPool

variable (cancelled : ℕ → Bool) (pool : DnsWorkerPool)

/-- The work that no worker has taken, in the order in which they take it. -/
def queue : List DnsTask := pool.tasks ++ pool.pendingHosts

/-- Both queues are pruned and the free places are filled, with `tasks` for the first queue. -/
def settle (tasks : List DnsTask) (h : tasks.length ≤ kMaxQueuedTasks) : DnsWorkerPool :=
  let promoted :=
    promotePending (pruneQueue cancelled tasks) (pruneQueue cancelled pool.pendingHosts)
  have hpruned := Nat.le_trans (List.length_filter_le _ tasks) h
  { pool with
    tasks := promoted.1
    pendingHosts := promoted.2
    tasks_le := promotePending_tasks_le hpruned _
    pendingHosts_le :=
      Nat.le_trans (promotePending_pendingHosts_le _ _)
        (Nat.le_trans (List.length_filter_le _ _) pool.pendingHosts_le)
    full := promotePending_full hpruned _ }

/-- New work for a pool that has been settled. -/
def push (work : DnsTask) : DnsWorkerPool × Bool :=
  if hroom : pool.tasks.length < kMaxQueuedTasks then
    ({ pool with
        tasks := pool.tasks ++ [work]
        tasks_le := by
          rw [List.length_append, List.length_singleton]
          exact hroom
        full := fun hpending => absurd (pool.full hpending) (Nat.ne_of_lt hroom) }, true)
  else if hpending : kMaxPendingHosts ≤ pool.pendingHosts.length then (pool, false)
  else
    ({ pool with
        pendingHosts := pool.pendingHosts ++ [work]
        pendingHosts_le := by
          rw [List.length_append, List.length_singleton]
          exact Nat.not_le.mp hpending
        full := fun _ => Nat.le_antisymm pool.tasks_le (Nat.not_lt.mp hroom) }, true)

def submit (work : DnsTask) : DnsWorkerPool × Bool :=
  if pool.stopping then (pool, false)
  else (pool.settle cancelled pool.tasks pool.tasks_le).push work

def pruneCancelled : DnsWorkerPool := pool.settle cancelled pool.tasks pool.tasks_le

/-- A worker takes the oldest task. -/
def take : Option (DnsTask × DnsWorkerPool) :=
  match h : pool.tasks with
  | [] => none
  | work :: tasks =>
    some (work, pool.settle cancelled tasks (by
      have hle := pool.tasks_le
      rw [h, List.length_cons] at hle
      exact Nat.le_of_succ_le hle))

variable {cancelled pool}

theorem settle_queue {tasks : List DnsTask} (h : tasks.length ≤ kMaxQueuedTasks) :
    (pool.settle cancelled tasks h).queue = pruneQueue cancelled (tasks ++ pool.pendingHosts) := by
  unfold queue settle
  dsimp only
  rw [promotePending_append]
  exact (List.filter_append ..).symm

theorem pruneCancelled_queue :
    (pool.pruneCancelled cancelled).queue = pruneQueue cancelled pool.queue :=
  settle_queue pool.tasks_le

variable (cancelled pool)

theorem push_queue (work : DnsTask) :
    (pool.push work).1.queue = if (pool.push work).2 then pool.queue ++ [work] else pool.queue := by
  unfold push
  split
  case isTrue hroom =>
    have hempty : pool.pendingHosts = [] := by
      by_contra hpending
      exact Nat.ne_of_lt hroom (pool.full hpending)
    simp [queue, hempty]
  case isFalse =>
    split
    · rfl
    · simp [queue]

/-- Accepted work comes last. Refused work leaves no trace. -/
theorem submit_queue (work : DnsTask) :
    ((pool.submit cancelled work).2 = true ∧
        (pool.submit cancelled work).1.queue = pruneQueue cancelled pool.queue ++ [work]) ∨
      ((pool.submit cancelled work).2 = false ∧
        ((pool.submit cancelled work).1.queue = pool.queue ∨
          (pool.submit cancelled work).1.queue = pruneQueue cancelled pool.queue)) := by
  unfold submit
  split
  · exact Or.inr ⟨rfl, Or.inl rfl⟩
  · have hqueue := (pool.pruneCancelled cancelled).push_queue work
    rw [pruneCancelled_queue] at hqueue
    cases hpush : ((pool.pruneCancelled cancelled).push work).2 with
    | true =>
      rw [hpush, if_pos rfl] at hqueue
      exact Or.inl ⟨hpush, hqueue⟩
    | false =>
      rw [hpush, if_neg Bool.false_ne_true] at hqueue
      exact Or.inr ⟨hpush, Or.inr hqueue⟩

variable {cancelled pool}

theorem take_queue {work : DnsTask} {pool' : DnsWorkerPool}
    (h : pool.take cancelled = some (work, pool')) :
    ∃ rest, pool.queue = work :: rest ∧ pool'.queue = pruneQueue cancelled rest := by
  unfold take at h
  split at h
  · cases h
  · rename_i head tasks htasks
    cases h
    refine ⟨tasks ++ pool.pendingHosts, ?_, settle_queue _⟩
    rw [queue, htasks, List.cons_append]

end DnsWorkerPool

end KatHttp3
