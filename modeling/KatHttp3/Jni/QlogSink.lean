import KatHttp3.Library.Parties
import KatHttp3.Library.Slices
import KatHttp3.Library.Transition

/-!
# The qlog sink of Android

A call of `enqueue` never waits: its record is queued if the lock is free and the queue has
room, and counts as dropped otherwise. One worker writes the queued records to the log, each
of them cut into lines, and before a record a notice of what has been dropped.
-/

namespace KatHttp3

open Parties WeightedList

/-- What is written with `__android_log_write`. -/
inductive LogLine
  | notice (records bytes : ℕ)
  | record (bytes : List UInt8)
  deriving DecidableEq

/-- Where the worker is. -/
inductive DrainPhase
  | waiting
  /-- It has a record, and has not yet read how many were dropped. -/
  | counting (record : List UInt8)
  | countingBytes (record : List UInt8) (records : ℕ)
  | noticing (record : List UInt8) (records bytes : ℕ)
  | writing (rest : List UInt8)
  | stopped
  deriving DecidableEq

structure QlogSink where
  queue : List (List UInt8) := []
  queuedBytes : ℕ := 0
  stopping : Bool := false
  droppedRecords : ℕ := 0
  droppedBytes : ℕ := 0
  worker : DrainPhase := .waiting
  log : List LogLine := []
  /-- The records that were ever queued. -/
  accepted : List (List UInt8) := []
  /-- Those that the destructor has thrown away. -/
  discarded : List (List UInt8) := []
  /-- How many bytes each call has lost that did not queue all of its record. -/
  drops : List ℕ := []
  deriving DecidableEq

inductive EnqueuePhase
  | entering
  | countingRecord (bytes : ℕ)
  | countingBytes (bytes : ℕ)
  | done
  deriving DecidableEq

/-- A call of `enqueue`. -/
structure Enqueue where
  data : List UInt8
  phase : EnqueuePhase := .entering
  deriving DecidableEq

namespace QlogSink

def kMaxQueuedBytes : ℕ := 256 * 1024

def kMaxRecordBytes : ℕ := 16 * 1024

def kMaxLogcatMessageBytes : ℕ := 3500

variable (sink : QlogSink)

/-- The next action of the worker. It waits until there is a record or it has to stop. -/
def drain : Option QlogSink :=
  match sink.worker with
  | .waiting =>
    match sink.queue with
    | [] => if sink.stopping then some { sink with worker := .stopped } else none
    | record :: queue =>
      some { sink with
        queue := queue
        queuedBytes := sink.queuedBytes - record.length
        worker := .counting record }
  | .counting record =>
    some { sink with droppedRecords := 0, worker := .countingBytes record sink.droppedRecords }
  | .countingBytes record records =>
    some { sink with droppedBytes := 0, worker := .noticing record records sink.droppedBytes }
  | .noticing record records bytes =>
    some { sink with
      log := if records = 0 then sink.log else sink.log ++ [.notice records bytes]
      worker := .writing record }
  | .writing [] => some { sink with worker := .waiting }
  | .writing (byte :: rest) =>
    some { sink with
      log := sink.log ++ [.record ((byte :: rest).take kMaxLogcatMessageBytes)]
      worker := .writing ((byte :: rest).drop kMaxLogcatMessageBytes) }
  | .stopped => none

/-- The locked part of the destructor. -/
def destroy : Option QlogSink :=
  if sink.stopping then none
  else some { sink with stopping := true, queue := [], queuedBytes := 0, discarded := sink.queue }

end QlogSink

/-- The next action of a call, which may find the lock taken. -/
def Enqueue.advance (owns : Bool) (sink : QlogSink) (call : Enqueue) :
    Option (QlogSink × Enqueue) :=
  match call.phase with
  | .entering =>
    let len := call.data.length
    let accepted := min len QlogSink.kMaxRecordBytes
    if owns = false ∨ sink.stopping = true ∨ QlogSink.kMaxQueuedBytes < accepted ∨
        QlogSink.kMaxQueuedBytes < sink.queuedBytes + accepted then
      some ({ sink with drops := sink.drops ++ [len] }, { call with phase := .countingRecord len })
    else
      let sink := { sink with
        queue := sink.queue ++ [call.data.take accepted]
        queuedBytes := sink.queuedBytes + accepted
        accepted := sink.accepted ++ [call.data.take accepted] }
      if accepted = len then some (sink, { call with phase := .done })
      else
        some ({ sink with drops := sink.drops ++ [len - accepted] },
          { call with phase := .countingRecord (len - accepted) })
  | .countingRecord bytes =>
    some ({ sink with droppedRecords := sink.droppedRecords + 1 },
      { call with phase := .countingBytes bytes })
  | .countingBytes bytes =>
    some ({ sink with droppedBytes := sink.droppedBytes + bytes }, { call with phase := .done })
  | .done => none

abbrev QlogSystem := System QlogSink Enqueue

inductive QlogStep
  | call (data : List UInt8)
  | enqueue (i : ℕ) (owns : Bool)
  | drain
  | destroy
  deriving DecidableEq

namespace QlogSystem

def initial : QlogSystem := ⟨{}, []⟩

def step (s : QlogSystem) : QlogStep → Option QlogSystem
  | .call data => some (if data = [] then s else s.join { data := data })
  | .enqueue i owns => s.move i (Enqueue.advance owns)
  | .drain => s.shared.drain.map fun sink => { s with shared := sink }
  | .destroy => s.shared.destroy.map fun sink => { s with shared := sink }

end QlogSystem

/-! ### What is under way -/

namespace DrainPhase

/-- What the worker still has to write of its record. -/
def held : DrainPhase → List UInt8
  | counting record | countingBytes record _ | noticing record _ _ => record
  | writing rest => rest
  | waiting | stopped => []

def records : DrainPhase → ℕ
  | countingBytes _ records | noticing _ records _ => records
  | _ => 0

def bytes : DrainPhase → ℕ
  | noticing _ _ bytes => bytes
  | _ => 0

end DrainPhase

namespace Enqueue

/-- The call has dropped a record that it has not yet counted. -/
def records (call : Enqueue) : ℕ :=
  match call.phase with
  | .countingRecord _ => 1
  | _ => 0

def bytes (call : Enqueue) : ℕ :=
  match call.phase with
  | .countingRecord bytes | .countingBytes bytes => bytes
  | _ => 0

end Enqueue

namespace LogLine

def records : LogLine → ℕ
  | notice records _ => records
  | record _ => 0

def bytes : LogLine → ℕ
  | notice _ bytes => bytes
  | record _ => 0

def text : LogLine → Option (List UInt8)
  | notice _ _ => none
  | record bytes => some bytes

end LogLine

namespace QlogSink

/-- The lines into which records are cut. -/
def lines (records : List (List UInt8)) : List (List UInt8) :=
  records.flatMap (Slices.cut kMaxLogcatMessageBytes)

@[simp] theorem lines_append (records more : List (List UInt8)) :
    lines (records ++ more) = lines records ++ lines more :=
  List.flatMap_append

@[simp] theorem lines_singleton (record : List UInt8) :
    lines [record] = Slices.cut kMaxLogcatMessageBytes record := by
  rw [lines, List.flatMap_singleton]

theorem lines_cons (record : List UInt8) (records : List (List UInt8)) :
    lines (record :: records) = Slices.cut kMaxLogcatMessageBytes record ++ lines records :=
  List.flatMap_cons

/-- The records and the bytes of the sink. -/
structure Contents (sink : QlogSink) : Prop where
  written : sink.log.filterMap LogLine.text ++
    (lines [sink.worker.held] ++ lines (sink.queue ++ sink.discarded)) = lines sink.accepted
  bytes : sink.queuedBytes = total List.length sink.queue
  limit : sink.queuedBytes ≤ kMaxQueuedBytes
  small : ∀ record ∈ sink.worker.held :: sink.queue, record.length ≤ kMaxRecordBytes
  kept : sink.stopping = false → sink.discarded = []
  cleared : sink.stopping = true → sink.queue = []

variable {sink sink' : QlogSink}

theorem contents_initial : Contents {} where
  written := rfl
  bytes := rfl
  limit := Nat.zero_le _
  small record hrecord := by
    obtain rfl := List.mem_singleton.mp hrecord
    exact Nat.zero_le _
  kept _ := rfl
  cleared _ := rfl

/-- A record is queued. -/
theorem Contents.push (h : sink.Contents) {record : List UInt8} (drops : List ℕ)
    (hopen : sink.stopping = false) (hsmall : record.length ≤ kMaxRecordBytes)
    (hroom : sink.queuedBytes + record.length ≤ kMaxQueuedBytes) :
    Contents { sink with
      queue := sink.queue ++ [record]
      queuedBytes := sink.queuedBytes + record.length
      accepted := sink.accepted ++ [record]
      drops := drops } where
  written := by
    have hwritten := h.written
    rw [h.kept hopen, List.append_nil] at hwritten
    dsimp only
    rw [h.kept hopen, List.append_nil, lines_append sink.queue, lines_append sink.accepted,
      ← hwritten, List.append_assoc, List.append_assoc]
  bytes := by
    dsimp only
    rw [total_append, total_cons, total_nil, ← h.bytes, Nat.add_zero]
  limit := hroom
  small other hother := by
    rcases List.mem_cons.mp hother with rfl | hmem
    · exact h.small _ List.mem_cons_self
    · rcases List.mem_append.mp hmem with hold | hnew
      · exact h.small other (List.mem_cons_of_mem _ hold)
      · obtain rfl := List.mem_singleton.mp hnew
        exact hsmall
  kept := h.kept
  cleared hstopping := by
    rw [hopen] at hstopping
    cases hstopping

/-- Drops and their counters have nothing to do with the records. -/
theorem Contents.counted (h : sink.Contents) (records bytes : ℕ) (drops : List ℕ) :
    Contents { sink with droppedRecords := records, droppedBytes := bytes, drops := drops } :=
  ⟨h.written, h.bytes, h.limit, h.small, h.kept, h.cleared⟩

theorem Contents.enqueue (h : sink.Contents) {owns : Bool} {call call' : Enqueue}
    (hadvance : call.advance owns sink = some (sink', call')) : sink'.Contents := by
  unfold Enqueue.advance at hadvance
  split at hadvance
  · have hlength : (call.data.take (min call.data.length kMaxRecordBytes)).length =
        min call.data.length kMaxRecordBytes := by
      rw [List.length_take, Nat.min_eq_left (Nat.min_le_left _ _)]
    have hsmall := Nat.min_le_right call.data.length kMaxRecordBytes
    dsimp only at hadvance
    split_ifs at hadvance with hdropped hwhole
    · cases hadvance
      exact h.counted _ _ _
    all_goals
      simp only [not_or, Bool.not_eq_false, Bool.not_eq_true, not_lt] at hdropped
      obtain ⟨-, hopen, -, hroom⟩ := hdropped
      rw [← hlength] at hsmall hroom
      have hpush := fun drops => h.push drops hopen hsmall hroom
      rw [hlength] at hpush
      cases hadvance
      exact hpush _
  · cases hadvance
    exact h.counted _ _ _
  · cases hadvance
    exact h.counted _ _ _
  · cases hadvance

/-- No call touches the worker, or stops the sink. -/
theorem enqueue_worker {owns : Bool} {call call' : Enqueue}
    (hadvance : call.advance owns sink = some (sink', call')) :
    sink'.worker = sink.worker ∧ sink'.stopping = sink.stopping := by
  unfold Enqueue.advance at hadvance
  split at hadvance
  · dsimp only at hadvance
    split_ifs at hadvance
    all_goals
      cases hadvance
      exact ⟨rfl, rfl⟩
  · cases hadvance
    exact ⟨rfl, rfl⟩
  · cases hadvance
    exact ⟨rfl, rfl⟩
  · cases hadvance

/-- The worker goes on without a record of the queue or a line of the log. -/
theorem Contents.worker (h : sink.Contents) {worker : DrainPhase} (records bytes : ℕ)
    (hheld : lines [worker.held] = lines [sink.worker.held])
    (hsmall : worker.held.length ≤ kMaxRecordBytes) :
    Contents { sink with worker := worker, droppedRecords := records, droppedBytes := bytes } where
  written := by
    dsimp only
    rw [hheld]
    exact h.written
  bytes := h.bytes
  limit := h.limit
  small record hrecord := by
    rcases List.mem_cons.mp hrecord with rfl | hmem
    · exact hsmall
    · exact h.small record (List.mem_cons_of_mem _ hmem)
  kept := h.kept
  cleared := h.cleared

theorem Contents.drain (h : sink.Contents) (hdrain : sink.drain = some sink') :
    sink'.Contents := by
  have hheld := h.small _ List.mem_cons_self
  have hwritten := h.written
  unfold QlogSink.drain at hdrain
  split at hdrain
  · rename_i hworker
    split at hdrain
    · split_ifs at hdrain
      cases hdrain
      exact h.worker _ _ (by rw [hworker]; rfl) (Nat.zero_le _)
    · rename_i record queue hqueue
      cases hdrain
      rw [hworker, hqueue, List.cons_append, lines_cons] at hwritten
      have hbytes := h.bytes
      have hlimit := h.limit
      have hsmall := h.small
      rw [hqueue] at hbytes hsmall
      rw [total_cons] at hbytes
      refine ⟨?_, ?_, ?_, ?_, h.kept, ?_⟩
      · dsimp only [DrainPhase.held]
        rw [lines_singleton]
        exact hwritten
      · dsimp only
        omega
      · dsimp only
        omega
      · exact fun other hother => hsmall other (List.mem_cons_of_mem _ hother)
      · intro hstopping
        have hempty := h.cleared hstopping
        rw [hqueue] at hempty
        cases hempty
  · rename_i record hworker
    cases hdrain
    rw [hworker] at hheld
    exact h.worker _ _ (by rw [hworker]; rfl) hheld
  · rename_i record records hworker
    cases hdrain
    rw [hworker] at hheld
    exact h.worker _ _ (by rw [hworker]; rfl) hheld
  · rename_i record records bytes hworker
    cases hdrain
    rw [hworker] at hheld hwritten
    refine ⟨?_, h.bytes, h.limit, ?_, h.kept, h.cleared⟩
    · dsimp only
      split_ifs
      · exact hwritten
      · rw [List.filterMap_append]
        exact (congrArg (· ++ _) (List.append_nil _)).trans hwritten
    · intro other hother
      rcases List.mem_cons.mp hother with rfl | hmem
      · exact hheld
      · exact h.small other (List.mem_cons_of_mem _ hmem)
  · rename_i hworker
    cases hdrain
    exact h.worker _ _ (by rw [hworker]; rfl) (Nat.zero_le _)
  · rename_i byte rest hworker
    cases hdrain
    rw [hworker] at hheld hwritten
    dsimp only [DrainPhase.held] at hheld hwritten
    rw [lines_singleton, Slices.cut_of_ne_nil (by decide) (List.cons_ne_nil byte rest)] at hwritten
    refine ⟨?_, h.bytes, h.limit, ?_, h.kept, h.cleared⟩
    · dsimp only [DrainPhase.held]
      rw [List.filterMap_append, lines_singleton, List.append_assoc]
      exact hwritten
    · intro record hrecord
      rcases List.mem_cons.mp hrecord with rfl | hmem
      · exact (List.drop_sublist _ _).length_le.trans hheld
      · exact h.small record (List.mem_cons_of_mem _ hmem)
  · cases hdrain

theorem Contents.destroy (h : sink.Contents) (hdestroy : sink.destroy = some sink') :
    sink'.Contents := by
  unfold QlogSink.destroy at hdestroy
  split_ifs at hdestroy with hstopping
  cases hdestroy
  have hwritten := h.written
  rw [h.kept (Bool.eq_false_of_not_eq_true hstopping), List.append_nil] at hwritten
  refine ⟨hwritten, rfl, Nat.zero_le _, ?_, (fun hopen => by cases hopen), fun _ => rfl⟩
  intro record hrecord
  obtain rfl := List.mem_singleton.mp hrecord
  exact h.small _ List.mem_cons_self

/-! ### The end of the worker -/

/-- Without a queue, so many actions are left to the worker. -/
def remaining : DrainPhase → ℕ
  | .waiting => 1
  | .counting record => (lines [record]).length + 5
  | .countingBytes record _ => (lines [record]).length + 4
  | .noticing record _ _ => (lines [record]).length + 3
  | .writing rest => (lines [rest]).length + 2
  | .stopped => 0

theorem Contents.remaining_le (h : sink.Contents) : remaining sink.worker ≤ 10 := by
  have hsmall := h.small _ List.mem_cons_self
  have hlines : (lines [sink.worker.held]).length ≤ 5 := by
    rw [lines_singleton]
    apply Slices.length_cut_le (by decide)
    simp only [kMaxRecordBytes] at hsmall
    simp only [kMaxLogcatMessageBytes]
    omega
  cases hworker : sink.worker with
  | waiting | stopped => simp [remaining]
  | counting | countingBytes | noticing | writing =>
    rw [hworker] at hlines
    simp only [DrainPhase.held] at hlines
    simp only [remaining]
    omega

/-- While the sink is destroyed, every action brings the worker nearer to its end. -/
theorem drain_remaining (hqueue : sink.queue = []) (hdrain : sink.drain = some sink') :
    remaining sink'.worker + 1 = remaining sink.worker ∧ sink'.queue = [] ∧
      sink'.stopping = sink.stopping := by
  unfold QlogSink.drain at hdrain
  cases hworker : sink.worker with
  | waiting =>
    simp only [hworker, hqueue] at hdrain
    split_ifs at hdrain
    cases hdrain
    exact ⟨rfl, rfl, rfl⟩
  | counting record | countingBytes record records | noticing record records bytes =>
    rw [hworker] at hdrain
    cases hdrain
    exact ⟨rfl, hqueue, rfl⟩
  | writing rest =>
    rw [hworker] at hdrain
    cases rest with
    | nil =>
      cases hdrain
      exact ⟨rfl, hqueue, rfl⟩
    | cons byte rest =>
      cases hdrain
      refine ⟨?_, hqueue, rfl⟩
      simp only [remaining, lines_singleton]
      rw [Slices.cut_of_ne_nil (by decide) (List.cons_ne_nil byte rest), List.length_cons]
  | stopped =>
    rw [hworker] at hdrain
    cases hdrain

/-- The worker of a sink that is destroyed never waits. -/
theorem drain_of_stopping (hstopping : sink.stopping = true) (hworker : sink.worker ≠ .stopped) :
    ∃ sink', sink.drain = some sink' := by
  unfold drain
  split
  · split
    · rw [if_pos hstopping]
      exact ⟨_, rfl⟩
    · exact ⟨_, rfl⟩
  all_goals first
    | exact ⟨_, rfl⟩
    | exact absurd ‹_› hworker

end QlogSink

namespace QlogSystem

open QlogSink (lines kMaxLogcatMessageBytes remaining)

/-! ### What is dropped -/

/-- Every drop is counted, by its call, in the counters, by the worker or in the log. -/
structure Counts (s : QlogSystem) : Prop where
  records : total LogLine.records s.shared.log + s.shared.worker.records +
    s.shared.droppedRecords + total Enqueue.records s.parties = s.shared.drops.length
  bytes : total LogLine.bytes s.shared.log + s.shared.worker.bytes + s.shared.droppedBytes +
    total Enqueue.bytes s.parties ≤ s.shared.drops.sum

variable {s s' : QlogSystem} {i : ℕ} {owns : Bool}

theorem counts_initial : initial.Counts := ⟨rfl, le_rfl⟩

theorem enqueue_counts (h : s.Counts) (hstep : s.move i (Enqueue.advance owns) = some s') :
    s'.Counts := by
  obtain ⟨call, sink, call', hget, hadvance, rfl⟩ := System.move_eq_some.mp hstep
  have hrecords : total Enqueue.records (s.parties.set i call') + call.records =
      total Enqueue.records s.parties + call'.records := total_set hget call'
  have hbytes : total Enqueue.bytes (s.parties.set i call') + call.bytes =
      total Enqueue.bytes s.parties + call'.bytes := total_set hget call'
  obtain ⟨hcounted, hlost⟩ := h
  unfold Enqueue.advance at hadvance
  cases hphase : call.phase with
  | entering =>
    simp only [Enqueue.records, Enqueue.bytes, hphase] at hrecords hbytes
    rw [hphase] at hadvance
    dsimp only at hadvance
    split_ifs at hadvance
    all_goals
      cases hadvance
      constructor
      all_goals
        simp only [List.length_append, List.length_singleton, List.sum_append, List.sum_singleton]
          at hrecords hbytes ⊢
        omega
  | countingRecord bytes | countingBytes bytes =>
    simp only [Enqueue.records, Enqueue.bytes, hphase] at hrecords hbytes
    rw [hphase] at hadvance
    cases hadvance
    constructor
    all_goals
      dsimp only at hrecords hbytes ⊢
      omega
  | done =>
    rw [hphase] at hadvance
    cases hadvance

theorem drain_counts (h : s.Counts) {sink : QlogSink} (hdrain : s.shared.drain = some sink) :
    Counts { s with shared := sink } := by
  obtain ⟨hcounted, hlost⟩ := h
  unfold QlogSink.drain at hdrain
  cases hworker : s.shared.worker with
  | waiting =>
    rw [hworker] at hcounted hlost hdrain
    dsimp only at hdrain
    split at hdrain
    · split_ifs at hdrain
      cases hdrain
      exact ⟨hcounted, hlost⟩
    · cases hdrain
      exact ⟨hcounted, hlost⟩
  | counting record | countingBytes record records =>
    rw [hworker] at hcounted hlost hdrain
    cases hdrain
    simp only [DrainPhase.records, DrainPhase.bytes] at hcounted hlost
    constructor
    all_goals
      simp only [DrainPhase.records, DrainPhase.bytes]
      omega
  | noticing record records bytes =>
    rw [hworker] at hcounted hlost hdrain
    cases hdrain
    simp only [DrainPhase.records, DrainPhase.bytes] at hcounted hlost
    -- bytes that came between the two exchanges of the worker may be lost here
    constructor
    all_goals
      dsimp only
      split_ifs
      all_goals
        simp only [DrainPhase.records, DrainPhase.bytes, total_append, total_cons, total_nil,
          LogLine.records, LogLine.bytes]
        omega
  | writing rest =>
    rw [hworker] at hcounted hlost hdrain
    cases rest with
    | nil =>
      cases hdrain
      exact ⟨hcounted, hlost⟩
    | cons byte rest =>
      cases hdrain
      simp only [DrainPhase.records, DrainPhase.bytes] at hcounted hlost
      constructor
      all_goals
        simp only [DrainPhase.records, DrainPhase.bytes, total_append, total_cons, total_nil,
          LogLine.records, LogLine.bytes]
        omega
  | stopped =>
    rw [hworker] at hdrain
    cases hdrain

/-! ### Every run -/

theorem preserved_by_step (hcontents : s.shared.Contents) (hcounts : s.Counts) (step : QlogStep)
    (hstep : s.step step = some s') : s'.shared.Contents ∧ s'.Counts := by
  cases step with
  | call data =>
    dsimp only [QlogSystem.step] at hstep
    split_ifs at hstep
    · cases hstep
      exact ⟨hcontents, hcounts⟩
    · cases hstep
      refine ⟨hcontents, ?_, ?_⟩
      · rw [System.join, total_append]
        exact hcounts.records
      · rw [System.join, total_append]
        exact hcounts.bytes
  | enqueue i owns =>
    obtain ⟨call, sink, call', -, hadvance, hs'⟩ := System.move_eq_some.mp hstep
    refine ⟨?_, enqueue_counts hcounts hstep⟩
    rw [hs']
    exact hcontents.enqueue hadvance
  | drain =>
    obtain ⟨sink, hdrain, rfl⟩ := Option.map_eq_some_iff.mp hstep
    exact ⟨hcontents.drain hdrain, drain_counts hcounts hdrain⟩
  | destroy =>
    obtain ⟨sink, hdestroy, rfl⟩ := Option.map_eq_some_iff.mp hstep
    refine ⟨hcontents.destroy hdestroy, ?_⟩
    unfold QlogSink.destroy at hdestroy
    split_ifs at hdestroy
    cases hdestroy
    exact ⟨hcounts.records, hcounts.bytes⟩

theorem preserved_by_run {steps : List QlogStep} (hcontents : s.shared.Contents)
    (hcounts : s.Counts) (hrun : Transition.run step s steps = some s') :
    s'.shared.Contents ∧ s'.Counts :=
  Transition.run_invariant_of_step
    (fun _ label _ h hstep => preserved_by_step h.1 h.2 label hstep) hrun ⟨hcontents, hcounts⟩

/-- While the sink is destroyed, the actions of the worker are bounded by what it has left. -/
theorem count_drain_le {steps : List QlogStep} (hcontents : s.shared.Contents)
    (hcounts : s.Counts) (hstopping : s.shared.stopping = true)
    (hrun : Transition.run step s steps = some s') :
    steps.count .drain + remaining s'.shared.worker = remaining s.shared.worker ∧
      s'.shared.stopping = true := by
  induction steps generalizing s with
  | nil =>
    cases hrun
    exact ⟨Nat.zero_add _, hstopping⟩
  | cons label steps ih =>
    obtain ⟨next, hstep, hrest⟩ := Transition.run_cons.mp hrun
    obtain ⟨hcontents', hcounts'⟩ := preserved_by_step hcontents hcounts label hstep
    have hqueue := hcontents.cleared hstopping
    cases label with
    | call data =>
      dsimp only [step] at hstep
      split_ifs at hstep
      · cases hstep
        exact ih hcontents hcounts hstopping hrest
      · cases hstep
        exact ih (s := s.join { data := data }) hcontents' hcounts' hstopping hrest
    | enqueue i owns =>
      obtain ⟨call, sink, call', -, hadvance, rfl⟩ := System.move_eq_some.mp hstep
      obtain ⟨hworker, hsame⟩ := QlogSink.enqueue_worker hadvance
      have hle := ih hcontents' hcounts' (hsame.trans hstopping) hrest
      rw [hworker] at hle
      exact hle
    | drain =>
      obtain ⟨sink, hdrain, rfl⟩ := Option.map_eq_some_iff.mp hstep
      obtain ⟨hremaining, -, hsame⟩ := QlogSink.drain_remaining hqueue hdrain
      obtain ⟨hcount, hstill⟩ := ih hcontents' hcounts' (hsame.trans hstopping) hrest
      refine ⟨?_, hstill⟩
      rw [List.count_cons_self]
      dsimp only at hcount
      omega
    | destroy =>
      obtain ⟨sink, hdestroy, rfl⟩ := Option.map_eq_some_iff.mp hstep
      unfold QlogSink.destroy at hdestroy
      rw [if_pos hstopping] at hdestroy
      cases hdestroy

/-- What the sink promises about its queue, its log and what it drops. -/
structure Logged (s : QlogSystem) : Prop where
  bytes : s.shared.queuedBytes = total List.length s.shared.queue
  limit : s.shared.queuedBytes ≤ QlogSink.kMaxQueuedBytes
  /-- The log has the records in the order in which they were queued. -/
  inOrder : s.shared.log.filterMap LogLine.text <+: lines s.shared.accepted
  short : ∀ text ∈ s.shared.log.filterMap LogLine.text, text.length ≤ kMaxLogcatMessageBytes
  /-- A worker that waits has left nothing behind. -/
  written : s.shared.worker = .waiting → s.shared.queue = [] → s.shared.stopping = false →
    s.shared.log.filterMap LogLine.text = lines s.shared.accepted
  noticed : total LogLine.records s.shared.log + s.shared.droppedRecords ≤ s.shared.drops.length
  /-- No drop is forgotten, once the calls are done. -/
  exact : s.shared.worker = .waiting → (∀ call ∈ s.parties, call.phase = .done) →
    total LogLine.records s.shared.log + s.shared.droppedRecords = s.shared.drops.length
  noticedBytes : total LogLine.bytes s.shared.log + s.shared.droppedBytes ≤ s.shared.drops.sum

theorem total_records_done {calls : List Enqueue} (hdone : ∀ call ∈ calls, call.phase = .done) :
    total Enqueue.records calls = 0 := by
  induction calls with
  | nil => rfl
  | cons call calls ih =>
    rw [total_cons, ih fun other hother => hdone other (List.mem_cons_of_mem _ hother),
      Enqueue.records, hdone call List.mem_cons_self]

theorem logged_of_preserved (hcontents : s.shared.Contents) (hcounts : s.Counts) : s.Logged where
  bytes := hcontents.bytes
  limit := hcontents.limit
  inOrder := ⟨_, hcontents.written⟩
  short text htext := by
    have hmem : text ∈ lines s.shared.accepted := by
      rw [← hcontents.written]
      exact List.mem_append_left _ htext
    obtain ⟨record, -, hpiece⟩ := List.mem_flatMap.mp hmem
    exact Slices.length_le_of_mem_cut hpiece
  written hworker hqueue hopen := by
    have hwritten := hcontents.written
    rw [hworker, hqueue, hcontents.kept hopen] at hwritten
    exact (List.append_nil _).symm.trans hwritten
  noticed := by
    have hrecords := hcounts.records
    omega
  exact hworker hdone := by
    have hrecords := hcounts.records
    rw [hworker, total_records_done hdone] at hrecords
    exact hrecords
  noticedBytes := by
    have hbytes := hcounts.bytes
    omega

/-- However the calls, the worker and the destructor are interleaved, the log has the queued
records in their order, the drops are counted, and a worker of a sink that is destroyed comes to
its end within ten actions. -/
theorem run_logged {steps later : List QlogStep} (hrun : Transition.run step initial steps = some s)
    (hlater : Transition.run step s later = some s') :
    s.Logged ∧ (s.shared.stopping = true → later.count .drain ≤ 10 ∧
      (s'.shared.worker ≠ .stopped → ∃ sink, s'.shared.drain = some sink)) := by
  obtain ⟨hcontents, hcounts⟩ :=
    preserved_by_run QlogSink.contents_initial counts_initial hrun
  refine ⟨logged_of_preserved hcontents hcounts, fun hstopping => ?_⟩
  obtain ⟨hcount, hstill⟩ := count_drain_le hcontents hcounts hstopping hlater
  have hle := hcontents.remaining_le
  exact ⟨by omega, QlogSink.drain_of_stopping hstill⟩

/-- One record is written while a second one is dropped, and the sink is destroyed after that. -/
theorem run_logged_destroyed :
    ∃ s s', Transition.run step initial [.call [1, 2], .call [3], .enqueue 0 true, .enqueue 1 false,
        .drain, .enqueue 1 true, .drain, .enqueue 1 true, .drain, .drain, .drain, .destroy] =
          some s ∧
      Transition.run step s [.drain, .drain] = some s' ∧
      s.shared.log = [.notice 1 1, .record [1, 2]] ∧ s.shared.log.filterMap LogLine.text <+:
        lines s.shared.accepted ∧ [QlogStep.drain, .drain].count .drain ≤ 10 := by
  refine ⟨_, _, rfl, rfl, by decide +kernel, ?_⟩
  have h := @run_logged _ _ [.call [1, 2], .call [3], .enqueue 0 true, .enqueue 1 false,
    .drain, .enqueue 1 true, .drain, .enqueue 1 true, .drain, .drain, .drain, .destroy]
    [.drain, .drain] rfl rfl
  exact ⟨h.1.inOrder, (h.2 rfl).1⟩

end QlogSystem

end KatHttp3
