import KatHttp3.Kotlin.BodyDelivery
import KatHttp3.Library.Transition
import Mathlib.Data.Int.Notation
import Mathlib.Data.List.Basic
import Mathlib.Tactic.SplitIfs

/-!
# Body batches

How `event_cb` hands the body of a response to Kotlin. The bytes of BODY events
are collected in a batch, which becomes one array when it is full, when its first
byte is old enough, and before the terminal event. What JNI does is an input of
each event, and HEADERS events, which do not touch the batch, are left out.
-/

namespace KatHttp3

open JniBodyBatch

/-- A call of the Kotlin callback. -/
inductive Upcall
  | onBody (data : List UInt8)
  | onComplete
  | onError (code : ℤ)
  deriving DecidableEq

/-- What happens in `flush_body_batch`: there is no array, it cannot be filled, or
the callback throws. -/
inductive JniOutcome
  | ok
  | noArray
  | regionFailed
  | thrown
  deriving DecidableEq

def kathttp3ErrNomem : ℤ := -12

structure CallbackState where
  bodyBatch : JniBodyBatch := {}
  terminal : Bool := false
  failureReported : Bool := false
  /-- The calls made so far. -/
  upcalls : List Upcall := []

/-- A BODY event has a null pointer in place of its bytes, or the bytes. -/
inductive JniEvent
  | body (data : Option (List UInt8))
  | complete
  | error (code : ℤ)
  deriving DecidableEq

/-- An event, whether its thread has a JNI environment, the reading of the clock and
what happens in each flush. -/
structure EventCall where
  event : JniEvent
  attached : Bool := true
  now : ℕ := 0
  jni : ℕ → JniOutcome := fun _ => .ok

namespace CallbackState

variable (state : CallbackState)

def upcall (call : Upcall) : CallbackState := { state with upcalls := state.upcalls ++ [call] }

def flushBodyBatch (jni : JniOutcome) : Bool × CallbackState :=
  if state.bodyBatch.bytes = [] then (true, state)
  else
    match jni with
    | .noArray | .regionFailed => (false, state)
    | .thrown => (false, state.upcall (.onBody state.bodyBatch.bytes))
    | .ok => (true, { state.upcall (.onBody state.bodyBatch.bytes) with bodyBatch := {} })

def reportJniBodyFailure : CallbackState :=
  if state.failureReported then state
  else { state.upcall (.onError kathttp3ErrNomem) with failureReported := true }

/-- A flush in the loop, which ends with a report when the flush fails. -/
def flushOrReport (jni : JniOutcome) (next : CallbackState → Option CallbackState) :
    Option CallbackState :=
  match state.flushBodyBatch jni with
  | (false, state) => some state.reportJniBodyFailure
  | (true, state) => next state

/-- The loop over the bytes of a BODY event, for so many rounds at most. -/
def bodyLoop (jni : ℕ → JniOutcome) (now : ℕ) (data : List UInt8) :
    ℕ → ℕ → ℕ → CallbackState → Option CallbackState
  | 0, _, _, _ => none
  | fuel + 1, offset, flushes, state =>
    if offset < data.length then
      let copied := state.bodyBatch.room (data.drop offset).length
      let batch := state.bodyBatch.append (data.drop offset) now
      let appended := { state with bodyBatch := batch }
      if copied = 0 then
        appended.flushOrReport (jni flushes) (bodyLoop jni now data fuel offset (flushes + 1))
      else if batch.shouldFlush now then
        appended.flushOrReport (jni flushes)
          (bodyLoop jni now data fuel (offset + copied) (flushes + 1))
      else bodyLoop jni now data fuel (offset + copied) flushes appended
    else some state

/-- Every second round copies a byte. -/
def bodyEvent (jni : ℕ → JniOutcome) (now : ℕ) (data : List UInt8) : Option CallbackState :=
  bodyLoop jni now data (2 * data.length + 2) 0 0 state

/-- The terminal event, with the call that it makes. -/
def terminalEvent (jni : ℕ → JniOutcome) (call : Upcall) : CallbackState :=
  let state := { state with terminal := true }
  if state.failureReported then state
  else
    match state.flushBodyBatch (jni 0) with
    | (false, state) => state.reportJniBodyFailure
    | (true, state) => state.upcall call

def eventCb (call : EventCall) : Option CallbackState :=
  if state.terminal = true ∨ call.attached = false then some state
  else
    match call.event with
    | .body data =>
      if state.failureReported then some state
      else
        match data with
        | none => some state.reportJniBodyFailure
        | some data => state.bodyEvent call.jni call.now data
    | .complete => some (state.terminalEvent call.jni .onComplete)
    | .error code => some (state.terminalEvent call.jni (.onError code))

end CallbackState

/-! ### The batch -/

namespace JniBodyBatch

variable {batch : JniBodyBatch} {data : List UInt8} (now : ℕ)

variable (data) in
/-- A full batch copies nothing and stays as it is. -/
theorem append_of_full (h : batch.bytes.length = kFlushBytes) :
    batch.append data now = batch ∧ batch.room data.length = 0 := by
  have hroom : batch.room data.length = 0 := by
    simp only [room, size, h]
    omega
  refine ⟨?_, hroom⟩
  obtain ⟨bytes, firstByteAtNs, size_le⟩ := batch
  simp [append, hroom]

/-- A batch that is not full takes over some bytes. -/
theorem append_of_not_full (hdata : data ≠ []) (h : batch.bytes.length ≠ kFlushBytes) :
    (batch.append data now).bytes = batch.bytes ++ data.take (batch.room data.length) ∧
      0 < batch.room data.length ∧ batch.room data.length ≤ data.length := by
  have hpos := List.length_pos_iff.mpr hdata
  have hroom := batch.size_le
  refine ⟨rfl, ?_, ?_⟩
  · simp only [room, size]
    omega
  · apply Nat.min_le_left

end JniBodyBatch

namespace Upcall

/-- The bytes of an array handed to `onBody`. -/
def bytes : Upcall → List UInt8
  | .onBody data => data
  | _ => []

/-- A call of `onBody` with some bytes, and not too many. -/
def IsArray (call : Upcall) : Prop :=
  ∃ data, call = .onBody data ∧ data ≠ [] ∧ data.length ≤ kFlushBytes

end Upcall

namespace CallbackState

variable {state : CallbackState}

/-- The bytes that have been handed on and those in the batch. -/
def received (state : CallbackState) : List UInt8 :=
  state.upcalls.flatMap Upcall.bytes ++ state.bodyBatch.bytes

/-- A state in which only arrays have been handed on. -/
structure Open (state : CallbackState) : Prop where
  notTerminal : state.terminal = false
  noFailure : state.failureReported = false
  arrays : ∀ call ∈ state.upcalls, call.IsArray

theorem Open.setBatch (h : state.Open) (batch : JniBodyBatch) :
    ({ state with bodyBatch := batch } : CallbackState).Open :=
  ⟨h.notTerminal, h.noFailure, h.arrays⟩

/-- A flush that succeeds leaves an empty batch and hands on what was in it. -/
theorem flushBodyBatch_ok (h : state.Open) :
    ∃ state', state.flushBodyBatch .ok = (true, state') ∧ state'.bodyBatch.bytes = [] ∧
      state'.Open ∧ state'.received = state.received := by
  unfold flushBodyBatch
  by_cases hempty : state.bodyBatch.bytes = []
  · exact ⟨state, if_pos hempty, hempty, h, rfl⟩
  · refine ⟨_, if_neg hempty, rfl, ⟨h.notTerminal, h.noFailure, ?_⟩, ?_⟩
    · intro call hcall
      rcases List.mem_append.mp hcall with hold | hnew
      · exact h.arrays call hold
      · obtain rfl := List.mem_singleton.mp hnew
        exact ⟨_, rfl, hempty, state.bodyBatch.size_le⟩
    · simp [received, upcall, Upcall.bytes]

/-- A flush that succeeds empties the batch, whatever has gone before. -/
theorem flushBodyBatch_true {state' : CallbackState} {jni : JniOutcome}
    (h : state.flushBodyBatch jni = (true, state')) : state'.bodyBatch.bytes = [] := by
  unfold flushBodyBatch at h
  split_ifs at h with hempty
  · cases h
    exact hempty
  · cases jni <;> cases h
    rfl

/-! ### A BODY event -/

/-- What the loop still has to do: a full batch costs a round that copies nothing. -/
def bodyWork (data : List UInt8) (offset : ℕ) (state : CallbackState) : ℕ :=
  2 * (data.length - offset) + if state.bodyBatch.bytes.length = kFlushBytes then 1 else 0

theorem bodyWork_of_empty (data : List UInt8) (offset : ℕ) (h : state.bodyBatch.bytes = []) :
    bodyWork data offset state = 2 * (data.length - offset) := by
  have hnot : ¬([] : List UInt8).length = kFlushBytes := by decide
  simp only [bodyWork, h, if_neg hnot, Nat.add_zero]

/-- The loop ends in a state that has received so many more bytes, if no flush fails. -/
def Receives (jni : ℕ → JniOutcome) (state : CallbackState) (bytes : List UInt8)
    (result : Option CallbackState) : Prop :=
  ∃ state', result = some state' ∧
    ((∀ k, jni k = .ok) → state.Open → state'.Open ∧ state'.received = state.received ++ bytes)

theorem flushOrReport_receives {jni : ℕ → JniOutcome} {bytes : List UInt8} (flushes : ℕ)
    {next : CallbackState → Option CallbackState}
    (hnext : ∀ state' : CallbackState, state'.bodyBatch.bytes = [] →
      Receives jni state' bytes (next state')) :
    Receives jni state bytes (state.flushOrReport (jni flushes) next) := by
  unfold flushOrReport
  cases hflush : state.flushBodyBatch (jni flushes) with
  | mk ok flushed =>
    cases ok with
    | false =>
      refine ⟨_, rfl, ?_⟩
      intro hok hopen
      obtain ⟨_, htrue, -⟩ := flushBodyBatch_ok hopen
      rw [hok flushes, htrue] at hflush
      cases hflush
    | true =>
      obtain ⟨state', hresult, hreceives⟩ := hnext flushed (flushBodyBatch_true hflush)
      refine ⟨state', hresult, ?_⟩
      intro hok hopen
      obtain ⟨state₁, htrue, -, hopen₁, hreceived⟩ := flushBodyBatch_ok hopen
      rw [hok flushes, htrue] at hflush
      cases hflush
      rw [← hreceived]
      exact hreceives hok hopen₁

/-- Bytes that have gone into the batch are received. -/
theorem Receives.of_append {jni : ℕ → JniOutcome} {data : List UInt8} {copied : ℕ}
    {batch : JniBodyBatch} {result : Option CallbackState}
    (hbatch : batch.bytes = state.bodyBatch.bytes ++ data.take copied)
    (h : Receives jni { state with bodyBatch := batch } (data.drop copied) result) :
    Receives jni state data result := by
  obtain ⟨state', hresult, hreceives⟩ := h
  refine ⟨state', hresult, ?_⟩
  intro hok hopen
  obtain ⟨hopen', hreceived⟩ := hreceives hok (hopen.setBatch batch)
  refine ⟨hopen', hreceived.trans ?_⟩
  simp [received, hbatch]

theorem bodyLoop_receives (jni : ℕ → JniOutcome) (now : ℕ) (data : List UInt8) {fuel offset : ℕ}
    (flushes : ℕ) (hfuel : bodyWork data offset state < fuel) :
    Receives jni state (data.drop offset) (bodyLoop jni now data fuel offset flushes state) := by
  induction fuel generalizing offset flushes state with
  | zero => omega
  | succ fuel ih =>
    unfold bodyLoop
    by_cases hoffset : offset < data.length
    · rw [if_pos hoffset]
      dsimp only
      have hdata : data.drop offset ≠ [] := by simpa using hoffset
      by_cases hfull : state.bodyBatch.bytes.length = kFlushBytes
      · -- nothing is copied, and the flush makes room
        obtain ⟨hsame, hnothing⟩ := append_of_full (data.drop offset) now hfull
        rw [hsame, hnothing, if_pos rfl]
        apply flushOrReport_receives
        intro state' hempty
        apply ih
        rw [bodyWork_of_empty data offset hempty]
        rw [bodyWork, if_pos hfull] at hfuel
        omega
      · obtain ⟨hbytes, hpos, hle⟩ := append_of_not_full now hdata hfull
        generalize state.bodyBatch.append (data.drop offset) now = batch at hbytes ⊢
        generalize state.bodyBatch.room (data.drop offset).length = copied at hbytes hpos hle ⊢
        rw [List.length_drop] at hle
        rw [bodyWork, if_neg hfull] at hfuel
        rw [if_neg (Nat.ne_of_gt hpos)]
        apply Receives.of_append hbytes
        rw [List.drop_drop]
        split_ifs with hflush
        · apply flushOrReport_receives
          intro state' hempty
          apply ih
          rw [bodyWork_of_empty data _ hempty]
          omega
        · apply ih
          unfold bodyWork
          split_ifs <;> omega
    · rw [if_neg hoffset, List.drop_eq_nil_of_le (Nat.not_lt.mp hoffset)]
      refine ⟨state, rfl, ?_⟩
      intro _ hopen
      exact ⟨hopen, (List.append_nil _).symm⟩

theorem bodyEvent_receives (state : CallbackState) (jni : ℕ → JniOutcome) (now : ℕ)
    (data : List UInt8) :
    Receives jni state data (state.bodyEvent jni now data) := by
  apply bodyLoop_receives jni now data 0
  unfold bodyWork
  split_ifs <;> omega

/-- Every event ends, whatever JNI does. -/
theorem eventCb_ends (state : CallbackState) (call : EventCall) :
    ∃ state', state.eventCb call = some state' := by
  unfold eventCb
  by_cases hover : state.terminal = true ∨ call.attached = false
  · exact ⟨state, if_pos hover⟩
  rw [if_neg hover]
  cases call.event with
  | body data =>
    by_cases hfailure : state.failureReported = true
    · exact ⟨state, if_pos hfailure⟩
    dsimp only
    rw [if_neg hfailure]
    cases data with
    | none => exact ⟨_, rfl⟩
    | some data =>
      obtain ⟨state', hresult, -⟩ := bodyEvent_receives state call.jni call.now data
      exact ⟨state', hresult⟩
  | complete => exact ⟨_, rfl⟩
  | error code => exact ⟨_, rfl⟩

/-! ### A whole response -/

/-- A BODY event with these bytes at this reading of the clock. -/
def bodyCall (payload : List UInt8 × ℕ) : EventCall :=
  { event := .body (some payload.1), now := payload.2 }

theorem run_bodyCalls (h : state.Open) (payloads : List (List UInt8 × ℕ)) :
    ∃ state', Transition.run eventCb state (payloads.map bodyCall) = some state' ∧ state'.Open ∧
      state'.received = state.received ++ payloads.flatMap Prod.fst := by
  induction payloads generalizing state with
  | nil => exact ⟨state, rfl, h, (List.append_nil _).symm⟩
  | cons payload payloads ih =>
    obtain ⟨next, hevent, hreceives⟩ :=
      bodyEvent_receives state (fun _ => .ok) payload.2 payload.1
    obtain ⟨hnext, hreceived⟩ := hreceives (fun _ => rfl) h
    have hstep : state.eventCb (bodyCall payload) = some next := by
      simpa [eventCb, bodyCall, h.notTerminal, h.noFailure] using hevent
    obtain ⟨state', hrun, hopen, hall⟩ := ih hnext
    refine ⟨state', Transition.run_cons.mpr ⟨next, hstep, hrun⟩, hopen, ?_⟩
    rw [hall, hreceived, List.flatMap_cons, List.append_assoc]

/-- The terminal event hands on what is left in the batch before its own call. -/
theorem terminalEvent_upcalls (h : state.Open) (call : Upcall) :
    ∃ calls, (state.terminalEvent (fun _ => .ok) call).upcalls = calls ++ [call] ∧
      (∀ other ∈ calls, other.IsArray) ∧ calls.flatMap Upcall.bytes = state.received := by
  have hnoFailure := h.noFailure
  unfold terminalEvent flushBodyBatch
  by_cases hempty : state.bodyBatch.bytes = []
  · refine ⟨state.upcalls, ?_, h.arrays, ?_⟩
    · simp [hnoFailure, hempty, upcall]
    · simp [received, hempty]
  · refine ⟨state.upcalls ++ [.onBody state.bodyBatch.bytes], ?_, ?_, ?_⟩
    · simp [hnoFailure, hempty, upcall]
    · intro other hother
      rcases List.mem_append.mp hother with hold | hnew
      · exact h.arrays other hold
      · obtain rfl := List.mem_singleton.mp hnew
        exact ⟨_, rfl, hempty, state.bodyBatch.size_le⟩
    · simp [received, Upcall.bytes]

/-- COMPLETE, or ERROR with a code. -/
def terminalCall (code : Option ℤ) : EventCall := { event := code.elim .complete .error }

def terminalUpcall (code : Option ℤ) : Upcall := code.elim .onComplete .onError

theorem eventCb_terminalCall (h : state.Open) (code : Option ℤ) :
    state.eventCb (terminalCall code) =
      some (state.terminalEvent (fun _ => .ok) (terminalUpcall code)) := by
  cases code <;> simp [eventCb, terminalCall, terminalUpcall, h.notTerminal]

theorem exists_arrays {calls : List Upcall} (h : ∀ call ∈ calls, call.IsArray) :
    ∃ arrays : List (List UInt8), calls = arrays.map .onBody ∧
      arrays.flatten = calls.flatMap Upcall.bytes ∧
        ∀ array ∈ arrays, array ≠ [] ∧ array.length ≤ kFlushBytes := by
  induction calls with
  | nil => exact ⟨[], rfl, rfl, nofun⟩
  | cons call calls ih =>
    obtain ⟨arrays, hcalls, hbytes, harrays⟩ := ih fun c hc => h c (List.mem_cons_of_mem _ hc)
    obtain ⟨data, rfl, hdata⟩ := h call List.mem_cons_self
    refine ⟨data :: arrays, by rw [hcalls, List.map_cons], ?_, ?_⟩
    · rw [List.flatten_cons, hbytes]
      rfl
    · intro array harray
      rcases List.mem_cons.mp harray with rfl | hmem
      · exact hdata
      · exact harrays array hmem

/-- For all payloads at all readings of the clock, the arrays handed to `onBody` are the
payloads in other pieces, all before the only terminal call. -/
theorem bodyBatching_transparent (payloads : List (List UInt8 × ℕ)) (code : Option ℤ) :
    ∃ (arrays : List (List UInt8)) (state : CallbackState),
      Transition.run eventCb {} (payloads.map bodyCall ++ [terminalCall code]) = some state ∧
        state.upcalls = arrays.map .onBody ++ [terminalUpcall code] ∧
          arrays.flatten = payloads.flatMap Prod.fst ∧
            ∀ array ∈ arrays, array ≠ [] ∧ array.length ≤ 64 * 1024 := by
  have hstart : ({} : CallbackState).Open := ⟨rfl, rfl, nofun⟩
  obtain ⟨state, hrun, hopen, hreceived⟩ := run_bodyCalls hstart payloads
  obtain ⟨calls, hcalls, hall, hbytes⟩ := terminalEvent_upcalls hopen (terminalUpcall code)
  obtain ⟨arrays, rfl, hflatten, harrays⟩ := exists_arrays hall
  refine ⟨arrays, _, ?_, hcalls, ?_, harrays⟩
  · apply Transition.run_append.mpr
    exact ⟨state, hrun, Transition.run_cons.mpr ⟨_, eventCb_terminalCall hopen code, rfl⟩⟩
  · rw [hflatten, hbytes, hreceived]
    apply List.nil_append

end CallbackState

end KatHttp3
