import KatHttp3.Library.Transition
import Mathlib.Data.Nat.Notation
import Mathlib.Tactic.SplitIfs
import Mathlib.Tactic.ByContra

/-!
# Delivery of a streaming body

One streaming request from the `BODY` events of the core to the collector of its
flow: `JniBodyBatch`, `event_cb` and `flush_body_batch`, the callback of
`executeStreaming` and `StreamingResponseQueue`. An event is handled in one step.
-/

namespace KatHttp3

namespace JniBodyBatch

def kFlushBytes : ℕ := 64 * 1024

def kFlushDelayNs : ℕ := 1000 * 1000

end JniBodyBatch

open JniBodyBatch in
structure JniBodyBatch where
  bytes : List UInt8 := []
  firstByteAtNs : ℕ := 0
  size_le : bytes.length ≤ kFlushBytes := by exact Nat.zero_le _

namespace JniBodyBatch

variable (batch : JniBodyBatch)

def size : ℕ := batch.bytes.length

/-- How many bytes `append` copies. -/
def room (length : ℕ) : ℕ := min length (kFlushBytes - batch.size)

def append (data : List UInt8) (now : ℕ) : JniBodyBatch where
  bytes := batch.bytes ++ data.take (batch.room data.length)
  firstByteAtNs :=
    if batch.room data.length = 0 ∨ batch.size ≠ 0 then batch.firstByteAtNs else now
  size_le := by
    have hsize := batch.size_le
    simp only [room, size, List.length_append, List.length_take]
    omega

@[simp] theorem append_size (data : List UInt8) (now : ℕ) :
    (batch.append data now).size = batch.size + batch.room data.length := by
  simp only [append, size, room, List.length_append, List.length_take]
  omega

def shouldFlush (now : ℕ) : Bool :=
  batch.size = kFlushBytes ∨
    batch.size ≠ 0 ∧ batch.firstByteAtNs ≤ now ∧ kFlushDelayNs ≤ now - batch.firstByteAtNs

variable {batch}

theorem shouldFlush_append (hroom : batch.size < kFlushBytes) {data : List UInt8}
    (hdata : data ≠ []) (now : ℕ) :
    (batch.append data now).shouldFlush now = true ↔
      kFlushBytes ≤ batch.size + data.length ∨
        batch.size ≠ 0 ∧ kFlushDelayNs ≤ now - batch.firstByteAtNs := by
  have hlength := List.length_pos_iff.mpr hdata
  have hcopied : 0 < batch.room data.length := by
    simp only [room]
    omega
  have hfull : batch.size + batch.room data.length = kFlushBytes ↔
      kFlushBytes ≤ batch.size + data.length := by
    simp only [room]
    omega
  have hdelay : 0 < kFlushDelayNs := Nat.succ_pos _
  simp only [shouldFlush, append_size, decide_eq_true_eq, hfull]
  rw [or_congr_right]
  by_cases hempty : batch.size = 0
  · have hfirst : (batch.append data now).firstByteAtNs = now := by
      simp [append, hempty, Nat.ne_of_gt hcopied]
    rw [hfirst]
    omega
  · have hfirst : (batch.append data now).firstByteAtNs = batch.firstByteAtNs := by
      simp [append, hempty]
    rw [hfirst]
    omega

end JniBodyBatch

open JniBodyBatch

/-- `StreamingResponseQueue`, and what its budget counts for all streams. -/
structure StreamingResponseQueue where
  channel : List (List UInt8) := []
  bufferedBodyBytes : ℕ := 0
  terminal : Bool := false
  used : ℕ := 0

/-- What is outside the delivery of one body. -/
structure DeliveryLimits where
  perStreamLimit : ℕ
  connectionLimit : ℕ
  /-- Whether the Java array for the flush after so many others is to be had. -/
  newByteArray : ℕ → Bool

namespace StreamingResponseQueue

variable (queue : StreamingResponseQueue) (limits : DeliveryLimits)

/-- `offer` for a body event. -/
def offer (bytes : List UInt8) : Option StreamingResponseQueue :=
  if queue.terminal then none
  else if limits.perStreamLimit - queue.bufferedBodyBytes < bytes.length then none
  else if 0 < bytes.length ∧ limits.connectionLimit - queue.used < bytes.length then none
  else some { queue with
    channel := queue.channel ++ [bytes]
    bufferedBodyBytes := queue.bufferedBodyBytes + bytes.length
    used := queue.used + bytes.length }

def release (bytes : ℕ) : StreamingResponseQueue :=
  { queue with
    bufferedBodyBytes := queue.bufferedBodyBytes - min bytes queue.bufferedBodyBytes
    used := queue.used - min bytes queue.bufferedBodyBytes }

def finish : StreamingResponseQueue := { queue with terminal := true }

def abort : StreamingResponseQueue :=
  if queue.terminal then queue
  else
    { channel := []
      bufferedBodyBytes := 0
      terminal := true
      used := queue.used - queue.bufferedBodyBytes }

end StreamingResponseQueue

/-- A `BODY` event: when it came, what the batch held then and for how long, and its length. -/
structure BodyArrival where
  time : ℕ
  held : ℕ
  waited : ℕ
  length : ℕ

/-- The event fills up the batch, or it comes late enough to flush it and fits in it. -/
def BodyArrival.drains (arrival : BodyArrival) : Bool :=
  (arrival.held + arrival.length) % kFlushBytes = 0 ∨
    arrival.held ≠ 0 ∧ arrival.length ≠ 0 ∧ kFlushDelayNs ≤ arrival.waited ∧
      arrival.held + arrival.length ≤ kFlushBytes

theorem BodyArrival.drains_iff {arrival : BodyArrival} :
    arrival.drains = true ↔ (arrival.held + arrival.length) % 65536 = 0 ∨
      arrival.held ≠ 0 ∧ arrival.length ≠ 0 ∧ kFlushDelayNs ≤ arrival.waited ∧
        arrival.held + arrival.length ≤ 65536 :=
  decide_eq_true_iff

structure BodyDelivery where
  now : ℕ := 0
  batch : JniBodyBatch := {}
  flushes : ℕ := 0
  /-- The native request has had its terminal event. -/
  ended : Bool := false
  failureReported : Bool := false
  /-- The Kotlin callback is through. -/
  terminal : Bool := false
  queue : StreamingResponseQueue := {}
  /-- The body so far, what of it was passed to `onBody`, and what the collector has. -/
  received : List UInt8 := []
  delivered : List UInt8 := []
  collected : List UInt8 := []
  /-- How many bytes were returned with `consume`. -/
  consumed : ℕ := 0
  last : Option BodyArrival := none
  /-- `onBody` was refused, or the batch could not be flushed. -/
  failed : Bool := false

namespace BodyDelivery

variable (limits : DeliveryLimits) (delivery : BodyDelivery)

/-- `callback.fail`. -/
def fail : BodyDelivery :=
  if delivery.terminal then delivery
  else { delivery with terminal := true, queue := delivery.queue.abort }

def onComplete : BodyDelivery :=
  if delivery.terminal then delivery
  else { delivery with terminal := true, queue := delivery.queue.finish }

/-- The last callback of a request. -/
def finish (complete : Bool) : BodyDelivery :=
  if complete then delivery.onComplete else delivery.fail

/-- `onBody`: where the queue has no room, the request is cancelled and fails. -/
def onBody (data : List UInt8) : BodyDelivery :=
  match delivery.queue.offer limits data with
  | some queue =>
    { delivery with
      queue
      delivered := delivery.delivered ++ data
      consumed := delivery.consumed + data.length }
  | none => { delivery.fail with delivered := delivery.delivered ++ data, failed := true }

/-- `flush_body_batch`, and whether it succeeds. -/
def flushBodyBatch : Bool × BodyDelivery :=
  if delivery.batch.size = 0 then (true, delivery)
  else if limits.newByteArray delivery.flushes then
    (true, { delivery.onBody limits delivery.batch.bytes with
      batch := {}
      flushes := delivery.flushes + 1 })
  else (false, { delivery with flushes := delivery.flushes + 1 })

def reportJniBodyFailure : BodyDelivery :=
  if delivery.failureReported then delivery
  else { delivery.fail with failureReported := true, failed := true }

theorem flushBodyBatch_size {delivery' : BodyDelivery}
    (h : delivery.flushBodyBatch limits = (true, delivery')) : delivery'.batch.size = 0 := by
  unfold flushBodyBatch at h
  split_ifs at h with hempty harray
  · cases h
    exact hempty
  · cases h
    rfl
  · cases h

/-- The loop of `event_cb` over the data that is left of a `BODY` event. -/
def appendData (data : List UInt8) (delivery : BodyDelivery) : BodyDelivery :=
  if hdata : data = [] then delivery
  else if hroom : delivery.batch.room data.length = 0 then
    match _hflush : delivery.flushBodyBatch limits with
    | (true, flushed) => appendData data flushed
    | (false, unflushed) => unflushed.reportJniBodyFailure
  else
    let rest := data.drop (delivery.batch.room data.length)
    let appended := { delivery with batch := delivery.batch.append data delivery.now }
    if appended.batch.shouldFlush appended.now then
      match appended.flushBodyBatch limits with
      | (true, flushed) => appendData rest flushed
      | (false, unflushed) => unflushed.reportJniBodyFailure
    else appendData rest appended
termination_by (data.length, delivery.batch.size)
decreasing_by
  · have hempty := delivery.flushBodyBatch_size limits _hflush
    have hlength := List.length_pos_iff.mpr hdata
    simp only [JniBodyBatch.room, kFlushBytes] at hroom
    rw [hempty]
    exact Prod.Lex.right _ (by omega)
  · have hlength := List.length_pos_iff.mpr hdata
    exact Prod.Lex.left _ _ (by rw [List.length_drop]; omega)
  · have hlength := List.length_pos_iff.mpr hdata
    exact Prod.Lex.left _ _ (by rw [List.length_drop]; omega)

/-- What a `BODY` event brings. -/
def arrive (data : List UInt8) : BodyDelivery :=
  { delivery with
    received := delivery.received ++ data
    last := some {
      time := delivery.now
      held := delivery.batch.size
      waited := delivery.now - delivery.batch.firstByteAtNs
      length := data.length } }

/-- A `BODY` event. -/
def body (data : List UInt8) : BodyDelivery :=
  if delivery.failureReported then delivery.arrive data
  else appendData limits data (delivery.arrive data)

/-- The terminal event, `COMPLETE` or `ERROR`. -/
def terminate (complete : Bool) : BodyDelivery :=
  let ended := { delivery with ended := true }
  if delivery.failureReported then ended
  else
    match ended.flushBodyBatch limits with
    | (true, flushed) => flushed.finish complete
    | (false, unflushed) => unflushed.reportJniBodyFailure

/-- The collector takes the next chunk. -/
def collect : Option BodyDelivery :=
  match delivery.queue.channel with
  | [] => none
  | chunk :: chunks =>
    some { delivery with
      queue := { delivery.queue with channel := chunks }.release chunk.length
      collected := delivery.collected ++ chunk }

end BodyDelivery

inductive DeliveryStep
  | tick (ns : ℕ)
  | body (data : List UInt8)
  | terminate (complete : Bool)
  | collect
  /-- Another stream reserves bytes in the budget. -/
  | reserve (bytes : ℕ)
  | release (bytes : ℕ)

namespace BodyDelivery

def step (limits : DeliveryLimits) (delivery : BodyDelivery) : DeliveryStep → Option BodyDelivery
  | .tick ns => some { delivery with now := delivery.now + ns }
  | .body data => if delivery.ended then none else some (delivery.body limits data)
  | .terminate complete => if delivery.ended then none else some (delivery.terminate limits complete)
  | .collect => delivery.collect
  | .reserve bytes =>
    if limits.connectionLimit - delivery.queue.used < bytes then none
    else some { delivery with
      queue := { delivery.queue with used := delivery.queue.used + bytes } }
  | .release bytes =>
    some { delivery with queue := { delivery.queue with used := delivery.queue.used - bytes } }

/-- Nothing that a `BODY` event brings has changed. -/
structure Keeps (delivery delivery' : BodyDelivery) : Prop where
  now : delivery'.now = delivery.now
  ended : delivery'.ended = delivery.ended
  received : delivery'.received = delivery.received
  last : delivery'.last = delivery.last

variable {limits : DeliveryLimits} {delivery delivery' flushed : BodyDelivery}

theorem Keeps.refl (delivery : BodyDelivery) : delivery.Keeps delivery := ⟨rfl, rfl, rfl, rfl⟩

theorem Keeps.trans {delivery'' : BodyDelivery} (h : delivery.Keeps delivery')
    (h' : delivery'.Keeps delivery'') : delivery.Keeps delivery'' :=
  ⟨h'.now.trans h.now, h'.ended.trans h.ended, h'.received.trans h.received,
    h'.last.trans h.last⟩

theorem keeps_fail (delivery : BodyDelivery) : delivery.Keeps delivery.fail := by
  unfold fail
  split_ifs
  · exact Keeps.refl delivery
  · exact ⟨rfl, rfl, rfl, rfl⟩

theorem keeps_onComplete (delivery : BodyDelivery) : delivery.Keeps delivery.onComplete := by
  unfold onComplete
  split_ifs
  · exact Keeps.refl delivery
  · exact ⟨rfl, rfl, rfl, rfl⟩

theorem keeps_onBody (limits : DeliveryLimits) (delivery : BodyDelivery) (data : List UInt8) :
    delivery.Keeps (delivery.onBody limits data) := by
  unfold onBody
  split
  · exact ⟨rfl, rfl, rfl, rfl⟩
  · obtain ⟨hnow, hended, hreceived, hlast⟩ := keeps_fail delivery
    exact ⟨hnow, hended, hreceived, hlast⟩

theorem keeps_flushBodyBatch (limits : DeliveryLimits) (delivery : BodyDelivery) :
    delivery.Keeps (delivery.flushBodyBatch limits).2 := by
  unfold flushBodyBatch
  split_ifs
  · exact Keeps.refl delivery
  · obtain ⟨hnow, hended, hreceived, hlast⟩ :=
      keeps_onBody limits delivery delivery.batch.bytes
    exact ⟨hnow, hended, hreceived, hlast⟩
  · exact ⟨rfl, rfl, rfl, rfl⟩

theorem keeps_reportJniBodyFailure (delivery : BodyDelivery) :
    delivery.Keeps delivery.reportJniBodyFailure := by
  unfold reportJniBodyFailure
  split_ifs
  · exact Keeps.refl delivery
  · obtain ⟨hnow, hended, hreceived, hlast⟩ := keeps_fail delivery
    exact ⟨hnow, hended, hreceived, hlast⟩

theorem keeps_of_flush {succeeds : Bool}
    (h : delivery.flushBodyBatch limits = (succeeds, flushed)) : delivery.Keeps flushed := by
  have hkeeps := keeps_flushBodyBatch limits delivery
  rwa [h] at hkeeps

theorem keeps_appendData (limits : DeliveryLimits) (data : List UInt8) (delivery : BodyDelivery) :
    delivery.Keeps (appendData limits data delivery) := by
  fun_induction appendData limits data delivery with
  | case1 delivery => exact Keeps.refl delivery
  | case2 data delivery _ _ flushed hflush ih =>
    exact (keeps_of_flush hflush).trans ih
  | case3 data delivery _ _ unflushed hflush =>
    exact (keeps_of_flush hflush).trans (keeps_reportJniBodyFailure unflushed)
  | case4 data delivery _ _ rest appended _ flushed hflush ih =>
    have hcopied : delivery.Keeps appended := ⟨rfl, rfl, rfl, rfl⟩
    exact (hcopied.trans (keeps_of_flush hflush)).trans ih
  | case5 data delivery _ _ appended _ unflushed hflush =>
    have hcopied : delivery.Keeps appended := ⟨rfl, rfl, rfl, rfl⟩
    exact (hcopied.trans (keeps_of_flush hflush)).trans (keeps_reportJniBodyFailure unflushed)
  | case6 data delivery _ _ rest appended _ ih =>
    have hcopied : delivery.Keeps appended := ⟨rfl, rfl, rfl, rfl⟩
    exact hcopied.trans ih

/-! ### Where the bytes are -/

/-- What holds while `rest` is left of a `BODY` event. -/
structure Pending (rest : List UInt8) (delivery : BodyDelivery) : Prop where
  closed : delivery.queue.terminal = delivery.terminal
  intact : delivery.failed = false →
    delivery.received = delivery.delivered ++ delivery.batch.bytes ++ rest ∧
      delivery.consumed = delivery.delivered.length
  /-- After a failure no more credit is returned. -/
  lost : delivery.failed = true →
    delivery.terminal = true ∧ delivery.consumed < delivery.received.length
  reported : delivery.failureReported = true → delivery.failed = true
  settled : delivery.terminal = true → delivery.failed = true ∨ delivery.ended = true

variable {rest : List UInt8}

theorem fail_terminal (h : delivery.queue.terminal = delivery.terminal) :
    delivery.fail.terminal = true ∧ delivery.fail.queue.terminal = true := by
  unfold fail
  split_ifs with hterminal
  · exact ⟨hterminal, h.trans hterminal⟩
  · refine ⟨rfl, ?_⟩
    unfold StreamingResponseQueue.abort
    split_ifs with hqueue
    · exact hqueue
    · rfl

@[simp] theorem fail_consumed (delivery : BodyDelivery) :
    delivery.fail.consumed = delivery.consumed := by
  unfold fail
  split_ifs
  · rfl
  · rfl

theorem Pending.behind (h : delivery.Pending rest) (hsize : delivery.batch.size ≠ 0) :
    delivery.consumed < delivery.received.length := by
  cases hfailed : delivery.failed with
  | true => exact (h.lost hfailed).2
  | false =>
    obtain ⟨hreceived, hconsumed⟩ := h.intact hfailed
    rw [hreceived, hconsumed]
    simp only [List.length_append]
    simp only [JniBodyBatch.size] at hsize
    omega

/-- A request that fails with bytes in the batch has lost them. -/
theorem Pending.report (h : delivery.Pending rest) (hsize : delivery.batch.size ≠ 0)
    (rest' : List UInt8) : delivery.reportJniBodyFailure.Pending rest' := by
  unfold reportJniBodyFailure
  split_ifs with hreported
  · have hfailed := h.reported hreported
    exact ⟨h.closed, fun hintact => absurd hfailed (by simp [hintact]), h.lost, h.reported, h.settled⟩
  · obtain ⟨hterminal, hqueue⟩ := fail_terminal h.closed
    constructor
    case closed => exact hqueue.trans hterminal.symm
    case lost =>
      intro _
      refine ⟨hterminal, ?_⟩
      rw [(keeps_fail delivery).received]
      simpa using h.behind hsize
    all_goals simp

theorem offer_terminal {queue queue' : StreamingResponseQueue} {bytes : List UInt8}
    (h : queue.offer limits bytes = some queue') :
    queue.terminal = false ∧ queue'.terminal = false := by
  unfold StreamingResponseQueue.offer at h
  split_ifs at h with hterminal
  cases h
  simpa using hterminal

theorem Pending.flush (h : delivery.Pending rest)
    (hflush : delivery.flushBodyBatch limits = (true, flushed)) : flushed.Pending rest := by
  unfold flushBodyBatch at hflush
  split_ifs at hflush with hempty harray
  · cases hflush
    exact h
  · cases hflush
    unfold onBody
    split
    case h_1 queue hoffer =>
      obtain ⟨hopen, hqueue⟩ := offer_terminal hoffer
      have hterminal : delivery.terminal = false := h.closed.symm.trans hopen
      have hfailed : delivery.failed = false := by
        by_contra hlost
        have hover := (h.lost (by simpa using hlost)).1
        rw [hterminal] at hover
        cases hover
      obtain ⟨hreceived, hconsumed⟩ := h.intact hfailed
      constructor
      case closed => exact hqueue.trans hterminal.symm
      case intact =>
        intro _
        refine ⟨by simp [hreceived], ?_⟩
        simp [hconsumed]
      case lost =>
        intro hlost
        rw [hfailed] at hlost
        cases hlost
      case reported => exact h.reported
      case settled => exact h.settled
    case h_2 hrefused =>
      obtain ⟨hterminal, hqueue⟩ := fail_terminal h.closed
      constructor
      case closed => exact hqueue.trans hterminal.symm
      case lost =>
        intro _
        refine ⟨hterminal, ?_⟩
        rw [(keeps_fail delivery).received]
        simpa using h.behind hempty
      all_goals simp
  · cases hflush

theorem Pending.flush_failed (h : delivery.Pending rest)
    (hflush : delivery.flushBodyBatch limits = (false, flushed)) :
    flushed.Pending rest ∧ flushed.batch.size ≠ 0 := by
  unfold flushBodyBatch at hflush
  split_ifs at hflush with hempty harray
  · cases hflush
  · cases hflush
  · cases hflush
    exact ⟨⟨h.closed, h.intact, h.lost, h.reported, h.settled⟩, hempty⟩

/-- What `append` copies moves from the rest of the event to the batch. -/
theorem Pending.append {data : List UInt8} (h : delivery.Pending data) :
    Pending (data.drop (delivery.batch.room data.length))
      { delivery with batch := delivery.batch.append data delivery.now } := by
  refine ⟨h.closed, ?_, h.lost, h.reported, h.settled⟩
  intro hfailed
  obtain ⟨hreceived, hconsumed⟩ := h.intact hfailed
  refine ⟨?_, hconsumed⟩
  simp [hreceived, JniBodyBatch.append]

theorem Pending.appendData {data : List UInt8} (h : delivery.Pending data) :
    (delivery.appendData limits data).Pending [] := by
  fun_induction BodyDelivery.appendData limits data delivery with
  | case1 delivery => exact h
  | case2 data delivery _ _ flushed hflush ih => exact ih (h.flush hflush)
  | case3 data delivery _ _ unflushed hflush =>
    obtain ⟨hpending, hsize⟩ := h.flush_failed hflush
    exact hpending.report hsize []
  | case4 data delivery _ _ rest appended _ flushed hflush ih => exact ih (h.append.flush hflush)
  | case5 data delivery _ _ appended _ unflushed hflush =>
    obtain ⟨hpending, hsize⟩ := h.append.flush_failed hflush
    exact hpending.report hsize []
  | case6 data delivery _ _ rest appended _ ih => exact ih h.append

@[simp] theorem report_reported (delivery : BodyDelivery) :
    delivery.reportJniBodyFailure.failureReported = true := by
  unfold reportJniBodyFailure
  split_ifs with hreported
  · exact hreported
  · rfl

/-- What is left in the batch after a `BODY` event. -/
theorem appendData_size {data : List UInt8} (hroom : delivery.batch.size < kFlushBytes)
    (hreported : (delivery.appendData limits data).failureReported = false) (time : ℕ) :
    (delivery.appendData limits data).batch.size < kFlushBytes ∧
      ((delivery.appendData limits data).batch.size = 0 ↔
        BodyArrival.drains {
          time
          held := delivery.batch.size
          waited := delivery.now - delivery.batch.firstByteAtNs
          length := data.length } = true) := by
  have hflushBytes : kFlushBytes = 65536 := rfl
  simp only [BodyArrival.drains_iff]
  fun_induction BodyDelivery.appendData limits data delivery with
  | case1 delivery =>
    refine ⟨hroom, ?_⟩
    simp only [List.length_nil]
    omega
  | case2 data delivery hdata hfull =>
    have hlength := List.length_pos_iff.mpr hdata
    simp only [JniBodyBatch.room] at hfull
    omega
  | case3 data delivery _ _ unflushed hflush => simp at hreported
  | case4 data delivery hdata _ rest appended hflushes flushed hflush ih =>
    have hempty := flushBodyBatch_size limits appended hflush
    obtain ⟨hsize, hdrains⟩ := ih (by omega) hreported
    refine ⟨hsize, hdrains.trans ?_⟩
    have hlength := List.length_pos_iff.mpr hdata
    have hrest : rest.length = data.length - min data.length (kFlushBytes - delivery.batch.size) :=
      List.length_drop
    rcases (JniBodyBatch.shouldFlush_append hroom hdata delivery.now).mp hflushes with
      hfull | ⟨hheld, hlate⟩
    · omega
    · omega
  | case5 data delivery _ _ appended _ unflushed hflush => simp at hreported
  | case6 data delivery hdata _ rest appended hholds ih =>
    have hlength := List.length_pos_iff.mpr hdata
    have hkept := mt (JniBodyBatch.shouldFlush_append hroom hdata delivery.now).mpr hholds
    have happended : appended.batch.size = delivery.batch.size + delivery.batch.room data.length :=
      JniBodyBatch.append_size _ _ _
    have hcopied : delivery.batch.room data.length = data.length := by
      simp only [JniBodyBatch.room]
      omega
    have hrest : rest.length = data.length - delivery.batch.room data.length := List.length_drop
    obtain ⟨hsize, hdrains⟩ := ih (by omega) hreported
    refine ⟨hsize, hdrains.trans ?_⟩
    omega

/-! ### Runs -/

/-- What holds between two events. -/
structure Core (delivery : BodyDelivery) : Prop extends delivery.Pending [] where
  room : delivery.failureReported = false → delivery.batch.size < kFlushBytes
  flushed : delivery.ended = true → delivery.failed = false → delivery.batch.size = 0
  drained : ∀ arrival, delivery.last = some arrival → delivery.failed = false →
    delivery.ended = false → (delivery.batch.size = 0 ↔ arrival.drains = true)

theorem Core.tick (h : delivery.Core) (ns : ℕ) : Core { delivery with now := delivery.now + ns } :=
  ⟨⟨h.closed, h.intact, h.lost, h.reported, h.settled⟩, h.room, h.flushed, h.drained⟩

theorem Pending.arrive (h : delivery.Pending []) (data : List UInt8) :
    (delivery.arrive data).Pending data := by
  refine ⟨h.closed, ?_, ?_, h.reported, h.settled⟩
  · intro hfailed
    obtain ⟨hreceived, hconsumed⟩ := h.intact hfailed
    exact ⟨by simp [BodyDelivery.arrive, hreceived], hconsumed⟩
  · intro hfailed
    obtain ⟨hterminal, hbehind⟩ := h.lost hfailed
    refine ⟨hterminal, Nat.lt_of_lt_of_le hbehind ?_⟩
    simp [BodyDelivery.arrive]

theorem Pending.not_reported (h : delivery.Pending rest) (hfailed : delivery.failed = false) :
    delivery.failureReported = false := by
  by_contra hreported
  have hlost := h.reported (by simpa using hreported)
  rw [hfailed] at hlost
  cases hlost

/-- After a failure it does not matter what is left of the event. -/
theorem Pending.anyRest (h : delivery.Pending rest) (hfailed : delivery.failed = true)
    (rest' : List UInt8) : delivery.Pending rest' :=
  ⟨h.closed, by simp [hfailed], h.lost, h.reported, h.settled⟩

theorem Core.body (h : delivery.Core) (hended : delivery.ended = false) (data : List UInt8) :
    (delivery.body limits data).Core := by
  have harrived := h.arrive data
  unfold BodyDelivery.body
  split_ifs with hreported
  · have hfailed : (delivery.arrive data).failed = true := h.reported hreported
    exact ⟨harrived.anyRest hfailed [], h.room, h.flushed, by simp [hfailed]⟩
  · have hroom : (delivery.arrive data).batch.size < kFlushBytes :=
      h.room (by simpa using hreported)
    have hkeeps := keeps_appendData limits data (delivery.arrive data)
    have hpending : ((delivery.arrive data).appendData limits data).Pending [] :=
      harrived.appendData
    refine ⟨hpending, fun hquiet => (appendData_size hroom hquiet delivery.now).1, ?_, ?_⟩
    · intro hover
      rw [hkeeps.ended] at hover
      exact absurd hover (by simp [BodyDelivery.arrive, hended])
    · intro arrival hlast hfailed _
      rw [hkeeps.last] at hlast
      cases hlast
      exact (appendData_size hroom (hpending.not_reported hfailed) delivery.now).2

theorem Pending.finish (h : delivery.Pending rest) (hended : delivery.ended = true)
    (complete : Bool) : (delivery.finish complete).Pending rest := by
  unfold BodyDelivery.finish
  split_ifs
  · unfold onComplete
    split_ifs with hterminal
    · exact h
    · refine ⟨rfl, h.intact, ?_, h.reported, fun _ => Or.inr hended⟩
      exact fun hfailed => ⟨rfl, (h.lost hfailed).2⟩
  · obtain ⟨hclosed, hqueue⟩ := fail_terminal h.closed
    unfold BodyDelivery.fail at hclosed hqueue ⊢
    split_ifs at hclosed hqueue ⊢ with hterminal
    · exact h
    · refine ⟨hqueue, h.intact, ?_, h.reported, fun _ => Or.inr hended⟩
      exact fun hfailed => ⟨rfl, (h.lost hfailed).2⟩

@[simp] theorem finish_batch (delivery : BodyDelivery) (complete : Bool) :
    (delivery.finish complete).batch = delivery.batch := by
  unfold finish onComplete fail
  split_ifs <;> rfl

theorem keeps_finish (delivery : BodyDelivery) (complete : Bool) :
    delivery.Keeps (delivery.finish complete) := by
  unfold finish
  split_ifs
  · exact keeps_onComplete delivery
  · exact keeps_fail delivery

theorem report_failed (h : delivery.Pending rest) :
    delivery.reportJniBodyFailure.failed = true := by
  unfold reportJniBodyFailure
  split_ifs with hreported
  · exact h.reported hreported
  · rfl

theorem Core.terminate (h : delivery.Core) (complete : Bool) :
    (delivery.terminate limits complete).Core := by
  have hended : Pending [] { delivery with ended := true } :=
    ⟨h.closed, h.intact, h.lost, h.reported, fun _ => Or.inr rfl⟩
  unfold BodyDelivery.terminate
  dsimp only
  split
  case isTrue hreported =>
    have hfailed := h.reported hreported
    exact ⟨hended, h.room, by simp [hfailed], by simp [hfailed]⟩
  case isFalse =>
    split
    case h_1 flushed hflush =>
      have hover : flushed.ended = true := (keeps_of_flush hflush).ended
      have hempty := flushBodyBatch_size limits _ hflush
      have hfinished : (flushed.finish complete).ended = true :=
        (keeps_finish flushed complete).ended.trans hover
      refine ⟨(hended.flush hflush).finish hover complete, ?_, ?_, ?_⟩
      · intro _
        rw [finish_batch, hempty]
        exact Nat.succ_pos _
      · intro _ _
        rw [finish_batch, hempty]
      · simp [hfinished]
    case h_2 unflushed hflush =>
      obtain ⟨hpending, hsize⟩ := hended.flush_failed hflush
      have hfailed := report_failed hpending
      exact ⟨hpending.report hsize [], by simp, by simp [hfailed], by simp [hfailed]⟩

/-- The queue and the collector may do what they like as long as the queue is not closed. -/
theorem Core.withQueue (h : delivery.Core) (queue : StreamingResponseQueue)
    (hqueue : queue.terminal = delivery.queue.terminal) (collected : List UInt8) :
    Core { delivery with queue, collected } :=
  ⟨⟨hqueue.trans h.closed, h.intact, h.lost, h.reported, h.settled⟩, h.room, h.flushed, h.drained⟩

theorem collect_cases (h : delivery.collect = some delivery') :
    ∃ queue collected, queue.terminal = delivery.queue.terminal ∧
      delivery' = { delivery with queue, collected } := by
  unfold collect at h
  split at h
  case h_1 => cases h
  case h_2 chunk chunks _ =>
    cases h
    exact ⟨{ delivery.queue with channel := chunks }.release chunk.length,
      delivery.collected ++ chunk, rfl, rfl⟩

theorem Core.step (h : delivery.Core) {i : DeliveryStep}
    (hstep : delivery.step limits i = some delivery') : delivery'.Core := by
  cases i with
  | tick ns =>
    cases hstep
    exact h.tick ns
  | body data =>
    simp only [BodyDelivery.step] at hstep
    split_ifs at hstep with hended
    cases hstep
    exact h.body (by simpa using hended) data
  | terminate complete =>
    simp only [BodyDelivery.step] at hstep
    split_ifs at hstep
    cases hstep
    exact h.terminate complete
  | collect =>
    obtain ⟨queue, collected, hqueue, rfl⟩ := collect_cases hstep
    exact h.withQueue queue hqueue collected
  | reserve bytes =>
    simp only [BodyDelivery.step] at hstep
    split_ifs at hstep
    cases hstep
    exact h.withQueue { delivery.queue with used := delivery.queue.used + bytes } rfl
      delivery.collected
  | release bytes =>
    cases hstep
    exact h.withQueue { delivery.queue with used := delivery.queue.used - bytes } rfl
      delivery.collected

end BodyDelivery

end KatHttp3
