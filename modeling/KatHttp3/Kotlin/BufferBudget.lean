import KatHttp3.Library.Transition
import KatHttp3.Library.Parties
import Mathlib.Data.Int.Notation
import Mathlib.Tactic.SplitIfs

/-!
# The buffer budget of streaming calls

The streaming calls of one client share a `StreamingBufferBudget`. An operation
of a `StreamingResponseQueue` runs under the lock of that queue, but takes from
the budget and from the channel in steps of their own: the queue remembers what
the thread that has its lock has still to do. The collector takes events without
the lock and releases their bytes afterwards.
-/

namespace KatHttp3

namespace BufferBudget

open WeightedList Parties

inductive KatHttp3StreamEvent
  | headers (status : ℤ) (headers : List (String × String))
  | body (bytes : List UInt8)
  deriving DecidableEq

namespace KatHttp3StreamEvent

/-- The bytes that are reserved for the event. -/
def size : KatHttp3StreamEvent → ℕ
  | headers .. => 0
  | body bytes => bytes.length

def isBody : KatHttp3StreamEvent → Bool
  | headers .. => false
  | body _ => true

end KatHttp3StreamEvent

/-- The limit of each queue and that of the budget. -/
structure Limits where
  perStreamLimit : ℕ
  limit : ℕ

/-- What the thread that has the lock of a queue has still to do. -/
inductive Held
  | nothing
  /-- `offer` has its bytes from the budget. -/
  | offering (event : KatHttp3StreamEvent)
  /-- `offer` has sent the event to the channel. -/
  | sent (event : KatHttp3StreamEvent)
  /-- `abort` empties the channel. -/
  | discarding
  /-- `abort` has to give the bytes back and to close the channel. -/
  | aborting (bytes : ℕ)
  /-- `release` has to give the bytes back. -/
  | releasing (bytes : ℕ)
  deriving DecidableEq

/-- The bytes that the thread has taken from the budget and not booked in the
queue, or the other way round. -/
def Held.bytes : Held → ℕ
  | offering event => event.size
  | sent event => event.size
  | aborting bytes => bytes
  | releasing bytes => bytes
  | _ => 0

/-- `StreamingResponseQueue`, and the events that a collector has taken and not released. -/
structure ResponseQueue where
  channel : List KatHttp3StreamEvent := []
  closed : Bool := false
  bufferedBodyBytes : ℕ := 0
  terminal : Bool := false
  held : Held := .nothing
  taken : List KatHttp3StreamEvent := []
  deriving DecidableEq

/-- How a streaming call ends. -/
inductive CallEnd
  | completed | failed | cancelled
  deriving DecidableEq

/-- A streaming call: its queue, the flags of its callback and of its `KatHttp3Call`. -/
structure StreamingCall where
  queue : ResponseQueue := {}
  /-- The flag of the callback that the first terminal path sets. -/
  terminal : Bool := false
  /-- The path that set it and has not returned from the queue. -/
  ending : Option CallEnd := none
  /-- How the call has ended. -/
  ended : Option CallEnd := none
  cancelled : Bool := false
  /-- `KatHttp3Call.cancel` is in its action. -/
  cancelling : Bool := false
  deriving DecidableEq

namespace ResponseQueue

variable (limits : Limits) (used : ℕ) (queue : ResponseQueue)

/-- `offer` up to the reservation; a refused event changes nothing. -/
def offer (event : KatHttp3StreamEvent) : ℕ × ResponseQueue :=
  if queue.terminal then (used, queue)
  else if limits.perStreamLimit - queue.bufferedBodyBytes < event.size then (used, queue)
  else if 0 < event.size ∧ limits.limit - used < event.size then (used, queue)
  else (used + event.size, { queue with held := .offering event })

/-- `trySend`, which fails if the channel is closed. -/
def trySend (event : KatHttp3StreamEvent) : ℕ × ResponseQueue :=
  if queue.closed then (used - event.size, { queue with held := .nothing })
  else (used, { queue with channel := queue.channel ++ [event], held := .sent event })

def book (event : KatHttp3StreamEvent) : ResponseQueue :=
  { queue with bufferedBodyBytes := queue.bufferedBodyBytes + event.size, held := .nothing }

def finish : ResponseQueue :=
  if queue.terminal then queue else { queue with terminal := true, closed := true }

/-- `tryReceive` in the loop of `abort`; with an empty channel the loop is over. -/
def discard : ResponseQueue :=
  match queue.channel with
  | _ :: rest => { queue with channel := rest }
  | [] => { queue with bufferedBodyBytes := 0, held := .aborting queue.bufferedBodyBytes }

/-- The collector takes the first event. -/
def take : Option ResponseQueue :=
  match queue.channel with
  | [] => none
  | event :: rest =>
    some { queue with
      channel := rest
      taken := if event.isBody then queue.taken ++ [event] else queue.taken }

/-- `release` for an event that a collector has taken. -/
def release (index : ℕ) (event : KatHttp3StreamEvent) : ResponseQueue :=
  { queue with
    taken := queue.taken.eraseIdx index
    bufferedBodyBytes := queue.bufferedBodyBytes - min event.size queue.bufferedBodyBytes
    held := if 0 < min event.size queue.bufferedBodyBytes then
      .releasing (min event.size queue.bufferedBodyBytes) else .nothing }

end ResponseQueue

/-- The steps of a call: those of its callback, of `KatHttp3Call.cancel`, of the
queue's operations and of the collectors. -/
inductive CallStep
  | offer (event : KatHttp3StreamEvent)
  | trySend
  | book
  | onComplete
  | fail
  | cancel
  | cancelByCaller
  | finish
  | abort
  | discard
  | endAbort
  | take
  | release (index : ℕ)
  | endRelease

namespace StreamingCall

variable (limits : Limits) (used : ℕ) (call : StreamingCall)

/-- The compare-and-set of the callback's flag by a terminal path. -/
def terminate (by' : CallEnd) : StreamingCall :=
  if call.terminal then call else { call with terminal := true, ending := some by' }

/-- The terminal path returns from the queue. -/
def returned : StreamingCall :=
  { call with
    ending := none
    ended := call.ending
    cancelling := call.cancelling && call.ending != some .cancelled }

def step : CallStep → Option (ℕ × StreamingCall)
  | .offer event =>
    if call.queue.held = .nothing then
      let next := call.queue.offer limits used event
      some (next.1, { call with queue := next.2 })
    else none
  | .trySend =>
    match call.queue.held with
    | .offering event =>
      let next := call.queue.trySend used event
      some (next.1, { call with queue := next.2 })
    | _ => none
  | .book =>
    match call.queue.held with
    | .sent event => some (used, { call with queue := call.queue.book event })
    | _ => none
  | .onComplete => some (used, call.terminate .completed)
  | .fail => some (used, call.terminate .failed)
  | .cancel =>
    if call.cancelled then some (used, call)
    else some (used, { call with cancelled := true, cancelling := true })
  | .cancelByCaller =>
    if call.cancelling = false ∨ call.ending = some .cancelled then none
    else if call.terminal then some (used, { call with cancelling := false })
    else some (used, call.terminate .cancelled)
  | .finish =>
    if call.queue.held = .nothing ∧ call.ending = some .completed then
      some (used, { call.returned with queue := call.queue.finish })
    else none
  | .abort =>
    if call.queue.held = .nothing ∧
        (call.ending = some .failed ∨ call.ending = some .cancelled) then
      if call.queue.terminal then some (used, call.returned)
      else
        some (used, { call with queue := { call.queue with terminal := true, held := .discarding } })
    else none
  | .discard =>
    if call.queue.held = .discarding then some (used, { call with queue := call.queue.discard })
    else none
  | .endAbort =>
    match call.queue.held with
    | .aborting bytes =>
      some (used - bytes,
        { call.returned with queue := { call.queue with closed := true, held := .nothing } })
    | _ => none
  | .take => call.queue.take.map fun queue => (used, { call with queue := queue })
  | .release index =>
    if call.queue.held = .nothing then
      call.queue.taken[index]?.map fun event =>
        (used, { call with queue := call.queue.release index event })
    else none
  | .endRelease =>
    match call.queue.held with
    | .releasing bytes =>
      some (used - bytes, { call with queue := { call.queue with held := .nothing } })
    | _ => none

end StreamingCall

/-- What is shared is the `used` of the budget. -/
abbrev BufferState := System ℕ StreamingCall

inductive BufferStep
  | executeStreaming
  | call (i : ℕ) (step : CallStep)

def step (limits : Limits) (s : BufferState) : BufferStep → Option BufferState
  | .executeStreaming => some (s.join {})
  | .call i step => s.move i fun used call => call.step limits used step

/-! ### What the calls keep -/

/-- The bytes still in the channel, or taken from it and not released. -/
def ResponseQueue.outstanding (queue : ResponseQueue) : ℕ :=
  total KatHttp3StreamEvent.size queue.channel + total KatHttp3StreamEvent.size queue.taken

/-- What the call has of the budget. -/
def StreamingCall.contribution (call : StreamingCall) : ℕ :=
  call.queue.bufferedBodyBytes + call.queue.held.bytes

/-- The call has failed or was cancelled, and its queue is aborted. -/
def StreamingCall.Aborted (call : StreamingCall) : Prop :=
  call.ended = some .failed ∨ call.ended = some .cancelled

/-- The bookings of a queue that has not been aborted. -/
inductive Booked (limits : Limits) (queue : ResponseQueue) : Prop
  | settled (held : queue.held = .nothing ∨ ∃ bytes, queue.held = .releasing bytes)
      (booked : queue.bufferedBodyBytes = queue.outstanding)
      (le : queue.bufferedBodyBytes ≤ limits.perStreamLimit)
  | offering (event : KatHttp3StreamEvent) (held : queue.held = .offering event)
      (opened : queue.terminal = false) (booked : queue.bufferedBodyBytes = queue.outstanding)
      (room : queue.bufferedBodyBytes + event.size ≤ limits.perStreamLimit)
  | sent (event : KatHttp3StreamEvent) (held : queue.held = .sent event)
      (opened : queue.terminal = false)
      (booked : queue.bufferedBodyBytes + event.size = queue.outstanding)
      (room : queue.bufferedBodyBytes + event.size ≤ limits.perStreamLimit)

/-- How far a call has come. -/
inductive Stage (limits : Limits) (call : StreamingCall) : Prop
  | live (ended : call.ended = none ∨ call.ended = some .completed)
      (terminal : call.queue.terminal = true → call.ended = some .completed)
      (closed : call.queue.closed = true → call.queue.terminal = true)
      (booked : Booked limits call.queue)
  | discarding (held : call.queue.held = .discarding)
      (ending : call.ending = some .failed ∨ call.ending = some .cancelled)
      (terminal : call.queue.terminal = true)
      (le : call.queue.bufferedBodyBytes ≤ limits.perStreamLimit)
  | aborting (bytes : ℕ) (held : call.queue.held = .aborting bytes)
      (ending : call.ending = some .failed ∨ call.ending = some .cancelled)
      (terminal : call.queue.terminal = true) (discarded : call.queue.bufferedBodyBytes = 0)
      (channel : call.queue.channel = [])
  | aborted (ended : call.Aborted) (held : call.queue.held = .nothing)
      (terminal : call.queue.terminal = true) (discarded : call.queue.bufferedBodyBytes = 0)
      (channel : call.queue.channel = [])

structure CallInv (limits : Limits) (call : StreamingCall) : Prop where
  stage : Stage limits call
  once : call.ending ≠ none → call.ended = none
  flagged : call.ending ≠ none ∨ call.ended ≠ none → call.terminal = true

namespace ResponseQueue

variable {limits : Limits} {used : ℕ} {queue : ResponseQueue}

/-- An offer is refused or reserves its bytes, which there is room for. -/
theorem offer_cases (limits : Limits) (used : ℕ) (queue : ResponseQueue)
    (event : KatHttp3StreamEvent) :
    queue.offer limits used event = (used, queue) ∨
      queue.offer limits used event = (used + event.size, { queue with held := .offering event }) ∧
        queue.terminal = false ∧ event.size ≤ limits.perStreamLimit - queue.bufferedBodyBytes ∧
        (event.size = 0 ∨ used + event.size ≤ limits.limit) := by
  unfold offer
  split_ifs with hterminal hroom hbudget
  · exact Or.inl rfl
  · exact Or.inl rfl
  · exact Or.inl rfl
  · refine Or.inr ⟨rfl, by simpa using hterminal, by omega, by omega⟩

theorem take_eq_some {queue' : ResponseQueue} (h : queue.take = some queue') :
    queue'.outstanding = queue.outstanding ∧ queue.channel ≠ [] ∧
      queue' = { queue with channel := queue'.channel, taken := queue'.taken } := by
  unfold take at h
  cases hchannel : queue.channel with
  | nil =>
    rw [hchannel] at h
    cases h
  | cons event rest =>
    rw [hchannel] at h
    obtain rfl := Option.some.inj h
    refine ⟨?_, List.cons_ne_nil _ _, rfl⟩
    unfold outstanding
    dsimp only
    rw [hchannel, total_cons]
    cases event with
    | headers =>
      simp [KatHttp3StreamEvent.isBody, KatHttp3StreamEvent.size]
    | body bytes =>
      rw [KatHttp3StreamEvent.isBody, if_pos rfl, total_append, total_cons, total_nil]
      omega

end ResponseQueue

variable {limits : Limits} {used used' : ℕ} {call call' : StreamingCall}

/-- A queue that takes events is one of a live call, and its channel is not closed. -/
theorem Stage.live_of_open (h : Stage limits call) (hopen : call.queue.terminal = false) :
    (call.ended = none ∨ call.ended = some .completed) ∧ call.queue.closed = false ∧
      Booked limits call.queue := by
  cases h with
  | live ended terminal closed booked =>
    refine ⟨ended, ?_, booked⟩
    by_contra hclosed
    rw [Bool.not_eq_false] at hclosed
    rw [closed hclosed] at hopen
    cases hopen
  | discarding _ _ terminal => simp [terminal] at hopen
  | aborting _ _ _ terminal => simp [terminal] at hopen
  | aborted _ _ terminal => simp [terminal] at hopen

/-- An operation that leaves the queue open. -/
theorem Stage.of_open (h : Stage limits call) (hopen : call.queue.terminal = false)
    {queue : ResponseQueue} (hterminal : queue.terminal = false) (hclosed : queue.closed = false)
    (hbooked : Booked limits queue) : Stage limits { call with queue := queue } := by
  refine .live (h.live_of_open hopen).1 ?_ ?_ hbooked
  · intro hend
    rw [hterminal] at hend
    cases hend
  · intro hend
    rw [hclosed] at hend
    cases hend

theorem Booked.of_nothing {queue : ResponseQueue} (h : Booked limits queue)
    (hheld : queue.held = .nothing) :
    queue.bufferedBodyBytes = queue.outstanding ∧
      queue.bufferedBodyBytes ≤ limits.perStreamLimit := by
  cases h with
  | settled _ booked le => exact ⟨booked, le⟩
  | offering event held => simp [hheld] at held
  | sent event held => simp [hheld] at held

theorem Booked.of_offering {queue : ResponseQueue} (h : Booked limits queue)
    {event : KatHttp3StreamEvent} (hheld : queue.held = .offering event) :
    queue.terminal = false ∧ queue.bufferedBodyBytes = queue.outstanding ∧
      queue.bufferedBodyBytes + event.size ≤ limits.perStreamLimit := by
  cases h with
  | settled held => simp [hheld] at held
  | offering other held opened booked room =>
    rw [hheld] at held
    obtain rfl := Held.offering.inj held
    exact ⟨opened, booked, room⟩
  | sent other held => simp [hheld] at held

theorem Booked.of_sent {queue : ResponseQueue} (h : Booked limits queue)
    {event : KatHttp3StreamEvent} (hheld : queue.held = .sent event) :
    queue.terminal = false ∧ queue.bufferedBodyBytes + event.size = queue.outstanding ∧
      queue.bufferedBodyBytes + event.size ≤ limits.perStreamLimit := by
  cases h with
  | settled held => simp [hheld] at held
  | offering other held => simp [hheld] at held
  | sent other held opened booked room =>
    rw [hheld] at held
    obtain rfl := Held.sent.inj held
    exact ⟨opened, booked, room⟩

/-- While `offer` has the lock the call is live. -/
theorem Stage.booked_of_held (h : Stage limits call)
    {event : KatHttp3StreamEvent} (hheld : call.queue.held = .offering event ∨
      call.queue.held = .sent event) : Booked limits call.queue := by
  cases h with
  | live _ _ _ booked => exact booked
  | discarding held => simp [held] at hheld
  | aborting bytes held => simp [held] at hheld
  | aborted _ held => simp [held] at hheld

/-! ### One lemma for each step -/

theorem Stage.offer (h : Stage limits call) (hheld : call.queue.held = .nothing)
    (event : KatHttp3StreamEvent) :
    Stage limits { call with queue := (call.queue.offer limits used event).2 } := by
  rcases call.queue.offer_cases limits used event with heq | ⟨heq, hopen, hroom, -⟩
  · rw [heq]
    exact h
  · rw [heq]
    obtain ⟨-, hclosed, hbooked⟩ := h.live_of_open hopen
    obtain ⟨heven, hle⟩ := hbooked.of_nothing hheld
    exact h.of_open hopen hopen hclosed
      (.offering event rfl hopen heven (Nat.add_le_of_le_sub' hle hroom))

theorem Stage.trySend (h : Stage limits call) {event : KatHttp3StreamEvent}
    (hheld : call.queue.held = .offering event) :
    Stage limits { call with queue := (call.queue.trySend used event).2 } := by
  obtain ⟨hopen, heven, hroom⟩ := (h.booked_of_held (Or.inl hheld)).of_offering hheld
  obtain ⟨-, hclosed, -⟩ := h.live_of_open hopen
  unfold ResponseQueue.trySend
  rw [if_neg (by simp [hclosed])]
  refine h.of_open hopen hopen hclosed (.sent event rfl hopen ?_ hroom)
  unfold ResponseQueue.outstanding at heven ⊢
  dsimp only
  rw [total_append, total_cons, total_nil]
  omega

theorem Stage.book (h : Stage limits call) {event : KatHttp3StreamEvent}
    (hheld : call.queue.held = .sent event) :
    Stage limits { call with queue := call.queue.book event } := by
  obtain ⟨hopen, heven, hroom⟩ := (h.booked_of_held (Or.inr hheld)).of_sent hheld
  obtain ⟨-, hclosed, -⟩ := h.live_of_open hopen
  exact h.of_open hopen hopen hclosed (.settled (Or.inl rfl) heven hroom)

/-- The queue of a call that has not ended is open when its lock is free. -/
theorem Stage.open_of_pending (h : Stage limits call) (hheld : call.queue.held = .nothing)
    (hended : call.ended = none) : call.queue.terminal = false := by
  cases h with
  | live _ terminal =>
    by_contra hterminal
    rw [Bool.not_eq_false] at hterminal
    rw [terminal hterminal] at hended
    cases hended
  | discarding held => simp [hheld] at held
  | aborting bytes held => simp [hheld] at held
  | aborted ended =>
    unfold StreamingCall.Aborted at ended
    simp [hended] at ended

theorem Stage.finish (h : Stage limits call) (hheld : call.queue.held = .nothing)
    (hending : call.ending = some .completed) (hended : call.ended = none) :
    Stage limits { call.returned with queue := call.queue.finish } := by
  have hopen := h.open_of_pending hheld hended
  obtain ⟨heven, hle⟩ := (h.live_of_open hopen).2.2.of_nothing hheld
  unfold ResponseQueue.finish
  rw [if_neg (by simp [hopen])]
  exact .live (Or.inr hending) (fun _ => hending) (fun _ => rfl)
    (.settled (Or.inl hheld) heven hle)

theorem Stage.abort (h : Stage limits call) (hheld : call.queue.held = .nothing)
    (hending : call.ending = some .failed ∨ call.ending = some .cancelled)
    (hended : call.ended = none) :
    Stage limits
      { call with queue := { call.queue with terminal := true, held := .discarding } } := by
  have hopen := h.open_of_pending hheld hended
  obtain ⟨-, hle⟩ := (h.live_of_open hopen).2.2.of_nothing hheld
  exact .discarding rfl hending rfl hle

theorem Stage.discard (h : Stage limits call) (hheld : call.queue.held = .discarding) :
    Stage limits { call with queue := call.queue.discard } := by
  cases h with
  | live _ _ _ booked =>
    cases booked with
    | settled held => simp [hheld] at held
    | offering event held => simp [hheld] at held
    | sent event held => simp [hheld] at held
  | discarding held ending terminal le =>
    unfold ResponseQueue.discard
    split
    · exact .discarding held ending terminal le
    · rename_i hchannel
      exact .aborting _ rfl ending terminal rfl hchannel
  | aborting bytes held => simp [hheld] at held
  | aborted _ held => simp [hheld] at held

theorem Stage.of_aborting (h : Stage limits call) {bytes : ℕ}
    (hheld : call.queue.held = .aborting bytes) :
    (call.ending = some .failed ∨ call.ending = some .cancelled) ∧
      call.queue.terminal = true ∧ call.queue.bufferedBodyBytes = 0 ∧ call.queue.channel = [] := by
  cases h with
  | live _ _ _ booked =>
    cases booked with
    | settled held => simp [hheld] at held
    | offering event held => simp [hheld] at held
    | sent event held => simp [hheld] at held
  | discarding held => simp [hheld] at held
  | aborting _ _ ending terminal discarded channel => exact ⟨ending, terminal, discarded, channel⟩
  | aborted _ held => simp [hheld] at held

theorem Stage.endAbort (h : Stage limits call) {bytes : ℕ}
    (hheld : call.queue.held = .aborting bytes) :
    Stage limits
      { call.returned with queue := { call.queue with closed := true, held := .nothing } } := by
  obtain ⟨hending, hterminal, hdiscarded, hchannel⟩ := h.of_aborting hheld
  exact .aborted hending rfl hterminal hdiscarded hchannel

theorem Booked.take {queue queue' : ResponseQueue} (h : Booked limits queue)
    (htake : queue.take = some queue') : Booked limits queue' := by
  obtain ⟨hsame, -, heq⟩ := ResponseQueue.take_eq_some htake
  rw [heq] at hsame ⊢
  cases h with
  | settled held booked le => exact .settled held (booked.trans hsame.symm) le
  | offering event held opened booked room =>
    exact .offering event held opened (booked.trans hsame.symm) room
  | sent event held opened booked room =>
    exact .sent event held opened (booked.trans hsame.symm) room

theorem Stage.take (h : Stage limits call) {queue' : ResponseQueue}
    (htake : call.queue.take = some queue') : Stage limits { call with queue := queue' } := by
  obtain ⟨-, hchannel, heq⟩ := ResponseQueue.take_eq_some htake
  cases h with
  | live ended terminal closed booked =>
    have hbooked := booked.take htake
    rw [heq] at hbooked ⊢
    exact .live ended terminal closed hbooked
  | discarding held ending terminal le =>
    rw [heq]
    exact .discarding held ending terminal le
  | aborting _ _ _ _ _ channel => exact absurd channel hchannel
  | aborted _ _ _ _ channel => exact absurd channel hchannel

/-- `release` takes the bytes of the event off what is booked, or finds nothing booked. -/
theorem Stage.release (h : Stage limits call) (hheld : call.queue.held = .nothing) {index : ℕ}
    {event : KatHttp3StreamEvent} (htaken : call.queue.taken[index]? = some event) :
    Stage limits { call with queue := call.queue.release index event } := by
  have hsum : total KatHttp3StreamEvent.size (call.queue.taken.eraseIdx index) + event.size =
      total KatHttp3StreamEvent.size call.queue.taken :=
    total_eraseIdx htaken
  unfold ResponseQueue.release
  cases h with
  | live ended terminal closed booked =>
    obtain ⟨heven, hle⟩ := booked.of_nothing hheld
    refine .live ended terminal closed (.settled ?_ ?_ ?_)
    · dsimp only
      split_ifs
      · exact Or.inr ⟨_, rfl⟩
      · exact Or.inl rfl
    · unfold ResponseQueue.outstanding at heven ⊢
      dsimp only
      omega
    · exact (Nat.sub_le _ _).trans hle
  | discarding held => simp [hheld] at held
  | aborting bytes held => simp [hheld] at held
  | aborted ended held terminal discarded channel =>
    refine .aborted ended ?_ terminal ?_ channel
    · dsimp only
      rw [discarded, Nat.min_zero, if_neg (Nat.lt_irrefl 0)]
    · dsimp only
      rw [discarded, Nat.zero_sub]

theorem Stage.endRelease (h : Stage limits call) {bytes : ℕ}
    (hheld : call.queue.held = .releasing bytes) :
    Stage limits { call with queue := { call.queue with held := .nothing } } := by
  cases h with
  | live ended terminal closed booked =>
    cases booked with
    | settled _ booked le =>
      exact .live ended terminal closed (.settled (Or.inl rfl) booked le)
    | offering event held => simp [hheld] at held
    | sent event held => simp [hheld] at held
  | discarding held => simp [hheld] at held
  | aborting _ held => simp [hheld] at held
  | aborted _ held => simp [hheld] at held

/-- The flags of `KatHttp3Call` do not matter. -/
theorem Stage.of_same (h : Stage limits call) (hqueue : call'.queue = call.queue)
    (hending : call'.ending = call.ending) (hended : call'.ended = call.ended) :
    Stage limits call' := by
  cases h with
  | live ended terminal closed booked =>
    rw [← hended, ← hqueue] at *
    exact .live ended terminal closed booked
  | discarding held ending terminal le =>
    rw [← hending, ← hqueue] at *
    exact .discarding held ending terminal le
  | aborting bytes held ending terminal discarded channel =>
    rw [← hending, ← hqueue] at *
    exact .aborting bytes held ending terminal discarded channel
  | aborted ended held terminal discarded channel =>
    unfold StreamingCall.Aborted at ended
    rw [← hended, ← hqueue] at *
    exact .aborted ended held terminal discarded channel

/-- A terminal path that has won. -/
theorem CallInv.terminate (h : CallInv limits call) (by' : CallEnd) :
    CallInv limits (call.terminate by') := by
  unfold StreamingCall.terminate
  split_ifs with hterminal
  · exact h
  have hnone : call.ending = none ∧ call.ended = none := by
    have hflagged := mt h.flagged hterminal
    rw [not_or, not_not, not_not] at hflagged
    exact hflagged
  refine ⟨?_, fun _ => hnone.2, fun _ => rfl⟩
  cases h.stage with
  | live ended terminal closed booked => exact .live ended terminal closed booked
  | discarding _ ending => simp [hnone.1] at ending
  | aborting _ _ ending => simp [hnone.1] at ending
  | aborted ended =>
    unfold StreamingCall.Aborted at ended
    simp [hnone.2] at ended

/-- An operation on the queue that does not end the call. -/
theorem CallInv.with_queue (h : CallInv limits call) {queue : ResponseQueue}
    (hstage : Stage limits { call with queue := queue }) :
    CallInv limits { call with queue := queue } := ⟨hstage, h.once, h.flagged⟩

/-- The end of the call. -/
theorem CallInv.of_returned (h : CallInv limits call) (hending : call.ending ≠ none)
    {queue : ResponseQueue} (hstage : Stage limits { call.returned with queue := queue }) :
    CallInv limits { call.returned with queue := queue } :=
  ⟨hstage, fun hne => absurd rfl hne, fun _ => h.flagged (Or.inl hending)⟩

theorem CallInv.step (h : CallInv limits call) {m : CallStep}
    (hstep : call.step limits used m = some (used', call')) : CallInv limits call' := by
  unfold StreamingCall.step at hstep
  cases m with
  | offer event =>
    dsimp only at hstep
    split_ifs at hstep with hheld
    cases hstep
    exact h.with_queue (h.stage.offer hheld event)
  | trySend =>
    dsimp only at hstep
    split at hstep
    · rename_i event hheld
      cases hstep
      exact h.with_queue (h.stage.trySend hheld)
    · cases hstep
  | book =>
    dsimp only at hstep
    split at hstep
    · rename_i event hheld
      cases hstep
      exact h.with_queue (h.stage.book hheld)
    · cases hstep
  | onComplete =>
    cases hstep
    exact h.terminate .completed
  | fail =>
    cases hstep
    exact h.terminate .failed
  | cancel =>
    dsimp only at hstep
    split_ifs at hstep
    · cases hstep
      exact h
    · cases hstep
      exact ⟨h.stage.of_same rfl rfl rfl, h.once, h.flagged⟩
  | cancelByCaller =>
    dsimp only at hstep
    split_ifs at hstep
    · cases hstep
      exact ⟨h.stage.of_same rfl rfl rfl, h.once, h.flagged⟩
    · cases hstep
      exact h.terminate .cancelled
  | finish =>
    dsimp only at hstep
    split_ifs at hstep with hcond
    obtain ⟨hheld, hending⟩ := hcond
    cases hstep
    have hpending : call.ending ≠ none := by simp [hending]
    exact h.of_returned hpending (h.stage.finish hheld hending (h.once hpending))
  | abort =>
    dsimp only at hstep
    split_ifs at hstep with hcond hterminal
    · obtain ⟨hheld, hending⟩ := hcond
      have hpending : call.ending ≠ none := by
        rcases hending with h' | h' <;> simp [h']
      rw [h.stage.open_of_pending hheld (h.once hpending)] at hterminal
      cases hterminal
    · obtain ⟨hheld, hending⟩ := hcond
      have hpending : call.ending ≠ none := by
        rcases hending with h' | h' <;> simp [h']
      cases hstep
      exact h.with_queue (h.stage.abort hheld hending (h.once hpending))
  | discard =>
    dsimp only at hstep
    split_ifs at hstep with hheld
    cases hstep
    exact h.with_queue (h.stage.discard hheld)
  | endAbort =>
    dsimp only at hstep
    split at hstep
    · rename_i bytes hheld
      cases hstep
      refine h.of_returned ?_ (h.stage.endAbort hheld)
      rcases (h.stage.of_aborting hheld).1 with hending | hending <;> simp [hending]
    · cases hstep
  | take =>
    dsimp only at hstep
    obtain ⟨queue, htake, heq⟩ := Option.map_eq_some_iff.mp hstep
    cases heq
    exact h.with_queue (h.stage.take htake)
  | release index =>
    dsimp only at hstep
    split_ifs at hstep with hheld
    obtain ⟨event, htaken, heq⟩ := Option.map_eq_some_iff.mp hstep
    cases heq
    exact h.with_queue (h.stage.release hheld htaken)
  | endRelease =>
    dsimp only at hstep
    split at hstep
    · rename_i bytes hheld
      cases hstep
      exact h.with_queue (h.stage.endRelease hheld)
    · cases hstep

/-! ### The budget -/

/-- What a step books in the budget is what it changes of the call's contribution;
for this no release may take more than there is. Only a reservation adds to the
budget, and only if there is room. -/
theorem booked_step (hle : call.contribution ≤ used) (hlimit : used ≤ limits.limit) {m : CallStep}
    (hstep : call.step limits used m = some (used', call')) :
    used' + call.contribution = used + call'.contribution ∧ used' ≤ limits.limit := by
  unfold StreamingCall.contribution at hle ⊢
  unfold StreamingCall.step at hstep
  cases m with
  | offer event =>
    dsimp only at hstep
    split_ifs at hstep with hheld
    rcases call.queue.offer_cases limits used event with heq | ⟨heq, -, -, hroom⟩
    · rw [heq] at hstep
      cases hstep
      exact ⟨rfl, hlimit⟩
    · rw [heq] at hstep
      cases hstep
      rw [hheld]
      simp only [Held.bytes]
      omega
  | trySend =>
    dsimp only at hstep
    split at hstep
    · rename_i event hheld
      cases hstep
      unfold ResponseQueue.trySend
      rw [hheld] at hle ⊢
      simp only [Held.bytes] at hle ⊢
      split_ifs
      · dsimp only
        omega
      · exact ⟨rfl, hlimit⟩
    · cases hstep
  | book =>
    dsimp only at hstep
    split at hstep
    · rename_i event hheld
      cases hstep
      rw [hheld]
      exact ⟨rfl, hlimit⟩
    · cases hstep
  | onComplete =>
    cases hstep
    unfold StreamingCall.terminate
    split_ifs <;> exact ⟨rfl, hlimit⟩
  | fail =>
    cases hstep
    unfold StreamingCall.terminate
    split_ifs <;> exact ⟨rfl, hlimit⟩
  | cancel =>
    dsimp only at hstep
    split_ifs at hstep <;> cases hstep <;> exact ⟨rfl, hlimit⟩
  | cancelByCaller =>
    dsimp only at hstep
    unfold StreamingCall.terminate at hstep
    split_ifs at hstep <;> cases hstep <;> exact ⟨rfl, hlimit⟩
  | finish =>
    dsimp only at hstep
    split_ifs at hstep
    cases hstep
    unfold ResponseQueue.finish
    split_ifs <;> exact ⟨rfl, hlimit⟩
  | abort =>
    dsimp only at hstep
    split_ifs at hstep with hcond hterminal
    · cases hstep
      exact ⟨rfl, hlimit⟩
    · cases hstep
      rw [hcond.1]
      exact ⟨rfl, hlimit⟩
  | discard =>
    dsimp only at hstep
    split_ifs at hstep with hheld
    cases hstep
    unfold ResponseQueue.discard
    split
    · exact ⟨rfl, hlimit⟩
    · rw [hheld]
      simp only [Held.bytes]
      omega
  | endAbort =>
    dsimp only at hstep
    split at hstep
    · rename_i bytes hheld
      cases hstep
      rw [hheld] at hle ⊢
      simp only [Held.bytes] at hle ⊢
      omega
    · cases hstep
  | take =>
    dsimp only at hstep
    obtain ⟨queue, htake, heq⟩ := Option.map_eq_some_iff.mp hstep
    obtain ⟨-, -, hsame⟩ := ResponseQueue.take_eq_some htake
    cases heq
    rw [hsame]
    exact ⟨rfl, hlimit⟩
  | release index =>
    dsimp only at hstep
    split_ifs at hstep with hheld
    obtain ⟨event, htaken, heq⟩ := Option.map_eq_some_iff.mp hstep
    cases heq
    unfold ResponseQueue.release
    rw [hheld]
    dsimp only
    split_ifs <;> simp only [Held.bytes] <;> omega
  | endRelease =>
    dsimp only at hstep
    split at hstep
    · rename_i bytes hheld
      cases hstep
      rw [hheld] at hle ⊢
      simp only [Held.bytes] at hle ⊢
      omega
    · cases hstep

structure Inv (limits : Limits) (s : BufferState) : Prop where
  calls : ∀ call ∈ s.parties, CallInv limits call
  balanced : s.Balanced id StreamingCall.contribution
  within : s.shared ≤ limits.limit

theorem callInv_start (limits : Limits) : CallInv limits {} := by
  refine ⟨.live (Or.inl rfl) ?_ ?_ (.settled (Or.inl rfl) rfl (Nat.zero_le _)), ?_, ?_⟩ <;> simp

theorem Inv.step {s s' : BufferState} (h : Inv limits s) {label : BufferStep}
    (hstep : step limits s label = some s') : Inv limits s' := by
  cases label with
  | executeStreaming =>
    cases hstep
    refine ⟨?_, h.balanced.join rfl, h.within⟩
    exact @System.forall_join ℕ StreamingCall s (fun _ => CallInv limits) h.calls _
      (callInv_start limits)
  | call i m =>
    change s.move i (fun used call => call.step limits used m) = some s' at hstep
    refine ⟨?_, ?_, ?_⟩
    · exact @System.forall_move ℕ StreamingCall s s' i _ (fun _ => CallInv limits) h.calls hstep
        fun call _ _ hcall hcallStep =>
          ⟨(h.calls call hcall).step hcallStep, fun _ _ hother => hother⟩
    · exact h.balanced.move hstep fun call _ _ hcall hcallStep =>
        (booked_step (h.balanced.weight_le (List.mem_of_getElem? hcall)) h.within hcallStep).1
    · obtain ⟨call, used', call', hcall, hcallStep, rfl⟩ := System.move_eq_some.mp hstep
      have hle := h.balanced.weight_le (List.mem_of_getElem? hcall)
      exact (booked_step hle h.within hcallStep).2

/-- What the budget and the queues count at any moment. -/
structure Budgeted (limits : Limits) (s : BufferState) : Prop where
  /-- Bytes that a thread with a queue's lock is about to book count with that queue. -/
  used : s.shared = total StreamingCall.contribution s.parties
  used_buffered : (∀ call ∈ s.parties, call.queue.held = .nothing) →
    s.shared = total (fun call : StreamingCall => call.queue.bufferedBodyBytes) s.parties
  within : s.shared ≤ limits.limit
  perStream : ∀ call ∈ s.parties, call.queue.bufferedBodyBytes ≤ limits.perStreamLimit
  outstanding : ∀ call ∈ s.parties, ¬ call.Aborted → call.queue.held = .nothing →
    call.queue.bufferedBodyBytes = call.queue.outstanding
  /-- An aborted queue has given everything back, and its channel is empty. -/
  aborted : ∀ call ∈ s.parties, call.Aborted →
    call.contribution = 0 ∧ call.queue.channel = []
  /-- A completed call has once its events have been collected. -/
  collected : ∀ call ∈ s.parties, call.ended = some .completed → call.queue.held = .nothing →
    call.queue.channel = [] → call.queue.taken = [] → call.contribution = 0
  /-- The budget's `release` never takes more than there is. -/
  clamp : ∀ call ∈ s.parties, ∀ bytes,
    call.queue.held = .releasing bytes ∨ call.queue.held = .aborting bytes → bytes ≤ s.shared
  /-- The queue's `release` does so only when the queue has been aborted. -/
  queue_clamp : ∀ call ∈ s.parties, ¬ call.Aborted → call.queue.held = .nothing →
    ∀ event ∈ call.queue.taken, event.size ≤ call.queue.bufferedBodyBytes

/-- The queue of a call that was not aborted has booked what is outstanding
while its lock is free. -/
theorem CallInv.outstanding (h : CallInv limits call) (haborted : ¬ call.Aborted)
    (hheld : call.queue.held = .nothing) :
    call.queue.bufferedBodyBytes = call.queue.outstanding := by
  cases h.stage with
  | live _ _ _ booked => exact (booked.of_nothing hheld).1
  | discarding held => simp [hheld] at held
  | aborting _ held => simp [hheld] at held
  | aborted ended => exact absurd ended haborted

theorem CallInv.perStream (h : CallInv limits call) :
    call.queue.bufferedBodyBytes ≤ limits.perStreamLimit := by
  cases h.stage with
  | live _ _ _ booked =>
    cases booked with
    | settled _ _ le => exact le
    | offering _ _ _ _ room => exact (Nat.le_add_right _ _).trans room
    | sent _ _ _ _ room => exact (Nat.le_add_right _ _).trans room
  | discarding _ _ _ le => exact le
  | aborting _ _ _ _ discarded => rw [discarded]; exact Nat.zero_le _
  | aborted _ _ _ discarded => rw [discarded]; exact Nat.zero_le _

theorem CallInv.of_aborted (h : CallInv limits call) (haborted : call.Aborted) :
    call.contribution = 0 ∧ call.queue.channel = [] := by
  have hended : call.ended ≠ none := by
    rcases haborted with h' | h' <;> simp [h']
  have hpending : call.ending = none := by
    by_contra hne
    exact hended (h.once hne)
  cases h.stage with
  | live ended =>
    unfold StreamingCall.Aborted at haborted
    rcases ended with h' | h' <;> simp [h'] at haborted
  | discarding _ ending => simp [hpending] at ending
  | aborting _ _ ending => simp [hpending] at ending
  | aborted _ held _ discarded channel =>
    refine ⟨?_, channel⟩
    rw [StreamingCall.contribution, held, discarded]
    rfl

theorem Inv.budgeted {s : BufferState} (h : Inv limits s) : Budgeted limits s where
  used := h.balanced
  used_buffered hfree := by
    have hsum : s.shared = total StreamingCall.contribution s.parties := h.balanced
    rw [hsum]
    unfold total
    congr 1
    refine List.map_congr_left fun call hcall => ?_
    rw [StreamingCall.contribution, hfree call hcall]
    rfl
  within := h.within
  perStream call hcall := (h.calls call hcall).perStream
  outstanding call hcall haborted hheld := (h.calls call hcall).outstanding haborted hheld
  aborted call hcall haborted := (h.calls call hcall).of_aborted haborted
  collected call hcall hended hheld hchannel htaken := by
    have haborted : ¬ call.Aborted := by
      unfold StreamingCall.Aborted
      simp [hended]
    have heven := (h.calls call hcall).outstanding haborted hheld
    rw [ResponseQueue.outstanding, hchannel, htaken] at heven
    rw [StreamingCall.contribution, heven, hheld]
    rfl
  clamp call hcall bytes hheld := by
    have hle : call.contribution ≤ s.shared := h.balanced.weight_le hcall
    unfold StreamingCall.contribution at hle
    rcases hheld with hheld | hheld <;> rw [hheld] at hle <;> simp only [Held.bytes] at hle <;>
      omega
  queue_clamp call hcall haborted hheld event hevent := by
    rw [(h.calls call hcall).outstanding haborted hheld]
    exact (weight_le_total hevent).trans (Nat.le_add_left _ _)

/-- In every run of any number of streaming calls the budget is the sum of what
the queues have booked, within both limits, and a call that failed or was
cancelled has nothing of it. -/
theorem run_budgeted (limits : Limits) {steps : List BufferStep} {s : BufferState}
    (hrun : Transition.run (step limits) ⟨0, []⟩ steps = some s) : Budgeted limits s := by
  have hinv : Inv limits s := by
    apply Transition.run_invariant_of_step _ hrun
    · exact ⟨by simp, rfl, Nat.zero_le _⟩
    · intro t label t' h hstep
      exact h.step hstep
  exact hinv.budgeted

/-- Two events are offered and one of them is taken. -/
def takenSteps : List BufferStep :=
  [.executeStreaming, .call 0 (.offer (.body [1, 2, 3])), .call 0 .trySend, .call 0 .book,
    .call 0 (.offer (.body [4])), .call 0 .trySend, .call 0 .book, .call 0 .take]

theorem run_budgeted_taken :
    ∃ s, Transition.run (step ⟨4, 5⟩) ⟨0, []⟩ takenSteps = some s ∧ s.shared = 4 ∧
      Budgeted ⟨4, 5⟩ s := by
  obtain ⟨s, hrun, hused⟩ := Option.map_eq_some_iff.mp
    (show (Transition.run (step ⟨4, 5⟩) ⟨0, []⟩ takenSteps).map System.shared = some 4 by
      decide +kernel)
  exact ⟨s, hrun, hused, run_budgeted ⟨4, 5⟩ hrun⟩

/-- The call fails and its queue is aborted. -/
def failSteps : List BufferStep :=
  [.call 0 .fail, .call 0 .abort, .call 0 .discard, .call 0 .discard, .call 0 .endAbort]

/-- The abort gives back the bytes of an event that the collector has taken and
not released: the queue counts 0 for the 3 bytes, and the clamp in `release` is
what keeps them from being given back twice. -/
theorem run_aborted_taken :
    ∃ s call, Transition.run (step ⟨4, 5⟩) ⟨0, []⟩ (takenSteps ++ failSteps) = some s ∧
      s.parties = [call] ∧ call.queue.held = .nothing ∧
      call.queue.bufferedBodyBytes ≠ call.queue.outstanding ∧
      ∃ event ∈ call.queue.taken, call.queue.bufferedBodyBytes < event.size := by
  obtain ⟨s, hrun, hparties⟩ := Option.map_eq_some_iff.mp
    (show (Transition.run (step ⟨4, 5⟩) ⟨0, []⟩ (takenSteps ++ failSteps)).map System.parties =
      some [{ queue := { closed := true, terminal := true, taken := [.body [1, 2, 3]] },
              terminal := true, ended := some .failed }] by decide +kernel)
  exact ⟨s, _, hrun, hparties, rfl, by decide, _, List.mem_cons_self, by decide⟩

end BufferBudget

end KatHttp3
