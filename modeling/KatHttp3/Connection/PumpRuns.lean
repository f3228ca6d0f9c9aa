import KatHttp3.Connection.WritePump
import KatHttp3.Library.Transition

/-!
# Turns of the write pump

The bytes of a stream arrive at ngtcp2 as nghttp3 has them, and a turn stops soon after
its quantum is used up. A stream that ngtcp2 reports blocked has nothing sent any more,
since no step of a connection unblocks it.
-/

namespace KatHttp3

open WeightedList

/-! ### The bytes of a stream -/

/-- The bytes of a stream in some frames. -/
def StreamFrame.bytesOf (id : ℤ) (frames : List StreamFrame) : List UInt8 :=
  (frames.filter fun frame => frame.id = id).flatMap StreamFrame.data

theorem StreamFrame.bytesOf_append (id : ℤ) (frames more : List StreamFrame) :
    bytesOf id (frames ++ more) = bytesOf id frames ++ bytesOf id more := by
  rw [bytesOf, List.filter_append, List.flatMap_append, bytesOf, bytesOf]

namespace WritePump

variable {maxPktlen : ℕ} {content : ℤ → List UInt8} {pump pump' : WritePump} {id : ℤ}

/-- What ngtcp2 has of a stream. -/
def accepted (pump : WritePump) (id : ℤ) : List UInt8 := StreamFrame.bytesOf id pump.frames

/-- ngtcp2 has the end of the stream. -/
def finished (pump : WritePump) (id : ℤ) : Bool :=
  pump.frames.any fun frame => frame.id == id && frame.fin

/-- ngtcp2 has the bytes of the stream up to the write offset, and its end only with all of them. -/
structure Relayed (content : ℤ → List UInt8) (pump : WritePump) (id : ℤ) : Prop where
  accepted : pump.accepted id = (content id).take (pump.writeOffset id)
  offset : pump.writeOffset id ≤ (content id).length
  fin : pump.finished id = true → pump.writeOffset id = (content id).length

/-- What the steps of a connection do to its streams. -/
structure Progressed (content : ℤ → List UInt8) (pump pump' : WritePump) : Prop where
  relays : (∀ id, Relayed content pump id) → ∀ id, Relayed content pump' id
  stopped : ∀ id, pump.stopped id = true →
    pump'.stopped id = true ∧ pump'.accepted id = pump.accepted id

theorem Progressed.trans {pump'' : WritePump} (h : Progressed content pump pump')
    (h' : Progressed content pump' pump'') : Progressed content pump pump'' where
  relays hrelays := h'.relays (h.relays hrelays)
  stopped id hstopped := by
    obtain ⟨hstopped', haccepted⟩ := h.stopped id hstopped
    obtain ⟨hstopped'', haccepted'⟩ := h'.stopped id hstopped'
    exact ⟨hstopped'', haccepted'.trans haccepted⟩

/-- A step that neither sends bytes of a stream nor calls nghttp3. -/
theorem progressed_of_quiet (hframes : pump'.frames = pump.frames) (hcalls : pump'.calls = pump.calls) :
    Progressed content pump pump' := by
  constructor
  · intro hrelays id
    obtain ⟨haccepted, hoffset, hfin⟩ := hrelays id
    constructor
    · rw [WritePump.accepted, hframes, writeOffset, hcalls]
      exact haccepted
    · rw [writeOffset, hcalls]
      exact hoffset
    · rw [finished, hframes, writeOffset, hcalls]
      exact hfin
  · intro id hstopped
    rw [stopped, blocked, hcalls, WritePump.accepted, hframes]
    exact ⟨hstopped, rfl⟩

/-- A stream stays stopped after a call that does not unblock it. -/
theorem stopped_of_call {call : Nghttp3Call} (hcalls : pump'.calls = pump.calls ++ [call])
    (hkeeps : call.leavesBlocked id true = true) (h : pump.stopped id = true) :
    pump'.stopped id = true := by
  rw [stopped, Bool.or_eq_true] at h ⊢
  rw [blocked, hcalls, List.foldl_append, List.contains_append, Bool.or_eq_true]
  rcases h with hblocked | hshut
  · left
    rw [blocked] at hblocked
    rw [hblocked]
    exact hkeeps
  · exact .inr (.inl hshut)

theorem writeOffset_of_call {call : Nghttp3Call} (hcalls : pump'.calls = pump.calls ++ [call])
    (id : ℤ) : pump'.writeOffset id = pump.writeOffset id + call.offset id := by
  rw [writeOffset, hcalls, total_append, total_cons, total_nil, Nat.add_zero, writeOffset]

/-- A step that calls nghttp3, but not for what has been written. -/
theorem progressed_of_call {call : Nghttp3Call} (hframes : pump'.frames = pump.frames)
    (hcalls : pump'.calls = pump.calls ++ [call]) (hoffset : ∀ id, call.offset id = 0)
    (hkeeps : ∀ id, call.leavesBlocked id true = true) : Progressed content pump pump' := by
  constructor
  · intro hrelays id
    obtain ⟨haccepted, hle, hfin⟩ := hrelays id
    have hsame : pump'.writeOffset id = pump.writeOffset id := by
      rw [writeOffset_of_call hcalls, hoffset, Nat.add_zero]
    constructor
    · rw [WritePump.accepted, hframes, hsame]
      exact haccepted
    · rw [hsame]
      exact hle
    · rw [finished, hframes, hsame]
      exact hfin
  · intro id hstopped
    refine ⟨stopped_of_call hcalls (hkeeps id) hstopped, ?_⟩
    rw [WritePump.accepted, hframes, WritePump.accepted]

/-- The bytes that ngtcp2 takes of those offered follow the ones that it has. -/
theorem Relayed.advance (h : Relayed content pump id) {data : List UInt8} {fin : Bool} {n : ℕ}
    (hoffers : Offers content pump id data fin) (hle : n ≤ data.length)
    (hframes : pump'.frames = pump.frames ++ [⟨id, data.take n, fin && data.length == n⟩])
    (hcalls : pump'.calls = pump.calls ++ [.addWriteOffset id n]) : Relayed content pump' id := by
  have hoffset : pump'.writeOffset id = pump.writeOffset id + n := by
    rw [writeOffset_of_call hcalls, Nghttp3Call.offset, if_pos rfl]
  obtain ⟨rest, hrest⟩ := hoffers.next
  have hlength : data.length + rest.length + pump.writeOffset id = (content id).length := by
    have hdrop := congrArg List.length hrest
    rw [List.length_append, List.length_drop] at hdrop
    have hbefore := h.offset
    omega
  constructor
  · have hbytes : StreamFrame.bytesOf id [⟨id, data.take n, fin && data.length == n⟩] =
        data.take n := by
      simp [StreamFrame.bytesOf]
    rw [WritePump.accepted, hframes, StreamFrame.bytesOf_append, hbytes, hoffset, List.take_add,
      ← hrest, List.take_append_of_le_length hle, ← h.accepted, WritePump.accepted]
  · rw [hoffset]
    omega
  · intro hfinished
    rw [finished, hframes, List.any_append, Bool.or_eq_true] at hfinished
    rw [hoffset]
    rcases hfinished with hold | hnew
    · have hall := h.fin hold
      omega
    · simp only [List.any_cons, List.any_nil, Bool.or_false, beq_self_eq_true, Bool.true_and,
        Bool.and_eq_true, beq_iff_eq] at hnew
      have hwhole := hoffers.fin hnew.1
      omega

/-- A round that sends bytes of a stream. -/
theorem progressed_of_sent {data : List UInt8} {fin : Bool} {n : ℕ}
    (hoffers : Offers content pump id data fin) (hle : n ≤ data.length)
    (hframes : pump'.frames = pump.frames ++ [⟨id, data.take n, fin && data.length == n⟩])
    (hcalls : pump'.calls = pump.calls ++ [.addWriteOffset id n]) :
    Progressed content pump pump' := by
  have haccepted : ∀ other, id ≠ other → pump'.accepted other = pump.accepted other := by
    intro other hne
    rw [WritePump.accepted, hframes, StreamFrame.bytesOf_append, WritePump.accepted]
    simp [StreamFrame.bytesOf, hne]
  constructor
  · intro hrelays other
    rcases eq_or_ne id other with rfl | hne
    · exact (hrelays id).advance hoffers hle hframes hcalls
    · have hoffset : pump'.writeOffset other = pump.writeOffset other := by
        rw [writeOffset_of_call hcalls, Nghttp3Call.offset, if_neg hne, Nat.add_zero]
      obtain ⟨hbytes, hbound, hfin⟩ := hrelays other
      constructor
      · rw [haccepted other hne, hoffset]
        exact hbytes
      · rw [hoffset]
        exact hbound
      · intro hfinished
        rw [finished, hframes, List.any_append, Bool.or_eq_true] at hfinished
        rw [hoffset]
        exact hfin (hfinished.resolve_right (by simp [hne]))
  · intro other hstopped
    refine ⟨stopped_of_call hcalls rfl hstopped, haccepted other ?_⟩
    rintro rfl
    rw [hoffers.going] at hstopped
    cases hstopped

/-! ### What a turn does to the streams -/

/-- What the pump has said to the libraries. -/
structure SameStreams (pump pump' : WritePump) : Prop where
  frames : pump'.frames = pump.frames
  calls : pump'.calls = pump.calls

theorem SameStreams.progressed (h : SameStreams pump pump') : Progressed content pump pump' :=
  progressed_of_quiet h.frames h.calls

theorem SameStreams.trans {pump'' : WritePump} (h : SameStreams pump pump')
    (h' : SameStreams pump' pump'') : SameStreams pump pump'' :=
  ⟨h'.frames.trans h.frames, h'.calls.trans h.calls⟩

theorem sendDatagram_same (pump : WritePump) (payload : List UInt8) (ecn : UInt8)
    (kernel : SendmsgResult) : SameStreams pump (pump.sendDatagram payload ecn kernel).1 := by
  unfold sendDatagram recordSocketError
  split
  · exact ⟨rfl, rfl⟩
  · dsimp only
    split_ifs <;> exact ⟨rfl, rfl⟩

theorem emit_same (pump : WritePump) (payload : List UInt8) (kernel : SendmsgResult) :
    SameStreams pump (pump.emit maxPktlen payload kernel).1 := by
  unfold emit sendPacket
  split_ifs
  · exact ⟨rfl, rfl⟩
  · exact sendDatagram_same _ _ _ _

theorem finishSendQuantum_same (pump : WritePump) : SameStreams pump pump.finishSendQuantum := by
  unfold finishSendQuantum
  split_ifs <;> exact ⟨rfl, rfl⟩

theorem relay_progressed {data : List UInt8} {fin : Bool} {answer : PumpAnswer}
    (hoffers : Offers content pump id data fin) (htakes : answer.quic.Takes data.length)
    (hadded : answer.added = true) :
    Progressed content pump (pump.relay maxPktlen id data fin answer).1 := by
  unfold relay advance
  rw [hadded]
  cases hquic : answer.quic with
  | more ndatalen =>
    cases ndatalen with
    | none => exact progressed_of_quiet rfl rfl
    | some n =>
      rw [hquic] at htakes
      exact progressed_of_sent hoffers htakes rfl rfl
  | streamDataBlocked =>
    exact progressed_of_call rfl rfl (fun _ => rfl) fun _ => rfl
  | streamShutWr =>
    exact progressed_of_call rfl rfl (fun _ => rfl) fun _ => rfl
  | failed => exact progressed_of_quiet rfl rfl
  | packet payload ndatalen =>
    cases ndatalen with
    | none => exact (emit_same pump payload answer.kernel).progressed
    | some n =>
      rw [hquic] at htakes
      dsimp only
      rw [if_pos rfl]
      dsimp only
      split_ifs
      · exact (progressed_of_sent hoffers htakes rfl rfl).trans (emit_same _ _ _).progressed
      · exact (progressed_of_sent hoffers htakes rfl rfl).trans (emit_same _ _ _).progressed

theorem pumpRound_progressed {answer : PumpAnswer} (hok : pump.DocumentedRound content answer) :
    Progressed content pump (pump.pumpRound maxPktlen answer).1 := by
  unfold DocumentedRound at hok
  unfold pumpRound
  cases hhttp : answer.http with
  | failed | idle => exact progressed_of_quiet rfl rfl
  | stream id data fin =>
    rw [hhttp] at hok
    obtain ⟨hoffers, htakes, hadded⟩ := hok
    exact relay_progressed hoffers htakes hadded

theorem pumpWrite_progressed {answers : List PumpAnswer}
    (hok : DocumentedRounds maxPktlen content answers pump)
    (hpump : pumpWrite maxPktlen answers pump = some pump') : Progressed content pump pump' := by
  induction answers generalizing pump with
  | nil => cases hpump
  | cons answer answers ih =>
    obtain ⟨hround, hrest⟩ := hok
    have hprogressed : Progressed content pump (pump.pumpRound maxPktlen answer).1 :=
      pumpRound_progressed hround
    unfold pumpWrite at hpump
    generalize pump.pumpRound maxPktlen answer = result at hprogressed hrest hpump
    obtain ⟨next, again⟩ := result
    cases again with
    | false =>
      cases hpump
      exact hprogressed
    | true => exact hprogressed.trans (ih (hrest rfl) hpump)

theorem writePackets_same {packets : List PacketAnswer}
    (hwrite : writePackets maxPktlen packets pump = some pump') : SameStreams pump pump' := by
  induction packets generalizing pump with
  | nil => cases hwrite
  | cons packet packets ih =>
    cases packet with
    | more => exact ih hwrite
    | failed =>
      cases hwrite
      exact ⟨rfl, rfl⟩
    | packet payload ecn kernel =>
      have hsend := sendDatagram_same pump (payload.take maxPktlen) ecn kernel
      unfold writePackets at hwrite
      generalize pump.sendDatagram (payload.take maxPktlen) ecn kernel = result at hsend hwrite
      obtain ⟨next, sent⟩ := result
      split_ifs at hwrite
      · cases hwrite
        exact finishSendQuantum_same _
      · cases sent with
        | false =>
          cases hwrite
          exact hsend.trans (finishSendQuantum_same _)
        | true =>
          dsimp only at hwrite
          split_ifs at hwrite
          · cases hwrite
            exact hsend.trans (finishSendQuantum_same _)
          · exact hsend.trans (ih hwrite)

/-! ### The quantum of a turn -/

/-- There is room for another packet in the turn. -/
structure Fresh (quantum room : ℕ) (pump : WritePump) : Prop where
  limit : pump.sendQuantumBytes = quantum
  bytes : pump.bytesSentInQuantum < quantum
  queue : pump.socket.sendQueue.length ≤ room

/-- One packet at most has gone beyond the room that the turn had. -/
structure Within (maxPktlen quantum room : ℕ) (pump : WritePump) : Prop where
  limit : pump.sendQuantumBytes = quantum
  bytes : pump.bytesSentInQuantum < quantum + maxPktlen
  queue : pump.socket.sendQueue.length ≤ room + 1

variable {quantum room : ℕ}

theorem Fresh.within (h : pump.Fresh quantum room) : pump.Within maxPktlen quantum room :=
  ⟨h.limit, Nat.lt_add_right _ h.bytes, h.queue.trans (Nat.le_succ room)⟩

theorem Within.fresh (h : pump.Within maxPktlen quantum room)
    (hgoes : pump.sendQuantumExhausted = false) : pump.Fresh quantum room := by
  obtain ⟨hbytes, hempty⟩ := Bool.or_eq_false_iff.mp hgoes
  rw [h.limit, decide_eq_false_iff_not, not_le] at hbytes
  rw [Bool.not_eq_false', List.isEmpty_iff] at hempty
  refine ⟨h.limit, hbytes, ?_⟩
  rw [hempty]
  exact Nat.zero_le room

theorem Fresh.sendDatagram (h : pump.Fresh quantum room) {payload : List UInt8}
    (hlength : payload.length ≤ maxPktlen) (ecn : UInt8) (kernel : SendmsgResult) :
    (pump.sendDatagram payload ecn kernel).1.Within maxPktlen quantum room := by
  obtain ⟨hquantum, hbytes, hqueue⟩ := h
  have hsent := UdpSocket.send_cases pump.socket ⟨payload, ecn⟩ kernel
  unfold WritePump.sendDatagram
  generalize pump.socket.send ⟨payload, ecn⟩ kernel = result at hsent
  cases hsent with
  | refused error taken not order =>
    unfold recordSocketError
    dsimp only
    split_ifs
    all_goals exact ⟨hquantum, Nat.lt_add_right _ hbytes, hqueue.trans (Nat.le_succ room)⟩
  | direct takes =>
    refine ⟨hquantum, ?_, hqueue.trans (Nat.le_succ room)⟩
    dsimp only
    omega
  | queued not pos packets bytes =>
    refine ⟨hquantum, ?_, ?_⟩
    · dsimp only
      omega
    · dsimp only
      rw [List.length_append, List.length_singleton]
      omega

theorem Fresh.emit (h : pump.Fresh quantum room) (payload : List UInt8) (kernel : SendmsgResult) :
    (pump.emit maxPktlen payload kernel).1.Within maxPktlen quantum room ∧
      ((pump.emit maxPktlen payload kernel).2 = true →
        (pump.emit maxPktlen payload kernel).1.Fresh quantum room) := by
  have hsent := h.sendDatagram (List.length_take_le maxPktlen payload) 0 kernel
  unfold WritePump.emit sendPacket
  split_ifs
  · exact ⟨h.within, fun hagain => by cases hagain⟩
  · exact ⟨hsent, fun hagain => hsent.fresh ((Bool.not_eq_true' _).mp hagain)⟩

theorem Fresh.relay (h : pump.Fresh quantum room) (data : List UInt8) (fin : Bool)
    (answer : PumpAnswer) :
    (pump.relay maxPktlen id data fin answer).1.Within maxPktlen quantum room ∧
      ((pump.relay maxPktlen id data fin answer).2 = true →
        (pump.relay maxPktlen id data fin answer).1.Fresh quantum room) := by
  obtain ⟨hlimit, hbytes, hqueue⟩ := h
  unfold WritePump.relay advance
  cases answer.quic with
  | more ndatalen =>
    cases ndatalen with
    | none => exact ⟨Fresh.within ⟨hlimit, hbytes, hqueue⟩, fun _ => ⟨hlimit, hbytes, hqueue⟩⟩
    | some n =>
      dsimp only
      split_ifs
      · exact ⟨Fresh.within ⟨hlimit, hbytes, hqueue⟩, fun _ => ⟨hlimit, hbytes, hqueue⟩⟩
      · exact ⟨Fresh.within ⟨hlimit, hbytes, hqueue⟩, fun hagain => by cases hagain⟩
  | streamDataBlocked | streamShutWr =>
    exact ⟨Fresh.within ⟨hlimit, hbytes, hqueue⟩, fun _ => ⟨hlimit, hbytes, hqueue⟩⟩
  | failed => exact ⟨Fresh.within ⟨hlimit, hbytes, hqueue⟩, fun hagain => by cases hagain⟩
  | packet payload ndatalen =>
    cases ndatalen with
    | none => exact Fresh.emit ⟨hlimit, hbytes, hqueue⟩ payload answer.kernel
    | some n =>
      dsimp only
      by_cases hadded : answer.added = true
      · rw [if_pos hadded]
        dsimp only
        apply Fresh.emit
        split_ifs
        · exact ⟨hlimit, hbytes, hqueue⟩
        · exact ⟨hlimit, hbytes, hqueue⟩
      · rw [if_neg hadded]
        exact ⟨Fresh.within ⟨hlimit, hbytes, hqueue⟩, fun hagain => by cases hagain⟩

theorem Fresh.pumpRound (h : pump.Fresh quantum room) (answer : PumpAnswer) :
    (pump.pumpRound maxPktlen answer).1.Within maxPktlen quantum room ∧
      ((pump.pumpRound maxPktlen answer).2 = true →
        (pump.pumpRound maxPktlen answer).1.Fresh quantum room) := by
  unfold WritePump.pumpRound
  cases answer.http with
  | failed | idle => exact ⟨h.within, fun hagain => by cases hagain⟩
  | stream id data fin => exact h.relay data fin answer

theorem Fresh.pumpWrite (h : pump.Fresh quantum room) {answers : List PumpAnswer}
    (hpump : WritePump.pumpWrite maxPktlen answers pump = some pump') :
    pump'.Within maxPktlen quantum room := by
  induction answers generalizing pump with
  | nil => cases hpump
  | cons answer answers ih =>
    have hwithin : (pump.pumpRound maxPktlen answer).1.Within maxPktlen quantum room :=
      (h.pumpRound answer).1
    have hfresh : (pump.pumpRound maxPktlen answer).2 = true →
        (pump.pumpRound maxPktlen answer).1.Fresh quantum room := (h.pumpRound answer).2
    unfold WritePump.pumpWrite at hpump
    generalize pump.pumpRound maxPktlen answer = result at hwithin hfresh hpump
    obtain ⟨next, again⟩ := result
    cases again with
    | false =>
      cases hpump
      exact hwithin
    | true => exact ih (hfresh rfl) hpump

theorem Within.finishSendQuantum (h : pump.Within maxPktlen quantum room) :
    pump.finishSendQuantum.Within maxPktlen quantum room := by
  unfold WritePump.finishSendQuantum
  split_ifs
  · exact ⟨h.limit, h.bytes, h.queue⟩
  · exact h

theorem Fresh.writePackets (h : pump.Fresh quantum room) {packets : List PacketAnswer}
    (hwrite : WritePump.writePackets maxPktlen packets pump = some pump') :
    pump'.Within maxPktlen quantum room := by
  induction packets generalizing pump with
  | nil => cases hwrite
  | cons packet packets ih =>
    cases packet with
    | more => exact ih h hwrite
    | failed =>
      cases hwrite
      exact h.within
    | packet payload ecn kernel =>
      have hsent := h.sendDatagram (List.length_take_le maxPktlen payload) ecn kernel
      unfold WritePump.writePackets at hwrite
      generalize pump.sendDatagram (payload.take maxPktlen) ecn kernel = result at hsent hwrite
      obtain ⟨next, sent⟩ := result
      split_ifs at hwrite
      · cases hwrite
        exact h.within.finishSendQuantum
      · cases sent with
        | false =>
          cases hwrite
          exact hsent.finishSendQuantum
        | true =>
          dsimp only at hwrite
          split_ifs at hwrite with hexhausted
          · cases hwrite
            exact hsent.finishSendQuantum
          · exact ih (hsent.fresh (Bool.eq_false_of_not_eq_true hexhausted)) hwrite

/-! ### Turns and runs -/

/-- The two halves of a turn. -/
theorem writePending_cases {ready : Bool} {quantum : ℕ} {answers : List PumpAnswer}
    {packets : List PacketAnswer}
    (hwrite : pump.writePending maxPktlen ready quantum answers packets = some pump') :
    ∃ next, (if ready then pumpWrite maxPktlen answers (pump.beginSendQuantum maxPktlen quantum)
        else some (pump.beginSendQuantum maxPktlen quantum)) = some next ∧
      (pump' = next.finishSendQuantum ∨
        next.sendQuantumExhausted = false ∧
          writePackets maxPktlen packets next = some pump') := by
  unfold writePending at hwrite
  dsimp only at hwrite
  split at hwrite
  · cases hwrite
  · rename_i next hnext
    refine ⟨next, hnext, ?_⟩
    split_ifs at hwrite with hexhausted
    · cases hwrite
      exact Or.inl rfl
    · exact Or.inr ⟨Bool.eq_false_of_not_eq_true hexhausted, hwrite⟩

/-- A turn sends less than its quantum and one more packet, and leaves one more datagram in
the queue of the socket at most. -/
theorem writePending_within (hpos : 0 < maxPktlen) {ready : Bool} {quantum : ℕ}
    {answers : List PumpAnswer} {packets : List PacketAnswer}
    (hwrite : pump.writePending maxPktlen ready quantum answers packets = some pump') :
    pump'.Within maxPktlen (max maxPktlen quantum) pump.socket.sendQueue.length := by
  obtain ⟨next, hnext, hrest⟩ := writePending_cases hwrite
  have hbegin : (pump.beginSendQuantum maxPktlen quantum).Fresh (max maxPktlen quantum)
      pump.socket.sendQueue.length :=
    ⟨rfl, lt_max_of_lt_left hpos, le_rfl⟩
  have hwithin : next.Within maxPktlen (max maxPktlen quantum) pump.socket.sendQueue.length := by
    split_ifs at hnext
    · exact hbegin.pumpWrite hnext
    · cases hnext
      exact hbegin.within
  rcases hrest with rfl | ⟨hgoes, hpackets⟩
  · exact hwithin.finishSendQuantum
  · exact (hwithin.fresh hgoes).writePackets hpackets

theorem writePending_progressed {ready : Bool} {quantum : ℕ} {answers : List PumpAnswer}
    {packets : List PacketAnswer}
    (hok : Documented maxPktlen content pump (.write ready quantum answers packets))
    (hwrite : pump.writePending maxPktlen ready quantum answers packets = some pump') :
    Progressed content pump pump' := by
  obtain ⟨next, hnext, hrest⟩ := writePending_cases hwrite
  have hbegin : Progressed content pump (pump.beginSendQuantum maxPktlen quantum) :=
    progressed_of_quiet rfl rfl
  have hpumped : Progressed content pump next := by
    split_ifs at hnext with hready
    · exact hbegin.trans (pumpWrite_progressed (hok hready) hnext)
    · cases hnext
      exact hbegin
  rcases hrest with rfl | ⟨-, hpackets⟩
  · exact hpumped.trans (finishSendQuantum_same next).progressed
  · exact hpumped.trans (writePackets_same hpackets).progressed

/-! ### Runs -/

theorem step_progressed {i : PumpStep} (hok : Documented maxPktlen content pump i)
    (hstep : pump.step maxPktlen i = some pump') : Progressed content pump pump' := by
  cases i with
  | extend id =>
    cases hstep
    exact progressed_of_quiet rfl rfl
  | resume id =>
    cases hstep
    exact progressed_of_call rfl rfl (fun _ => rfl) fun _ => rfl
  | shutdown id =>
    cases hstep
    exact progressed_of_call rfl rfl (fun _ => rfl) fun _ => rfl
  | write ready quantum answers packets =>
    dsimp only [step] at hstep
    split_ifs at hstep
    exact writePending_progressed hok hstep
  | flush kernel =>
    obtain ⟨result, -, rfl⟩ := Option.map_eq_some_iff.mp hstep
    exact progressed_of_quiet rfl rfl
  | migrate fd =>
    dsimp only [step] at hstep
    split_ifs at hstep
    cases hstep
    exact progressed_of_quiet rfl rfl

/-- What holds between the states of a run. -/
theorem run_progressed {steps : List PumpStep}
    (hok : Transition.Meets (step maxPktlen) (Documented maxPktlen content) pump steps)
    (hrun : Transition.run (step maxPktlen) pump steps = some pump') :
    Progressed content pump pump' := by
  refine Transition.run_invariant ?_ hrun hok (progressed_of_quiet rfl rfl)
  intro before step next hbefore hnext hstep
  exact hbefore.trans (step_progressed hnext hstep)

/-- In every run in which the libraries keep what they promise, each stream arrives at ngtcp2 as
nghttp3 has it, no turn writes more than a packet beyond its quantum, and a stream that is
stopped has nothing accepted any more. -/
theorem run_relayed {fd : ℤ} {steps more : List PumpStep} (hpos : 0 < maxPktlen)
    (hrun : Transition.run (step maxPktlen) (initial fd) steps = some pump)
    (hmore : Transition.run (step maxPktlen) pump more = some pump')
    (hok : Transition.Meets (step maxPktlen) (Documented maxPktlen content) (initial fd)
      (steps ++ more)) :
    (∀ id, Relayed content pump id) ∧
      (∀ id, pump.stopped id = true → pump'.accepted id = pump.accepted id) ∧
      ∀ ready quantum answers packets next,
        pump.writePending maxPktlen ready quantum answers packets = some next →
          next.bytesSentInQuantum < max maxPktlen quantum + maxPktlen ∧
            next.socket.sendQueue.length ≤ pump.socket.sendQueue.length + 1 := by
  obtain ⟨hsteps, hlater⟩ := (Transition.meets_append hrun).mp hok
  have hbefore := run_progressed hsteps hrun
  have hafter := run_progressed hlater hmore
  refine ⟨hbefore.relays fun id => ⟨rfl, Nat.zero_le _, fun h => by cases h⟩,
    fun id hstopped => (hafter.stopped id hstopped).2, ?_⟩
  intro ready quantum answers packets next hwrite
  have hwithin := writePending_within hpos hwrite
  exact ⟨hwithin.bytes, hwithin.queue⟩

/-- What nghttp3 has for two requests. -/
def twoRequests (id : ℤ) : List UInt8 := if id = 0 then [1, 2, 3] else if id = 4 then [5, 6] else []

/-- The first request goes out in two writes, the second of which has a packet. The other one is
blocked after a byte. -/
def twoWrites : List PumpStep :=
  [.write true 0
      [⟨.stream 0 [1, 2, 3] true, .more (some 2), true, ⟨none, .eio⟩⟩,
        ⟨.stream 0 [3] true, .packet [8, 9] (some 1), true, ⟨some 2, .eio⟩⟩,
        ⟨.stream 4 [5, 6] true, .more (some 1), true, ⟨none, .eio⟩⟩,
        ⟨.stream 4 [6] true, .streamDataBlocked, true, ⟨none, .eio⟩⟩,
        ⟨.idle, .failed, true, ⟨none, .eio⟩⟩]
      [.packet [] 0 ⟨none, .eio⟩]]

/-- New credit for the blocked stream. -/
def extended : List PumpStep :=
  [.extend 4, .write true 0 [⟨.idle, .failed, true, ⟨none, .eio⟩⟩] [.packet [] 0 ⟨none, .eio⟩]]

theorem run_relayed_twoWrites :
    ∃ pump pump', Transition.run (step 1200) (initial 3) twoWrites = some pump ∧
      Transition.run (step 1200) pump extended = some pump' ∧ Relayed twoRequests pump 0 ∧
        pump.accepted 0 = [1, 2, 3] ∧ pump.finished 0 = true ∧ pump.handed = [⟨[8, 9], 0⟩] ∧
          pump.stopped 4 = true ∧ pump'.accepted 4 = [5] := by
  obtain ⟨pump', hboth, -⟩ := Option.map_eq_some_iff.mp
    (show (Transition.run (step 1200) (initial 3) (twoWrites ++ extended)).map WritePump.txTimes =
      some 1 by decide +kernel)
  obtain ⟨pump, hrun, hmore⟩ := Transition.run_append.mp hboth
  have hok : Transition.Meets (step 1200) (Documented 1200 twoRequests) (initial 3)
      (twoWrites ++ extended) := by decide +kernel
  obtain ⟨hrelayed, hstopped, -⟩ := run_relayed (by decide) hrun hmore hok
  have hpump := congrArg (Option.map fun pump => (pump.accepted 0, pump.finished 0, pump.handed,
    pump.stopped 4, pump.accepted 4)) hrun
  have hvalues : (Transition.run (step 1200) (initial 3) twoWrites).map (fun pump =>
      (pump.accepted 0, pump.finished 0, pump.handed, pump.stopped 4, pump.accepted 4)) =
        some ([1, 2, 3], true, [⟨[8, 9], 0⟩], true, [5]) := by decide +kernel
  rw [hvalues, Option.map_some, Option.some.injEq] at hpump
  simp only [Prod.mk.injEq] at hpump
  obtain ⟨hfirst, hfinished, hhanded, hblocked, hsecond⟩ := hpump
  exact ⟨pump, pump', hrun, hmore, hrelayed 0, hfirst.symm, hfinished.symm, hhanded.symm,
    hblocked.symm, (hstopped 4 hblocked.symm).trans hsecond.symm⟩

end WritePump

end KatHttp3
