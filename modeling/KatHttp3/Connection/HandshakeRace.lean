import KatHttp3.Connection.Client
import KatHttp3.Library.Parties
import KatHttp3.Library.Transition
import KatHttp3.Library.WeightedList
import Mathlib.Data.List.Basic

/-!
# The handshake race

`make_happy_eyeballs_plan`, `run_handshake_race` and `adopt_handshake_winner`. Two
candidates shake hands at the same time, and what the peer sends on streams before one of
them is adopted waits in a buffer. nghttp3 is a function that reads the data of a stream,
or fails. `received`, `opened` and `wonAt` only record.
-/

namespace KatHttp3

open Parties WeightedList

/-! ### The plan -/

structure HappyEyeballsPlan where
  primary : Option ℕ := none
  fallback : Option ℕ := none
  deriving DecidableEq

def HappyEyeballsPlan.enabled (plan : HappyEyeballsPlan) : Bool :=
  plan.primary.isSome && plan.fallback.isSome

def makeHappyEyeballsPlan : List ResolvedEndpoint → HappyEyeballsPlan
  | [] => {}
  | front :: rest =>
    match rest.findIdx? fun endpoint => endpoint.family ≠ front.family with
    | some i => { primary := some 0, fallback := some (i + 1) }
    | none => {}

/-- The first endpoint, and the first one of the other family. -/
structure Alternates (endpoints : List ResolvedEndpoint) (primary fallback : ResolvedEndpoint) :
    Prop where
  first : endpoints.head? = some primary
  other : endpoints.find? (fun endpoint => endpoint.family ≠ primary.family) = some fallback

theorem makeHappyEyeballsPlan_spec {endpoints : List ResolvedEndpoint}
    (h : (makeHappyEyeballsPlan endpoints).enabled = true) :
    ∃ i primary fallback, makeHappyEyeballsPlan endpoints = ⟨some 0, some i⟩ ∧
      endpoints[0]? = some primary ∧ endpoints[i]? = some fallback ∧
        Alternates endpoints primary fallback := by
  cases endpoints with
  | nil => cases h
  | cons front rest =>
    simp only [makeHappyEyeballsPlan] at h ⊢
    cases hfind : rest.findIdx? fun endpoint => endpoint.family ≠ front.family with
    | none =>
      rw [hfind] at h
      cases h
    | some i =>
      obtain ⟨hlt, hdiffers, hbefore⟩ := List.findIdx?_eq_some_iff_getElem.mp hfind
      refine ⟨i + 1, front, rest[i], rfl, rfl, by simp [hlt], rfl, ?_⟩
      rw [List.find?_cons_of_neg (by simp)]
      rw [List.find?_eq_some_iff_getElem]
      exact ⟨hdiffers, i, hlt, rfl, fun j hj => by simpa using hbefore j hj⟩

theorem Family.ne_inet_iff {family : Family} : family ≠ .inet ↔ family = .inet6 := by
  cases family <;> simp

theorem Family.ne_inet6_iff {family : Family} : family ≠ .inet6 ↔ family = .inet := by
  cases family <;> simp

/-- `run` starts a race only for endpoints of both families, and then there is a plan. -/
theorem makeHappyEyeballsPlan_enabled_iff (endpoints : List ResolvedEndpoint) :
    (makeHappyEyeballsPlan endpoints).enabled = true ↔
      (∃ endpoint ∈ endpoints, endpoint.family = .inet) ∧
        ∃ endpoint ∈ endpoints, endpoint.family = .inet6 := by
  cases endpoints with
  | nil => simp [makeHappyEyeballsPlan, HappyEyeballsPlan.enabled]
  | cons front rest =>
    have henabled : (makeHappyEyeballsPlan (front :: rest)).enabled = true ↔
        ∃ endpoint ∈ rest, endpoint.family ≠ front.family := by
      simp only [makeHappyEyeballsPlan]
      cases hfind : rest.findIdx? fun endpoint => endpoint.family ≠ front.family with
      | none =>
        have hnone := List.findIdx?_eq_none_iff.mp hfind
        simpa [HappyEyeballsPlan.enabled] using hnone
      | some i =>
        obtain ⟨hlt, hdiffers, -⟩ := List.findIdx?_eq_some_iff_getElem.mp hfind
        exact iff_of_true rfl ⟨rest[i], List.getElem_mem hlt, by simpa using hdiffers⟩
    rw [henabled]
    cases hfront : front.family with
    | inet => simp [hfront, Family.ne_inet_iff]
    | inet6 => simp [hfront, Family.ne_inet6_iff]

/-! ### The winner -/

/-- The loop of `select_earliest_1rtt_candidate` from index `i` on. -/
def selectEarliestFrom (i : ℕ) (winner : Option ℕ) (earliest : ℕ) : List ℕ → Option ℕ
  | [] => winner
  | readyAt :: rest =>
    if readyAt = 0 then selectEarliestFrom (i + 1) winner earliest rest
    else if winner = none ∨ readyAt < earliest then
      selectEarliestFrom (i + 1) (some i) readyAt rest
    else selectEarliestFrom (i + 1) winner earliest rest

def selectEarliest1RttCandidate (readyAt : List ℕ) : Option ℕ := selectEarliestFrom 0 none 0 readyAt

/-- The index of a least positive time, the first one among equals. -/
def Earliest (times : List ℕ) (winner time : ℕ) : Prop :=
  times[winner]? = some time ∧ 0 < time ∧
    ∀ j other, times[j]? = some other → 0 < other → time < other ∨ time = other ∧ winner ≤ j

theorem Earliest.append {done : List ℕ} {winner time next : ℕ} (h : Earliest done winner time)
    (hnext : next = 0 ∨ time ≤ next) : Earliest (done ++ [next]) winner time := by
  obtain ⟨hwinner, hpos, hleast⟩ := h
  obtain ⟨hlt, -⟩ := List.getElem?_eq_some_iff.mp hwinner
  refine ⟨by rwa [List.getElem?_append_left hlt], hpos, ?_⟩
  intro j other hother hotherPos
  rcases Nat.lt_or_ge j done.length with hj | hj
  · rw [List.getElem?_append_left hj] at hother
    exact hleast j other hother hotherPos
  · rw [List.getElem?_append_right hj] at hother
    obtain rfl : next = other := by
      rw [List.getElem?_singleton] at hother
      split_ifs at hother
      exact Option.some.inj hother
    omega

theorem earliest_last {done : List ℕ} {next : ℕ} (hpos : 0 < next)
    (hleast : ∀ other ∈ done, 0 < other → next < other) :
    Earliest (done ++ [next]) done.length next := by
  refine ⟨List.getElem?_concat_length, hpos, ?_⟩
  intro j other hother hotherPos
  rcases Nat.lt_or_ge j done.length with hj | hj
  · rw [List.getElem?_append_left hj] at hother
    exact .inl (hleast other (List.mem_of_getElem? hother) hotherPos)
  · rw [List.getElem?_append_right hj, List.getElem?_singleton] at hother
    split_ifs at hother
    exact .inr ⟨Option.some.inj hother, hj⟩

/-- What the loop knows of the candidates it has seen. -/
def SelectedSoFar (done : List ℕ) : Option ℕ → ℕ → Prop
  | none, _ => ∀ time ∈ done, time = 0
  | some winner, earliest => Earliest done winner earliest

theorem selectEarliestFrom_spec {rest done : List ℕ} {winner : Option ℕ} {earliest w : ℕ}
    (hdone : SelectedSoFar done winner earliest)
    (h : selectEarliestFrom done.length winner earliest rest = some w) :
    ∃ time, Earliest (done ++ rest) w time := by
  induction rest generalizing done winner earliest with
  | nil =>
    rw [selectEarliestFrom] at h
    subst h
    exact ⟨earliest, by simpa [SelectedSoFar] using hdone⟩
  | cons readyAt rest ih =>
    have happend : done ++ readyAt :: rest = (done ++ [readyAt]) ++ rest := by simp
    have hlength : done.length + 1 = (done ++ [readyAt]).length := by simp
    rw [happend]
    rw [selectEarliestFrom, hlength] at h
    split_ifs at h with hzero hless
    · refine ih ?_ h
      cases winner with
      | none =>
        intro time htime
        rcases List.mem_append.mp htime with hold | hnew
        · exact hdone time hold
        · rw [List.mem_singleton.mp hnew, hzero]
      | some winner => exact Earliest.append hdone (.inl hzero)
    · refine ih ?_ h
      apply earliest_last (Nat.pos_of_ne_zero hzero)
      intro other hother hpos
      cases winner with
      | none => exact absurd (hdone other hother) hpos.ne'
      | some winner =>
        obtain ⟨j, hj, rfl⟩ := List.getElem_of_mem hother
        have hearliest := hdone.2.2 j done[j] (List.getElem?_eq_getElem hj) hpos
        have hlt := hless.resolve_left nofun
        omega
    · refine ih ?_ h
      cases winner with
      | none => exact absurd (.inl rfl) hless
      | some winner =>
        refine Earliest.append hdone (.inr ?_)
        have hge := fun hlt => hless (.inr hlt)
        omega

theorem selectEarliest1RttCandidate_spec {readyAt : List ℕ} {w : ℕ}
    (h : selectEarliest1RttCandidate readyAt = some w) : ∃ time, Earliest readyAt w time := by
  have hnone : SelectedSoFar [] none 0 := nofun
  exact selectEarliestFrom_spec hnone h

/-! ### Stream data before the adoption -/

/-- The arguments of a `recv_stream_data` callback. -/
structure BufferedHandshakeStreamData where
  flags : ℕ
  streamId : ℤ
  offset : ℕ
  data : Str
  deriving DecidableEq

/-- The bit NGTCP2_STREAM_DATA_FLAG_FIN. -/
def BufferedHandshakeStreamData.fin (event : BufferedHandshakeStreamData) : Bool :=
  event.flags % 2 == 1

def BufferedHandshakeStreamData.size (event : BufferedHandshakeStreamData) : ℕ := event.data.length

namespace HandshakeStreamBuffer

def kMaxBytes : ℕ := 1024 * 1024

def kMaxEvents : ℕ := 1024

end HandshakeStreamBuffer

structure HandshakeStreamBuffer where
  events : List BufferedHandshakeStreamData := []
  bufferedBytes : ℕ := 0
  counted : bufferedBytes = total BufferedHandshakeStreamData.size events := by rfl
  fits : Fits BufferedHandshakeStreamData.size HandshakeStreamBuffer.kMaxEvents
    HandshakeStreamBuffer.kMaxBytes events := by exact ⟨Nat.zero_le _, Nat.zero_le _⟩
  deriving DecidableEq

/-- A null pointer with a length. -/
def Chunk.missing : Chunk → Bool
  | .bytes _ => false
  | .null len => len != 0

theorem Chunk.length_data {data : Chunk} (h : data.missing = false) :
    data.data.length = data.len := by
  cases data with
  | bytes data => rfl
  | null len =>
    have hzero : len = 0 := by simpa [missing] using h
    simp [Chunk.data, Chunk.len, hzero]

namespace HandshakeStreamBuffer

variable (buffer : HandshakeStreamBuffer)

def append (flags : ℕ) (streamId : ℤ) (offset : ℕ) (data : Chunk) :
    Option HandshakeStreamBuffer :=
  if hrefused : data.missing = true ∨ kMaxEvents ≤ buffer.events.length ∨
      kMaxBytes - buffer.bufferedBytes < data.len then none
  else
    have hlength : data.data.length = data.len :=
      Chunk.length_data (by simpa using fun h => hrefused (.inl h))
    have htotal : total BufferedHandshakeStreamData.size
        (buffer.events ++ [⟨flags, streamId, offset, data.data⟩]) =
          buffer.bufferedBytes + data.len := by
      rw [total_append, ← buffer.counted, total_cons, total_nil]
      simp [BufferedHandshakeStreamData.size, hlength]
    some
      { events := buffer.events ++ [⟨flags, streamId, offset, data.data⟩]
        bufferedBytes := buffer.bufferedBytes + data.len
        counted := htotal.symm
        fits := by
          obtain ⟨-, hbytes⟩ := buffer.fits
          rw [← buffer.counted] at hbytes
          simp only [not_or, Nat.not_le, Nat.not_lt] at hrefused
          refine ⟨?_, ?_⟩
          · rw [List.length_append, List.length_singleton]
            exact hrefused.2.1
          · rw [htotal]
            omega }

def clear (_ : HandshakeStreamBuffer) : HandshakeStreamBuffer := {}

theorem append_events {buffer' : HandshakeStreamBuffer} {flags : ℕ} {streamId : ℤ} {offset : ℕ}
    {data : Chunk} (h : buffer.append flags streamId offset data = some buffer') :
    buffer'.events = buffer.events ++ [⟨flags, streamId, offset, data.data⟩] := by
  unfold append at h
  split_ifs at h
  cases h
  rfl

end HandshakeStreamBuffer

structure HandshakeCandidate where
  endpoint : ResolvedEndpoint
  handshakeCompleted : Bool := false
  rx1RttKeyReady : Bool := false
  oneRttReadyAt : ℕ := 0
  handshakeConfirmed : Bool := false
  bufferedStreamData : HandshakeStreamBuffer := {}
  adopted : Bool := false
  abandoned : Bool := false
  failed : Bool := false
  /-- The stream data that ngtcp2 has handed over. -/
  received : List BufferedHandshakeStreamData := []

/-- nghttp3's reading of stream data, given the stream, the bytes and whether they are the last. -/
abbrev ReadStream (H : Type*) := H → ℤ → Str → Bool → Option H

variable {H : Type*}

/-- `Http3Session::recv_stream_data`, as far as nghttp3 is concerned. -/
def onRecvStreamData (readStream : ReadStream H) (session : H)
    (event : BufferedHandshakeStreamData) : Option H :=
  readStream session event.streamId event.data event.fin

/-! ### The race -/

structure RaceShared (H : Type*) where
  endpoints : List ResolvedEndpoint
  fallbackStarted : Bool := false
  /-- `http3_`, if its codec is set up. -/
  session : Option H := none
  winner : Option ℕ := none
  /-- `run_handshake_race` has returned false. -/
  lost : Bool := false
  /-- The session as `on_handshake_completed` has made it. -/
  opened : Option H := none
  /-- When the winner was ready. -/
  wonAt : ℕ := 0
  deriving DecidableEq

abbrev HandshakeRace (H : Type*) := System (RaceShared H) HandshakeCandidate

inductive RaceLabel (H : Type*)
  /-- The first candidate, which may fail to start. -/
  | begin (started : Bool)
  | fallback (elapsedNs : ℕ) (started : Bool)
  | recvStreamData (i flags : ℕ) (streamId : ℤ) (offset : ℕ) (data : Chunk)
  | recvRxKey (i now : ℕ)
  | handshakeCompleted (i : ℕ)
  | handshakeConfirmed (i : ℕ)
  /-- A packet, a timer or the socket fails. -/
  | fail (i : ℕ)
  /-- The selection, with what `setup_codec` comes to. -/
  | select (codec : Option H)
  /-- The loop is left without a winner. -/
  | giveUp
  deriving DecidableEq

def kFamilyFallbackDelayNs : ℕ := 250 * 1000 * 1000

namespace HandshakeCandidate

variable (candidate : HandshakeCandidate)

/-- The time that the selection sees. -/
def raceTime : ℕ :=
  if candidate.failed || candidate.abandoned then 0 else candidate.oneRttReadyAt

def recvRxKey (now : ℕ) : HandshakeCandidate :=
  if candidate.abandoned then candidate
  else
    { candidate with
      rx1RttKeyReady := true
      handshakeCompleted := true
      oneRttReadyAt := if candidate.oneRttReadyAt = 0 then now else candidate.oneRttReadyAt }

def confirm : HandshakeCandidate :=
  if candidate.abandoned then candidate else { candidate with handshakeConfirmed := true }

end HandshakeCandidate

namespace RaceShared

variable (shared : RaceShared H)

/-- The candidate still has its connection. -/
def holds (i : ℕ) : Bool := !shared.lost && (shared.winner == none || shared.winner == some i)

/-- A callback of a candidate that has its connection, and in which no callback has failed. -/
def callback (i : ℕ) (candidate : HandshakeCandidate)
    (f : HandshakeCandidate → RaceShared H × HandshakeCandidate) :
    Option (RaceShared H × HandshakeCandidate) :=
  if shared.holds i && !candidate.failed then some (f candidate) else none

/-- `candidate_recv_stream_data_cb`. -/
def recvStreamData (readStream : ReadStream H) (flags : ℕ) (streamId : ℤ) (offset : ℕ)
    (data : Chunk) (candidate : HandshakeCandidate) : RaceShared H × HandshakeCandidate :=
  let event : BufferedHandshakeStreamData := ⟨flags, streamId, offset, data.data⟩
  let heard := { candidate with received := candidate.received ++ [event] }
  if candidate.abandoned then (shared, heard)
  else if candidate.adopted then
    match shared.session.bind fun session => onRecvStreamData readStream session event with
    | some session => ({ shared with session := some session }, heard)
    | none => (shared, { heard with failed := true })
  else
    match candidate.bufferedStreamData.append flags streamId offset data with
    | some buffer => (shared, { heard with bufferedStreamData := buffer })
    | none => (shared, { heard with failed := true })

end RaceShared

namespace HandshakeRace

variable (readStream : ReadStream H) (s : HandshakeRace H)

def initial (endpoints : List ResolvedEndpoint) : HandshakeRace H := ⟨{ endpoints }, []⟩

def plan : HappyEyeballsPlan := makeHappyEyeballsPlan s.shared.endpoints

/-- `start_handshake_candidate` for the endpoint at an index of the plan. -/
def startCandidate (index : Option ℕ) (started : Bool) : HandshakeRace H :=
  match index.bind fun i => s.shared.endpoints[i]? with
  | some endpoint => if started then s.join { endpoint } else s
  | none => s

/-- The race is over, and its candidates are released. -/
def lose : HandshakeRace H :=
  { s with shared := { s.shared with session := none, lost := true } }

/-- `adopt_handshake_winner`, up to the replay. -/
def adoptable (candidate : HandshakeCandidate) : Bool :=
  candidate.handshakeCompleted && candidate.rx1RttKeyReady && candidate.oneRttReadyAt != 0

/-- The winner takes its connection over, and the others lose theirs. -/
def adopt (w : ℕ) (winner : HandshakeCandidate) (opened session : H) : HandshakeRace H where
  shared :=
    { s.shared with
      session := some session
      winner := some w
      opened := some opened
      wonAt := winner.oneRttReadyAt }
  parties := s.parties.mapIdx fun j candidate =>
    if j = w then
      { winner with adopted := true, bufferedStreamData := winner.bufferedStreamData.clear }
    else { candidate with abandoned := true }

def adoptHandshakeWinner (w : ℕ) (codec : Option H) : HandshakeRace H :=
  match s.parties[w]?, codec with
  | some winner, some opened =>
    if adoptable winner then
      match winner.bufferedStreamData.events.foldlM (onRecvStreamData readStream) opened with
      | some session => s.adopt w winner opened session
      | none => s.lose
    else s.lose
  | _, _ => s.lose

/-- The race goes on. -/
def running : Bool := !s.shared.lost && s.shared.winner == none

def step : RaceLabel H → Option (HandshakeRace H)
  | .begin started =>
    if s.running && s.parties.isEmpty && !s.shared.fallbackStarted && s.plan.enabled then
      if started then some (s.startCandidate s.plan.primary true) else some s.lose
    else none
  | .fallback elapsedNs started =>
    if s.running && !s.shared.fallbackStarted &&
        s.parties.head?.any (fun front =>
          decide (kFamilyFallbackDelayNs ≤ elapsedNs) || front.failed) then
      let next := s.startCandidate s.plan.fallback started
      some { next with shared := { next.shared with fallbackStarted := true } }
    else none
  | .recvStreamData i flags streamId offset data =>
    s.move i fun shared candidate => shared.callback i candidate
      (shared.recvStreamData readStream flags streamId offset data)
  | .recvRxKey i now =>
    s.move i fun shared candidate => shared.callback i candidate fun candidate =>
      (shared, candidate.recvRxKey now)
  | .handshakeCompleted i =>
    s.move i fun shared candidate => shared.callback i candidate
      fun candidate => (shared, { candidate with handshakeCompleted := true })
  | .handshakeConfirmed i =>
    s.move i fun shared candidate => shared.callback i candidate fun candidate =>
      (shared, candidate.confirm)
  | .fail i =>
    s.move i fun shared candidate => shared.callback i candidate fun candidate =>
      (shared, { candidate with failed := true })
  | .select codec =>
    if s.running then
      match selectEarliest1RttCandidate (s.parties.map HandshakeCandidate.raceTime) with
      | some w => some (s.adoptHandshakeWinner readStream w codec)
      | none => some s
    else none
  | .giveUp => if s.running then some s.lose else none

end HandshakeRace

end KatHttp3
