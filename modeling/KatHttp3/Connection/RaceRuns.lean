import KatHttp3.Connection.HandshakeRace

/-!
# What a race comes to

The session that the winner gets has read what the winner has received, in order and as if it
had been there from the start. A candidate whose buffer has overflown does not win,
and what the other candidate has received reaches no session.
-/

namespace KatHttp3

open Parties Transition

variable {H : Type*} {readStream : ReadStream H}

/-- What holds of a candidate at a position. -/
structure Competes (readStream : ReadStream H) (shared : RaceShared H) (j : ℕ)
    (candidate : HandshakeCandidate) : Prop where
  buffered : candidate.adopted = false → candidate.failed = false → candidate.abandoned = false →
    candidate.bufferedStreamData.events = candidate.received
  adopted : candidate.adopted = true ↔ shared.winner = some j
  abandoned : candidate.abandoned = true ↔ ∃ w, shared.winner = some w ∧ w ≠ j
  ready : candidate.oneRttReadyAt ≠ 0 →
    candidate.handshakeCompleted = true ∧ candidate.rx1RttKeyReady = true
  replayed : shared.winner = some j → candidate.failed = false →
    ∃ opened session, shared.opened = some opened ∧ shared.session = some session ∧
      candidate.received.foldlM (onRecvStreamData readStream) opened = some session
  won : shared.winner = some j → candidate.oneRttReadyAt = shared.wonAt ∧ shared.wonAt ≠ 0
  beaten : ∀ w, shared.winner = some w → w ≠ j → candidate.failed = true ∨
    candidate.oneRttReadyAt = 0 ∨ shared.wonAt < candidate.oneRttReadyAt ∨
      shared.wonAt = candidate.oneRttReadyAt ∧ w < j
  endpoint : j = 0 ∧ shared.endpoints.head? = some candidate.endpoint ∨
    j = 1 ∧ ∃ primary, Alternates shared.endpoints primary candidate.endpoint

namespace Competes

variable {shared : RaceShared H} {j : ℕ} {candidate : HandshakeCandidate}

/-- A candidate in a callback is not abandoned. -/
theorem not_abandoned (h : Competes readStream shared j candidate) (hholds : shared.holds j = true) :
    candidate.abandoned = false := by
  rw [Bool.eq_false_iff]
  intro habandoned
  obtain ⟨w, hw, hne⟩ := h.abandoned.mp habandoned
  simp [RaceShared.holds, hw, hne] at hholds

theorem session (h : Competes readStream shared j candidate) (hne : shared.winner ≠ some j)
    (session : Option H) : Competes readStream { shared with session := session } j candidate :=
  ⟨h.buffered, h.adopted, h.abandoned, h.ready, fun hw => absurd hw hne, h.won, h.beaten,
    h.endpoint⟩

theorem recvRxKey (h : Competes readStream shared j candidate) (now : ℕ)
    (hlive : candidate.abandoned = false) :
    Competes readStream shared j (candidate.recvRxKey now) := by
  unfold HandshakeCandidate.recvRxKey
  rw [if_neg (by simp [hlive])]
  refine ⟨h.buffered, h.adopted, h.abandoned, fun _ => ⟨rfl, rfl⟩, h.replayed, ?_, ?_, h.endpoint⟩
  · intro hw
    obtain ⟨htime, hpos⟩ := h.won hw
    have hne : candidate.oneRttReadyAt ≠ 0 := htime ▸ hpos
    exact ⟨by simpa only [if_neg hne] using htime, hpos⟩
  · intro w hw hne
    have habandoned := h.abandoned.mpr ⟨w, hw, hne⟩
    rw [hlive] at habandoned
    cases habandoned

theorem complete (h : Competes readStream shared j candidate) :
    Competes readStream shared j { candidate with handshakeCompleted := true } :=
  ⟨h.buffered, h.adopted, h.abandoned, fun hready => ⟨rfl, (h.ready hready).2⟩, h.replayed, h.won,
    h.beaten, h.endpoint⟩

theorem confirm (h : Competes readStream shared j candidate) :
    Competes readStream shared j candidate.confirm := by
  unfold HandshakeCandidate.confirm
  split_ifs
  · exact h
  · exact ⟨h.buffered, h.adopted, h.abandoned, h.ready, h.replayed, h.won, h.beaten, h.endpoint⟩

/-- A candidate that fails may have received more. -/
theorem fail (h : Competes readStream shared j candidate)
    (received : List BufferedHandshakeStreamData) :
    Competes readStream shared j { candidate with received := received, failed := true } :=
  ⟨fun _ => nofun, h.adopted, h.abandoned, h.ready, fun _ => nofun, h.won,
    fun _ _ _ => .inl rfl, h.endpoint⟩

theorem recvStreamData (h : Competes readStream shared j candidate)
    (hlive : candidate.abandoned = false) (hsound : candidate.failed = false) (flags : ℕ)
    (streamId : ℤ) (offset : ℕ) (data : Chunk) :
    Competes readStream (shared.recvStreamData readStream flags streamId offset data candidate).1 j
      (shared.recvStreamData readStream flags streamId offset data candidate).2 := by
  have hskip : ¬candidate.abandoned = true := by simp [hlive]
  unfold RaceShared.recvStreamData
  dsimp only
  rw [if_neg hskip]
  split_ifs with hadopted
  · have hwinner := h.adopted.mp hadopted
    obtain ⟨opened, before, hopened, hbefore, hread⟩ := h.replayed hwinner hsound
    rw [hbefore, Option.bind_some]
    cases hnext : onRecvStreamData readStream before ⟨flags, streamId, offset, data.data⟩ with
    | none => exact h.fail _
    | some after =>
      refine ⟨?_, h.adopted, h.abandoned, h.ready, ?_, h.won, h.beaten, h.endpoint⟩
      · intro hnot
        rw [hadopted] at hnot
        cases hnot
      · intro _ _
        refine ⟨opened, after, hopened, rfl, ?_⟩
        rw [List.foldlM_append, hread]
        simpa using hnext
  · rw [Bool.not_eq_true] at hadopted
    have hrival : shared.winner ≠ some j := by
      intro hwinner
      rw [h.adopted.mpr hwinner] at hadopted
      cases hadopted
    cases happend : candidate.bufferedStreamData.append flags streamId offset data with
    | none => exact h.fail _
    | some buffer =>
      refine ⟨?_, h.adopted, h.abandoned, h.ready, fun hw => absurd hw hrival, h.won, h.beaten,
        h.endpoint⟩
      intro _ _ _
      dsimp only
      rw [HandshakeStreamBuffer.append_events _ happend, h.buffered hadopted hsound hlive]

theorem recvStreamData_shared (h : Competes readStream shared j candidate) (flags : ℕ)
    (streamId : ℤ) (offset : ℕ) (data : Chunk) :
    (shared.recvStreamData readStream flags streamId offset data candidate).1 = shared ∨
      shared.winner = some j ∧
        ∃ session, (shared.recvStreamData readStream flags streamId offset data candidate).1 =
          { shared with session := session } := by
  unfold RaceShared.recvStreamData
  dsimp only
  split_ifs with _ hadopted
  · exact .inl rfl
  · split
    · rename_i session _
      exact .inr ⟨h.adopted.mp hadopted, some session, rfl⟩
    · exact .inl rfl
  · split
    · exact .inl rfl
    · exact .inl rfl

end Competes

/-! ### Runs -/

namespace HandshakeRace

variable {s s' : HandshakeRace H}

structure Sound (readStream : ReadStream H) (s : HandshakeRace H) : Prop where
  planned : s.parties ≠ [] → s.plan.enabled = true
  few : s.shared.fallbackStarted = false → s.parties.length ≤ 1
  unwon : s.shared.winner = none → s.shared.session = none
  lost : s.shared.lost = true → s.shared.winner = none
  inRange : ∀ w, s.shared.winner = some w → w < s.parties.length
  candidates : ∀ j candidate, s.parties[j]? = some candidate →
    Competes readStream s.shared j candidate

theorem sound_initial (endpoints : List ResolvedEndpoint) :
    (initial endpoints : HandshakeRace H).Sound readStream := by
  refine ⟨fun h => absurd rfl h, fun _ => Nat.zero_le _, fun _ => rfl, nofun, nofun, ?_⟩
  intro j candidate hcandidate
  simp [initial] at hcandidate

/-- A callback of one candidate. -/
theorem Sound.callback {i : ℕ}
    {f : RaceShared H → HandshakeCandidate → RaceShared H × HandshakeCandidate}
    (h : s.Sound readStream)
    (hmove : s.move i (fun shared candidate => shared.callback i candidate (f shared)) = some s')
    (hstep : ∀ candidate, Competes readStream s.shared i candidate →
      candidate.abandoned = false → candidate.failed = false →
        Competes readStream (f s.shared candidate).1 i (f s.shared candidate).2 ∧
          ((f s.shared candidate).1 = s.shared ∨ s.shared.winner = some i ∧
            ∃ session, (f s.shared candidate).1 = { s.shared with session := session })) :
    s'.Sound readStream := by
  have hcallback : ∀ candidate shared' candidate', s.parties[i]? = some candidate →
      s.shared.callback i candidate (f s.shared) = some (shared', candidate') →
        Competes readStream shared' i candidate' ∧ (shared' = s.shared ∨
          s.shared.winner = some i ∧ ∃ session, shared' = { s.shared with session := session }) := by
    intro candidate shared' candidate' hcandidate hf
    have hcompetes := h.candidates i candidate hcandidate
    unfold RaceShared.callback at hf
    split_ifs at hf with hguard
    simp only [Bool.and_eq_true, Bool.not_eq_true'] at hguard
    have hnext := hstep candidate hcompetes (hcompetes.not_abandoned hguard.1) hguard.2
    rw [Option.some.inj hf] at hnext
    exact hnext
  have hothers : ∀ candidate shared' candidate', s.parties[i]? = some candidate →
      s.shared.callback i candidate (f s.shared) = some (shared', candidate') →
        Competes readStream shared' i candidate' ∧ ∀ j other, j ≠ i →
          Competes readStream s.shared j other → Competes readStream shared' j other := by
    intro candidate shared' candidate' hcandidate hf
    obtain ⟨hmoved, hshared⟩ := hcallback candidate shared' candidate' hcandidate hf
    refine ⟨hmoved, ?_⟩
    intro j other hne hother
    rcases hshared with rfl | ⟨hwinner, session, rfl⟩
    · exact hother
    · exact hother.session (by rw [hwinner]; simpa using hne.symm) session
  have hall := System.forall_getElem_move (Q := fun shared j candidate =>
    Competes readStream shared j candidate) h.candidates hmove hothers
  obtain ⟨candidate, shared', candidate', hcandidate, hf, rfl⟩ := System.move_eq_some.mp hmove
  obtain ⟨-, hshared⟩ := hcallback candidate shared' candidate' hcandidate hf
  have hlength : (s.parties.set i candidate').length = s.parties.length := List.length_set
  have hnil : s.parties.set i candidate' ≠ [] → s.parties ≠ [] := by
    intro hset hempty
    rw [hempty] at hset
    exact hset rfl
  rcases hshared with rfl | ⟨hwinner, session, rfl⟩
  · exact ⟨fun hset => h.planned (hnil hset), fun hf => hlength ▸ h.few hf, h.unwon, h.lost,
      fun w hw => hlength ▸ h.inRange w hw, hall⟩
  · refine ⟨fun hset => h.planned (hnil hset), fun hf => hlength ▸ h.few hf, ?_, h.lost,
      fun w hw => hlength ▸ h.inRange w hw, hall⟩
    intro hnone
    dsimp only at hnone
    rw [hwinner] at hnone
    cases hnone

/-- The state once the race has lost. -/
theorem Sound.lose (h : s.Sound readStream) (hrunning : s.running = true) :
    s.lose.Sound readStream := by
  simp only [running, Bool.and_eq_true, Bool.not_eq_true', beq_iff_eq] at hrunning
  refine ⟨h.planned, h.few, fun _ => rfl, fun _ => hrunning.2, h.inRange, ?_⟩
  intro j candidate hcandidate
  have hcompetes := (h.candidates j candidate hcandidate).session (by simp [hrunning.2]) none
  exact ⟨hcompetes.buffered, hcompetes.adopted, hcompetes.abandoned, hcompetes.ready,
    hcompetes.replayed, hcompetes.won, hcompetes.beaten, hcompetes.endpoint⟩

/-- A candidate that joins. -/
theorem competes_new {shared : RaceShared H} {j : ℕ} {endpoint : ResolvedEndpoint}
    (hunwon : shared.winner = none)
    (hendpoint : j = 0 ∧ shared.endpoints.head? = some endpoint ∨
      j = 1 ∧ ∃ primary, Alternates shared.endpoints primary endpoint) :
    Competes readStream shared j { endpoint } := by
  have hrival : ∀ w, shared.winner ≠ some w := by simp [hunwon]
  refine ⟨fun _ _ _ => rfl, ?_, ?_, fun hready => absurd rfl hready, ?_, ?_, ?_, hendpoint⟩
  · exact iff_of_false nofun (hrival j)
  · exact iff_of_false nofun fun ⟨w, hw, _⟩ => hrival w hw
  · exact fun hw => absurd hw (hrival j)
  · exact fun hw => absurd hw (hrival j)
  · exact fun w hw => absurd hw (hrival w)

theorem Sound.begin {started : Bool} (h : s.Sound readStream)
    (hstep : s.step readStream (.begin started) = some s') : s'.Sound readStream := by
  simp only [step] at hstep
  split_ifs at hstep with hguard
  · obtain rfl := Option.some.inj hstep
    simp only [running, Bool.and_eq_true, Bool.not_eq_true', beq_iff_eq,
      List.isEmpty_iff] at hguard
    obtain ⟨⟨⟨⟨hopen, hunwon⟩, hempty⟩, hwaiting⟩, hplan⟩ := hguard
    obtain ⟨i, primary, fallback, hchoice, hprimary, -, hfirst, -⟩ :=
      makeHappyEyeballsPlan_spec hplan
    have hindex : s.plan.primary = some 0 := congrArg HappyEyeballsPlan.primary hchoice
    simp only [startCandidate, hindex, Option.bind_some, hprimary]
    refine ⟨fun _ => hplan, ?_, h.unwon, h.lost, ?_, ?_⟩
    · intro _
      simp [System.join, hempty]
    · intro w hw
      simp [System.join, hunwon] at hw
    · apply System.forall_getElem_join
        (Q := fun shared j candidate => Competes readStream shared j candidate) h.candidates
      exact competes_new hunwon (.inl ⟨by simp [hempty], hfirst⟩)
  · obtain rfl := Option.some.inj hstep
    simp only [Bool.and_eq_true] at hguard
    exact h.lose hguard.1.1.1

theorem Sound.fallback {elapsedNs : ℕ} {started : Bool} (h : s.Sound readStream)
    (hstep : s.step readStream (.fallback elapsedNs started) = some s') : s'.Sound readStream := by
  simp only [step] at hstep
  split_ifs at hstep with hguard
  obtain rfl := Option.some.inj hstep
  simp only [running, Bool.and_eq_true, Bool.not_eq_true', beq_iff_eq] at hguard
  obtain ⟨⟨⟨hopen, hunwon⟩, hwaiting⟩, hfront⟩ := hguard
  have hlength : s.parties.length = 1 := by
    have hfew := h.few hwaiting
    have hne : s.parties ≠ [] := by
      rintro hempty
      simp [hempty] at hfront
    have hpos := List.length_pos_iff.mpr hne
    omega
  have hplan := h.planned (by rintro hempty; simp [hempty] at hlength)
  obtain ⟨i, primary, fallback, hchoice, -, hfallback, halternates⟩ :=
    makeHappyEyeballsPlan_spec hplan
  have hindex : s.plan.fallback = some i := congrArg HappyEyeballsPlan.fallback hchoice
  simp only [startCandidate, hindex, Option.bind_some, hfallback]
  cases started with
  | false =>
    refine ⟨h.planned, (fun hf => by cases hf), h.unwon, h.lost, h.inRange, ?_⟩
    intro j candidate hcandidate
    have hc := h.candidates j candidate hcandidate
    exact ⟨hc.buffered, hc.adopted, hc.abandoned, hc.ready, hc.replayed, hc.won, hc.beaten,
      hc.endpoint⟩
  | true =>
    refine ⟨fun _ => hplan, (fun hf => by cases hf), h.unwon, h.lost, ?_, ?_⟩
    · intro w hw
      simp [System.join, hunwon] at hw
    · have hjoined := System.forall_getElem_join
        (Q := fun shared j candidate => Competes readStream shared j candidate) h.candidates
        (competes_new hunwon (.inr ⟨hlength, primary, halternates⟩))
      intro j candidate hcandidate
      have hc := hjoined j candidate hcandidate
      exact ⟨hc.buffered, hc.adopted, hc.abandoned, hc.ready, hc.replayed, hc.won, hc.beaten,
        hc.endpoint⟩

/-- The adoption of the candidate that the selection has chosen. -/
theorem Sound.adopt {w : ℕ} {winner : HandshakeCandidate} {opened session : H} {time : ℕ}
    (h : s.Sound readStream) (hopen : s.shared.lost = false) (hunwon : s.shared.winner = none)
    (hwinner : s.parties[w]? = some winner)
    (hearliest : Earliest (s.parties.map HandshakeCandidate.raceTime) w time)
    (hreplayed : winner.bufferedStreamData.events.foldlM (onRecvStreamData readStream) opened =
      some session) :
    (s.adopt w winner opened session).Sound readStream := by
  have hrival : ∀ j, s.shared.winner ≠ some j := by simp [hunwon]
  have hnotAbandoned : ∀ (j : ℕ) (candidate : HandshakeCandidate), s.parties[j]? = some candidate →
      candidate.abandoned = false := by
    intro j candidate hcandidate
    rw [Bool.eq_false_iff]
    intro habandoned
    obtain ⟨v, hv, -⟩ := (h.candidates j candidate hcandidate).abandoned.mp habandoned
    exact hrival v hv
  obtain ⟨htime, hpos, hleast⟩ := hearliest
  rw [List.getElem?_map, hwinner, Option.map_some, Option.some.injEq] at htime
  have hrace : winner.failed = false ∧ winner.oneRttReadyAt = time := by
    unfold HandshakeCandidate.raceTime at htime
    split_ifs at htime with hout
    · omega
    · simp only [Bool.or_eq_true, not_or, Bool.not_eq_true] at hout
      exact ⟨hout.1, htime⟩
  refine ⟨fun hne => h.planned ?_, fun hf => ?_, (fun hl => by cases hl), ?_, ?_, ?_⟩
  · rintro hempty
    simp [hempty] at hwinner
  · simpa [HandshakeRace.adopt] using h.few hf
  · intro hlost
    have hlost : s.shared.lost = true := hlost
    rw [hopen] at hlost
    cases hlost
  · rintro v hv
    obtain rfl : w = v := by simpa [HandshakeRace.adopt] using hv
    obtain ⟨hlt, -⟩ := List.getElem?_eq_some_iff.mp hwinner
    simpa [HandshakeRace.adopt] using hlt
  · intro j after hafter
    simp only [HandshakeRace.adopt, List.getElem?_mapIdx, Option.map_eq_some_iff] at hafter
    obtain ⟨before, hbefore, hafter⟩ := hafter
    have hc := h.candidates j before hbefore
    split_ifs at hafter with hj
    · subst hj hafter
      obtain rfl := Option.some.inj (hbefore.symm.trans hwinner)
      refine ⟨(fun hf => by cases hf), iff_of_true rfl rfl, ?_, hc.ready, ?_, ?_, ?_, hc.endpoint⟩
      · refine iff_of_false ?_ ?_
        · simp [hnotAbandoned j before hbefore]
        · rintro ⟨v, hv, hne⟩
          exact hne (Option.some.inj hv).symm
      · intro _ _
        have hadopted : before.adopted = false := by
          rw [Bool.eq_false_iff]
          exact fun hadopted => hrival j (hc.adopted.mp hadopted)
        refine ⟨opened, session, rfl, rfl, ?_⟩
        rw [← hc.buffered hadopted hrace.1 (hnotAbandoned j before hbefore)]
        exact hreplayed
      · intro _
        exact ⟨rfl, by simpa [HandshakeRace.adopt, hrace.2] using hpos.ne'⟩
      · intro v hv hne
        exact absurd (Option.some.inj hv).symm hne
    · subst hafter
      have hne : w ≠ j := fun heq => hj heq.symm
      refine ⟨(fun _ _ ha => by cases ha), ?_, iff_of_true rfl ⟨w, rfl, hne⟩, hc.ready, ?_, ?_, ?_,
        hc.endpoint⟩
      · refine iff_of_false (fun hadopted => hrival j (hc.adopted.mp hadopted)) ?_
        exact fun heq => hne (Option.some.inj heq)
      · exact fun heq => absurd (Option.some.inj heq) hne
      · exact fun heq => absurd (Option.some.inj heq) hne
      · intro v hv _
        obtain rfl := Option.some.inj hv
        by_cases hfailed : before.failed = true
        · exact .inl hfailed
        · by_cases hzero : before.oneRttReadyAt = 0
          · exact .inr (.inl hzero)
          · have hrace' : before.raceTime = before.oneRttReadyAt := by
              simp [HandshakeCandidate.raceTime, hfailed, hnotAbandoned j before hbefore]
            have hin : (s.parties.map HandshakeCandidate.raceTime)[j]? =
                some before.oneRttReadyAt := by
              rw [List.getElem?_map, hbefore, Option.map_some, hrace']
            have hbest := hleast j _ hin (Nat.pos_of_ne_zero hzero)
            rw [← hrace.2] at hbest
            exact .inr (.inr (hbest.imp_right fun htie =>
              ⟨htie.1, Nat.lt_of_le_of_ne htie.2 hne⟩))

theorem Sound.select {codec : Option H} (h : s.Sound readStream)
    (hstep : s.step readStream (.select codec) = some s') : s'.Sound readStream := by
  simp only [step] at hstep
  split_ifs at hstep with hrunning
  have hguard := hrunning
  simp only [running, Bool.and_eq_true, Bool.not_eq_true', beq_iff_eq] at hguard
  cases hselect : selectEarliest1RttCandidate (s.parties.map HandshakeCandidate.raceTime) with
  | none =>
    rw [hselect] at hstep
    obtain rfl := Option.some.inj hstep
    exact h
  | some w =>
    rw [hselect] at hstep
    obtain rfl := Option.some.inj hstep
    obtain ⟨time, hearliest⟩ := selectEarliest1RttCandidate_spec hselect
    unfold adoptHandshakeWinner
    split
    · rename_i winner opened hwinner
      split_ifs
      · split
        · rename_i session hreplayed
          exact h.adopt hguard.1 hguard.2 hwinner hearliest hreplayed
        · exact h.lose hrunning
      · exact h.lose hrunning
    · exact h.lose hrunning

theorem Sound.step {label : RaceLabel H} (h : s.Sound readStream)
    (hstep : s.step readStream label = some s') : s'.Sound readStream := by
  cases label with
  | begin started => exact h.begin hstep
  | fallback elapsedNs started => exact h.fallback hstep
  | recvStreamData i flags streamId offset data =>
    apply h.callback (f := fun shared => shared.recvStreamData readStream flags streamId offset data)
      hstep
    intro candidate hcandidate hlive hsound
    exact ⟨hcandidate.recvStreamData hlive hsound flags streamId offset data,
      hcandidate.recvStreamData_shared flags streamId offset data⟩
  | recvRxKey i now =>
    apply h.callback (f := fun shared candidate => (shared, candidate.recvRxKey now)) hstep
    intro candidate hcandidate hlive _
    exact ⟨hcandidate.recvRxKey now hlive, .inl rfl⟩
  | handshakeCompleted i =>
    apply h.callback (f := fun shared candidate =>
      (shared, { candidate with handshakeCompleted := true })) hstep
    intro candidate hcandidate _ _
    exact ⟨hcandidate.complete, .inl rfl⟩
  | handshakeConfirmed i =>
    apply h.callback (f := fun shared candidate => (shared, candidate.confirm)) hstep
    intro candidate hcandidate _ _
    exact ⟨hcandidate.confirm, .inl rfl⟩
  | fail i =>
    apply h.callback (f := fun shared candidate => (shared, { candidate with failed := true })) hstep
    intro candidate hcandidate _ _
    exact ⟨hcandidate.fail candidate.received, .inl rfl⟩
  | select codec => exact h.select hstep
  | giveUp =>
    simp only [HandshakeRace.step] at hstep
    split_ifs at hstep with hrunning
    obtain rfl := Option.some.inj hstep
    exact h.lose hrunning

theorem sound_of_run {endpoints : List ResolvedEndpoint} {labels : List (RaceLabel H)}
    (hrun : run (HandshakeRace.step readStream) (initial endpoints) labels = some s) :
    s.Sound readStream :=
  run_invariant_of_step (fun _ _ _ h hstep => h.step hstep) hrun (sound_initial endpoints)

theorem endpoints_callback {i : ℕ}
    {f : RaceShared H → HandshakeCandidate → RaceShared H × HandshakeCandidate}
    (hmove : s.move i (fun shared candidate => shared.callback i candidate (f shared)) = some s')
    (hf : ∀ candidate, (f s.shared candidate).1.endpoints = s.shared.endpoints) :
    s'.shared.endpoints = s.shared.endpoints := by
  obtain ⟨candidate, shared', candidate', -, hcallback, rfl⟩ := System.move_eq_some.mp hmove
  unfold RaceShared.callback at hcallback
  split_ifs at hcallback
  have hnext := hf candidate
  rw [Option.some.inj hcallback] at hnext
  exact hnext

theorem endpoints_adopt (w : ℕ) (codec : Option H) :
    (s.adoptHandshakeWinner readStream w codec).shared.endpoints = s.shared.endpoints := by
  unfold adoptHandshakeWinner
  split
  · split_ifs
    · split <;> rfl
    · rfl
  · rfl

theorem endpoints_step {label : RaceLabel H} (hstep : s.step readStream label = some s') :
    s'.shared.endpoints = s.shared.endpoints := by
  have hstart : ∀ index started,
      (s.startCandidate index started).shared.endpoints = s.shared.endpoints := by
    intro index started
    unfold startCandidate
    split
    · split_ifs <;> rfl
    · rfl
  cases label with
  | begin started =>
    simp only [HandshakeRace.step] at hstep
    split_ifs at hstep
    · obtain rfl := Option.some.inj hstep
      exact hstart _ _
    · obtain rfl := Option.some.inj hstep
      rfl
  | fallback elapsedNs started =>
    simp only [HandshakeRace.step] at hstep
    split_ifs at hstep
    obtain rfl := Option.some.inj hstep
    exact hstart _ _
  | recvStreamData i flags streamId offset data =>
    apply endpoints_callback
      (f := fun shared => shared.recvStreamData readStream flags streamId offset data) hstep
    intro candidate
    unfold RaceShared.recvStreamData
    dsimp only
    split_ifs
    · rfl
    · split <;> rfl
    · split <;> rfl
  | recvRxKey i now =>
    exact endpoints_callback (f := fun shared candidate => (shared, candidate.recvRxKey now)) hstep
      fun _ => rfl
  | handshakeCompleted i =>
    exact endpoints_callback (f := fun shared candidate =>
      (shared, { candidate with handshakeCompleted := true })) hstep fun _ => rfl
  | handshakeConfirmed i =>
    exact endpoints_callback (f := fun shared candidate => (shared, candidate.confirm)) hstep
      fun _ => rfl
  | fail i =>
    exact endpoints_callback (f := fun shared candidate =>
      (shared, { candidate with failed := true })) hstep fun _ => rfl
  | select codec =>
    simp only [HandshakeRace.step] at hstep
    split_ifs at hstep
    split at hstep
    · obtain rfl := Option.some.inj hstep
      exact endpoints_adopt _ codec
    · obtain rfl := Option.some.inj hstep
      rfl
  | giveUp =>
    simp only [HandshakeRace.step] at hstep
    split_ifs at hstep
    obtain rfl := Option.some.inj hstep
    rfl

theorem endpoints_of_run {endpoints : List ResolvedEndpoint} {labels : List (RaceLabel H)}
    (hrun : run (HandshakeRace.step readStream) (initial endpoints) labels = some s) :
    s.shared.endpoints = endpoints :=
  run_invariant_of_step (fun _ _ _ h hstep => (endpoints_step hstep).trans h) hrun rfl

/-- The candidate at a position has won, and none other will. -/
structure Won (readStream : ReadStream H) (s : HandshakeRace H) (w : ℕ)
    (winner : HandshakeCandidate) : Prop where
  adopted : winner.adopted = true
  replayed : winner.failed = false →
    ∃ opened session, s.shared.opened = some opened ∧ s.shared.session = some session ∧
      winner.received.foldlM (onRecvStreamData readStream) opened = some session
  earliest : winner.oneRttReadyAt ≠ 0
  others : ∀ (j : ℕ) (other : HandshakeCandidate), j ≠ w → s.parties[j]? = some other →
    other.adopted = false ∧ other.abandoned = true ∧
      (other.failed = true ∨ other.oneRttReadyAt = 0 ∨
        winner.oneRttReadyAt < other.oneRttReadyAt ∨
          winner.oneRttReadyAt = other.oneRttReadyAt ∧ w < j)

/-- In every run of a race there is one winner at most. It was ready first among those that
had not failed, and the session has read all that it has received and nothing else, whether it
came before the adoption or after it. Without a winner there is no session. The candidates are
for the first endpoint and the first one of the other family. -/
theorem run_race {endpoints : List ResolvedEndpoint} {labels : List (RaceLabel H)}
    (hrun : run (HandshakeRace.step readStream) (initial endpoints) labels = some s) :
    (∀ w, s.shared.winner = some w →
      ∃ winner, s.parties[w]? = some winner ∧ Won readStream s w winner) ∧
    (s.shared.winner = none → s.shared.session = none ∧
      ∀ candidate ∈ s.parties, candidate.adopted = false) ∧
    ∀ (j : ℕ) (candidate : HandshakeCandidate), s.parties[j]? = some candidate →
      j = 0 ∧ endpoints.head? = some candidate.endpoint ∨
        j = 1 ∧ ∃ primary, Alternates endpoints primary candidate.endpoint := by
  have hsound := sound_of_run hrun
  obtain rfl := endpoints_of_run hrun
  refine ⟨?_, ?_, fun j candidate hcandidate => (hsound.candidates j candidate hcandidate).endpoint⟩
  · intro w hw
    have hlt := hsound.inRange w hw
    have hwinner : s.parties[w]? = some s.parties[w] := List.getElem?_eq_getElem hlt
    have hc := hsound.candidates w _ hwinner
    obtain ⟨htime, hpos⟩ := hc.won hw
    refine ⟨_, hwinner, hc.adopted.mpr hw, hc.replayed hw, htime ▸ hpos, ?_⟩
    intro j other hne hother
    have hloser := hsound.candidates j other hother
    have hrival : s.shared.winner ≠ some j := by
      rw [hw]
      simpa using hne.symm
    refine ⟨?_, hloser.abandoned.mpr ⟨w, hw, hne.symm⟩, ?_⟩
    · rw [Bool.eq_false_iff]
      exact fun hadopted => hrival (hloser.adopted.mp hadopted)
    · rw [htime]
      exact hloser.beaten w hw hne.symm
  · intro hunwon
    refine ⟨hsound.unwon hunwon, ?_⟩
    intro candidate hcandidate
    obtain ⟨j, hj⟩ := List.mem_iff_getElem?.mp hcandidate
    rw [Bool.eq_false_iff]
    intro hadopted
    have hwinner := (hsound.candidates j candidate hj).adopted.mp hadopted
    rw [hunwon] at hwinner
    cases hwinner

/-- A server of both families. -/
def racedEndpoints : List ResolvedEndpoint :=
  [⟨"::1".toList, 443, .inet6⟩, ⟨"127.0.0.1".toList, 443, .inet⟩]

/-- The second candidate is ready first, with data before and after its adoption. -/
def racedLabels : List (RaceLabel (List Str)) :=
  [.begin true, .fallback 250000000 true, .recvRxKey 1 5,
    .recvStreamData 1 0 3 0 (.bytes "settings".toList), .recvRxKey 0 7,
    .recvStreamData 0 0 3 0 (.bytes "lost".toList), .select (some []),
    .recvStreamData 1 0 7 0 (.bytes "qpack".toList)]

/-- A session that keeps what it reads. -/
def recordStream : ReadStream (List Str) := fun session _ data _ => some (session ++ [data])

theorem run_race_replayed :
    ∃ s, run (HandshakeRace.step recordStream) (initial racedEndpoints) racedLabels = some s ∧
      s.shared.session = some ["settings".toList, "qpack".toList] ∧
        ∃ winner, s.parties[1]? = some winner ∧ Won recordStream s 1 winner := by
  have hrun : run (HandshakeRace.step recordStream) (initial racedEndpoints) racedLabels =
      some _ := rfl
  exact ⟨_, hrun, rfl, (run_race hrun).1 1 rfl⟩

end HandshakeRace

end KatHttp3
