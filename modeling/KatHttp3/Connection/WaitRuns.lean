import KatHttp3.Connection.EndpointWait

/-!
# What a worker that waits for name resolution can rely on

In every run: the endpoints are those that were supplied or resolved, and an error has its
reason. A completion is never slept through. A flag may be, if its thread notifies after the
worker has looked at the flag and before it sleeps; if no notification falls there, then as
long as the worker sleeps and a flag is set, somebody is still to notify it.
-/

namespace KatHttp3

open Parties

/-! ### Time -/

theorem le_steadyDeadlineAfterMs (now milliseconds : ℕ) :
    min (now + milliseconds * 1000000) maxSteadyNs ≤ steadyDeadlineAfterMs now milliseconds := by
  unfold steadyDeadlineAfterMs
  dsimp only
  split_ifs
  · exact Nat.min_le_right ..
  · exact Nat.min_le_right ..
  · exact Nat.min_le_left ..

namespace EndpointWait

variable (wait : EndpointWait)

/-- The time for name resolution is over. -/
def Late : Prop := min (wait.started + wait.dnsMs * 1000000) maxSteadyNs ≤ wait.now

variable {wait} {wait' : EndpointWait}

theorem late_of_timeElapsed (h : wait.timeElapsed = true) : wait.Late := by
  unfold timeElapsed deadlineElapsedNs elapsedNs at h
  rw [Bool.and_eq_true, Bool.and_eq_true] at h
  have hpos : millisecondsToNsSaturated wait.dnsMs ≠ 0 := of_decide_eq_true h.1.2
  have hle : millisecondsToNsSaturated wait.dnsMs ≤ wait.now - wait.started := of_decide_eq_true h.2
  unfold Late maxSteadyNs
  unfold millisecondsToNsSaturated at hpos hle
  split_ifs at hpos hle <;> omega

/-! ### The result -/

/-- Nothing has been found yet. -/
structure Fresh (wait : EndpointWait) : Prop where
  endpoints : wait.client.endpoints = []
  error : wait.client.terminalError = .quic

/-- The resolver has not been asked. -/
structure Unasked (wait : EndpointWait) : Prop extends wait.Fresh where
  unregistered : wait.registered = false
  incomplete : wait.complete = false

/-- The worker has no addresses and can be notified. -/
structure Listening (wait : EndpointWait) : Prop extends wait.Fresh where
  unsupplied : wait.suppliedAddresses = []
  published : wait.published = true

theorem Unasked.phase {wait : EndpointWait} (h : wait.Unasked) (phase : WaitPhase) :
    Unasked { wait with phase := phase } :=
  ⟨⟨h.endpoints, h.error⟩, h.unregistered, h.incomplete⟩

theorem Listening.phase {wait : EndpointWait} (h : wait.Listening) (phase : WaitPhase) :
    Listening { wait with phase := phase } :=
  ⟨⟨h.endpoints, h.error⟩, h.unsupplied, h.published⟩

/-- The deadline comes when the time is over. -/
def Bounded (wait : EndpointWait) : Prop :=
  min (wait.started + wait.dnsMs * 1000000) maxSteadyNs ≤ wait.deadline

/-- The endpoints are those of the request, or what the resolver has found. -/
def Sourced (wait : EndpointWait) : Prop :=
  wait.suppliedAddresses ≠ [] ∧
      wait.client.endpoints = wait.suppliedAddresses.map suppliedEndpoint ∨
    wait.suppliedAddresses = [] ∧ wait.complete = true ∧ wait.client.endpoints = wait.result

/-- What `prepare_endpoints` has returned. -/
structure Answer (wait : EndpointWait) (ready : Bool) : Prop where
  ready_iff : ready = true ↔ wait.client.endpoints ≠ []
  sourced : ready = true → wait.client.terminalError = .quic ∧ wait.Sourced
  lost : wait.client.terminalError = .networkLost → wait.networkChanged = true
  late : wait.client.terminalError = .dnsTimeout → wait.Late

def AtPhase (wait : EndpointWait) : WaitPhase → Prop
  | .begun | .timing | .checkingNetwork => wait.Unasked
  | .publishing => wait.Unasked ∧ wait.suppliedAddresses = []
  | .resolving => wait.Unasked ∧ wait.Listening
  | .locking | .locked => wait.Listening
  | .testing | .asleep true | .relocking false => wait.Listening ∧ wait.Bounded
  | .relocking true => wait.Listening ∧ wait.Bounded ∧ wait.deadline ≤ wait.now
  | .inNetwork | .inStop | .inJobs | .inTime | .waiting | .asleep false =>
    wait.Listening ∧ wait.Bounded ∧ wait.complete = false
  | .taking => wait.Listening ∧ wait.complete = true
  | .finishing => wait.client.terminalError = .quic ∧ wait.Sourced
  | .returned ready => wait.Answer ready

theorem AtPhase.asleep {notified : Bool} (h : wait.AtPhase (.asleep notified)) :
    wait.Listening ∧ wait.Bounded := by
  cases notified with
  | true => exact h
  | false => exact ⟨h.1, h.2.1⟩

structure Sound (wait : EndpointWait) : Prop where
  started : wait.started ≤ wait.now
  once : wait.registered = true → wait.complete = false
  phase : wait.AtPhase wait.phase

theorem Fresh.fail (h : wait.Fresh) {error : ErrorCode}
    (hlost : error = .networkLost → wait.networkChanged = true)
    (hlate : error = .dnsTimeout → wait.Late) : (wait.fail error).Answer false where
  ready_iff := by simp [EndpointWait.fail, h.endpoints]
  sourced hready := by cases hready
  lost := hlost
  late := hlate

theorem Fresh.giveUp (h : wait.Fresh) {error : ErrorCode}
    (hlost : error = .networkLost → wait.networkChanged = true)
    (hlate : error = .dnsTimeout → wait.Late) : (wait.giveUp error).Answer false where
  ready_iff := (h.fail hlost hlate).ready_iff
  sourced hready := by cases hready
  lost := hlost
  late := hlate

/-- The worker gives up without an error. -/
theorem Fresh.quiet (h : wait.Fresh) (cancelled : Bool) :
    Answer { wait with cancelled := cancelled, phase := .returned false } false where
  ready_iff := by simp [h.endpoints]
  sourced hready := by cases hready
  lost hlost := by
    rw [h.error] at hlost
    cases hlost
  late hlate := by
    rw [h.error] at hlate
    cases hlate

theorem Sound.advance (h : wait.Sound) (hadvance : wait.advance = some wait') : wait'.Sound := by
  obtain ⟨hstarted, honce, hphase⟩ := h
  unfold EndpointWait.advance at hadvance
  cases heq : wait.phase with
  | begun =>
    rw [heq] at hphase hadvance
    dsimp only at hadvance
    split at hadvance
    · cases hadvance
      exact ⟨hstarted, honce, hphase.toFresh.quiet _⟩
    · cases hadvance
      exact ⟨hstarted, honce, ⟨hphase.endpoints, hphase.error⟩, hphase.unregistered, hphase.incomplete⟩
  | timing =>
    rw [heq] at hphase hadvance
    cases hadvance
    exact ⟨le_rfl, honce, ⟨hphase.endpoints, hphase.error⟩, hphase.unregistered, hphase.incomplete⟩
  | checkingNetwork =>
    rw [heq] at hphase hadvance
    cases hadvance
    split_ifs with hchanged hsupplied
    · exact ⟨hstarted, honce,
        hphase.toFresh.fail (fun _ => hchanged) (fun hlate => by cases hlate)⟩
    · exact ⟨hstarted, honce, Unasked.phase hphase .publishing, hsupplied⟩
    · refine ⟨hstarted, honce, hphase.error, .inl ⟨hsupplied, ?_⟩⟩
      dsimp only
      rw [hphase.endpoints, List.nil_append]
  | publishing =>
    rw [heq] at hphase hadvance
    obtain ⟨hunasked, hsupplied⟩ := hphase
    cases hadvance
    have hfresh : Fresh { wait with published := true, phase := .resolving } :=
      ⟨hunasked.endpoints, hunasked.error⟩
    exact ⟨hstarted, honce, ⟨hfresh, hunasked.unregistered, hunasked.incomplete⟩, hfresh,
      hsupplied, rfl⟩
  | locking =>
    rw [heq] at hphase hadvance
    cases hadvance
    exact ⟨hstarted, honce, Listening.phase hphase .locked⟩
  | locked =>
    rw [heq] at hphase hadvance
    cases hadvance
    refine ⟨hstarted, honce,
      ⟨⟨hphase.endpoints, hphase.error⟩, hphase.unsupplied, hphase.published⟩, ?_⟩
    have hdeadline := le_steadyDeadlineAfterMs wait.now wait.dnsMs
    simp only [Bounded]
    omega
  | testing =>
    rw [heq] at hphase hadvance
    obtain ⟨hlistening, hbounded⟩ := hphase
    cases hadvance
    split_ifs with hcomplete
    · exact ⟨hstarted, honce, hlistening.phase .taking, hcomplete⟩
    · exact ⟨hstarted, honce, hlistening.phase .inNetwork, hbounded,
        Bool.eq_false_of_not_eq_true hcomplete⟩
  | inNetwork =>
    rw [heq] at hphase hadvance
    obtain ⟨hlistening, hrest⟩ := hphase
    cases hadvance
    split_ifs with hchanged
    · exact ⟨hstarted, honce,
        hlistening.toFresh.giveUp (fun _ => hchanged) (fun hlate => by cases hlate)⟩
    · exact ⟨hstarted, honce, hlistening.phase .inStop, hrest⟩
  | inStop =>
    rw [heq] at hphase hadvance
    obtain ⟨hlistening, hrest⟩ := hphase
    cases hadvance
    split_ifs
    · exact ⟨hstarted, honce, hlistening.toFresh.quiet true⟩
    · exact ⟨hstarted, honce, hlistening.phase .inJobs, hrest⟩
  | inJobs =>
    rw [heq] at hphase hadvance
    obtain ⟨hlistening, hrest⟩ := hphase
    cases hadvance
    split_ifs
    · exact ⟨hstarted, honce, hlistening.phase .inTime, hrest⟩
    · exact ⟨hstarted, honce, hlistening.toFresh.quiet true⟩
  | inTime =>
    rw [heq] at hphase hadvance
    obtain ⟨hlistening, hrest⟩ := hphase
    cases hadvance
    split_ifs with helapsed
    · exact ⟨hstarted, honce, hlistening.toFresh.giveUp (fun hlost => by cases hlost)
        (fun _ => late_of_timeElapsed helapsed)⟩
    · exact ⟨hstarted, honce, hlistening.phase .waiting, hrest⟩
  | waiting =>
    rw [heq] at hphase hadvance
    obtain ⟨hlistening, hrest⟩ := hphase
    cases hadvance
    exact ⟨hstarted, honce, hlistening.phase (.asleep false), hrest⟩
  | relocking timedOut =>
    rw [heq] at hphase hadvance
    cases hadvance
    cases timedOut with
    | false => exact ⟨hstarted, honce, Listening.phase hphase.1 .testing, hphase.2⟩
    | true =>
      obtain ⟨hlistening, hbounded, hdeadline⟩ := hphase
      split_ifs
      · exact ⟨hstarted, honce, hlistening.toFresh.giveUp (fun hlost => by cases hlost)
          (fun _ => le_trans hbounded hdeadline)⟩
      · exact ⟨hstarted, honce, hlistening.phase .testing, hbounded⟩
  | taking =>
    rw [heq] at hphase hadvance
    obtain ⟨hlistening, hcomplete⟩ := hphase
    cases hadvance
    exact ⟨hstarted, honce, hlistening.error, .inr ⟨hlistening.unsupplied, hcomplete, rfl⟩⟩
  | finishing =>
    rw [heq] at hphase hadvance
    obtain ⟨herror, hsourced⟩ := hphase
    cases hadvance
    split_ifs with helapsed
    · exact ⟨hstarted, honce, by simp, (fun hready => by cases hready),
        (fun hlost => by cases hlost), fun _ => late_of_timeElapsed helapsed⟩
    · exact ⟨hstarted, honce, bne_iff_ne, fun _ => ⟨herror, hsourced⟩,
        fun hlost => absurd (herror.symm.trans hlost) (by decide),
        fun hlate => absurd (herror.symm.trans hlate) (by decide)⟩
  | resolving | asleep _ | returned _ =>
    rw [heq] at hadvance
    cases hadvance

theorem Sound.resolveAsync (h : wait.Sound) {accepted : Bool}
    (hresolve : wait.resolveAsync accepted = some wait') : wait'.Sound := by
  obtain ⟨hstarted, honce, hphase⟩ := h
  unfold EndpointWait.resolveAsync at hresolve
  split_ifs at hresolve with heq haccepted
  · rw [heq] at hphase
    obtain ⟨hunasked, hlistening⟩ := hphase
    cases hresolve
    exact ⟨hstarted, fun _ => hunasked.incomplete, ⟨hlistening.endpoints, hlistening.error⟩,
      hlistening.unsupplied, hlistening.published⟩
  · rw [heq] at hphase
    cases hresolve
    have hanswer : (wait.fail .dns).Answer false :=
      hphase.1.toFresh.fail (fun hlost => by cases hlost) (fun hlate => by cases hlate)
    exact ⟨hstarted, honce, hanswer.ready_iff, hanswer.sourced, hanswer.lost, hanswer.late⟩

theorem Sound.wake (h : wait.Sound) {timedOut : Bool} (hwake : wait.wake timedOut = some wait') :
    wait'.Sound := by
  obtain ⟨hstarted, honce, hphase⟩ := h
  unfold EndpointWait.wake at hwake
  cases heq : wait.phase with
  | asleep notified =>
    rw [heq] at hphase hwake
    have hasleep := hphase.asleep
    dsimp only at hwake
    split_ifs at hwake with hearly
    cases hwake
    cases timedOut with
    | false => exact ⟨hstarted, honce, hasleep.1.phase (.relocking false), hasleep.2⟩
    | true =>
      exact ⟨hstarted, honce, hasleep.1.phase (.relocking true), hasleep.2, by simpa using hearly⟩
  | _ =>
    rw [heq] at hwake
    cases hwake

theorem Sound.notify (h : wait.Sound) : wait.notify.Sound := by
  obtain ⟨hstarted, honce, hphase⟩ := h
  unfold EndpointWait.notify
  cases heq : wait.phase with
  | asleep notified =>
    rw [heq] at hphase
    exact ⟨hstarted, honce, hphase.asleep.1.phase (.asleep true), hphase.asleep.2⟩
  | _ => exact ⟨hstarted, honce, hphase⟩

theorem notify_of_awake (h : ∀ notified, wait.phase ≠ .asleep notified) : wait.notify = wait := by
  unfold EndpointWait.notify
  split
  · exact absurd ‹_› (h _)
  · rfl

/-- What the callback leaves in the state of the wait. -/
def completed (wait : EndpointWait) (endpoints : List ResolvedEndpoint) : EndpointWait :=
  { wait with result := endpoints, complete := true, registered := false }

theorem Listening.completed (h : wait.Listening) (endpoints : List ResolvedEndpoint) :
    (wait.completed endpoints).Listening :=
  ⟨⟨h.endpoints, h.error⟩, h.unsupplied, h.published⟩

/-- Endpoints that are known before the callback are those of the request. -/
theorem Sourced.completed (h : wait.Sourced) (hincomplete : wait.complete = false)
    (endpoints : List ResolvedEndpoint) : (wait.completed endpoints).Sourced := by
  rcases h with hsupplied | ⟨-, hcomplete, -⟩
  · exact .inl hsupplied
  · exact absurd (hincomplete.symm.trans hcomplete) (by decide)

theorem Sound.resolved (h : wait.Sound) {endpoints : List ResolvedEndpoint}
    (hresolved : wait.resolved endpoints = some wait') : wait'.Sound := by
  unfold EndpointWait.resolved at hresolved
  split_ifs at hresolved with hopen
  obtain ⟨hregistered, hfree⟩ := hopen
  obtain ⟨hstarted, honce, hphase⟩ := h
  have hincomplete := honce hregistered
  obtain rfl : (wait.completed endpoints).notify = wait' := Option.some.inj hresolved
  have hawake (hstage : (wait.completed endpoints).AtPhase wait.phase)
      (hawake : ∀ notified, wait.phase ≠ .asleep notified) :
      (wait.completed endpoints).notify.Sound := by
    have hsame : (wait.completed endpoints).notify = wait.completed endpoints :=
      notify_of_awake hawake
    rw [hsame]
    exact ⟨hstarted, (fun hagain => by cases hagain), hstage⟩
  cases heq : wait.phase with
  | asleep notified =>
    rw [heq] at hphase
    have hlistening := hphase.asleep.1.completed endpoints
    unfold EndpointWait.notify
    rw [show (wait.completed endpoints).phase = .asleep notified from heq]
    exact ⟨hstarted, (fun hagain => by cases hagain), hlistening.phase (.asleep true),
      hphase.asleep.2⟩
  | begun | timing | checkingNetwork =>
    rw [heq] at hphase
    exact absurd (hphase.unregistered.symm.trans hregistered) (by decide)
  | publishing | resolving =>
    rw [heq] at hphase
    exact absurd (hphase.1.unregistered.symm.trans hregistered) (by decide)
  | locking =>
    rw [heq] at hphase hawake
    exact hawake (Listening.completed hphase endpoints) (by simp)
  | relocking timedOut =>
    rw [heq] at hphase hawake
    cases timedOut with
    | false => exact hawake ⟨hphase.1.completed endpoints, hphase.2⟩ (by simp)
    | true => exact hawake ⟨hphase.1.completed endpoints, hphase.2⟩ (by simp)
  | finishing =>
    rw [heq] at hphase hawake
    exact hawake ⟨hphase.1, hphase.2.completed hincomplete endpoints⟩ (by simp)
  | returned ready =>
    rw [heq] at hphase hawake
    refine hawake ⟨hphase.ready_iff, fun hready => ?_, hphase.lost, hphase.late⟩ (by simp)
    obtain ⟨herror, hsourced⟩ := hphase.sourced hready
    exact ⟨herror, hsourced.completed hincomplete endpoints⟩
  | locked | testing | inNetwork | inStop | inJobs | inTime | waiting | taking =>
    rw [heq] at hfree
    cases hfree

/-- Other threads change the jobs and the flag of the client, the network and the time. -/
def outside (wait : EndpointWait) (client : Client) (addresses : List (List (Str × ℕ)))
    (generation now : ℕ) : EndpointWait :=
  { wait with
    client := client
    addresses := addresses
    requestedNetworkGeneration := generation
    now := now }

section

variable {client : Client} (addresses : List (List (Str × ℕ))) {generation now : ℕ}
  (hendpoints : client.endpoints = wait.client.endpoints)
  (herror : client.terminalError = wait.client.terminalError)
include hendpoints herror

theorem Unasked.outside (h : wait.Unasked) :
    (wait.outside client addresses generation now).Unasked :=
  ⟨⟨hendpoints.trans h.endpoints, herror.trans h.error⟩, h.unregistered, h.incomplete⟩

theorem Listening.outside (h : wait.Listening) :
    (wait.outside client addresses generation now).Listening :=
  ⟨⟨hendpoints.trans h.endpoints, herror.trans h.error⟩, h.unsupplied, h.published⟩

omit herror in
theorem Sourced.outside (h : wait.Sourced) :
    (wait.outside client addresses generation now).Sourced := by
  rcases h with ⟨hsupplied, heq⟩ | ⟨hsupplied, hcomplete, heq⟩
  · exact .inl ⟨hsupplied, hendpoints.trans heq⟩
  · exact .inr ⟨hsupplied, hcomplete, hendpoints.trans heq⟩

theorem Answer.outside {ready : Bool} (h : wait.Answer ready)
    (hnetwork : wait.requestedNetworkGeneration ≤ generation) (hnow : wait.now ≤ now) :
    (wait.outside client addresses generation now).Answer ready where
  ready_iff := h.ready_iff.trans (not_congr (by rw [EndpointWait.outside, hendpoints]))
  sourced hready :=
    ⟨herror.trans (h.sourced hready).1, (h.sourced hready).2.outside addresses hendpoints⟩
  lost hlost := by
    have hchanged := of_decide_eq_true (h.lost (herror.symm.trans hlost))
    exact decide_eq_true (lt_of_lt_of_le hchanged hnetwork)
  late hlate := le_trans (h.late (herror.symm.trans hlate)) hnow

theorem Sound.outside (h : wait.Sound) (hnetwork : wait.requestedNetworkGeneration ≤ generation)
    (hnow : wait.now ≤ now) : (wait.outside client addresses generation now).Sound := by
  obtain ⟨hstarted, honce, hphase⟩ := h
  refine ⟨le_trans hstarted hnow, honce, ?_⟩
  change AtPhase _ wait.phase
  cases heq : wait.phase with
  | begun | timing | checkingNetwork =>
    rw [heq] at hphase
    exact Unasked.outside addresses hendpoints herror hphase
  | publishing =>
    rw [heq] at hphase
    exact ⟨hphase.1.outside addresses hendpoints herror, hphase.2⟩
  | resolving =>
    rw [heq] at hphase
    exact ⟨hphase.1.outside addresses hendpoints herror,
      hphase.2.outside addresses hendpoints herror⟩
  | locking | locked =>
    rw [heq] at hphase
    exact Listening.outside addresses hendpoints herror hphase
  | testing | inNetwork | inStop | inJobs | inTime | waiting | taking =>
    rw [heq] at hphase
    exact ⟨hphase.1.outside addresses hendpoints herror, hphase.2⟩
  | asleep flag =>
    rw [heq] at hphase
    cases flag with
    | false => exact ⟨hphase.1.outside addresses hendpoints herror, hphase.2⟩
    | true => exact ⟨hphase.1.outside addresses hendpoints herror, hphase.2⟩
  | relocking timedOut =>
    rw [heq] at hphase
    cases timedOut with
    | false => exact ⟨hphase.1.outside addresses hendpoints herror, hphase.2⟩
    | true =>
      exact ⟨hphase.1.outside addresses hendpoints herror, hphase.2.1, le_trans hphase.2.2 hnow⟩
  | finishing =>
    rw [heq] at hphase
    exact ⟨herror.trans hphase.1, hphase.2.outside addresses hendpoints⟩
  | returned ready =>
    rw [heq] at hphase
    exact Answer.outside addresses hendpoints herror hphase hnetwork hnow

end

end EndpointWait

/-! ### Flags and notifications -/

namespace WaitCause

/-- The flag is set. -/
def raised (wait : EndpointWait) : WaitCause → Bool
  | network => wait.networkChanged
  | stop => wait.client.stop
  | jobs => !wait.client.hasLivePendingJob

/-- The worker has looked at the flag and has not slept since. -/
def passed : WaitCause → WaitPhase → Bool
  | network, .inStop | network, .inJobs | network, .inTime | network, .waiting => true
  | stop, .inJobs | stop, .inTime | stop, .waiting => true
  | jobs, .inTime | jobs, .waiting => true
  | _, _ => false

/-- A flag that is set now would go unnoticed. -/
def overlooked (cause : WaitCause) (phase : WaitPhase) : Bool :=
  cause.passed phase || phase == .asleep false

end WaitCause

namespace EndpointWait

variable {wait wait' : EndpointWait} {cause : WaitCause}

theorem raised_advance (cause : WaitCause) (hadvance : wait.advance = some wait') :
    cause.raised wait' = cause.raised wait := by
  unfold EndpointWait.advance at hadvance
  cases heq : wait.phase with
  | begun =>
    rw [heq] at hadvance
    dsimp only at hadvance
    split at hadvance
    all_goals
      cases hadvance
      cases cause <;> rfl
  | timing | publishing | locking | locked | testing | waiting | taking =>
    rw [heq] at hadvance
    cases hadvance
    cases cause <;> rfl
  | checkingNetwork | inNetwork | inStop | inJobs | inTime | relocking _ | finishing =>
    rw [heq] at hadvance
    cases hadvance
    split_ifs <;> cases cause <;> rfl
  | resolving | asleep _ | returned _ =>
    rw [heq] at hadvance
    cases hadvance

/-- The worker only goes on past a flag that is not set. -/
theorem overlooked_advance (hadvance : wait.advance = some wait')
    (hoverlooked : cause.overlooked wait'.phase = true) :
    cause.overlooked wait.phase = true ∨ cause.raised wait = false := by
  unfold EndpointWait.advance at hadvance
  cases heq : wait.phase with
  | begun =>
    rw [heq] at hadvance
    dsimp only at hadvance
    split at hadvance
    all_goals
      cases hadvance
      cases cause <;> cases hoverlooked
  | timing | publishing | locking | locked | taking =>
    rw [heq] at hadvance
    cases hadvance
    cases cause <;> cases hoverlooked
  | checkingNetwork | testing | relocking _ | finishing =>
    rw [heq] at hadvance
    cases hadvance
    split_ifs at hoverlooked <;> cases cause <;> cases hoverlooked
  | inNetwork =>
    rw [heq] at hadvance
    cases hadvance
    split_ifs at hoverlooked with hchanged
    · cases cause <;> cases hoverlooked
    · cases cause with
      | network => exact .inr (Bool.eq_false_of_not_eq_true hchanged)
      | stop | jobs => cases hoverlooked
  | inStop =>
    rw [heq] at hadvance
    cases hadvance
    split_ifs at hoverlooked with hstop
    · cases cause <;> cases hoverlooked
    · cases cause with
      | network => exact .inl rfl
      | stop => exact .inr (Bool.eq_false_of_not_eq_true hstop)
      | jobs => cases hoverlooked
  | inJobs =>
    rw [heq] at hadvance
    cases hadvance
    split_ifs at hoverlooked with hlive
    · cases cause with
      | network | stop => exact .inl rfl
      | jobs =>
        rw [WaitCause.raised, hlive]
        exact .inr rfl
    · cases cause <;> cases hoverlooked
  | inTime =>
    rw [heq] at hadvance
    cases hadvance
    split_ifs at hoverlooked
    · cases cause <;> cases hoverlooked
    · cases cause <;> exact .inl rfl
  | waiting => cases cause <;> exact .inl rfl
  | resolving | asleep _ | returned _ =>
    rw [heq] at hadvance
    cases hadvance

theorem overlooked_resolveAsync {accepted : Bool}
    (hresolve : wait.resolveAsync accepted = some wait') :
    cause.overlooked wait'.phase = false := by
  unfold EndpointWait.resolveAsync at hresolve
  split_ifs at hresolve
  all_goals
    cases hresolve
    cases cause <;> rfl

theorem overlooked_wake {timedOut : Bool} (hwake : wait.wake timedOut = some wait') :
    cause.overlooked wait'.phase = false := by
  unfold EndpointWait.wake at hwake
  split at hwake
  · split_ifs at hwake
    cases hwake
    cases cause <;> rfl
  · cases hwake

theorem overlooked_resolved {endpoints : List ResolvedEndpoint}
    (hresolved : wait.resolved endpoints = some wait') : cause.overlooked wait'.phase = false := by
  unfold EndpointWait.resolved at hresolved
  split_ifs at hresolved with hopen
  cases hresolved
  have hfree := hopen.2
  unfold EndpointWait.notify
  cases heq : wait.phase with
  | inStop | inJobs | inTime | waiting =>
    rw [heq] at hfree
    cases hfree
  | _ => cases cause <;> rfl

end EndpointWait

namespace WaitSystem

variable {s s' : WaitSystem}

/-- No thread notifies the worker between its look at the flag and its sleep. -/
def InTime (s : WaitSystem) : WaitStep → Prop
  | .notifier i => ∀ notifier ∈ s.parties[i]?, notifier.phase = .notifying →
      notifier.cause.passed s.shared.phase = false
  | _ => True

/-- A flag that would go unnoticed is one that somebody is still to notify. -/
def Aware (s : WaitSystem) : Prop :=
  ∀ cause : WaitCause, cause.overlooked s.shared.phase = true → cause.raised s.shared = true →
    ∃ notifier ∈ s.parties, notifier.cause = cause ∧ notifier.phase ≠ .done

theorem published_of_overlooked {wait : EndpointWait} (h : wait.Sound) {cause : WaitCause}
    (hoverlooked : cause.overlooked wait.phase = true) : wait.published = true := by
  have hphase := h.phase
  cases heq : wait.phase with
  | inStop | inJobs | inTime | waiting =>
    rw [heq] at hphase
    exact hphase.1.published
  | asleep notified =>
    rw [heq] at hphase
    exact hphase.asleep.1.published
  | _ =>
    rw [heq] at hoverlooked
    cases cause <;> cases hoverlooked

theorem cancelJob_same (client : Client) (id : ℤ) :
    (client.cancelJob id).endpoints = client.endpoints ∧
      (client.cancelJob id).terminalError = client.terminalError ∧
      (client.cancelJob id).stop = client.stop := by
  unfold Client.cancelJob
  split_ifs <;> exact ⟨rfl, rfl, rfl⟩

theorem sound_step (h : s.shared.Sound) (label : WaitStep) (hstep : s.step label = some s') :
    s'.shared.Sound := by
  cases label with
  | worker =>
    obtain ⟨wait, hadvance, rfl⟩ := Option.map_eq_some_iff.mp hstep
    exact h.advance hadvance
  | resolveAsync accepted =>
    obtain ⟨wait, hresolve, rfl⟩ := Option.map_eq_some_iff.mp hstep
    exact h.resolveAsync hresolve
  | wake timedOut =>
    obtain ⟨wait, hwake, rfl⟩ := Option.map_eq_some_iff.mp hstep
    exact h.wake hwake
  | resolved endpoints =>
    obtain ⟨wait, hresolved, rfl⟩ := Option.map_eq_some_iff.mp hstep
    exact h.resolved hresolved
  | notifier i =>
    obtain ⟨notifier, wait, notifier', -, hadvance, rfl⟩ := System.move_eq_some.mp hstep
    unfold DnsNotifier.advance at hadvance
    split at hadvance
    · cases hadvance
      exact h
    · cases hadvance
      exact h.notify
    · cases hadvance
  | tick ns =>
    cases hstep
    exact h.outside _ rfl rfl le_rfl (Nat.le_add_right ..)
  | submit id request addresses =>
    cases hstep
    exact h.outside _ rfl rfl le_rfl le_rfl
  | changeNetwork generation =>
    dsimp only [step] at hstep
    split_ifs at hstep with hlater
    cases hstep
    exact h.outside _ rfl rfl (le_of_lt hlater) le_rfl
  | cancel id =>
    dsimp only [step] at hstep
    obtain ⟨hendpoints, herror, -⟩ := cancelJob_same s.shared.client id
    split_ifs at hstep
    · cases hstep
      exact h.outside _ hendpoints herror le_rfl le_rfl
    · cases hstep
      exact h
  | stop =>
    dsimp only [step] at hstep
    split_ifs at hstep
    cases hstep
    exact h.outside _ rfl rfl le_rfl le_rfl

/-- The worker and the resolver leave the flags and the other threads as they are. -/
theorem Aware.update (h : s.Aware) {wait : EndpointWait}
    (hoverlooked : ∀ cause : WaitCause, cause.overlooked wait.phase = true →
      cause.raised wait = true → cause.overlooked s.shared.phase = true ∧
        cause.raised s.shared = true) : Aware { s with shared := wait } := by
  intro cause hpassed hraised
  obtain ⟨hbefore, hset⟩ := hoverlooked cause hpassed hraised
  exact h cause hbefore hset

theorem Aware.raise (h : s.Aware) {cause : WaitCause} {wait : EndpointWait}
    (hphase : wait.phase = s.shared.phase)
    (hothers : ∀ other : WaitCause, other ≠ cause → other.raised wait = other.raised s.shared) :
    (s.raise cause wait).Aware := by
  intro other hpassed hraised
  rcases eq_or_ne other cause with rfl | hne
  · exact ⟨_, List.mem_append_right _ (List.mem_singleton_self _), rfl, by simp⟩
  · have hbefore : other.overlooked s.shared.phase = true := hphase ▸ hpassed
    obtain ⟨notifier, hmem, hnotifier⟩ := h other hbefore ((hothers other hne).symm.trans hraised)
    exact ⟨notifier, List.mem_append_left _ hmem, hnotifier⟩

theorem aware_notifier (hsound : s.shared.Sound) (h : s.Aware) {i : ℕ}
    (hok : s.InTime (.notifier i)) (hstep : s.move i DnsNotifier.advance = some s') :
    s'.Aware := by
  obtain ⟨notifier, wait, notifier', hget, hadvance, rfl⟩ := System.move_eq_some.mp hstep
  have hothers {other : DnsNotifier} (hmem : other ∈ s.parties) (hne : other ≠ notifier) :
      other ∈ s.parties.set i notifier' := by
    obtain ⟨j, hj⟩ := List.mem_iff_getElem?.mp hmem
    have hij : i ≠ j := by
      rintro rfl
      exact hne (Option.some.inj (hj.symm.trans hget))
    exact List.mem_iff_getElem?.mpr ⟨j, by rw [List.getElem?_set_ne hij, hj]⟩
  have hself : notifier' ∈ s.parties.set i notifier' :=
    List.mem_set (List.getElem?_eq_some_iff.mp hget).1 _
  unfold DnsNotifier.advance at hadvance
  cases hphase : notifier.phase with
  | raised =>
    rw [hphase] at hadvance
    cases hadvance
    intro cause hoverlooked hraised
    obtain ⟨other, hmem, hcause, hopen⟩ := h cause hoverlooked hraised
    rcases eq_or_ne other notifier with rfl | hne
    · refine ⟨_, hself, hcause, ?_⟩
      rw [if_pos (published_of_overlooked hsound hoverlooked)]
      simp
    · exact ⟨other, hothers hmem hne, hcause, hopen⟩
  | notifying =>
    rw [hphase] at hadvance
    cases hadvance
    intro cause hoverlooked hraised
    by_cases hasleep : ∃ notified, s.shared.phase = .asleep notified
    · -- the worker has been notified
      obtain ⟨notified, hasleep⟩ := hasleep
      simp only [EndpointWait.notify, hasleep] at hoverlooked
      cases cause <;> cases hoverlooked
    · rw [not_exists] at hasleep
      have hsame : s.shared.notify = s.shared := EndpointWait.notify_of_awake hasleep
      rw [hsame] at hoverlooked hraised
      obtain ⟨other, hmem, hcause, hopen⟩ := h cause hoverlooked hraised
      rcases eq_or_ne other notifier with rfl | hne
      · have hearly : other.cause.passed s.shared.phase = false := hok other hget hphase
        rw [hcause] at hearly
        rw [WaitCause.overlooked, hearly, Bool.false_or, beq_iff_eq] at hoverlooked
        exact absurd hoverlooked (hasleep false)
      · exact ⟨other, hothers hmem hne, hcause, hopen⟩
  | done =>
    rw [hphase] at hadvance
    cases hadvance

theorem aware_step (hsound : s.shared.Sound) (h : s.Aware) {label : WaitStep}
    (hok : s.InTime label) (hstep : s.step label = some s') : s'.Aware := by
  cases label with
  | worker =>
    obtain ⟨wait, hadvance, rfl⟩ := Option.map_eq_some_iff.mp hstep
    apply h.update
    intro cause hoverlooked hraised
    rw [EndpointWait.raised_advance cause hadvance] at hraised
    rcases EndpointWait.overlooked_advance hadvance hoverlooked with hbefore | hunset
    · exact ⟨hbefore, hraised⟩
    · exact absurd (hunset.symm.trans hraised) (by decide)
  | resolveAsync accepted =>
    obtain ⟨wait, hresolve, rfl⟩ := Option.map_eq_some_iff.mp hstep
    apply h.update
    intro cause hoverlooked
    rw [EndpointWait.overlooked_resolveAsync hresolve] at hoverlooked
    cases hoverlooked
  | wake timedOut =>
    obtain ⟨wait, hwake, rfl⟩ := Option.map_eq_some_iff.mp hstep
    apply h.update
    intro cause hoverlooked
    rw [EndpointWait.overlooked_wake hwake] at hoverlooked
    cases hoverlooked
  | resolved endpoints =>
    obtain ⟨wait, hresolved, rfl⟩ := Option.map_eq_some_iff.mp hstep
    apply h.update
    intro cause hoverlooked
    rw [EndpointWait.overlooked_resolved hresolved] at hoverlooked
    cases hoverlooked
  | notifier i => exact aware_notifier hsound h hok hstep
  | tick ns =>
    cases hstep
    exact h
  | submit id request addresses =>
    cases hstep
    apply h.update
    intro cause hoverlooked hraised
    cases cause with
    | network | stop => exact ⟨hoverlooked, hraised⟩
    | jobs => simp [WaitCause.raised, Client.hasLivePendingJob, Client.submitJob] at hraised
  | changeNetwork generation =>
    dsimp only [step] at hstep
    split_ifs at hstep
    cases hstep
    apply Aware.raise h
    · rfl
    · intro other hne
      cases other with
      | network => exact absurd rfl hne
      | stop | jobs => rfl
  | cancel id =>
    dsimp only [step] at hstep
    split_ifs at hstep
    · cases hstep
      apply Aware.raise h
      · rfl
      · intro other hne
        cases other with
        | jobs => exact absurd rfl hne
        | network => rfl
        | stop => exact (cancelJob_same s.shared.client id).2.2
    · cases hstep
      exact h
  | stop =>
    dsimp only [step] at hstep
    split_ifs at hstep
    cases hstep
    apply Aware.raise h
    · rfl
    · intro other hne
      cases other with
      | stop => exact absurd rfl hne
      | network | jobs => rfl

/-! ### The end of the wait -/

end WaitSystem

/-- With the flag of the destructor set, so many actions are left to the worker. -/
def WaitPhase.actionsLeft : WaitPhase → ℕ
  | returned _ => 0
  | finishing | inStop => 1
  | taking | inNetwork => 2
  | testing => 3
  | relocking _ | locked => 4
  | asleep _ | locking => 5
  | waiting | resolving => 6
  | inTime | publishing => 7
  | inJobs | checkingNetwork => 8
  | timing => 9
  | begun => 10

/-- An action of the worker. -/
def WaitStep.isWorker : WaitStep → Bool
  | worker | resolveAsync _ | wake _ => true
  | _ => false

namespace EndpointWait

variable {wait wait' : EndpointWait}

theorem actionsLeft_advance (hstop : wait.client.stop = true)
    (hadvance : wait.advance = some wait') :
    wait'.phase.actionsLeft < wait.phase.actionsLeft := by
  unfold EndpointWait.advance at hadvance
  cases heq : wait.phase with
  | begun =>
    rw [heq] at hadvance
    dsimp only at hadvance
    split at hadvance
    all_goals
      cases hadvance
      simp [WaitPhase.actionsLeft]
  | timing | publishing | locking | locked | waiting | taking =>
    rw [heq] at hadvance
    cases hadvance
    simp [WaitPhase.actionsLeft]
  | checkingNetwork | testing | inNetwork | inJobs | inTime | relocking _ | finishing =>
    rw [heq] at hadvance
    cases hadvance
    split_ifs <;> simp [WaitPhase.actionsLeft, fail, giveUp, abandon]
  | inStop =>
    rw [heq, hstop] at hadvance
    cases hadvance
    simp [WaitPhase.actionsLeft, abandon]
  | resolving | asleep _ | returned _ =>
    rw [heq] at hadvance
    cases hadvance

theorem actionsLeft_resolveAsync {accepted : Bool}
    (hresolve : wait.resolveAsync accepted = some wait') :
    wait'.phase.actionsLeft < wait.phase.actionsLeft := by
  unfold EndpointWait.resolveAsync at hresolve
  split_ifs at hresolve with heq
  all_goals
    cases hresolve
    rw [heq]
    simp [WaitPhase.actionsLeft, fail]

theorem actionsLeft_wake {timedOut : Bool} (hwake : wait.wake timedOut = some wait') :
    wait'.phase.actionsLeft < wait.phase.actionsLeft := by
  unfold EndpointWait.wake at hwake
  split at hwake
  · rename_i heq
    split_ifs at hwake
    cases hwake
    rw [heq]
    simp [WaitPhase.actionsLeft]
  · cases hwake

theorem actionsLeft_notify : wait.notify.phase.actionsLeft = wait.phase.actionsLeft := by
  unfold EndpointWait.notify
  split
  · rename_i heq
    rw [heq]
    rfl
  · rfl

theorem notify_client : wait.notify.client = wait.client := by
  unfold EndpointWait.notify
  split <;> rfl

end EndpointWait

namespace WaitSystem

variable {s s' : WaitSystem}

theorem stop_step {label : WaitStep} (hstop : s.shared.client.stop = true)
    (hstep : s.step label = some s') : s'.shared.client.stop = true := by
  cases label with
  | worker =>
    obtain ⟨wait, hadvance, rfl⟩ := Option.map_eq_some_iff.mp hstep
    exact (EndpointWait.raised_advance .stop hadvance).trans hstop
  | resolveAsync accepted =>
    obtain ⟨wait, hresolve, rfl⟩ := Option.map_eq_some_iff.mp hstep
    unfold EndpointWait.resolveAsync at hresolve
    split_ifs at hresolve
    all_goals
      cases hresolve
      exact hstop
  | wake timedOut =>
    obtain ⟨wait, hwake, rfl⟩ := Option.map_eq_some_iff.mp hstep
    unfold EndpointWait.wake at hwake
    split at hwake
    · split_ifs at hwake
      cases hwake
      exact hstop
    · cases hwake
  | resolved endpoints =>
    obtain ⟨wait, hresolved, rfl⟩ := Option.map_eq_some_iff.mp hstep
    unfold EndpointWait.resolved at hresolved
    split_ifs at hresolved
    cases hresolved
    rw [EndpointWait.notify_client]
    exact hstop
  | notifier i =>
    obtain ⟨notifier, wait, notifier', -, hadvance, rfl⟩ := System.move_eq_some.mp hstep
    unfold DnsNotifier.advance at hadvance
    split at hadvance
    · cases hadvance
      exact hstop
    · cases hadvance
      rw [EndpointWait.notify_client]
      exact hstop
    · cases hadvance
  | tick ns | submit id request addresses =>
    cases hstep
    exact hstop
  | changeNetwork generation =>
    dsimp only [step] at hstep
    split_ifs at hstep
    cases hstep
    exact hstop
  | cancel id =>
    dsimp only [step] at hstep
    split_ifs at hstep
    · cases hstep
      exact (cancelJob_same s.shared.client id).2.2.trans hstop
    · cases hstep
      exact hstop
  | stop =>
    dsimp only [step] at hstep
    rw [if_pos hstop] at hstep
    cases hstep

theorem actionsLeft_step {label : WaitStep} (hstop : s.shared.client.stop = true)
    (hstep : s.step label = some s') :
    s'.shared.phase.actionsLeft + label.isWorker.toNat ≤ s.shared.phase.actionsLeft := by
  cases label with
  | worker =>
    obtain ⟨wait, hadvance, rfl⟩ := Option.map_eq_some_iff.mp hstep
    exact EndpointWait.actionsLeft_advance hstop hadvance
  | resolveAsync accepted =>
    obtain ⟨wait, hresolve, rfl⟩ := Option.map_eq_some_iff.mp hstep
    exact EndpointWait.actionsLeft_resolveAsync hresolve
  | wake timedOut =>
    obtain ⟨wait, hwake, rfl⟩ := Option.map_eq_some_iff.mp hstep
    exact EndpointWait.actionsLeft_wake hwake
  | resolved endpoints =>
    obtain ⟨wait, hresolved, rfl⟩ := Option.map_eq_some_iff.mp hstep
    unfold EndpointWait.resolved at hresolved
    split_ifs at hresolved
    cases hresolved
    exact le_of_eq EndpointWait.actionsLeft_notify
  | notifier i =>
    obtain ⟨notifier, wait, notifier', -, hadvance, rfl⟩ := System.move_eq_some.mp hstep
    unfold DnsNotifier.advance at hadvance
    split at hadvance
    · cases hadvance
      exact le_rfl
    · cases hadvance
      exact le_of_eq EndpointWait.actionsLeft_notify
    · cases hadvance
  | tick ns | submit id request addresses =>
    cases hstep
    exact le_rfl
  | changeNetwork _ | cancel _ | stop =>
    dsimp only [step] at hstep
    split_ifs at hstep
    all_goals
      cases hstep
      exact le_rfl

/-- After the destructor has set its flag, the actions of the worker are bounded. -/
theorem countP_isWorker_le {steps : List WaitStep} (hstop : s.shared.client.stop = true)
    (hrun : Transition.run step s steps = some s') :
    steps.countP WaitStep.isWorker + s'.shared.phase.actionsLeft ≤
      s.shared.phase.actionsLeft := by
  induction steps generalizing s with
  | nil =>
    cases hrun
    exact le_of_eq (Nat.zero_add _)
  | cons label steps ih =>
    obtain ⟨next, hstep, hrest⟩ := Transition.run_cons.mp hrun
    have hnext := actionsLeft_step hstop hstep
    have hle := ih (stop_step hstop hstep) hrest
    rw [List.countP_cons]
    cases hworker : label.isWorker with
    | true =>
      rw [hworker] at hnext
      simp only [Bool.toNat_true] at hnext
      simp only [if_true]
      omega
    | false =>
      rw [hworker] at hnext
      simp only [Bool.toNat_false] at hnext
      simp only [Bool.false_eq_true, if_false]
      omega

theorem actionsLeft_le (phase : WaitPhase) : phase.actionsLeft ≤ 10 := by
  cases phase <;> simp [WaitPhase.actionsLeft]

/-! ### Every run -/

theorem sound_initial (dnsMs generation now : ℕ) : (initial dnsMs generation now).shared.Sound :=
  ⟨Nat.zero_le _, fun _ => rfl, ⟨rfl, rfl⟩, rfl, rfl⟩

theorem aware_initial (dnsMs generation now : ℕ) : (initial dnsMs generation now).Aware := by
  intro cause hoverlooked
  cases cause <;> cases hoverlooked

/-- However the worker, the resolver and the other threads are interleaved: what the wait returns
has its source or its reason; a worker that sleeps without having been notified has missed no
completion, and no flag either whose notification was in time; and after the destructor has set
its flag, it takes ten more actions at most. -/
theorem run_waits {dnsMs generation now : ℕ} {steps : List WaitStep}
    (hrun : Transition.run step (initial dnsMs generation now) steps = some s) :
    (∀ ready, s.shared.phase = .returned ready → s.shared.Answer ready) ∧
      (s.shared.phase = .asleep false → s.shared.complete = false ∧
        (Transition.Meets step InTime (initial dnsMs generation now) steps →
          ∀ cause : WaitCause, cause.raised s.shared = true →
            ∃ notifier ∈ s.parties, notifier.cause = cause ∧ notifier.phase ≠ .done)) ∧
      (s.shared.client.stop = true → ∀ later s', Transition.run step s later = some s' →
        later.countP WaitStep.isWorker ≤ 10) := by
  have hsound : s.shared.Sound := Transition.run_invariant_of_step
    (fun _ label _ h hstep => sound_step h label hstep) hrun (sound_initial dnsMs generation now)
  have hphase := hsound.phase
  refine ⟨fun ready hreturned => ?_, fun hasleep => ⟨?_, fun hok cause => ?_⟩, fun hstop later s'
    hlater => ?_⟩
  · rw [hreturned] at hphase
    exact hphase
  · rw [hasleep] at hphase
    exact hphase.2.2
  · have hinv : s.shared.Sound ∧ s.Aware := by
      apply Transition.run_invariant _ hrun hok
      · exact ⟨sound_initial dnsMs generation now, aware_initial dnsMs generation now⟩
      · exact fun t label t' h hok hstep =>
          ⟨sound_step h.1 label hstep, aware_step h.1 h.2 hok hstep⟩
    apply hinv.2 cause
    rw [hasleep, WaitCause.overlooked]
    simp
  · have hcount := countP_isWorker_le hstop hlater
    have hle := actionsLeft_le s.shared.phase
    omega

instance (s : WaitSystem) : ∀ i, Decidable (s.InTime i)
  | .notifier i => inferInstanceAs (Decidable (∀ notifier ∈ s.parties[i]?, _ → _))
  | .worker | .resolveAsync _ | .wake _ | .resolved _ | .tick _ | .submit _ _ _
  | .changeNetwork _ | .cancel _ | .stop => inferInstanceAs (Decidable True)

/-- The worker has come so far that it looks at the network. -/
def listeningSteps : List WaitStep :=
  List.flatten [[.submit 7 {} []], List.replicate 4 .worker, [.resolveAsync true],
    List.replicate 3 .worker]

/-- It sleeps, and the network changes. -/
def notifiedSteps : List WaitStep :=
  List.flatten [listeningSteps, List.replicate 5 .worker, [.changeNetwork 2, .notifier 0]]

theorem run_waits_notified : ∃ s, Transition.run step (initial 5000 1 1) notifiedSteps = some s ∧
    s.shared.phase = .asleep false ∧
    ∃ notifier ∈ s.parties, notifier.cause = .network ∧ notifier.phase ≠ .done := by
  obtain ⟨s, hrun, hphase⟩ := Option.map_eq_some_iff.mp
    (show (Transition.run step (initial 5000 1 1) notifiedSteps).map
        (fun s => (s.shared.phase, WaitCause.network.raised s.shared)) =
      some (.asleep false, true) by decide +kernel)
  obtain ⟨hasleep, hraised⟩ := Prod.mk.inj hphase
  exact ⟨s, hrun, hasleep,
    ((run_waits hrun).2.1 hasleep).2 (by decide +kernel) .network hraised⟩

/-- The network changes, and the thread notifies before the worker sleeps: nobody is left to
wake it. -/
def overlookedSteps : List WaitStep :=
  List.flatten [listeningSteps, [.worker, .changeNetwork 2, .notifier 0, .notifier 0],
    List.replicate 4 .worker]

theorem run_overlooked : ∃ s, Transition.run step (initial 5000 1 1) overlookedSteps = some s ∧
    s.shared.phase = .asleep false ∧ WaitCause.network.raised s.shared = true ∧
    s.parties = [⟨.network, .done⟩] := by
  obtain ⟨s, hrun, hstate⟩ := Option.map_eq_some_iff.mp
    (show (Transition.run step (initial 5000 1 1) overlookedSteps).map
        (fun s => (s.shared.phase, WaitCause.network.raised s.shared, s.parties)) =
      some (.asleep false, true, [⟨.network, .done⟩]) by decide +kernel)
  obtain ⟨hasleep, hrest⟩ := Prod.mk.inj hstate
  exact ⟨s, hrun, hasleep, (Prod.mk.inj hrest).1, (Prod.mk.inj hrest).2⟩

end WaitSystem

end KatHttp3
