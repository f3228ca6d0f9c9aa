import KatHttp3.Engine.NetworkChange

/-!
# Which network a connection is on

A client is made on the network of the last report, or has been told of it since. A
worker that has applied the last report that it was told of is on its network, whatever
the order of the stores and loads; one that has not is not left asleep.
-/

namespace KatHttp3

open Parties Transition

/-! ### The workers -/

namespace NetworkClient

variable (client : NetworkClient) (request : NetworkChangeRequest)

def Live : Prop := ∀ networkLost, client.phase ≠ .ended networkLost

/-- The client was made on the network of the request and has been told nothing since. -/
structure Untold : Prop where
  requested : client.requestedNetworkGeneration = 0
  applied : client.appliedNetworkGeneration = 0
  current : client.currentNetworkHandle = request.network

/-- The request is the last one that the client has been told of. -/
structure Told : Prop where
  generation : client.requestedNetworkGeneration = request.generation
  handle : client.requestedNetworkHandle = request.network
  current : client.Live → client.appliedNetworkGeneration = request.generation →
    client.currentNetworkHandle = request.network

def UpToDate : Prop := client.Untold request ∨ client.Told request

/-- What the worker has read and applied was requested. -/
structure Sound : Prop where
  applied : client.appliedNetworkGeneration ≤ client.requestedNetworkGeneration
  loaded : ∀ beforePoll generation, client.phase = .loaded beforePoll generation →
    generation ≤ client.requestedNetworkGeneration

/-- A worker that polls, or that is going to, has nothing to apply then or has a wakeup. -/
def Aware : Prop :=
  match client.phase with
  | .polling => client.requestedNetworkGeneration ≤ client.appliedNetworkGeneration ∨
      client.readable = true
  | .loaded true generation =>
    client.requestedNetworkGeneration ≤ max generation client.appliedNetworkGeneration ∨
      client.readable = true
  | _ => True

variable {client request} {work : NetworkWork} {after : NetworkClient}

/-- What a look at the requested change can come to. -/
theorem processNetworkChange_cases (client : NetworkClient) (beforePoll : Bool) (generation : ℕ)
    (result : MigrationResult) :
    let next : NetworkPhase := if beforePoll then .polling else .iterating
    let done := client.processNetworkChange beforePoll generation result
    generation ≤ client.appliedNetworkGeneration ∧ done = { client with phase := next } ∨
      client.appliedNetworkGeneration < generation ∧
        (done = { client with
            appliedNetworkGeneration := generation, phase := .ended true } ∨
          ∃ migration, done = { client with
            appliedNetworkGeneration := generation
            migrationInProgress := migration
            currentNetworkHandle := client.requestedNetworkHandle
            socketFailed := false
            phase := next }) := by
  intro next done
  by_cases hold : generation ≤ client.appliedNetworkGeneration
  · left
    exact ⟨hold, by simp [done, next, processNetworkChange, networkChangeAction, hold]⟩
  · right
    refine ⟨Nat.lt_of_not_le hold, ?_⟩
    simp only [done, processNetworkChange, networkChangeAction, if_neg hold]
    by_cases hreconnect : (!client.attemptMigration || client.requestedNetworkHandle == 0 ||
        !client.handshakeConfirmed) = true
    · left
      simp only [hreconnect, if_true]
    · simp only [if_neg hreconnect]
      split
      · rename_i localChanged _
        exact .inr ⟨localChanged || client.migrationInProgress, rfl⟩
      · exact .inl rfl

/-- What a step of the worker keeps, and what it applies. -/
structure Works (client after : NetworkClient) : Prop where
  inPool : after.inPool = client.inPool
  handle : after.requestedNetworkHandle = client.requestedNetworkHandle
  generation : after.requestedNetworkGeneration = client.requestedNetworkGeneration
  live : client.Live
  loaded : ∀ beforePoll generation, after.phase = .loaded beforePoll generation →
    generation = client.requestedNetworkGeneration
  applied : after.appliedNetworkGeneration = client.appliedNetworkGeneration ∧
      after.currentNetworkHandle = client.currentNetworkHandle ∨
    ∃ beforePoll generation, client.phase = .loaded beforePoll generation ∧
      client.appliedNetworkGeneration < generation ∧ after.appliedNetworkGeneration = generation ∧
        (after.Live → after.currentNetworkHandle = client.requestedNetworkHandle)

theorem works_process {beforePoll : Bool} {generation : ℕ}
    (hphase : client.phase = .loaded beforePoll generation) (result : MigrationResult) :
    client.Works (client.processNetworkChange beforePoll generation result) := by
  have hlive : client.Live := by simp [Live, hphase]
  have hnext : ∀ b g, (if beforePoll then NetworkPhase.polling else .iterating) ≠ .loaded b g := by
    intro b g
    cases beforePoll <;> simp
  rcases processNetworkChange_cases client beforePoll generation result with
    ⟨-, hdone⟩ | ⟨hnew, hdone | ⟨migration, hdone⟩⟩
  · rw [hdone]
    exact ⟨rfl, rfl, rfl, hlive, fun b g h => absurd h (hnext b g), .inl ⟨rfl, rfl⟩⟩
  · rw [hdone]
    refine ⟨rfl, rfl, rfl, hlive, nofun, .inr ⟨beforePoll, generation, hphase, hnew, rfl, ?_⟩⟩
    intro hended
    exact absurd rfl (hended true)
  · rw [hdone]
    refine ⟨rfl, rfl, rfl, hlive, fun b g h => absurd h (hnext b g), ?_⟩
    exact .inr ⟨beforePoll, generation, hphase, hnew, rfl, fun _ => rfl⟩

theorem works (h : client.work work = some after) : client.Works after := by
  cases work with
  | process result =>
    simp only [NetworkClient.work] at h
    split at h
    · rename_i hphase
      obtain rfl := Option.some.inj h
      exact works_process hphase result
    · cases h
  | load =>
    simp only [NetworkClient.work] at h
    split at h
    · rename_i hphase
      obtain rfl := Option.some.inj h
      refine ⟨rfl, rfl, rfl, by simp [Live, hphase], ?_, .inl ⟨rfl, rfl⟩⟩
      intro b g hloaded
      cases hloaded
      rfl
    · cases h
  | stop =>
    simp only [NetworkClient.work] at h
    split at h
    · cases h
    · rename_i hlive
      obtain rfl := Option.some.inj h
      exact ⟨rfl, rfl, rfl, hlive, nofun, .inl ⟨rfl, rfl⟩⟩
  | confirm =>
    simp only [NetworkClient.work] at h
    split at h
    · rename_i hphase
      obtain rfl := Option.some.inj h
      refine ⟨rfl, rfl, rfl, by simp [Live, hphase], ?_, .inl ⟨rfl, rfl⟩⟩
      intro b g hloaded
      cases hphase.symm.trans hloaded
    · cases h
  | notice =>
    simp only [NetworkClient.work] at h
    split at h
    · rename_i hphase
      split_ifs at h
      · obtain rfl := Option.some.inj h
        exact ⟨rfl, rfl, rfl, by simp [Live, hphase], nofun, .inl ⟨rfl, rfl⟩⟩
      · obtain rfl := Option.some.inj h
        refine ⟨rfl, rfl, rfl, by simp [Live, hphase], ?_, .inl ⟨rfl, rfl⟩⟩
        intro b g hloaded
        cases hphase.symm.trans hloaded
    · cases h
  | _ =>
    simp only [NetworkClient.work] at h
    split at h
    · rename_i hphase
      try split_ifs at h
      all_goals
        obtain rfl := Option.some.inj h
        exact ⟨rfl, rfl, rfl, by simp [Live, hphase], nofun, .inl ⟨rfl, rfl⟩⟩
    · cases h

namespace Works

variable (hw : client.Works after)

include hw

theorem sound (h : client.Sound) : after.Sound := by
  constructor
  · rw [hw.generation]
    rcases hw.applied with ⟨happlied, -⟩ | ⟨b, g, hphase, -, happlied, -⟩
    · exact happlied ▸ h.applied
    · exact happlied ▸ h.loaded b g hphase
  · intro b g hloaded
    rw [hw.generation, hw.loaded b g hloaded]

theorem untold (hsound : client.Sound) (h : client.Untold request) : after.Untold request := by
  rcases hw.applied with ⟨happlied, hcurrent⟩ | ⟨b, g, hphase, hnew, -, -⟩
  · exact ⟨hw.generation.trans h.requested, happlied.trans h.applied, hcurrent.trans h.current⟩
  · have hloaded := hsound.loaded b g hphase
    rw [h.requested] at hloaded
    omega

theorem told (h : client.Told request) : after.Told request := by
  refine ⟨hw.generation.trans h.generation, hw.handle.trans h.handle, ?_⟩
  intro hlive hgeneration
  rcases hw.applied with ⟨happlied, hcurrent⟩ | ⟨b, g, -, -, -, hcurrent⟩
  · rw [hcurrent]
    exact h.current hw.live (happlied.symm.trans hgeneration)
  · rw [hcurrent hlive, h.handle]

end Works

theorem Aware.works (h : client.Aware) (hwork : client.work work = some after) : after.Aware := by
  cases work with
  | process result =>
    simp only [NetworkClient.work] at hwork
    split at hwork
    · rename_i beforePoll generation hphase
      obtain rfl := Option.some.inj hwork
      rcases processNetworkChange_cases client beforePoll generation result with
        ⟨hold, hdone⟩ | ⟨hnew, hdone | ⟨migration, hdone⟩⟩
      · rw [hdone]
        cases beforePoll with
        | false => trivial
        | true =>
          simp only [Aware, hphase] at h
          rw [max_eq_right hold] at h
          exact h
      · rw [hdone]
        trivial
      · rw [hdone]
        cases beforePoll with
        | false => trivial
        | true =>
          simp only [Aware, hphase] at h
          rw [max_eq_left hnew.le] at h
          exact h
    · cases hwork
  | load =>
    simp only [NetworkClient.work] at hwork
    split at hwork
    · rename_i beforePoll _
      obtain rfl := Option.some.inj hwork
      cases beforePoll with
      | false => trivial
      | true => exact .inl (le_max_left _ _)
    · cases hwork
  | confirm =>
    simp only [NetworkClient.work] at hwork
    split at hwork
    · rename_i hphase
      obtain rfl := Option.some.inj hwork
      simp [Aware, hphase]
    · cases hwork
  | notice =>
    simp only [NetworkClient.work] at hwork
    split at hwork
    · split_ifs at hwork
      · obtain rfl := Option.some.inj hwork
        trivial
      · obtain rfl := Option.some.inj hwork
        exact h
    · cases hwork
  | stop =>
    simp only [NetworkClient.work] at hwork
    split at hwork
    · cases hwork
    · obtain rfl := Option.some.inj hwork
      trivial
  | _ =>
    simp only [NetworkClient.work] at hwork
    split at hwork
    · try split_ifs at hwork
      all_goals
        obtain rfl := Option.some.inj hwork
        trivial
    · cases hwork

end NetworkClient

/-! ### The reports -/

namespace NetworkShared

variable (shared : NetworkShared)

/-- The last report that the engine has taken over. -/
def network : NetworkChangeRequest := ⟨shared.networkGeneration, shared.androidNetworkHandle⟩

/-- A report is the tracker's last one, and the engine has it as far as it has come. -/
def Consistent : Prop :=
  match shared.report with
  | .none => shared.networkGeneration ≤ shared.tracker.generation ∧
      (shared.closed = false → shared.destroyed = false → shared.network = shared.tracker.request)
  | .reported request => request = shared.tracker.request ∧
      shared.networkGeneration < request.generation
  | .entered request => request = shared.tracker.request ∧
      shared.networkGeneration = request.generation
  | .clients request _ => request = shared.tracker.request ∧ shared.network = request
  | .handle request remaining i => request = shared.tracker.request ∧ shared.network = request ∧
      i ∉ remaining
  | .generation request remaining i => request = shared.tracker.request ∧
      shared.network = request ∧ i ∉ remaining

/-- What the client at a position knows. -/
def Informed (j : ℕ) (client : NetworkClient) : Prop :=
  match shared.report with
  | .none => client.UpToDate shared.network
  | .reported _ => client.UpToDate shared.network
  | .entered request => client.requestedNetworkGeneration < request.generation
  | .clients request remaining =>
    if j ∈ remaining then client.requestedNetworkGeneration < request.generation
    else client.Told request
  | .handle request remaining i =>
    if j = i then client.requestedNetworkGeneration < request.generation ∧
      client.requestedNetworkHandle = request.network
    else if j ∈ remaining then client.requestedNetworkGeneration < request.generation
    else client.Told request
  | .generation request remaining _ =>
    if j ∈ remaining then client.requestedNetworkGeneration < request.generation
    else client.Told request

/-- The report is about to wake the worker at the position. -/
def Waking (j : ℕ) : Prop := ∃ request remaining, shared.report = .generation request remaining j

/-- What holds of the client at a position, as long as it is in the pool. -/
structure Attends (j : ℕ) (client : NetworkClient) : Prop where
  informed : shared.Informed j client
  sound : client.Sound
  aware : shared.Waking j ∨ client.Aware

variable {shared}

theorem Informed.works {j : ℕ} {client after : NetworkClient} (h : shared.Informed j client)
    (hsound : client.Sound) (hw : client.Works after) : shared.Informed j after := by
  have hgeneration := hw.generation
  unfold Informed at h ⊢
  split at h
  · exact h.imp (hw.untold hsound) hw.told
  · exact h.imp (hw.untold hsound) hw.told
  · rwa [hgeneration]
  · split_ifs at h ⊢
    · rwa [hgeneration]
    · exact hw.told h
  · split_ifs at h ⊢
    · rwa [hgeneration, hw.handle]
    · rwa [hgeneration]
    · exact hw.told h
  · split_ifs at h ⊢
    · rwa [hgeneration]
    · exact hw.told h

end NetworkShared

/-! ### Runs -/

namespace NetworkState

structure Coherent (s : NetworkState) : Prop where
  shared : s.shared.Consistent
  clients : ∀ j client, s.parties[j]? = some client → client.inPool = true →
    s.shared.Attends j client

variable {s s' : NetworkState}

theorem coherent_initial (attemptMigration : Bool) : (initial attemptMigration).Coherent := by
  refine ⟨⟨le_rfl, fun _ _ => rfl⟩, ?_⟩
  intro j client hclient
  simp [initial] at hclient

/-- A step that changes no client. -/
theorem Coherent.share (h : s.Coherent) {shared' : NetworkShared} (hshared : shared'.Consistent)
    (hclients : ∀ j client, s.parties[j]? = some client → client.inPool = true →
      s.shared.Informed j client → shared'.Informed j client)
    (hwaking : ∀ j, s.shared.Waking j → shared'.Waking j) :
    Coherent { s with shared := shared' } := by
  refine ⟨hshared, ?_⟩
  intro j client hclient hpool
  have hattends := h.clients j client hclient hpool
  exact ⟨hclients j client hclient hpool hattends.informed, hattends.sound,
    hattends.aware.imp_left (hwaking j)⟩

theorem not_waking_of_report {shared : NetworkShared} {j : ℕ}
    (h : ∀ request remaining i, shared.report ≠ .generation request remaining i) :
    ¬shared.Waking j := by
  rintro ⟨request, remaining, hreport⟩
  exact h request remaining j hreport

theorem generation_of_available {tracker tracker' : NetworkIdentityTracker} {networkHandle : ℕ}
    (h : tracker.available networkHandle = some tracker') :
    tracker'.generation = tracker.generation + 1 := by
  unfold NetworkIdentityTracker.available at h
  split_ifs at h
  cases h
  rfl

theorem generation_of_lost {tracker tracker' : NetworkIdentityTracker} {networkHandle : ℕ}
    (h : tracker.lost networkHandle = some tracker') :
    tracker'.generation = tracker.generation + 1 := by
  unfold NetworkIdentityTracker.lost at h
  split_ifs at h
  cases h
  rfl

theorem Coherent.track {next : Option NetworkIdentityTracker} (h : s.Coherent)
    (hstep : s.track next = some s')
    (hnext : ∀ tracker, next = some tracker →
      tracker.generation = s.shared.tracker.generation + 1) : s'.Coherent := by
  have hconsistent := h.shared
  unfold NetworkState.track at hstep
  cases hreport : s.shared.report <;> simp only [hreport] at hstep <;> try cases hstep
  cases next with
  | none =>
    obtain rfl := Option.some.inj hstep
    exact h
  | some tracker =>
    obtain rfl := Option.some.inj hstep
    simp only [NetworkShared.Consistent, hreport] at hconsistent
    apply h.share
    · refine ⟨rfl, ?_⟩
      have hgeneration := hnext tracker rfl
      simp only [NetworkIdentityTracker.request]
      omega
    · intro j client _ _ hinformed
      simp only [NetworkShared.Informed, hreport] at hinformed
      exact hinformed
    · intro j hwaking
      exact absurd hwaking (not_waking_of_report (by simp [hreport]))

theorem Coherent.closeTracker (h : s.Coherent) (hstep : s.step .closeTracker = some s') :
    s'.Coherent := by
  have hconsistent := h.shared
  simp only [step] at hstep
  split at hstep
  · rename_i hreport
    obtain rfl := Option.some.inj hstep
    simp only [NetworkShared.Consistent, hreport] at hconsistent
    apply h.share
    · simp only [NetworkShared.Consistent, hreport]
      exact hconsistent
    · exact fun j client _ _ hinformed => hinformed
    · exact fun j hwaking => hwaking
  · cases hstep

theorem Coherent.closeClient (h : s.Coherent) (hstep : s.step .closeClient = some s') :
    s'.Coherent := by
  have hconsistent := h.shared
  simp only [step] at hstep
  split_ifs at hstep with hfree
  obtain rfl := Option.some.inj hstep
  apply h.share
  · cases hreport : s.shared.report <;>
      simp only [NetworkShared.Consistent, hreport] at hconsistent ⊢
    · exact ⟨hconsistent.1, nofun⟩
    all_goals exact hconsistent
  · exact fun j client _ _ hinformed => hinformed
  · exact fun j hwaking => hwaking

theorem Coherent.destroy (h : s.Coherent) (hstep : s.step .destroy = some s') : s'.Coherent := by
  have hconsistent := h.shared
  simp only [step] at hstep
  split_ifs at hstep with hfree
  obtain rfl := Option.some.inj hstep
  constructor
  · cases hreport : s.shared.report <;>
      simp only [NetworkShared.Consistent, hreport] at hconsistent ⊢
    · exact ⟨hconsistent.1, nofun⟩
    all_goals exact hconsistent
  · intro j client hclient hpool
    dsimp only at hclient
    rw [List.getElem?_map] at hclient
    obtain ⟨before, -, rfl⟩ := Option.map_eq_some_iff.mp hclient
    cases hpool

theorem Coherent.enter (h : s.Coherent) (hstep : s.step .enter = some s') : s'.Coherent := by
  have hconsistent := h.shared
  simp only [step] at hstep
  cases hreport : s.shared.report <;> simp only [hreport] at hstep <;> try cases hstep
  rename_i request
  simp only [NetworkShared.Consistent, hreport] at hconsistent
  obtain ⟨hrequest, hlt⟩ := hconsistent
  have hquiet : ∀ j, ¬s.shared.Waking j :=
    fun j => not_waking_of_report (by simp [hreport])
  split_ifs at hstep with hdrop
  · obtain rfl := Option.some.inj hstep
    apply h.share
    · refine ⟨?_, ?_⟩
      · rw [hrequest] at hlt
        exact hlt.le
      · intro hopen hexists
        have hopen : s.shared.closed = false := hopen
        have hexists : s.shared.destroyed = false := hexists
        simp only [hopen, hexists, Bool.or_self, Bool.false_or, decide_eq_true_eq] at hdrop
        omega
    · intro j client _ _ hinformed
      simp only [NetworkShared.Informed, hreport] at hinformed
      exact hinformed
    · exact fun j hwaking => absurd hwaking (hquiet j)
  · obtain rfl := Option.some.inj hstep
    apply h.share
    · exact ⟨hrequest, rfl⟩
    · intro j client _ _ hinformed
      simp only [NetworkShared.Informed, hreport] at hinformed
      change client.requestedNetworkGeneration < request.generation
      rcases hinformed with huntold | htold
      · have hzero := huntold.requested
        omega
      · have hgeneration : client.requestedNetworkGeneration = s.shared.networkGeneration :=
          htold.generation
        omega
    · exact fun j hwaking => absurd hwaking (hquiet j)

theorem mem_pool {j : ℕ} {client : NetworkClient} (hclient : s.parties[j]? = some client)
    (hpool : client.inPool = true) : j ∈ s.pool := by
  obtain ⟨hlt, -⟩ := List.getElem?_eq_some_iff.mp hclient
  refine List.mem_filter.mpr ⟨List.mem_range.mpr hlt, ?_⟩
  rw [hclient]
  exact hpool

theorem Coherent.storeNetwork (h : s.Coherent) (hstep : s.step .storeNetwork = some s') :
    s'.Coherent := by
  have hconsistent := h.shared
  simp only [step] at hstep
  cases hreport : s.shared.report <;> simp only [hreport] at hstep <;> try cases hstep
  rename_i request
  simp only [NetworkShared.Consistent, hreport] at hconsistent
  obtain ⟨hrequest, hgeneration⟩ := hconsistent
  apply h.share
  · refine ⟨hrequest, ?_⟩
    simp [NetworkShared.network, hgeneration]
  · intro j client hclient hpool hinformed
    simp only [NetworkShared.Informed, hreport] at hinformed
    simp only [NetworkShared.Informed]
    rw [if_pos (mem_pool hclient hpool)]
    exact hinformed
  · exact fun j hwaking => absurd hwaking (not_waking_of_report (by simp [hreport]))

theorem Coherent.leave (h : s.Coherent) (hstep : s.step .leave = some s') : s'.Coherent := by
  have hconsistent := h.shared
  simp only [step] at hstep
  split at hstep
  · rename_i request hreport
    obtain rfl := Option.some.inj hstep
    simp only [NetworkShared.Consistent, hreport] at hconsistent
    obtain ⟨hrequest, hnetwork⟩ := hconsistent
    apply h.share
    · refine ⟨?_, fun _ _ => hnetwork.trans hrequest⟩
      have hgeneration := congrArg NetworkChangeRequest.generation (hnetwork.trans hrequest)
      exact le_of_eq hgeneration
    · intro j client _ _ hinformed
      simp only [NetworkShared.Informed, hreport, List.not_mem_nil, if_false] at hinformed
      have htold : client.Told s.shared.network := hnetwork.symm ▸ hinformed
      exact .inr htold
    · exact fun j hwaking => absurd hwaking (not_waking_of_report (by simp [hreport]))
  · cases hstep

/-- A step of one client. -/
theorem Coherent.move {i : ℕ}
    {f : NetworkShared → NetworkClient → Option (NetworkShared × NetworkClient)} (h : s.Coherent)
    (hmove : s.move i f = some s')
    (hstep : ∀ client shared' client', f s.shared client = some (shared', client') →
      (client.inPool = true → s.shared.Attends i client) →
        shared'.Consistent ∧ (client'.inPool = true → shared'.Attends i client') ∧
          ∀ j other, j ≠ i → s.shared.Attends j other → shared'.Attends j other) :
    s'.Coherent := by
  obtain ⟨client, shared', client', hclient, hf, rfl⟩ := System.move_eq_some.mp hmove
  obtain ⟨hconsistent, -, -⟩ := hstep client shared' client' hf (h.clients i client hclient)
  refine ⟨hconsistent, ?_⟩
  apply System.forall_getElem_move
    (Q := fun shared j client => client.inPool = true → shared.Attends j client) h.clients hmove
  intro before shared'' after hbefore hf'
  obtain ⟨-, hmoved, hothers⟩ := hstep before shared'' after hf' (h.clients i before hbefore)
  exact ⟨hmoved, fun j other hne hother hpool => hothers j other hne (hother hpool)⟩

theorem Coherent.storeHandle {i : ℕ} (h : s.Coherent) (hstep : s.step (.storeHandle i) = some s') :
    s'.Coherent := by
  have hconsistent := h.shared
  have hmove : s.move i (fun shared client => shared.storeHandle i client) = some s' := hstep
  apply h.move hmove
  intro client shared' client' hf hattends
  unfold NetworkShared.storeHandle at hf
  split at hf
  · rename_i request remaining hreport
    split_ifs at hf with hmem
    cases hf
    have hquiet : ∀ j, ¬s.shared.Waking j :=
      fun j => not_waking_of_report (by simp [hreport])
    simp only [NetworkShared.Consistent, hreport] at hconsistent
    refine ⟨⟨hconsistent.1, hconsistent.2, by simp⟩, ?_, ?_⟩
    · intro hpool
      obtain ⟨hinformed, hsound, haware⟩ := hattends hpool
      simp only [NetworkShared.Informed, hreport, if_pos hmem] at hinformed
      refine ⟨?_, ⟨hsound.applied, hsound.loaded⟩, .inr (haware.resolve_left (hquiet i))⟩
      simp only [NetworkShared.Informed, if_true]
      exact ⟨hinformed, trivial⟩
    · intro j other hne hother
      obtain ⟨hinformed, hsound, haware⟩ := hother
      simp only [NetworkShared.Informed, hreport] at hinformed
      refine ⟨?_, hsound, .inr (haware.resolve_left (hquiet j))⟩
      simpa [NetworkShared.Informed, if_neg hne, hne] using hinformed
  · cases hf

theorem Coherent.storeGeneration (h : s.Coherent) (hstep : s.step .storeGeneration = some s') :
    s'.Coherent := by
  have hconsistent := h.shared
  apply h.move hstep
  intro client shared' client' hf hattends
  unfold NetworkShared.storeGeneration at hf
  split at hf
  · rename_i request remaining i hreport
    cases hf
    have hat : s.shared.reportedClient = i := by simp [NetworkShared.reportedClient, hreport]
    have hquiet : ∀ j, ¬s.shared.Waking j :=
      fun j => not_waking_of_report (by simp [hreport])
    rw [hat] at hattends ⊢
    simp only [NetworkShared.Consistent, hreport] at hconsistent
    refine ⟨hconsistent, ?_, ?_⟩
    · intro hpool
      obtain ⟨hinformed, hsound, -⟩ := hattends hpool
      simp only [NetworkShared.Informed, hreport, if_true] at hinformed
      obtain ⟨hgeneration, hhandle⟩ := hinformed
      refine ⟨?_, ?_, .inl ⟨request, remaining, rfl⟩⟩
      · simp only [NetworkShared.Informed, if_neg hconsistent.2.2]
        refine ⟨rfl, hhandle, ?_⟩
        intro _ happlied
        have hle := hsound.applied
        dsimp only at happlied
        omega
      · constructor
        · exact hsound.applied.trans hgeneration.le
        · intro b g hloaded
          exact (hsound.loaded b g hloaded).trans hgeneration.le
    · intro j other hne hother
      obtain ⟨hinformed, hsound, haware⟩ := hother
      simp only [NetworkShared.Informed, hreport, if_neg hne] at hinformed
      exact ⟨hinformed, hsound, .inr (haware.resolve_left (hquiet j))⟩
  · cases hf

theorem aware_of_readable {client : NetworkClient} (h : client.readable = true) :
    client.Aware := by
  unfold NetworkClient.Aware
  split
  · exact .inr h
  · exact .inr h
  · trivial

theorem Coherent.wakeup (h : s.Coherent) (hstep : s.step .wakeup = some s') : s'.Coherent := by
  have hconsistent := h.shared
  apply h.move hstep
  intro client shared' client' hf hattends
  unfold NetworkShared.wakeup at hf
  split at hf
  · rename_i request remaining i hreport
    cases hf
    have hat : s.shared.reportedClient = i := by simp [NetworkShared.reportedClient, hreport]
    rw [hat] at hattends ⊢
    simp only [NetworkShared.Consistent, hreport] at hconsistent
    refine ⟨⟨hconsistent.1, hconsistent.2.1⟩, ?_, ?_⟩
    · intro hpool
      obtain ⟨hinformed, hsound, -⟩ := hattends hpool
      simp only [NetworkShared.Informed, hreport, if_neg hconsistent.2.2] at hinformed
      refine ⟨?_, ⟨hsound.applied, hsound.loaded⟩, .inr (aware_of_readable rfl)⟩
      simp only [NetworkShared.Informed, if_neg hconsistent.2.2]
      exact ⟨hinformed.generation, hinformed.handle, hinformed.current⟩
    · intro j other hne hother
      obtain ⟨hinformed, hsound, haware⟩ := hother
      simp only [NetworkShared.Informed, hreport] at hinformed
      refine ⟨hinformed, hsound, .inr (haware.resolve_left ?_)⟩
      rintro ⟨request', remaining', hwaking⟩
      rw [hreport] at hwaking
      cases hwaking
      exact hne rfl
  · cases hf

theorem Coherent.erase {i : ℕ} (h : s.Coherent) (hstep : s.step (.erase i) = some s') :
    s'.Coherent := by
  apply h.move hstep
  intro client shared' client' hf _
  unfold NetworkShared.erase at hf
  split_ifs at hf
  cases hf
  exact ⟨h.shared, nofun, fun j other _ hother => hother⟩

theorem Coherent.worker {i : ℕ} {work : NetworkWork} (h : s.Coherent)
    (hstep : s.step (.worker i work) = some s') : s'.Coherent := by
  have hmove : s.move i (fun shared client => (client.work work).map (shared, ·)) = some s' :=
    hstep
  apply h.move hmove
  intro client shared' client' hf hattends
  obtain ⟨after, hwork, hnext⟩ := Option.map_eq_some_iff.mp hf
  cases hnext
  have hw := NetworkClient.works hwork
  refine ⟨h.shared, ?_, fun j other _ hother => hother⟩
  intro hpool
  obtain ⟨hinformed, hsound, haware⟩ := hattends (hw.inPool ▸ hpool)
  exact ⟨hinformed.works hsound hw, hw.sound hsound, haware.imp_right fun h => h.works hwork⟩

theorem Coherent.create (h : s.Coherent) (hstep : s.step .create = some s') : s'.Coherent := by
  simp only [step] at hstep
  split_ifs at hstep with hfree
  obtain rfl := Option.some.inj hstep
  refine ⟨h.shared, ?_⟩
  apply System.forall_getElem_join
    (Q := fun (shared : NetworkShared) j (client : NetworkClient) =>
      client.inPool = true → shared.Attends j client) h.clients
  intro _
  refine ⟨?_, ⟨le_rfl, nofun⟩, .inr trivial⟩
  have huntold : s.shared.newClient.UpToDate s.shared.network := .inl ⟨rfl, rfl, rfl⟩
  unfold NetworkShared.poolFree at hfree
  unfold NetworkShared.Informed
  split at hfree
  · rename_i hreport
    simpa only [hreport] using huntold
  · rename_i hreport
    simpa only [hreport] using huntold
  · cases hfree

theorem Coherent.step {label : NetworkLabel} (h : s.Coherent) (hstep : s.step label = some s') :
    s'.Coherent := by
  cases label with
  | available networkHandle => exact h.track hstep fun _ => generation_of_available
  | lost networkHandle => exact h.track hstep fun _ => generation_of_lost
  | closeTracker => exact h.closeTracker hstep
  | closeClient => exact h.closeClient hstep
  | destroy => exact h.destroy hstep
  | enter => exact h.enter hstep
  | storeNetwork => exact h.storeNetwork hstep
  | storeHandle i => exact h.storeHandle hstep
  | storeGeneration => exact h.storeGeneration hstep
  | wakeup => exact h.wakeup hstep
  | leave => exact h.leave hstep
  | create => exact h.create hstep
  | erase i => exact h.erase hstep
  | worker i work => exact h.worker hstep

theorem coherent_of_run {attemptMigration : Bool} {labels : List NetworkLabel}
    (hrun : run NetworkState.step (initial attemptMigration) labels = some s) : s.Coherent :=
  run_invariant_of_step (fun _ _ _ h hstep => h.step hstep) hrun (coherent_initial attemptMigration)

/-- The worker has yet to apply the tracker's last report. If its event loop polls, the eventfd is
readable; if it looks, it is taken to the network or ends with NETWORK_LOST. As long as it is
connecting it may be in a wait of its own, and ends with NETWORK_LOST when it looks. -/
structure Outstanding (tracker : NetworkIdentityTracker) (client : NetworkClient) : Prop where
  applied : client.appliedNetworkGeneration < client.requestedNetworkGeneration
  generation : client.requestedNetworkGeneration = tracker.generation
  handle : client.requestedNetworkHandle = tracker.currentHandle
  polls : client.phase = .polling → client.readable = true
  looks : ∀ beforePoll result, client.phase = .looking beforePoll →
    ∃ done, run NetworkClient.work client [.load, .process result] = some done ∧
      (done.currentNetworkHandle = tracker.currentHandle ∨ done.phase = .ended true)
  notices : client.phase = .connecting →
    client.work .notice = some { client with phase := .ended true }

/-- A look at a change that has not been applied. -/
theorem look_of_lt {client : NetworkClient}
    (hlt : client.appliedNetworkGeneration < client.requestedNetworkGeneration)
    {beforePoll : Bool} (hphase : client.phase = .looking beforePoll) (result : MigrationResult) :
    ∃ done, run NetworkClient.work client [.load, .process result] = some done ∧
      (done.currentNetworkHandle = client.requestedNetworkHandle ∨ done.phase = .ended true) := by
  let loaded : NetworkClient :=
    { client with phase := .loaded beforePoll client.requestedNetworkGeneration }
  have hload : client.work .load = some loaded := by
    simp only [NetworkClient.work, hphase, loaded]
  refine ⟨_, run_cons.mpr ⟨loaded, hload, run_cons.mpr ⟨_, rfl, rfl⟩⟩, ?_⟩
  rcases NetworkClient.processNetworkChange_cases loaded beforePoll
    client.requestedNetworkGeneration result with ⟨hold, -⟩ | ⟨-, hdone | ⟨migration, hdone⟩⟩
  · exact absurd hold hlt.not_ge
  · right
    rw [hdone]
  · left
    rw [hdone]

theorem outstanding {tracker : NetworkIdentityTracker} {client : NetworkClient}
    (hsound : client.Sound) (haware : client.Aware) (htold : client.Told tracker.request)
    (hne : client.appliedNetworkGeneration ≠ tracker.generation) :
    Outstanding tracker client := by
  have hgeneration : client.requestedNetworkGeneration = tracker.generation := htold.generation
  have hhandle : client.requestedNetworkHandle = tracker.currentHandle := htold.handle
  have hle := hsound.applied
  have hlt : client.appliedNetworkGeneration < client.requestedNetworkGeneration := by omega
  refine ⟨hlt, hgeneration, hhandle, ?_, ?_, ?_⟩
  · intro hpolling
    simp only [NetworkClient.Aware, hpolling] at haware
    exact haware.resolve_left hlt.not_ge
  · intro beforePoll result hlooking
    rw [← hhandle]
    exact look_of_lt hlt hlooking result
  · intro hconnecting
    simp only [NetworkClient.work, hconnecting, if_pos hlt]

/-- Between two reports, a worker of the pool that has not ended is on the tracker's network or
has a change to it outstanding. -/
theorem run_followsNetwork {attemptMigration : Bool} {labels : List NetworkLabel} {i : ℕ}
    {client : NetworkClient}
    (hrun : run NetworkState.step (initial attemptMigration) labels = some s)
    (hquiet : s.shared.report = .none) (hopen : s.shared.closed = false)
    (hexists : s.shared.destroyed = false) (hclient : s.parties[i]? = some client)
    (hpool : client.inPool = true) (hlive : client.Live) :
    client.currentNetworkHandle = s.shared.tracker.currentHandle ∨
      Outstanding s.shared.tracker client := by
  have hcoherent := coherent_of_run hrun
  have hconsistent := hcoherent.shared
  obtain ⟨hinformed, hsound, haware⟩ := hcoherent.clients i client hclient hpool
  simp only [NetworkShared.Consistent, hquiet] at hconsistent
  have hnetwork := hconsistent.2 hopen hexists
  simp only [NetworkShared.Informed, hquiet] at hinformed
  rw [hnetwork] at hinformed
  rcases hinformed with huntold | htold
  · exact .inl huntold.current
  · by_cases happlied : client.appliedNetworkGeneration = s.shared.tracker.generation
    · exact .inl (htold.current hlive happlied)
    · have hawake := haware.resolve_left (not_waking_of_report (by simp [hquiet]))
      exact .inr (outstanding hsound hawake htold happlied)

/-- A connection is confirmed and polls, another one is being made, and the network changes from
0 to 7. -/
def followedLabels : List NetworkLabel :=
  [.create, .worker 0 (.connect true true), .worker 0 .load, .worker 0 (.process .failed), .create,
    .available 7, .enter, .storeNetwork, .storeHandle 0, .storeGeneration, .wakeup,
    .storeHandle 1, .storeGeneration, .wakeup, .leave]

/-- A client afterwards, with a wakeup. -/
def followedClient (connected : Bool) : NetworkClient where
  requestedNetworkHandle := 7
  requestedNetworkGeneration := 1
  currentNetworkHandle := 0
  attemptMigration := true
  handshakeConfirmed := connected
  connected := connected
  readable := true
  phase := if connected then .polling else .connecting

def followedShared : NetworkShared where
  tracker := { generation := 1, currentHandle := 7 }
  networkGeneration := 1
  androidNetworkHandle := 7
  attemptMigration := true

theorem run_followsNetwork_woken :
    run NetworkState.step (initial true) followedLabels =
        some ⟨followedShared, [followedClient true, followedClient false]⟩ ∧
      Outstanding followedShared.tracker (followedClient true) ∧
      Outstanding followedShared.tracker (followedClient false) := by
  have hrun : run NetworkState.step (initial true) followedLabels =
      some ⟨followedShared, [followedClient true, followedClient false]⟩ := rfl
  have hpolling := run_followsNetwork (i := 0) hrun rfl rfl rfl rfl rfl nofun
  have hconnecting := run_followsNetwork (i := 1) hrun rfl rfl rfl rfl rfl nofun
  exact ⟨hrun, hpolling.resolve_left (by decide), hconnecting.resolve_left (by decide)⟩

end NetworkState

end KatHttp3
