import KatHttp3.Engine.Speaking
import KatHttp3.Library.CallStacks
import KatHttp3.Url.Resolution

/-!
# The events of one request

While a request is live only its last hop speaks, provided that no chunk of a
hop arrives once its redirect has been followed. What the application has been
told is then one response of one hop, cut off at any point: all that has come of
it whenever nothing is left to dispatch, and the whole of it at the end.
-/

namespace KatHttp3

namespace Call

variable {J : Type} {engine : EngineConfig J} {c c' : Call J}

/-- A chunk does not arrive for a hop whose redirect is followed while the request is live. -/
def chunkInTime (c : Call J) : CallStep J → Bool
  | .chunk k _ => !(c.live && (c.hops[k]?.any fun hop => hop.job.redirected))
  | _ => true

/-- The hops form a chain: only the last one has not been redirected. -/
structure Shape (c : Call J) : Prop where
  nonempty : c.hops ≠ []
  sound : ∀ hop ∈ c.hops, hop.Sound c.shared.cache.isSome
  earlier : ∀ k hop, c.hops[k]? = some hop → k + 1 < c.hops.length →
    hop.Passed ∧ hop.following = none

/-- Only the last hop speaks, and what was told is one response of one hop. -/
structure Inv (c : Call J) : Prop extends Shape c where
  quiet : c.live = true → ∀ k hop, c.hops[k]? = some hop → k + 1 < c.hops.length → hop.pending = []
  speaking : c.live = true → ∀ k hop, c.hops[k]? = some hop → k + 1 = c.hops.length →
    hop.Speaking (c.log ++ hop.pending)
  unended : c.live = true → ∀ event ∈ c.log, event.isTerminal = false
  told : ∃ hop ∈ c.hops, hop.Told c.log

/-- All that a step can do. -/
inductive Steps (engine : EngineConfig J) (c : Call J) (i : CallStep J) : Call J → Prop
  | interfered {shared : Shared J} (cached : shared.cache.isSome = c.shared.cache.isSome) :
      Steps engine c i { c with shared := shared }
  | moved {k : ℕ} {hop hop' : Hop} {shared : Shared J} {chunked : Bool}
      (at_k : c.hops[k]? = some hop) (idle : hop.idle = true) (moves : hop.Moves chunked hop')
      (chunk : chunked = true → ∃ chunk, i = .chunk k chunk)
      (follows : hop'.following ≠ none →
        ∃ status headers now, i = .headers k status headers now ∧
          Hop.Follows engine hop hop' status headers)
      (cached : shared.cache.isSome = c.shared.cache.isSome) :
      Steps engine c i { c with shared := shared, hops := c.hops.set k hop' }
  | delivered {k : ℕ} {hop : Hop} {event : AppEvent} {rest : List AppEvent}
      (at_k : c.hops[k]? = some hop) (pending : hop.pending = event :: rest) :
      Steps engine c i
        { c with
          hops := c.hops.set k { hop with pending := rest }
          live := c.live && !event.isTerminal
          log := if c.live then c.log ++ [event] else c.log }
  | followed {k : ℕ} {hop next : Hop} {shared : Shared J} {now : ClockReading}
      (at_k : c.hops[k]? = some hop) (next_eq : hop.next c.shared now = some (shared, next)) :
      Steps engine c i
        { c with
          shared := shared
          hops := c.hops.set k { hop with following := none } ++ [next] }
  | aborted {code : ErrorCode} (live : c.live = true) (aborts : i = .abort code) :
      Steps engine c i { c with live := false, log := c.log ++ [.error code] }

theorem callback_cases {k : ℕ} {f : Hop → Option (Shared J × Hop)} (h : c.callback k f = some c') :
    ∃ hop shared hop', c.hops[k]? = some hop ∧ hop.idle = true ∧ f hop = some (shared, hop') ∧
      c' = { c with shared := shared, hops := c.hops.set k hop' } := by
  unfold callback at h
  split at h
  · cases h
  · rename_i hop hk
    split_ifs at h with hidle
    split at h
    · cases h
    · rename_i shared hop' hf
      exact ⟨hop, shared, hop', hk, hidle, hf, (Option.some.inj h).symm⟩

theorem hop_cases {k : ℕ} {now : ClockReading} (h : c.step engine (.hop k now) = some c') :
    ∃ hop shared next, c.hops[k]? = some hop ∧ hop.next c.shared now = some (shared, next) ∧
      c' = { c with
        shared := shared
        hops := c.hops.set k { hop with following := none } ++ [next] } := by
  simp only [Call.step] at h
  split at h
  · cases h
  · rename_i hop hk
    split at h
    · cases h
    · rename_i shared next hnext
      exact ⟨hop, shared, next, hk, hnext, (Option.some.inj h).symm⟩

theorem deliver_cases {k : ℕ} (h : c.deliver k = some c') :
    ∃ hop event rest, c.hops[k]? = some hop ∧ hop.pending = event :: rest ∧
      c' = { c with
        hops := c.hops.set k { hop with pending := rest }
        live := c.live && !event.isTerminal
        log := if c.live then c.log ++ [event] else c.log } := by
  unfold deliver at h
  split at h
  · cases h
  · rename_i hop hk
    split at h
    · cases h
    · rename_i event rest hpending
      refine ⟨hop, event, rest, hk, hpending, ?_⟩
      dsimp only at h
      split_ifs at h with hlive
      · cases h
        simp [hlive]
      · cases h
        simp [hlive]

theorem sound_set {hops : List Hop} {k : ℕ} {hop' : Hop} {cached : Bool}
    (h : ∀ x ∈ hops, x.Sound cached) (h' : hop'.Sound cached) :
    ∀ x ∈ hops.set k hop', x.Sound cached := by
  intro x hx
  rcases List.mem_or_eq_of_mem_set hx with hx | rfl
  · exact h x hx
  · exact h'

theorem told_set {hops : List Hop} {k : ℕ} {hop hop' : Hop} {log : List AppEvent}
    (hk : hops[k]? = some hop) (hgrows : hop.Extends hop') (h : ∃ x ∈ hops, x.Told log) :
    ∃ x ∈ hops.set k hop', x.Told log := by
  obtain ⟨x, hx, htold⟩ := h
  obtain ⟨j, hj⟩ := List.mem_iff_getElem?.mp hx
  by_cases hjk : j = k
  · subst hjk
    obtain rfl : hop = x := Option.some.inj (hk.symm.trans hj)
    refine ⟨hop', List.mem_iff_getElem?.mpr ⟨j, ?_⟩, htold.extends hgrows⟩
    rw [List.getElem?_set_self (List.getElem?_eq_some_iff.mp hk).1]
  · refine ⟨x, List.mem_iff_getElem?.mpr ⟨j, ?_⟩, htold⟩
    rw [List.getElem?_set_ne (Ne.symm hjk), hj]

theorem step_cases (h : c.Shape) {i : CallStep J} (hstep : c.step engine i = some c') :
    c.Steps engine i c' := by
  cases i with
  | interfere shared =>
    simp only [Call.step] at hstep
    split_ifs at hstep with hcache
    cases hstep
    exact .interfered hcache
  | route k admitted =>
    obtain ⟨hop, shared, hop', hk, hidle, hf, rfl⟩ := callback_cases hstep
    obtain ⟨_, hroute, heq⟩ := Option.map_eq_some_iff.mp hf
    cases heq
    obtain ⟨hmoves, hnone⟩ := Hop.Moves.route hidle hroute
    exact .moved hk hidle hmoves (fun h => by cases h) (fun hne => absurd hnone hne) rfl
  | dispatch k now =>
    obtain ⟨hop, shared, hop', hk, hidle, hf, rfl⟩ := callback_cases hstep
    obtain ⟨_, hdispatch, heq⟩ := Option.map_eq_some_iff.mp hf
    cases heq
    obtain ⟨hmoves, hnone⟩ := Hop.Moves.dispatch hidle hdispatch
    exact .moved hk hidle hmoves (fun h => by cases h) (fun hne => absurd hnone hne) rfl
  | headers k status headers now =>
    obtain ⟨hop, shared, hop', hk, hidle, hf, rfl⟩ := callback_cases hstep
    have hmarked := (h.sound hop (List.mem_iff_getElem?.mpr ⟨k, hk⟩)).marked
    obtain ⟨hmoves, hcache, hfollows⟩ := Hop.Moves.headers hidle hmarked hf
    exact .moved hk hidle hmoves (fun h => by cases h)
      (fun hne => ⟨status, headers, now, rfl, hfollows hne⟩) hcache
  | chunk k chunk =>
    obtain ⟨hop, shared, hop', hk, hidle, hf, rfl⟩ := callback_cases hstep
    obtain ⟨_, hchunk, heq⟩ := Option.map_eq_some_iff.mp hf
    cases heq
    obtain ⟨hmoves, hnone⟩ := Hop.Moves.chunk hidle hchunk
    exact .moved hk hidle hmoves (fun _ => ⟨chunk, rfl⟩) (fun hne => absurd hnone hne) rfl
  | finish k now =>
    obtain ⟨hop, shared, hop', hk, hidle, hf, rfl⟩ := callback_cases hstep
    have hvalid := (h.sound hop (List.mem_iff_getElem?.mpr ⟨k, hk⟩)).validation
    obtain ⟨hmoves, hcache, hnone⟩ := Hop.Moves.finish hidle hvalid hf
    exact .moved hk hidle hmoves (fun h => by cases h) (fun hne => absurd hnone hne) hcache
  | fail k code now =>
    obtain ⟨hop, shared, hop', hk, hidle, hf, rfl⟩ := callback_cases hstep
    obtain ⟨_, hfail, heq⟩ := Option.map_eq_some_iff.mp hf
    cases heq
    obtain ⟨hmoves, hnone⟩ := Hop.Moves.fail hidle hfail
    exact .moved hk hidle hmoves (fun h => by cases h) (fun hne => absurd hnone hne) rfl
  | hop k now =>
    obtain ⟨hop, shared, next, hk, hnext, rfl⟩ := hop_cases hstep
    exact .followed hk hnext
  | deliver k =>
    obtain ⟨hop, event, rest, hk, hpending, rfl⟩ := deliver_cases hstep
    exact .delivered hk hpending
  | abort code =>
    simp only [Call.step] at hstep
    split_ifs at hstep with hlive
    cases hstep
    exact .aborted hlive rfl

/-! ### The chain of hops -/

/-- What the step to a new hop needs and gives. -/
theorem next_cases {hop next : Hop} {shared shared' : Shared J} {now : ClockReading}
    (h : hop.next shared now = some (shared', next)) :
    ∃ dec request url, hop.following = some (dec, request, url) ∧
      shared'.cache.isSome = shared.cache.isSome ∧
      (next.job.cacheValidation.isSome = true → shared.cache.isSome = true) ∧
      next.job.redirected = false ∧ next.job.url = url ∧
      next = { job := next.job, application := hop.application.filter (carriedOver dec) } ∧
      next.job.originalCacheRequestHeaders = request.headers ∧
      ∃ added, next.job.request.headers = request.headers ++ added ∧
        ∀ header ∈ added,
          header.name = "if-none-match".toList ∨ header.name = "if-modified-since".toList := by
  unfold Hop.next at h
  obtain ⟨⟨dec, request, url⟩, hfollowing, h⟩ := Option.map_eq_some_iff.mp h
  obtain ⟨shared₁, job, hstart, hcache, hurl, hnew, hvalid, horiginal, hadded⟩ :=
    startJob_cases shared hop.job.id request url (hop.job.redirectCount + 1) now
  dsimp only at h
  rw [hstart] at h
  cases h
  exact ⟨dec, request, url, hfollowing, hcache, hvalid, hnew, hurl, rfl, horiginal, hadded⟩

theorem Shape.last_of_following (h : c.Shape) {k : ℕ} {hop : Hop} (hk : c.hops[k]? = some hop)
    (hfollowing : hop.following ≠ none) : k + 1 = c.hops.length := by
  by_contra hne
  have hlt := (List.getElem?_eq_some_iff.mp hk).1
  exact hfollowing (h.earlier k hop hk (by omega)).2

theorem Shape.step (h : c.Shape) {i : CallStep J} (hstep : c.Steps engine i c') : c'.Shape := by
  cases hstep with
  | interfered cached => exact ⟨h.nonempty, by rw [cached]; exact h.sound, h.earlier⟩
  | @moved k hop hop' shared chunked hk hidle hm _ _ hcache =>
    have hsound := h.sound hop (List.mem_iff_getElem?.mpr ⟨k, hk⟩)
    refine ⟨by simpa using h.nonempty, ?_, fun j x hj hlt => ?_⟩
    · rw [hcache]
      exact sound_set h.sound (hm.sound hsound)
    · rw [List.length_set] at hlt
      rcases CallStacks.getElem?_set_cases hj with ⟨rfl, rfl⟩ | ⟨-, hj⟩
      · obtain ⟨h1, h2, -⟩ := hm.passed (h.earlier j hop hk hlt).1
        exact ⟨h1, h2⟩
      · exact h.earlier j x hj hlt
  | @delivered k hop event rest hk hpending =>
    have hsound := h.sound hop (List.mem_iff_getElem?.mpr ⟨k, hk⟩)
    refine ⟨by simpa using h.nonempty, sound_set h.sound
      ⟨fun hr => ⟨hr, (hsound.marked hr).stage⟩, hsound.following, hsound.validation⟩,
      fun j x hj hlt => ?_⟩
    rw [List.length_set] at hlt
    rcases CallStacks.getElem?_set_cases hj with ⟨rfl, rfl⟩ | ⟨-, hj⟩
    · obtain ⟨h1, h2⟩ := h.earlier j hop hk hlt
      exact ⟨⟨h1.redirected, h1.stage⟩, h2⟩
    · exact h.earlier j x hj hlt
  | @followed k hop next shared now hk hnext =>
    obtain ⟨dec, request, url, hfollowing, hcache, hvalid, hnew, -, hnext', -⟩ := next_cases hnext
    have hsound := h.sound hop (List.mem_iff_getElem?.mpr ⟨k, hk⟩)
    have hsome : hop.following ≠ none := by simp [hfollowing]
    have hredirected := hsound.following hsome
    have hstage := (hsound.marked hredirected).stage
    have hlast := h.last_of_following hk hsome
    refine ⟨by simp, fun x hx => ?_, fun j x hj hlt => ?_⟩
    · rw [hcache]
      rcases List.mem_append.mp hx with hx | hx
      · have hsound' : Hop.Sound c.shared.cache.isSome { hop with following := none } :=
          ⟨fun _ => ⟨hredirected, hstage⟩, fun hf => absurd rfl hf, hsound.validation⟩
        exact sound_set h.sound hsound' x hx
      · rw [List.mem_singleton.mp hx, hnext']
        exact ⟨fun hr => absurd (hr.symm.trans hnew) (by simp), fun hf => absurd rfl hf, hvalid⟩
    · rw [List.length_append, List.length_set, List.length_singleton] at hlt
      rw [List.getElem?_append_left (by rw [List.length_set]; omega)] at hj
      rcases CallStacks.getElem?_set_cases hj with ⟨rfl, rfl⟩ | ⟨hjk, hj⟩
      · exact ⟨⟨hredirected, hstage⟩, rfl⟩
      · exact h.earlier j x hj (by omega)
  | aborted => exact ⟨h.nonempty, h.sound, h.earlier⟩

/-! ### Only the last hop speaks -/

/-- A new hop has said nothing yet. -/
theorem speaking_new {job : Job} {application : HeaderList} (hr : job.redirected = false) :
    Hop.Speaking { job := job, application := application } [] :=
  .silent rfl hr rfl (fun h => by cases h) (fun _ => rfl) (fun h => by cases h)

/-- A hop that is about to follow a redirect has said nothing. -/
theorem Inv.quiet_of_following (h : c.Inv) (hlive : c.live = true) {k : ℕ} {hop : Hop}
    (hk : c.hops[k]? = some hop) (hfollowing : hop.following ≠ none) :
    c.log = [] ∧ hop.pending = [] := by
  have hredirected := (h.sound hop (List.mem_iff_getElem?.mpr ⟨k, hk⟩)).following hfollowing
  have hs := h.speaking hlive k hop hk (h.last_of_following hk hfollowing)
  generalize hall : c.log ++ hop.pending = events at hs
  cases hs with
  | silent _ redirected =>
    rw [hredirected] at redirected
    cases redirected
  | followed => exact List.append_eq_nil_iff.mp hall
  | exposed _ _ redirected =>
    rw [hredirected] at redirected
    cases redirected
  | closing _ following => exact absurd following hfollowing

/-- Every step keeps the invariant, unless a chunk comes for a followed redirect. -/
theorem Inv.step (h : c.Inv) {i : CallStep J} (hok : c.chunkInTime i = true)
    (hstep : c.Steps engine i c') : c'.Inv := by
  have hshape := h.toShape.step hstep
  cases hstep with
  | interfered cached => exact ⟨hshape, h.quiet, h.speaking, h.unended, h.told⟩
  | @moved k hop hop' shared chunked hk hidle hm hchunk _ _ =>
    have hguard (hc : chunked = true) (hlive : c.live = true) : hop.job.redirected = false := by
      obtain ⟨chunk, rfl⟩ := hchunk hc
      simpa [chunkInTime, hk, hlive] using hok
    refine ⟨hshape, fun hlive j x hj hlt => ?_, fun hlive j x hj hlast => ?_, h.unended,
      told_set hk hm.grows h.told⟩
    · rw [List.length_set] at hlt
      rcases CallStacks.getElem?_set_cases hj with ⟨rfl, rfl⟩ | ⟨-, hj⟩
      · have hpassed := (h.earlier j hop hk hlt).1
        refine (hm.passed hpassed).2.2 ?_
        by_contra hc
        have hr := hguard (by simpa using hc) hlive
        rw [hpassed.redirected] at hr
        cases hr
      · exact h.quiet hlive j x hj hlt
    · rw [List.length_set] at hlast
      rcases CallStacks.getElem?_set_cases hj with ⟨rfl, rfl⟩ | ⟨-, hj⟩
      · have hs := h.speaking hlive j hop hk hlast
        rw [(Hop.idle_iff.mp hidle).1, List.append_nil] at hs
        exact hm.speaking (fun hc => hguard hc hlive) c.log hs
      · exact h.speaking hlive j x hj hlast
  | @delivered k hop event rest hk hpending =>
    have hgrows := @Hop.extends_pending hop rest
    have hklt := (List.getElem?_eq_some_iff.mp hk).1
    -- only the last hop has events to deliver while the request is live
    have hlast (hlive : c.live = true) : k + 1 = c.hops.length := by
      by_contra hne
      have := h.quiet hlive k hop hk (by omega)
      rw [hpending] at this
      cases this
    by_cases hlive : c.live = true
    · have hs := h.speaking hlive k hop hk (hlast hlive)
      refine ⟨hshape, fun _ j x hj hlt => ?_, fun hopen j x hj hjlast => ?_, fun hopen e he => ?_,
        ⟨_, List.mem_set hklt _, ?_⟩⟩
      · rw [List.length_set] at hlt
        rcases CallStacks.getElem?_set_cases hj with ⟨rfl, -⟩ | ⟨-, hj⟩
        · exact absurd (hlast hlive) (by omega)
        · exact h.quiet hlive j x hj hlt
      · rw [List.length_set] at hjlast
        obtain rfl : j = k := by
          have := hlast hlive
          omega
        rw [List.getElem?_set_self hklt] at hj
        cases hj
        simp only [if_pos hlive]
        exact hs.deliver hpending (by simpa [hlive] using hopen)
      · simp only [if_pos hlive] at he
        rcases List.mem_append.mp he with he | he
        · exact h.unended hlive e he
        · rw [List.mem_singleton.mp he]
          simpa [hlive] using hopen
      · simp only [if_pos hlive]
        refine (hs.told.of_prefix ⟨rest, ?_⟩).extends hgrows
        rw [hpending, List.append_assoc]
        rfl
    · have hdead : (c.live && !event.isTerminal) = true → False := by simp [hlive]
      refine ⟨hshape, fun hl => (hdead hl).elim, fun hl => (hdead hl).elim,
        fun hl => (hdead hl).elim, ?_⟩
      simp only [if_neg hlive]
      exact told_set hk hgrows h.told
  | @followed k hop next shared now hk hnext =>
    obtain ⟨dec, request, url, hfollowing, -, -, hnew, -, hnext', -⟩ := next_cases hnext
    have hsome : hop.following ≠ none := by simp [hfollowing]
    have hlast := h.last_of_following hk hsome
    have hgrows : hop.Extends { hop with following := none } :=
      ⟨.refl _, rfl, List.prefix_refl _, List.prefix_refl _, fun h => ⟨h, rfl⟩⟩
    refine ⟨hshape, fun hlive j x hj hlt => ?_, fun hlive j x hj hjlast => ?_, h.unended, ?_⟩
    · rw [List.length_append, List.length_set, List.length_singleton] at hlt
      rw [List.getElem?_append_left (by rw [List.length_set]; omega)] at hj
      rcases CallStacks.getElem?_set_cases hj with ⟨rfl, rfl⟩ | ⟨hjk, hj⟩
      · exact (h.quiet_of_following hlive hk hsome).2
      · exact h.quiet hlive j x hj (by omega)
    · rw [List.length_append, List.length_set, List.length_singleton] at hjlast
      rw [List.getElem?_append_right (by rw [List.length_set]; omega), List.length_set,
        show j - c.hops.length = 0 by omega] at hj
      cases hj
      rw [(h.quiet_of_following hlive hk hsome).1, hnext']
      exact speaking_new hnew
    · obtain ⟨x, hx, htold⟩ := told_set hk hgrows h.told
      exact ⟨x, List.mem_append_left _ hx, htold⟩
  | @aborted code hlive _ =>
    refine ⟨hshape, fun hl => (nomatch hl), fun hl => (nomatch hl), fun hl => (nomatch hl), ?_⟩
    obtain ⟨hop, hmem, htold⟩ := h.told
    exact ⟨hop, hmem, htold.abort (h.unended hlive) code⟩

theorem inv_execute {shared : Shared J} {id : ℤ} {request : Request} {now : ClockReading}
    (h : execute engine shared id request now = some c) : c.Inv := by
  unfold execute at h
  split at h
  · cases h
  · rename_i url _
    obtain ⟨shared₁, cookie, hcookie, -, -⟩ := withCookies_cases engine shared request url now
    obtain ⟨shared₂, job, hstart, hcache, -, hnew, hvalid, -⟩ :=
      startJob_cases shared₁ id (addCookieHeader request cookie) url 0 now
    dsimp only at h
    rw [hcookie] at h
    dsimp only at h
    rw [hstart] at h
    cases h
    refine ⟨⟨by simp, fun x hx => ?_, fun k x _ hlt => ?_⟩, fun _ k x _ hlt => ?_,
      fun _ k x hk hlast => ?_, by simp, ?_⟩
    · rw [List.mem_singleton.mp hx, hcache]
      exact ⟨fun hr => absurd (hr.symm.trans hnew) (by simp), fun hf => absurd rfl hf, hvalid⟩
    · rw [List.length_singleton] at hlt
      omega
    · rw [List.length_singleton] at hlt
      omega
    · rw [List.length_singleton] at hlast
      obtain rfl : k = 0 := by omega
      cases hk
      exact speaking_new hnew
    · exact ⟨_, List.mem_singleton.mpr rfl, .silent⟩

/-! ### How far the application is told -/

/-- What a run of `steps` keeps besides: the redirect of the last hop is still to be followed,
what is dispatched was said by a hop, and a request that is over was told so. -/
structure Ending (c : Call J) (steps : List (CallStep J)) : Prop where
  following : ∀ k hop, c.hops[k]? = some hop → k + 1 = c.hops.length →
    hop.job.redirected = true → hop.following ≠ none
  voiced : ∀ hop ∈ c.hops, hop.Voiced
  said : ∀ event ∈ c.log, (∃ hop ∈ c.hops, ∃ reply ∈ hop.said, event ∈ reply.events) ∨
    ∃ code, event = .error code ∧ .abort code ∈ steps
  terminal : c.live = false → ∃ before last, c.log = before ++ [last] ∧ last.isTerminal = true

/-- A reply stays said when a hop goes on. -/
theorem said_set {hops : List Hop} {k : ℕ} {hop hop' : Hop} {event : AppEvent}
    (hk : hops[k]? = some hop) (hgrows : hop.Extends hop')
    (h : ∃ x ∈ hops, ∃ reply ∈ x.said, event ∈ reply.events) :
    ∃ x ∈ hops.set k hop', ∃ reply ∈ x.said, event ∈ reply.events := by
  obtain ⟨x, hx, reply, hreply, hevent⟩ := h
  obtain ⟨j, hj⟩ := List.mem_iff_getElem?.mp hx
  by_cases hjk : j = k
  · subst hjk
    obtain rfl : hop = x := Option.some.inj (hk.symm.trans hj)
    exact ⟨hop', List.mem_set (List.getElem?_eq_some_iff.mp hk).1 _, reply,
      hgrows.said.subset hreply, hevent⟩
  · refine ⟨x, List.mem_iff_getElem?.mpr ⟨j, ?_⟩, reply, hreply, hevent⟩
    rw [List.getElem?_set_ne (Ne.symm hjk), hj]

theorem Ending.step {steps : List (CallStep J)} (h : c.Ending steps) (hshape : c.Shape)
    {i : CallStep J} (hstep : c.Steps engine i c') :
    c'.Ending (steps ++ [i]) := by
  have hmore {event : AppEvent} (he : ∃ code, event = .error code ∧ .abort code ∈ steps) :
      ∃ code, event = .error code ∧ .abort code ∈ steps ++ [i] := by
    obtain ⟨code, hcode, hmem⟩ := he
    exact ⟨code, hcode, List.mem_append_left _ hmem⟩
  cases hstep with
  | interfered => exact ⟨h.following, h.voiced, fun e he => (h.said e he).imp_right hmore, h.terminal⟩
  | @moved k hop hop' shared chunked hk hidle hm _ _ _ =>
    refine ⟨fun j x hj hlast hredirected => ?_, fun x hx => ?_,
      fun e he => (h.said e he).imp (said_set hk hm.grows) hmore, h.terminal⟩
    · rw [List.length_set] at hlast
      rcases CallStacks.getElem?_set_cases hj with ⟨rfl, rfl⟩ | ⟨-, hj⟩
      · refine (hm.marks hredirected).resolve_left fun hmarked => ?_
        exact h.following j hop hk hlast hmarked (Hop.idle_iff.mp hidle).2
      · exact h.following j x hj hlast hredirected
    · rcases List.mem_or_eq_of_mem_set hx with hx | rfl
      · exact h.voiced x hx
      · exact hm.voiced
  | @delivered k hop event rest hk hpending =>
    have hgrows := @Hop.extends_pending hop rest
    have hmem := List.mem_iff_getElem?.mpr ⟨k, hk⟩
    refine ⟨fun j x hj hlast hredirected => ?_, fun x hx => ?_, fun e he => ?_, fun hover => ?_⟩
    · rw [List.length_set] at hlast
      rcases CallStacks.getElem?_set_cases hj with ⟨rfl, rfl⟩ | ⟨-, hj⟩
      · exact h.following j hop hk hlast hredirected
      · exact h.following j x hj hlast hredirected
    · rcases List.mem_or_eq_of_mem_set hx with hx | rfl
      · exact h.voiced x hx
      · intro e he
        exact h.voiced hop hmem e (by rw [hpending]; exact List.mem_cons_of_mem _ he)
    · have hold : e ∈ c.log → (∃ x ∈ c.hops.set k { hop with pending := rest },
          ∃ reply ∈ x.said, e ∈ reply.events) ∨
          ∃ code, e = .error code ∧ .abort code ∈ steps ++ [i] :=
        fun he => (h.said e he).imp (said_set hk hgrows) hmore
      by_cases hlive : c.live = true
      · simp only [if_pos hlive] at he
        rcases List.mem_append.mp he with he | he
        · exact hold he
        · rw [List.mem_singleton.mp he]
          have hvoiced := h.voiced hop hmem event (by rw [hpending]; exact List.mem_cons_self)
          exact Or.inl (said_set hk hgrows ⟨hop, hmem, hvoiced⟩)
      · simp only [if_neg hlive] at he
        exact hold he
    · by_cases hlive : c.live = true
      · simp only [if_pos hlive]
        exact ⟨c.log, event, rfl, by simpa [hlive] using hover⟩
      · simp only [if_neg hlive]
        exact h.terminal (by simpa using hlive)
  | @followed k hop next shared now hk hnext =>
    obtain ⟨dec, request, url, hfollowing, -, -, hnew, -, hnext', -⟩ := next_cases hnext
    have hlast := hshape.last_of_following hk (by simp [hfollowing])
    have hgrows : hop.Extends { hop with following := none } :=
      ⟨.refl _, rfl, List.prefix_refl _, List.prefix_refl _, fun h => ⟨h, rfl⟩⟩
    refine ⟨fun j x hj hjlast hredirected => ?_, fun x hx => ?_, fun e he => ?_, h.terminal⟩
    · rw [List.length_append, List.length_set, List.length_singleton] at hjlast
      rw [List.getElem?_append_right (by rw [List.length_set]; omega), List.length_set,
        show j - c.hops.length = 0 by omega] at hj
      cases hj
      rw [hnew] at hredirected
      cases hredirected
    · rcases List.mem_append.mp hx with hx | hx
      · rcases List.mem_or_eq_of_mem_set hx with hx | rfl
        · exact h.voiced x hx
        · exact h.voiced hop (List.mem_iff_getElem?.mpr ⟨k, hk⟩)
      · rw [List.mem_singleton.mp hx, hnext']
        intro e he
        cases he
    · refine (h.said e he).imp (fun hsaid => ?_) hmore
      obtain ⟨x, hx, hreply⟩ := said_set hk hgrows hsaid
      exact ⟨x, List.mem_append_left _ hx, hreply⟩
  | @aborted code _ haborts =>
    refine ⟨h.following, h.voiced, fun e he => ?_, fun _ => ⟨c.log, .error code, rfl, rfl⟩⟩
    rcases List.mem_append.mp he with he | he
    · exact (h.said e he).imp_right hmore
    · exact Or.inr ⟨code, List.mem_singleton.mp he, List.mem_append_right _ (by simp [haborts])⟩

theorem ending_execute {shared : Shared J} {id : ℤ} {request : Request} {now : ClockReading}
    (h : execute engine shared id request now = some c) : c.Ending [] := by
  unfold execute at h
  split at h
  · cases h
  · rename_i url _
    obtain ⟨shared₁, cookie, hcookie, -, -⟩ := withCookies_cases engine shared request url now
    obtain ⟨shared₂, job, hstart, -, -, hnew, -⟩ :=
      startJob_cases shared₁ id (addCookieHeader request cookie) url 0 now
    dsimp only at h
    rw [hcookie] at h
    dsimp only at h
    rw [hstart] at h
    cases h
    refine ⟨fun k x hk hlast hredirected => ?_, fun x hx => ?_, by simp, fun hover => by cases hover⟩
    · rw [List.length_singleton] at hlast
      obtain rfl : k = 0 := by omega
      cases hk
      rw [hnew] at hredirected
      cases hredirected
    · rw [List.mem_singleton.mp hx]
      intro e he
      cases he

/-- How far a request has been told: everything that its last hop has answered while that one
goes on, and the whole response of a hop once it has ended, unless there was an error. An
error is one that a hop reported or that of `cancel` and `destroy`. -/
structure Progress (c : Call J) (steps : List (CallStep J)) : Prop where
  soFar : c.live = true → ∀ hop, c.hops.getLast? = some hop → hop.idle = true →
    hop.ToldSoFar c.log
  whole : ∀ hop, c.hops.getLast? = some hop → hop.idle = true → hop.stage = .ended →
    (∃ hop ∈ c.hops, hop.ToldWhole c.log) ∨ ∃ code, .error code ∈ c.log
  failed : ∀ code, .error code ∈ c.log →
    .abort code ∈ steps ∨ ∃ hop ∈ c.hops, .error code ∈ hop.said

theorem error_mem_events {code : ErrorCode} {reply : Reply} (h : .error code ∈ reply.events) :
    reply = .error code := by
  cases reply with
  | expose _ _ => simp [Reply.events] at h
  | chunk _ => simp [Reply.events] at h
  | stored response => by_cases hbody : response.body = [] <;> simp [Reply.events, hbody] at h
  | complete => simp [Reply.events] at h
  | error e =>
    obtain rfl : code = e := by simpa [Reply.events] using h
    rfl
  | follow _ _ _ => cases h

theorem Inv.progress (h : c.Inv) {steps : List (CallStep J)} (hending : c.Ending steps) :
    c.Progress steps := by
  -- while the request is live its last hop, if it is idle, is one that speaks
  have hspeaks (hlive : c.live = true) (hop : Hop) (hlast : c.hops.getLast? = some hop)
      (hidle : hop.idle = true) : hop.ToldSoFar c.log ∧ hop.stage ≠ .ended := by
    rw [List.getLast?_eq_getElem?] at hlast
    have hlength : c.hops.length - 1 + 1 = c.hops.length :=
      Nat.sub_add_cancel (List.length_pos_iff.mpr h.nonempty)
    obtain ⟨hpending, hfollowing⟩ := Hop.idle_iff.mp hidle
    have hs := h.speaking hlive _ hop hlast hlength
    rw [hpending, List.append_nil] at hs
    refine hs.of_idle hidle (Bool.eq_false_iff.mpr fun hredirected => ?_)
    exact hending.following _ hop hlast hlength hredirected hfollowing
  refine ⟨fun hlive hop hlast hidle => (hspeaks hlive hop hlast hidle).1,
    fun hop hlast hidle hended => ?_, fun code hcode => ?_⟩
  · have hover : c.live = false :=
      Bool.eq_false_iff.mpr fun hlive => (hspeaks hlive hop hlast hidle).2 hended
    obtain ⟨before, last, hlog, hterminal⟩ := hending.terminal hover
    obtain ⟨told, hmem, htold⟩ := h.told
    rcases htold.whole_or_error hlog hterminal with hwhole | herror
    · exact Or.inl ⟨told, hmem, hwhole⟩
    · exact Or.inr herror
  · rcases hending.said _ hcode with ⟨hop, hmem, reply, hreply, hevent⟩ | ⟨e, he, hmem⟩
    · rw [error_mem_events hevent] at hreply
      exact Or.inr ⟨hop, hmem, hreply⟩
    · cases he
      exact Or.inl hmem

/-- In every run in which no chunk arrives for a hop whose redirect is followed
while the request is live, the application has been told one response of one
hop that was not redirected: all that has come of it so far, and the whole of it
once the last hop has ended and its events are dispatched, unless an error ended
it. -/
theorem run_told {shared : Shared J} {id : ℤ} {request : Request} {now : ClockReading}
    {steps : List (CallStep J)} (hexecute : execute engine shared id request now = some c)
    (hrun : Transition.run (step engine) c steps = some c')
    (hok : Transition.Meets (step engine) (fun c i => c.chunkInTime i = true) c steps) :
    (∃ hop ∈ c'.hops, hop.Told c'.log) ∧ c'.Progress steps := by
  have hinv : c'.Inv ∧ c'.Ending steps := by
    refine Transition.run_invariant_history
      (fun is t i t' _ (h : t.Inv ∧ t.Ending is) hok hstep => ?_) hrun hok
      ⟨inv_execute hexecute, ending_execute hexecute⟩
    have hsteps := step_cases h.1.toShape hstep
    exact ⟨h.1.step hok hsteps, h.2.step h.1.toShape hsteps⟩
  exact ⟨hinv.1.told, hinv.1.progress hinv.2⟩

end Call

/-! ### Two runs -/

/-- An engine without cache and cookies. -/
def plainEngine : EngineConfig Unit where
  net := noLiterals
  jar := ⟨fun jar _ _ _ => jar, fun jar _ _ => (jar, [])⟩
  cacheConfig := { sizeMax := 2 ^ 64 - 1, sizeofCachedResponse := 256 }

def plainNow : ClockReading := ⟨some 0, 1⟩

def plainGet : Request := { method := "GET".toList, url := "https://a.test/x".toList }

/-- The state after `execute`. -/
def plainStart : Call Unit :=
  { shared := ⟨none, ()⟩
    hops := [{
      job := {
        id := 7
        request := plainGet
        url := urlAt "/x".toList
        cacheRequestWallSeconds := some 0 }
      application := [] }] }

/-- A redirect of the first hop, followed to a connection. -/
def redirectSteps : List (CallStep Unit) :=
  [.route 0 true, .headers 0 302 [⟨"location".toList, "https://b.test/y".toList⟩] plainNow,
    .hop 0 plainNow, .route 1 true]

def answerSteps : List (CallStep Unit) :=
  [.headers 1 200 [] plainNow, .deliver 1, .chunk 1 (.bytes "ok".toList), .deliver 1,
    .finish 1 plainNow, .deliver 1]

namespace Call

theorem execute_plainStart :
    execute plainEngine ⟨none, ()⟩ 7 plainGet plainNow = some plainStart := by decide +kernel

theorem run_told_redirect :
    ∃ c, Transition.run (step plainEngine) plainStart (redirectSteps ++ answerSteps) = some c ∧
      c.log = [.headers 200 [], .body (.bytes "ok".toList), .complete] ∧
      (∃ hop ∈ c.hops, hop.Told c.log) ∧ c.Progress (redirectSteps ++ answerSteps) := by
  obtain ⟨c, hrun, hlog⟩ := Option.map_eq_some_iff.mp
    (show (Transition.run (step plainEngine) plainStart (redirectSteps ++ answerSteps)).map Call.log =
      some [.headers 200 [], .body (.bytes "ok".toList), .complete] by decide +kernel)
  exact ⟨c, hrun, hlog, run_told execute_plainStart hrun (by decide +kernel)⟩

/-- A chunk of the redirected hop reaches the application, with no headers before it. -/
theorem run_chunk_after_redirect :
    ∃ c, execute plainEngine ⟨none, ()⟩ 7 plainGet plainNow = some plainStart ∧
      Transition.run (step plainEngine) plainStart
        (redirectSteps ++ [.chunk 0 (.bytes "x".toList), .deliver 0]) = some c ∧
      c.log = [.body (.bytes "x".toList)] ∧ ¬ ∃ hop ∈ c.hops, hop.Told c.log := by
  obtain ⟨c, hrun, hlog⟩ := Option.map_eq_some_iff.mp
    (show (Transition.run (step plainEngine) plainStart
      (redirectSteps ++ [.chunk 0 (.bytes "x".toList), .deliver 0])).map Call.log =
        some [.body (.bytes "x".toList)] by decide +kernel)
  refine ⟨c, execute_plainStart, hrun, hlog, ?_⟩
  rintro ⟨hop, -, htold⟩
  rw [hlog] at htold
  cases htold

end Call

end KatHttp3
