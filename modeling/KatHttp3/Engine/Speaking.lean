import KatHttp3.Engine.Call

/-!
# What one hop says

The events of a hop are one response, cut off at any point: that is what each of
its callbacks adds to, unless its redirect was followed.
-/

namespace KatHttp3

/-! ### What the application is told -/

/-- The bytes of a list of chunks. -/
def bytesOf (chunks : List Chunk) : Str := chunks.flatMap Chunk.data

namespace Hop

variable (hop : Hop)

/-- Status, headers and body that a hop answers with. A hop whose redirect was
followed has `follow` as its first reply, and no answer. -/
def answer : Option (ℕ × HeaderList × Str) :=
  match hop.said.head? with
  | some (.expose status headers) => some (status, headers, hop.received)
  | some (.stored response) => some (response.statusCode, deliveredHeaders response, response.body)
  | _ => none

/-- The body of the answer is complete: the stream has ended or a stored response stands for it. -/
def whole : Prop := hop.stage = .ended ∨ ∃ response, hop.said.head? = some (.stored response)

/-- The events of all that a hop has answered so far: the headers and every byte of its body. -/
def ToldSoFar (log : List AppEvent) : Prop :=
  ∀ status headers body, hop.answer = some (status, headers, body) →
    ∃ chunks, bytesOf chunks = body ∧ log = .headers status headers :: chunks.map .body

/-- The events of a whole response of the hop. -/
def ToldWhole (log : List AppEvent) : Prop :=
  ∃ status headers body chunks, hop.answer = some (status, headers, body) ∧ hop.whole ∧
    bytesOf chunks = body ∧ log = .headers status headers :: chunks.map .body ++ [.complete]

/-- The events still to dispatch are those of the hop's replies. -/
def Voiced : Prop := ∀ event ∈ hop.pending, ∃ reply ∈ hop.said, event ∈ reply.events

/-- Events that are one response of the hop, cut off at any point, or an error. -/
inductive Told : List AppEvent → Prop
  | silent : Told []
  | failed (code : ErrorCode) : Told [.error code]
  | answered {status : ℕ} {headers : HeaderList} {body : Str} (chunks : List Chunk)
      {ending : List AppEvent} (answer : hop.answer = some (status, headers, body))
      (body_eq : bytesOf chunks <+: body)
      (ending_eq : ending = [] ∨ ending = [.complete] ∧ bytesOf chunks = body ∧ hop.whole ∨
        ∃ code, ending = [.error code]) :
      Told (.headers status headers :: chunks.map .body ++ ending)

/-- How the hop can go on: what a callback leaves unchanged and what only grows. -/
structure Extends (hop' : Hop) : Prop where
  request : hop.job.SameRequest hop'.job
  application : hop'.application = hop.application
  said : hop.said <+: hop'.said
  received : hop.received <+: hop'.received
  ended : hop.stage = .ended → hop'.stage = .ended ∧ hop'.received = hop.received

variable {hop} {hop' : Hop}

theorem Extends.head_said (h : hop.Extends hop') {reply : Reply}
    (hreply : hop.said.head? = some reply) : hop'.said.head? = some reply := by
  obtain ⟨rest, hrest⟩ := h.said
  rw [← hrest, List.head?_append, hreply]
  rfl

theorem Extends.answer (h : hop.Extends hop') {status : ℕ} {headers : HeaderList} {body : Str}
    (ha : hop.answer = some (status, headers, body)) :
    ∃ body', hop'.answer = some (status, headers, body') ∧ body <+: body' ∧
      (hop.whole → body' = body ∧ hop'.whole) := by
  unfold Hop.answer at ha
  cases hhead : hop.said.head? with
  | none => simp [hhead] at ha
  | some reply =>
    have hhead' := h.head_said hhead
    rw [hhead] at ha
    cases reply with
    | expose st hs =>
      simp only [Option.some.injEq, Prod.mk.injEq] at ha
      obtain ⟨rfl, rfl, rfl⟩ := ha
      refine ⟨hop'.received, by rw [Hop.answer, hhead'], h.received, ?_⟩
      rintro (hended | ⟨r, hr⟩)
      · obtain ⟨hended', hreceived⟩ := h.ended hended
        exact ⟨hreceived, Or.inl hended'⟩
      · rw [hhead] at hr
        cases hr
    | stored response =>
      simp only [Option.some.injEq, Prod.mk.injEq] at ha
      obtain ⟨rfl, rfl, rfl⟩ := ha
      exact ⟨response.body, by rw [Hop.answer, hhead'], List.prefix_refl _,
        fun _ => ⟨rfl, Or.inr ⟨response, hhead'⟩⟩⟩
    | chunk _ => cases ha
    | complete => cases ha
    | error _ => cases ha
    | follow _ _ _ => cases ha

theorem Told.extends {events : List AppEvent} (ht : hop.Told events) (h : hop.Extends hop') :
    hop'.Told events := by
  cases ht with
  | silent => exact .silent
  | failed code => exact .failed code
  | answered chunks answer body_eq ending_eq =>
    obtain ⟨body', ha, hbody, hwhole⟩ := h.answer answer
    refine .answered chunks ha (body_eq.trans hbody) ?_
    rcases ending_eq with hnil | ⟨hcomplete, hall, hw⟩ | herror
    · exact Or.inl hnil
    · obtain ⟨rfl, hw'⟩ := hwhole hw
      exact Or.inr (Or.inl ⟨hcomplete, hall, hw'⟩)
    · exact Or.inr (Or.inr herror)

/-- A response without an ending can be cut off after any event. -/
theorem told_of_prefix_chunks {status : ℕ} {headers : HeaderList} {body : Str} {chunks : List Chunk}
    {log : List AppEvent} (ha : hop.answer = some (status, headers, body))
    (hbody : bytesOf chunks <+: body) (h : log <+: .headers status headers :: chunks.map .body) :
    hop.Told log := by
  rcases List.prefix_cons_iff.mp h with rfl | ⟨l, rfl, hl⟩
  · exact .silent
  · obtain ⟨rest, hrest⟩ := hl
    obtain ⟨shown, hidden, rfl, rfl, -⟩ := List.append_eq_map_iff.mp hrest
    have hshown : bytesOf shown <+: body := by
      refine List.IsPrefix.trans ?_ hbody
      rw [bytesOf, bytesOf, List.flatMap_append]
      exact List.prefix_append _ _
    have htold := Told.answered shown ha hshown (Or.inl rfl)
    rwa [List.append_nil] at htold

/-- What has been told of a response so far is again such a list of events. -/
theorem Told.of_prefix {events log : List AppEvent} (ht : hop.Told events) (h : log <+: events) :
    hop.Told log := by
  cases ht with
  | silent =>
    rw [List.prefix_nil.mp h]
    exact .silent
  | failed code =>
    rcases List.prefix_cons_iff.mp h with rfl | ⟨l, rfl, hl⟩
    · exact .silent
    · rw [List.prefix_nil.mp hl]
      exact .failed code
  | @answered status headers body chunks ending answer body_eq ending_eq =>
    have hlast : ∀ e : AppEvent, log <+: (.headers status headers :: chunks.map .body) ++ [e] →
        log = (.headers status headers :: chunks.map .body) ++ [e] ∨ hop.Told log := fun e he =>
      (List.prefix_concat_iff.mp he).imp_right (told_of_prefix_chunks answer body_eq)
    rcases ending_eq with rfl | ⟨rfl, hall, hwhole⟩ | ⟨code, rfl⟩
    · rw [List.append_nil] at h
      exact told_of_prefix_chunks answer body_eq h
    · rcases hlast _ h with rfl | htold
      · exact .answered chunks answer body_eq (Or.inr (Or.inl ⟨rfl, hall, hwhole⟩))
      · exact htold
    · rcases hlast _ h with rfl | htold
      · exact .answered chunks answer body_eq (Or.inr (Or.inr ⟨code, rfl⟩))
      · exact htold

/-- What ends with a terminal event is a whole response or ends with an error. -/
theorem Told.whole_or_error {events before : List AppEvent} {last : AppEvent}
    (ht : hop.Told events) (hlast : events = before ++ [last]) (hterminal : last.isTerminal = true) :
    hop.ToldWhole events ∨ ∃ code, .error code ∈ events := by
  cases ht with
  | silent => simp at hlast
  | failed code => exact Or.inr ⟨code, by simp⟩
  | @answered status headers body chunks ending answer body_eq ending_eq =>
    rcases ending_eq with rfl | ⟨rfl, hall, hwhole⟩ | ⟨code, rfl⟩
    · -- no event of a response without an ending is terminal
      have hmem : last ∈ .headers status headers :: chunks.map AppEvent.body := by
        rw [List.append_nil] at hlast
        rw [hlast]
        simp
      rcases List.mem_cons.mp hmem with rfl | hmem
      · cases hterminal
      · obtain ⟨chunk, -, rfl⟩ := List.mem_map.mp hmem
        cases hterminal
    · exact Or.inl ⟨status, headers, body, chunks, answer, hwhole, hall, rfl⟩
    · exact Or.inr ⟨code, by simp⟩

/-! ### A hop that speaks -/

/-- A hop whose redirect has been followed. -/
structure Passed (hop : Hop) : Prop where
  redirected : hop.job.redirected = true
  stage : hop.stage = .receiving ∨ hop.stage = .ended

/-- The events of a hop, delivered or pending, while it is the one that speaks. -/
inductive Speaking (hop : Hop) : List AppEvent → Prop
  | silent (said : hop.said = []) (redirected : hop.job.redirected = false)
      (following : hop.following = none)
      (withheld : hop.stage = .receiving → hop.job.withheld = true)
      (received : hop.stage ≠ .receiving → hop.received = [])
      (running : hop.stage ≠ .ended) :
      Speaking hop []
  | followed (passed : hop.Passed) : Speaking hop []
  | exposed {status : ℕ} {headers : HeaderList} (chunks : List Chunk)
      (said : hop.said = .expose status headers :: chunks.map .chunk)
      (redirected : hop.job.redirected = false) (following : hop.following = none)
      (validation : hop.job.cacheValidation = none) (stage : hop.stage = .receiving)
      (received : hop.received = bytesOf chunks) :
      Speaking hop (.headers status headers :: chunks.map .body)
  | closing {events : List AppEvent} (told : hop.Told events) (following : hop.following = none)
      (terminal : ∃ before last, hop.pending = before ++ [last] ∧ last.isTerminal = true) :
      Speaking hop events

theorem Speaking.told {events : List AppEvent} (h : hop.Speaking events) : hop.Told events := by
  cases h with
  | silent => exact .silent
  | followed => exact .silent
  | @exposed status headers chunks said _ _ _ _ received =>
    have ha : hop.answer = some (status, headers, bytesOf chunks) := by
      rw [Hop.answer, said, ← received]
      rfl
    have htold := Told.answered chunks ha (List.prefix_refl _) (Or.inl rfl)
    rwa [List.append_nil] at htold
  | closing told => exact told

/-- The redirect of a hop that a headers callback left it to follow. -/
def Follows {J : Type} (engine : EngineConfig J) (hop hop' : Hop) (status : ℕ)
    (headers : HeaderList) : Prop :=
  ∃ dec url cookie, redirectTarget engine.net hop.job status headers = some (dec, url) ∧
    (cookie = [] ∨ engine.JarCookie cookie) ∧
    hop'.following = some (dec, addCookieHeader (redirectRequest hop.job dec url) cookie, url)

/-- All that a callback can do to the hop whose worker runs it. -/
structure Moves (chunked : Bool) (hop hop' : Hop) : Prop where
  grows : hop.Extends hop'
  passed : hop.Passed → hop'.Passed ∧ hop'.following = none ∧ (chunked = false → hop'.pending = [])
  speaking : (chunked = true → hop.job.redirected = false) →
    ∀ log, hop.Speaking log → hop'.Speaking (log ++ hop'.pending)
  marked : (hop.job.redirected = true → hop.Passed) → hop'.job.redirected = true → hop'.Passed
  following : hop'.following ≠ none → hop'.job.redirected = true
  validation : hop'.job.cacheValidation.isSome = true → hop.job.cacheValidation.isSome = true
  marks : hop'.job.redirected = true → hop.job.redirected = true ∨ hop'.following ≠ none
  voiced : hop'.Voiced

/-- What holds of every hop, `cached` saying whether there is a cache. -/
structure Sound (cached : Bool) (hop : Hop) : Prop where
  marked : hop.job.redirected = true → hop.Passed
  following : hop.following ≠ none → hop.job.redirected = true
  validation : hop.job.cacheValidation.isSome = true → cached = true

theorem Moves.sound {cached chunked : Bool} (h : hop.Moves chunked hop') (hs : hop.Sound cached) :
    hop'.Sound cached :=
  ⟨h.marked hs.marked, h.following, fun hv => hs.validation (h.validation hv)⟩

theorem idle_iff : hop.idle = true ↔ hop.pending = [] ∧ hop.following = none := by
  simp [Hop.idle]

/-- A hop that is idle and speaks has told all that it has answered, and has not ended. -/
theorem Speaking.of_idle {events : List AppEvent} (h : hop.Speaking events)
    (hidle : hop.idle = true) (hredirected : hop.job.redirected = false) :
    hop.ToldSoFar events ∧ hop.stage ≠ .ended := by
  cases h with
  | silent said _ _ _ _ running =>
    refine ⟨fun status headers body ha => ?_, running⟩
    simp [Hop.answer, said] at ha
  | followed passed =>
    rw [passed.redirected] at hredirected
    cases hredirected
  | @exposed status headers chunks said _ _ _ stage received =>
    refine ⟨fun status' headers' body ha => ⟨chunks, ?_⟩, by simp [stage]⟩
    simp only [Hop.answer, said, List.head?_cons, Option.some.injEq, Prod.mk.injEq] at ha
    obtain ⟨rfl, rfl, rfl⟩ := ha
    exact ⟨received.symm, rfl⟩
  | closing _ _ terminal =>
    obtain ⟨before, last, hpending, -⟩ := terminal
    rw [(idle_iff.mp hidle).1] at hpending
    simp at hpending

/-- The last word of a hop that has said nothing so far. -/
theorem speaking_of_first (reply : Reply) (said : hop.said = [reply])
    (pending : hop.pending = reply.events) (following : hop.following = none)
    (hreply : (∃ r, reply = .stored r) ∨ ∃ e, reply = .error e) :
    hop.Speaking ([] ++ hop.pending) := by
  rw [List.nil_append]
  rcases hreply with ⟨r, rfl⟩ | ⟨e, rfl⟩
  · have ha : hop.answer = some (r.statusCode, deliveredHeaders r, r.body) := by
      rw [Hop.answer, said]
      rfl
    have hwhole : hop.whole := Or.inr ⟨r, by rw [said]; rfl⟩
    refine .closing ?_ following ⟨.headers r.statusCode (deliveredHeaders r) ::
      if r.body = [] then [] else [.body (.bytes r.body)], .complete, pending, rfl⟩
    rw [pending]
    by_cases hbody : r.body = []
    · have htold := Told.answered [] ha (by simp [bytesOf])
        (Or.inr (Or.inl ⟨rfl, hbody.symm, hwhole⟩))
      simpa [Reply.events, hbody] using htold
    · have hbytes : bytesOf [.bytes r.body] = r.body := by simp [bytesOf, Chunk.data]
      have htold := Told.answered [.bytes r.body] ha (by rw [hbytes])
        (Or.inr (Or.inl ⟨rfl, hbytes, hwhole⟩))
      simpa [Reply.events, hbody] using htold
  · refine .closing ?_ following ⟨[], .error e, pending, rfl⟩
    rw [pending]
    exact .failed e

/-- The last word of a hop that has answered. -/
theorem speaking_of_last {status : ℕ} {headers : HeaderList} {chunks : List Chunk} (reply : Reply)
    (said : hop.said = .expose status headers :: chunks.map .chunk ++ [reply])
    (received : hop.received = bytesOf chunks) (pending : hop.pending = reply.events)
    (following : hop.following = none)
    (hreply : reply = .complete ∧ hop.stage = .ended ∨ ∃ e, reply = .error e) :
    hop.Speaking ((.headers status headers :: chunks.map .body) ++ hop.pending) := by
  have ha : hop.answer = some (status, headers, bytesOf chunks) := by
    rw [Hop.answer, said, ← received]
    rfl
  rw [pending]
  rcases hreply with ⟨rfl, hended⟩ | ⟨e, rfl⟩
  · exact .closing (.answered chunks ha (List.prefix_refl _)
      (Or.inr (Or.inl ⟨rfl, rfl, Or.inl hended⟩))) following ⟨[], .complete, pending, rfl⟩
  · exact .closing (.answered chunks ha (List.prefix_refl _) (Or.inr (Or.inr ⟨e, rfl⟩)))
      following ⟨[], .error e, pending, rfl⟩

/-! ### What each callback does to its hop -/

variable {J : Type} {engine : EngineConfig J} {shared shared' : Shared J}

theorem extends_saying {job : Job} {reply : Option Reply} {stage : Stage} {received : Str}
    (hjob : hop.job.SameRequest job) (hreceived : hop.received <+: received)
    (hended : hop.stage = .ended → stage = .ended ∧ received = hop.received) :
    hop.Extends { hop.saying job reply with stage := stage, received := received } :=
  ⟨hjob, rfl, List.prefix_append _ _, hreceived, hended⟩

theorem not_passed (hr : hop.stage ≠ .receiving) (he : hop.stage ≠ .ended) : ¬ hop.Passed :=
  fun h => h.stage.elim hr he

theorem voiced_saying (hop : Hop) (job : Job) (reply : Option Reply) (stage : Stage)
    (received : Str) :
    Voiced { hop.saying job reply with stage := stage, received := received } := by
  intro event hevent
  cases reply with
  | none => simp [Hop.saying] at hevent
  | some reply => exact ⟨reply, by simp [Hop.saying], hevent⟩

/-- A hop that waits for its answer has said nothing. -/
theorem Speaking.unanswered {log : List AppEvent} (h : hop.Speaking log) (hidle : hop.idle = true)
    (hr : hop.stage ≠ .receiving) (he : hop.stage ≠ .ended) :
    log = [] ∧ hop.said = [] ∧ hop.job.redirected = false ∧ hop.received = [] := by
  cases h with
  | silent said redirected _ _ received _ => exact ⟨rfl, said, redirected, received hr⟩
  | followed passed => exact absurd passed (not_passed hr he)
  | exposed _ _ _ _ _ stage => exact absurd stage hr
  | closing _ _ terminal =>
    obtain ⟨before, last, hpending, -⟩ := terminal
    rw [(idle_iff.mp hidle).1] at hpending
    simp at hpending

theorem Moves.route {admitted : Bool} (hidle : hop.idle = true)
    (h : hop.route admitted = some hop') : Moves false hop hop' ∧ hop'.following = none := by
  obtain ⟨hpending, hfollowing⟩ := idle_iff.mp hidle
  unfold Hop.route at h
  by_cases hstage : hop.stage = .routing
  · have hr : hop.stage ≠ .receiving := by simp [hstage]
    have he : hop.stage ≠ .ended := by simp [hstage]
    have hnot := not_passed hr he
    rw [if_neg (not_not.mpr hstage)] at h
    cases admitted with
    | true =>
      cases h
      refine ⟨⟨⟨.refl _, rfl, List.prefix_refl _, List.prefix_refl _, fun h => absurd h he⟩,
        fun hp => absurd hp hnot, fun _ log hs => ?_, fun hm h => absurd (hm h) hnot,
        fun hf => absurd hfollowing hf, id, Or.inl, fun event hevent => ?_⟩, hfollowing⟩
      · obtain ⟨rfl, hsaid, hredirected, hreceived⟩ := hs.unanswered hidle hr he
        simp only [hpending, List.append_nil]
        have hrouted : hop.routed ≠ .receiving ∧ hop.routed ≠ .ended := by
          unfold Hop.routed
          split_ifs <;> simp
        exact .silent hsaid hredirected hfollowing (fun h => absurd h hrouted.1)
          (fun _ => hreceived) hrouted.2
      · have hnil : event ∈ hop.pending := hevent
        rw [hpending] at hnil
        cases hnil
    | false =>
      cases h
      refine ⟨⟨extends_saying (.refl _) (List.prefix_refl _) (fun h => absurd h he),
        fun hp => absurd hp hnot, fun _ log hs => ?_, fun hm h => absurd (hm h) hnot,
        fun hf => absurd rfl hf, id, Or.inl, voiced_saying _ _ _ _ _⟩, rfl⟩
      obtain ⟨rfl, hsaid, -, -⟩ := hs.unanswered hidle hr he
      exact speaking_of_first (.error hop.refusal) (by simp [Hop.saying, hsaid]) rfl rfl
        (Or.inr ⟨_, rfl⟩)
  · rw [if_pos hstage] at h
    cases h

theorem Moves.dispatch {now : ClockReading} (hidle : hop.idle = true)
    (h : hop.dispatch shared now = some hop') : Moves false hop hop' ∧ hop'.following = none := by
  unfold Hop.dispatch at h
  split at h
  · rename_i response hstage _
    have hr : hop.stage ≠ .receiving := by simp [hstage]
    have he : hop.stage ≠ .ended := by simp [hstage]
    have hnot := not_passed hr he
    cases h
    refine ⟨⟨extends_saying (.refl _) (List.prefix_refl _) (fun h => absurd h he),
      fun hp => absurd hp hnot, fun _ log hs => ?_, fun hm h => absurd (hm h) hnot,
      fun hf => absurd rfl hf, id, Or.inl, voiced_saying _ _ _ _ _⟩, rfl⟩
    obtain ⟨rfl, hsaid, -, -⟩ := hs.unanswered hidle hr he
    exact speaking_of_first (deliverCached shared.cache response now)
      (by simp [Hop.saying, hsaid]) rfl rfl (Or.inl ⟨_, rfl⟩)
  · cases h

theorem Moves.headers {status : ℕ} {fields : HeaderList} {now : ClockReading}
    (hidle : hop.idle = true) (hmarked : hop.job.redirected = true → hop.Passed)
    (h : Hop.headers engine hop shared status fields now = some (shared', hop')) :
    Moves false hop hop' ∧ shared'.cache.isSome = shared.cache.isSome ∧
      (hop'.following ≠ none → Follows engine hop hop' status fields) := by
  unfold Hop.headers at h
  by_cases hstage : hop.stage = .waiting
  · have hr : hop.stage ≠ .receiving := by simp [hstage]
    have he : hop.stage ≠ .ended := by simp [hstage]
    have hnot := not_passed hr he
    obtain ⟨shared₁, job', reply, hcall, hcache, hsame, hvalid, hreply⟩ :=
      onJobHeaders_cases engine shared hop.job status fields now
        (Bool.eq_false_iff.mpr fun h => hnot (hmarked h))
    rw [if_pos hstage, hcall] at h
    cases h
    refine ⟨⟨extends_saying hsame (List.prefix_refl _) (fun h => absurd h he),
      fun hp => absurd hp hnot, fun _ log hs => ?_, fun _ h => ⟨h, Or.inl rfl⟩, fun hf => ?_, hvalid,
      fun h => ?_, voiced_saying _ _ _ _ _⟩, hcache, fun hf => ?_⟩
    · obtain ⟨rfl, hsaid, -, hreceived⟩ := hs.unanswered hidle hr he
      rcases hreply with ⟨dec, url, cookie, -, -, hfollowed, rfl⟩ |
        ⟨hnot, ⟨rfl, hnone⟩ | ⟨rfl, hw⟩ | ⟨e, rfl⟩⟩
      · exact .followed ⟨hfollowed, Or.inl rfl⟩
      · exact .exposed [] (by simp [Hop.saying, hsaid]) hnot rfl hnone rfl hreceived
      · exact .silent (by simp [Hop.saying, hsaid]) hnot rfl (fun _ => hw) (fun h => absurd rfl h)
          (fun h => by cases h)
      · exact speaking_of_first (.error e) (by simp [Hop.saying, hsaid]) rfl rfl
          (Or.inr ⟨e, rfl⟩)
    · rcases hreply with ⟨dec, url, cookie, -, -, hfollowed, rfl⟩ | ⟨-, ⟨rfl, -⟩ | ⟨rfl, -⟩ | ⟨e, rfl⟩⟩
      · exact hfollowed
      all_goals exact absurd rfl hf
    · rcases hreply with ⟨dec, url, cookie, -, -, -, rfl⟩ | ⟨hnot, -⟩
      · exact Or.inr (by simp [Hop.saying])
      · have hmark : job'.redirected = true := h
        rw [hnot] at hmark
        cases hmark
    · rcases hreply with ⟨dec, url, cookie, htarget, hjar, -, rfl⟩ | ⟨-, ⟨rfl, -⟩ | ⟨rfl, -⟩ | ⟨e, rfl⟩⟩
      · exact ⟨dec, url, cookie, htarget, hjar, rfl⟩
      all_goals exact absurd rfl hf
  · rw [if_neg hstage] at h
    cases h

theorem SameHop.withheld {job job' : Job} (h : job.SameHop job') : job'.withheld = job.withheld := by
  rw [Job.withheld, Job.withheld, h.cacheValidation, h.response]

theorem Moves.chunk {chunk : Chunk} (hidle : hop.idle = true)
    (h : hop.chunk chunk = some hop') : Moves true hop hop' ∧ hop'.following = none := by
  unfold Hop.chunk at h
  by_cases hstage : hop.stage = .receiving
  · obtain ⟨job', reply, hcall, hsame, hreply⟩ := onJobBody_cases hop.job chunk
    rw [if_pos hstage, hcall] at h
    cases h
    have hnone : (hop.saying job' reply).following = none := by
      rcases hreply with ⟨-, rfl⟩ | ⟨-, rfl⟩ <;> rfl
    have hpassed (hr : hop.job.redirected = true) : job'.redirected = true := by
      rw [hsame.redirected, hr]
    refine ⟨⟨extends_saying hsame.toSameRequest (List.prefix_append _ _)
        (fun h => by rw [hstage] at h; cases h),
      fun hp => ⟨⟨hpassed hp.redirected, hp.stage⟩, hnone, fun h => by cases h⟩,
      fun hguard log hs => ?_, fun _ h => ⟨h, Or.inl hstage⟩, fun hf => absurd hnone hf,
      fun hv => by rwa [← hsame.cacheValidation], fun h => Or.inl (hsame.redirected.symm.trans h),
      voiced_saying _ _ _ _ _⟩, hnone⟩
    have hredirected := hsame.redirected.trans (hguard rfl)
    cases hs with
    | silent said redirected _ withheld _ _ =>
      rcases hreply with ⟨hw, rfl⟩ | ⟨hw, -⟩
      · exact .silent (by simp [Hop.saying, said]) hredirected rfl
          (fun _ => (SameHop.withheld hsame).trans hw) (fun h => absurd hstage h)
          (by simp [Hop.saying, hstage])
      · rw [withheld hstage] at hw
        cases hw
    | followed passed =>
      have := passed.redirected
      rw [hguard rfl] at this
      cases this
    | @exposed status headers chunks said redirected _ validation _ received =>
      rcases hreply with ⟨hw, -⟩ | ⟨-, rfl⟩
      · simp [Job.withheld, validation] at hw
      · have hs : Speaking { hop.saying job' (some (.chunk chunk)) with
              received := hop.received ++ chunk.data }
            (.headers status headers :: (chunks ++ [chunk]).map .body) :=
          .exposed (chunks ++ [chunk]) (by simp [Hop.saying, said]) hredirected rfl
            (hsame.cacheValidation.trans validation) hstage (by simp [received, bytesOf])
        simpa [Hop.saying, Reply.events] using hs
    | closing _ _ terminal =>
      obtain ⟨before, last, hp, -⟩ := terminal
      rw [(idle_iff.mp hidle).1] at hp
      simp at hp
  · rw [if_neg hstage] at h
    cases h

theorem Moves.finish {now : ClockReading} (hidle : hop.idle = true)
    (hcache : hop.job.cacheValidation.isSome = true → shared.cache.isSome = true)
    (h : Hop.finish engine hop shared now = some (shared', hop')) :
    Moves false hop hop' ∧ shared'.cache.isSome = shared.cache.isSome ∧ hop'.following = none := by
  unfold Hop.finish at h
  by_cases hstage : hop.stage = .receiving
  · obtain ⟨shared₁, job', reply, hcall, hsame, hkept, hreply⟩ :=
      onJobComplete_cases engine shared hop.job now hcache
    rw [if_pos hstage, hcall] at h
    cases h
    have hnone : (hop.saying job' reply).following = none := by
      rcases hreply with ⟨-, rfl⟩ | ⟨-, -, ⟨r, rfl⟩ | ⟨e, rfl⟩⟩ | ⟨-, -, rfl | ⟨e, rfl⟩⟩ <;> rfl
    refine ⟨⟨extends_saying hsame.toSameRequest (List.prefix_refl _)
        (fun h => by rw [hstage] at h; cases h),
      fun hp => ⟨⟨hsame.redirected.trans hp.redirected, Or.inr rfl⟩, hnone, fun _ => ?_⟩,
      fun _ log hs => ?_, fun _ h => ⟨h, Or.inr rfl⟩, fun hf => absurd hnone hf,
      fun hv => by rwa [← hsame.cacheValidation], fun h => Or.inl (hsame.redirected.symm.trans h),
      voiced_saying _ _ _ _ _⟩, hkept, hnone⟩
    · rcases hreply with ⟨-, rfl⟩ | ⟨hr, -⟩ | ⟨hr, -⟩
      · rfl
      all_goals
        rw [hp.redirected] at hr
        cases hr
    · cases hs with
      | silent said redirected _ withheld _ _ =>
        rcases hreply with ⟨hr, -⟩ | ⟨-, -, hreply⟩ | ⟨-, hw, -⟩
        · rw [redirected] at hr
          cases hr
        · rcases hreply with ⟨r, rfl⟩ | ⟨e, rfl⟩
          · exact speaking_of_first (.stored r) (by simp [Hop.saying, said]) rfl rfl
              (Or.inl ⟨r, rfl⟩)
          · exact speaking_of_first (.error e) (by simp [Hop.saying, said]) rfl rfl
              (Or.inr ⟨e, rfl⟩)
        · rw [withheld hstage] at hw
          cases hw
      | followed passed =>
        rcases hreply with ⟨-, rfl⟩ | ⟨hr, -⟩ | ⟨hr, -⟩
        · exact .followed ⟨hsame.redirected.trans passed.redirected, Or.inr rfl⟩
        all_goals
          rw [passed.redirected] at hr
          cases hr
      | exposed chunks said redirected _ validation _ received =>
        rcases hreply with ⟨hr, -⟩ | ⟨-, hw, -⟩ | ⟨-, -, hreply⟩
        · rw [redirected] at hr
          cases hr
        · simp [Job.withheld, validation] at hw
        · rcases hreply with rfl | ⟨e, rfl⟩
          · exact speaking_of_last .complete (by simp [Hop.saying, said]) received rfl rfl
              (Or.inl ⟨rfl, rfl⟩)
          · exact speaking_of_last (.error e) (by simp [Hop.saying, said]) received rfl rfl
              (Or.inr ⟨e, rfl⟩)
      | closing _ _ terminal =>
        obtain ⟨before, last, hp, -⟩ := terminal
        rw [(idle_iff.mp hidle).1] at hp
        simp at hp
  · rw [if_neg hstage] at h
    cases h

theorem Moves.fail {code : ErrorCode} {now : ClockReading} (hidle : hop.idle = true)
    (h : hop.fail shared code now = some hop') : Moves false hop hop' ∧ hop'.following = none := by
  unfold Hop.fail at h
  by_cases hstage : hop.stage = .routing
  · rw [if_pos hstage] at h
    cases h
  · obtain ⟨job', reply, hcall, hsame, hreply⟩ := onJobError_cases shared.cache hop.job code now
    rw [if_neg hstage, hcall] at h
    cases h
    have hnone : (hop.saying job' reply).following = none := by
      rcases hreply with ⟨-, rfl⟩ | ⟨-, ⟨r, rfl⟩, -⟩ | ⟨-, e, rfl⟩ <;> rfl
    refine ⟨⟨extends_saying hsame.toSameRequest (List.prefix_refl _) (fun h => ⟨h, rfl⟩),
      fun hp => ⟨⟨hsame.redirected.trans hp.redirected, hp.stage⟩, hnone, fun _ => ?_⟩,
      fun _ log hs => ?_, fun hm h => ⟨h, (hm (hsame.redirected.symm.trans h)).stage⟩,
      fun hf => absurd hnone hf, fun hv => by rwa [← hsame.cacheValidation],
      fun h => Or.inl (hsame.redirected.symm.trans h), voiced_saying _ _ _ _ _⟩, hnone⟩
    · rcases hreply with ⟨-, rfl⟩ | ⟨hr, -⟩ | ⟨hr, -⟩
      · rfl
      all_goals
        rw [hp.redirected] at hr
        cases hr
    · cases hs with
      | silent said redirected _ withheld _ _ =>
        rcases hreply with ⟨hr, -⟩ | ⟨-, ⟨r, rfl⟩, -⟩ | ⟨-, e, rfl⟩
        · rw [redirected] at hr
          cases hr
        · exact speaking_of_first (.stored r) (by simp [Hop.saying, said]) rfl rfl
            (Or.inl ⟨r, rfl⟩)
        · exact speaking_of_first (.error e) (by simp [Hop.saying, said]) rfl rfl
            (Or.inr ⟨e, rfl⟩)
      | followed passed =>
        rcases hreply with ⟨-, rfl⟩ | ⟨hr, -⟩ | ⟨hr, -⟩
        · exact .followed ⟨hsame.redirected.trans passed.redirected, passed.stage⟩
        all_goals
          rw [passed.redirected] at hr
          cases hr
      | exposed chunks said redirected _ validation _ received =>
        rcases hreply with ⟨hr, -⟩ | ⟨-, -, -, hv⟩ | ⟨-, e, rfl⟩
        · rw [redirected] at hr
          cases hr
        · rw [validation] at hv
          cases hv
        · exact speaking_of_last (.error e) (by simp [Hop.saying, said]) received rfl rfl
            (Or.inr ⟨e, rfl⟩)
      | closing _ _ terminal =>
        obtain ⟨before, last, hp, -⟩ := terminal
        rw [(idle_iff.mp hidle).1] at hp
        simp at hp

/-- A delivered event leaves the hop as it is but for the events still to come. -/
theorem extends_pending (rest : List AppEvent) : hop.Extends { hop with pending := rest } :=
  ⟨.refl _, rfl, List.prefix_refl _, List.prefix_refl _, fun h => ⟨h, rfl⟩⟩

theorem Speaking.deliver {log rest : List AppEvent} {event : AppEvent}
    (h : hop.Speaking (log ++ hop.pending)) (hpending : hop.pending = event :: rest)
    (hopen : event.isTerminal = false) :
    Speaking { hop with pending := rest } ((log ++ [event]) ++ rest) := by
  have hevents : (log ++ [event]) ++ rest = log ++ hop.pending := by simp [hpending]
  rw [hevents]
  generalize hall : log ++ hop.pending = events at h
  cases h with
  | silent => simp [hpending] at hall
  | followed => simp [hpending] at hall
  | exposed chunks said redirected following validation stage received =>
    exact .exposed chunks said redirected following validation stage received
  | closing told following terminal =>
    obtain ⟨before, last, hbefore, hlast⟩ := terminal
    rw [hpending] at hbefore
    cases before with
    | nil =>
      obtain ⟨rfl, -⟩ := List.cons.inj hbefore
      rw [hopen] at hlast
      cases hlast
    | cons e before =>
      exact .closing (told.extends (extends_pending rest)) following
        ⟨before, last, (List.cons.inj hbefore).2, hlast⟩

/-- A response without an ending can be broken off by an error. -/
theorem Told.abort {log : List AppEvent} (h : hop.Told log)
    (hopen : ∀ event ∈ log, event.isTerminal = false) (code : ErrorCode) :
    hop.Told (log ++ [.error code]) := by
  cases h with
  | silent => exact .failed code
  | failed code =>
    have := hopen (.error code) (by simp)
    cases this
  | @answered status headers body chunks ending answer body_eq ending_eq =>
    rcases ending_eq with rfl | ⟨rfl, -⟩ | ⟨e, rfl⟩
    · rw [List.append_nil]
      exact .answered chunks answer body_eq (Or.inr (Or.inr ⟨code, rfl⟩))
    · have := hopen .complete (by simp)
      cases this
    · have := hopen (.error e) (by simp)
      cases this

end Hop

end KatHttp3
