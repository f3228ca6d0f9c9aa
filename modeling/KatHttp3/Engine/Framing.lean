import KatHttp3.Engine.Capture
import KatHttp3.Engine.StoredReplies

/-!
# The length of a response

A hop that hands a response on counts its bytes from the headers to the end of
the stream, and says that it is complete only if they are as many as its
Content-Length fields said. What the application has been told is a prefix of
what one hop has said, so the same is true of a response that it saw end.
-/

namespace KatHttp3

/-! ### The chunks among the replies -/

def lengthOf (chunks : List Chunk) : ℕ := (chunks.map Chunk.len).sum

namespace Reply

def chunk? : Reply → Option Chunk
  | .chunk data => some data
  | _ => none

/-- The chunks that are among some replies. -/
def chunksOf (said : List Reply) : List Chunk := said.filterMap chunk?

@[simp] theorem chunksOf_nil : chunksOf [] = [] := rfl

@[simp] theorem chunksOf_append (said more : List Reply) :
    chunksOf (said ++ more) = chunksOf said ++ chunksOf more :=
  List.filterMap_append

@[simp] theorem chunksOf_chunk (data : Chunk) (said : List Reply) :
    chunksOf (.chunk data :: said) = data :: chunksOf said := rfl

theorem chunksOf_concat_of_not_chunk {said : List Reply} {reply : Reply} (h : reply.chunk? = none) :
    chunksOf (said ++ [reply]) = chunksOf said := by
  simp [chunksOf, h]

end Reply

open Reply

@[simp] theorem lengthOf_nil : lengthOf [] = 0 := rfl

@[simp] theorem lengthOf_append (chunks more : List Chunk) :
    lengthOf (chunks ++ more) = lengthOf chunks + lengthOf more := by
  simp [lengthOf]

@[simp] theorem lengthOf_singleton (chunk : Chunk) : lengthOf [chunk] = chunk.len := by
  simp [lengthOf]

/-- What stands before a reply in a list that has grown at its end. -/
theorem append_singleton_cases {α : Type*} {said before after : List α} {last x : α}
    (h : said ++ [last] = before ++ x :: after) :
    (after = [] ∧ last = x ∧ said = before) ∨ ∃ rest, said = before ++ x :: rest := by
  rcases List.eq_nil_or_concat after with rfl | ⟨rest, last', rfl⟩
  · obtain ⟨rfl, hlast⟩ := List.append_inj' h rfl
    exact Or.inl ⟨rfl, List.singleton_inj.mp hlast, rfl⟩
  · rw [List.concat_eq_append, ← List.cons_append, ← List.append_assoc] at h
    exact Or.inr ⟨rest, (List.append_inj' h rfl).1⟩

/-! ### What a callback says of a length -/

/-- Responses whose Content-Length need not be the length of their body. -/
def bodiless (method : Str) (status : ℕ) : Bool :=
  method == "HEAD".toList || status == 204 || status == 304 || status / 100 == 1

/-- The fields give at most one length, which is that of the chunks. -/
def LengthAgrees (method : Str) (status : ℕ) (headers : HeaderList) (chunks : List Chunk) : Prop :=
  ∃ length, contentLength headers = some length ∧
    (bodiless method status = true ∨ ∀ n ∈ length, lengthOf chunks % 2 ^ 64 = n)

theorem lengthMismatch_eq_false {job : Job} (h : lengthMismatch job = false) {length : Option ℕ}
    (hdeclared : job.declaredContentLength = (length.map fun n => (n : ℤ)).getD (-1)) :
    bodiless job.request.method job.response.statusCode = true ∨
      ∀ n ∈ length, job.receivedBodyBytes = n := by
  rw [or_iff_not_imp_left]
  rintro hbody n hn
  obtain rfl : length = some n := hn
  rw [Bool.not_eq_true] at hbody
  simp only [lengthMismatch, hdeclared] at h
  rw [show (job.request.method == "HEAD".toList || job.response.statusCode == 204 ||
    job.response.statusCode == 304 || job.response.statusCode / 100 == 1) = false from hbody] at h
  simpa using h

variable {J : Type} {engine : EngineConfig J} {shared shared' : Shared J} {job job' : Job}

/-- What is known of a job whose response is handed on. -/
structure Job.Exposed (job : Job) (status : ℕ) (headers : HeaderList) (count : ℕ) : Prop where
  validation : job.cacheValidation = none
  status : job.response.statusCode = status
  count : job.receivedBodyBytes = count
  length : ∃ length, contentLength headers = some length ∧
    job.declaredContentLength = (length.map fun n => (n : ℤ)).getD (-1)

theorem onJobError_ne_expose {cached : Option ResponseCache} {code : ErrorCode} {now : ClockReading}
    {reply : Reply} (h : onJobError cached job code now = (job', some reply)) :
    (∃ response, reply = .stored response) ∨ ∃ e, reply = .error e := by
  obtain ⟨job₁, reply₁, hcall, -, hreply⟩ := onJobError_cases cached job code now
  rw [hcall] at h
  cases h
  rcases hreply with ⟨-, hnone⟩ | ⟨-, ⟨response, hstored⟩, -⟩ | ⟨-, e, herror⟩
  · cases hnone
  · exact Or.inl ⟨response, Option.some.inj hstored⟩
  · exact Or.inr ⟨e, Option.some.inj herror⟩

/-- An error callback leaves alone what the length of the response is counted with. -/
theorem onJobError_exposed {cached : Option ResponseCache} {code : ErrorCode} {now : ClockReading}
    {reply : Option Reply} {status count : ℕ} {headers : HeaderList}
    (h : onJobError cached job code now = (job', reply)) (he : job.Exposed status headers count) :
    job'.Exposed status headers count := by
  rcases onJobError_capture h with ⟨rfl, -⟩ | rfl
  · exact he
  · exact ⟨he.validation, he.status, he.count, he.length⟩

/-- A response that is handed on starts with a count of zero. -/
theorem onResponseHeaders_exposed {status st : ℕ} {headers hs : HeaderList} {now : ClockReading}
    (h : engine.onResponseHeaders shared job status headers now =
      (shared', job', some (.expose st hs)))
    (hresponse : job.response.statusCode = status) (hnew : job.Unanswered) :
    st = status ∧ hs = headers ∧ job'.Exposed status headers 0 := by
  unfold EngineConfig.onResponseHeaders at h
  split at h
  · rcases herror : onJobError shared.cache job .body now with ⟨job₁, reply₁⟩
    rw [herror] at h
    cases h
    rcases onJobError_ne_expose herror with ⟨_, hreply⟩ | ⟨_, hreply⟩
    · cases hreply
    · cases hreply
  · rename_i length hlength
    have hexpose {shared₁ : Shared J} {job₁ : Job}
        (h : EngineConfig.onResponseHeaders.expose engine status headers shared₁ job₁ =
          (shared', job', some (.expose st hs)))
        (hresponse₁ : job₁.response.statusCode = status) (hcount₁ : job₁.receivedBodyBytes = 0)
        (hlength₁ : job₁.declaredContentLength = (length.map fun n => (n : ℤ)).getD (-1)) :
        st = status ∧ hs = headers ∧ job'.Exposed status headers 0 := by
      unfold EngineConfig.onResponseHeaders.expose at h
      cases h
      exact ⟨rfl, rfl, rfl, hresponse₁, hcount₁, length, hlength, hlength₁⟩
    dsimp only at h
    rw [hnew.length] at h
    split at h
    · split_ifs at h
      · cases h
      · cases h
      · exact hexpose h hresponse hnew.count rfl
    · exact hexpose h hresponse hnew.count rfl

theorem onJobHeaders_exposed {status st : ℕ} {headers hs : HeaderList} {now : ClockReading}
    (h : engine.onJobHeaders shared job status headers now =
      (shared', job', some (.expose st hs))) (hnew : job.Unanswered) :
    st = status ∧ hs = headers ∧ job'.Exposed status headers 0 := by
  obtain ⟨shared₁, validation, hdrop, -⟩ := dropValidation_cases shared
    { job with response := { statusCode := status, headers := headers } } status
  unfold EngineConfig.onJobHeaders at h
  dsimp only at h
  rw [hdrop] at h
  dsimp only at h
  split at h
  · cases h
  · exact onResponseHeaders_exposed h rfl ⟨hnew.capture, hnew.length, hnew.count⟩

/-- A chunk of a response that is handed on is counted and handed on. -/
theorem onJobBody_exposed {chunk : Chunk} {reply : Option Reply} {status count : ℕ}
    {headers : HeaderList} (h : onJobBody job chunk = (job', reply))
    (he : job.Exposed status headers count) :
    reply = some (.chunk chunk) ∧ job'.Exposed status headers ((count + chunk.len) % 2 ^ 64) := by
  unfold onJobBody at h
  dsimp only at h
  rw [if_neg (by simp [he.validation])] at h
  cases h
  exact ⟨rfl, he.validation, he.status, by rw [← he.count], he.length⟩

theorem onJobComplete_complete {now : ClockReading}
    (h : engine.onJobComplete shared job now = (shared', job', some .complete)) :
    lengthMismatch job = false := by
  unfold EngineConfig.onJobComplete at h
  split at h
  · cases h
  split at h
  · cases h
  split at h
  · cases h
  · rename_i hmismatch
    exact Bool.eq_false_of_not_eq_true hmismatch

/-! ### What a hop has said of a length -/

namespace Hop

structure Framed (hop : Hop) : Prop where
  unstarted : hop.stage ≠ .receiving → hop.stage ≠ .ended →
    hop.job.Unanswered ∧ chunksOf hop.said = [] ∧ .complete ∉ hop.said ∧
      ∀ st hs, .expose st hs ∉ hop.said
  counted : hop.stage = .receiving → ∀ st hs, .expose st hs ∈ hop.said →
    hop.job.Exposed st hs (lengthOf (chunksOf hop.said) % 2 ^ 64)
  finished : ∀ before after, hop.said = before ++ .complete :: after → ∀ st hs,
    .expose st hs ∈ before → LengthAgrees hop.job.request.method st hs (chunksOf before)

variable {hop hop' : Hop}

/-- Only a new end of the replies has to be looked at. -/
theorem Framed.finished_append (h : hop.Framed) (reply : Option Reply) {method : Str}
    (hmethod : method = hop.job.request.method)
    (hlast : reply = some .complete → ∀ st hs, .expose st hs ∈ hop.said →
      LengthAgrees method st hs (chunksOf hop.said)) :
    ∀ before after, hop.said ++ reply.toList = before ++ .complete :: after → ∀ st hs,
      .expose st hs ∈ before → LengthAgrees method st hs (chunksOf before) := by
  intro before after heq st hs hexpose
  cases reply with
  | none =>
    rw [Option.toList_none, List.append_nil] at heq
    rw [hmethod]
    exact h.finished before after heq st hs hexpose
  | some reply =>
    rcases append_singleton_cases heq with ⟨-, rfl, hsaid⟩ | ⟨rest, hsaid⟩
    · rw [← hsaid] at hexpose ⊢
      exact hlast rfl st hs hexpose
    · rw [hmethod]
      exact h.finished before rest hsaid st hs hexpose

theorem framed_new {job : Job} (h : job.Unanswered) (application : HeaderList) :
    Hop.Framed { job := job, application := application } where
  unstarted _ _ := ⟨h, rfl, by simp, by simp⟩
  counted hreceiving := by cases hreceiving
  finished before after heq := by simp at heq

theorem Framed.route (h : hop.Framed) {admitted : Bool} (hroute : hop.route admitted = some hop') :
    hop'.Framed := by
  unfold Hop.route at hroute
  split_ifs at hroute with hstage hadmitted
  · have hnew := h.unstarted (by simp [not_not.mp hstage]) (by simp [not_not.mp hstage])
    cases hroute
    refine ⟨fun _ _ => hnew, fun hreceiving => ?_, h.finished⟩
    unfold Hop.routed at hreceiving
    split_ifs at hreceiving
  · cases hroute
    exact ⟨fun _ hended => absurd rfl hended, (fun hreceiving => by cases hreceiving),
      h.finished_append (some _) rfl (by simp)⟩

theorem Framed.dispatch (h : hop.Framed) {now : ClockReading}
    (hdispatch : hop.dispatch shared now = some hop') : hop'.Framed := by
  unfold Hop.dispatch at hdispatch
  split at hdispatch
  · cases hdispatch
    exact ⟨fun _ hended => absurd rfl hended, (fun hreceiving => by cases hreceiving),
      h.finished_append (some _) rfl (by simp [deliverCached])⟩
  · cases hdispatch

theorem Framed.headers (h : hop.Framed) (hredirected : hop.job.redirected = false) {status : ℕ}
    {headers : HeaderList} {now : ClockReading}
    (hheaders : Hop.headers engine hop shared status headers now = some (shared', hop')) :
    hop'.Framed := by
  unfold Hop.headers at hheaders
  split_ifs at hheaders with hstage
  obtain ⟨hnew, hchunks, hcomplete, hexpose⟩ := h.unstarted (by simp [hstage]) (by simp [hstage])
  obtain ⟨shared₁, job, reply, hcall, -, hsame, -, hreplies⟩ :=
    onJobHeaders_cases engine shared hop.job status headers now hredirected
  rw [hcall] at hheaders
  cases hheaders
  constructor
  case unstarted => exact fun hreceiving => absurd rfl hreceiving
  case counted =>
    intro _ st hs hmem
    rcases List.mem_append.mp hmem with hmem | hmem
    · exact absurd hmem (hexpose st hs)
    · obtain rfl : reply = some (.expose st hs) := Option.mem_toList.mp hmem
      obtain ⟨rfl, rfl, hexposed⟩ := onJobHeaders_exposed hcall hnew
      change job.Exposed st hs (lengthOf (chunksOf (hop.said ++ [.expose st hs])) % 2 ^ 64)
      rw [chunksOf_concat_of_not_chunk rfl, hchunks]
      exact hexposed
  case finished =>
    refine h.finished_append reply (congrArg Request.method hsame.request) ?_
    rintro rfl
    rcases hreplies with ⟨_, _, _, _, _, _, hreply⟩ | ⟨-, ⟨hreply, -⟩ | ⟨hreply, -⟩ | ⟨_, hreply⟩⟩ <;>
      cases hreply

theorem Framed.chunk (h : hop.Framed) {chunk : Chunk} (hchunk : hop.chunk chunk = some hop') :
    hop'.Framed := by
  unfold Hop.chunk at hchunk
  split_ifs at hchunk with hstage
  obtain ⟨job, reply, hcall, hsame, hreplies⟩ := onJobBody_cases hop.job chunk
  rw [hcall] at hchunk
  cases hchunk
  constructor
  case unstarted => exact fun hreceiving => absurd hstage hreceiving
  case counted =>
    intro _ st hs hmem
    have hsaid : .expose st hs ∈ hop.said := by
      rcases List.mem_append.mp hmem with hmem | hmem
      · exact hmem
      · have hreply : reply = some (.expose st hs) := Option.mem_toList.mp hmem
        rcases hreplies with ⟨-, rfl⟩ | ⟨-, rfl⟩ <;> cases hreply
    obtain ⟨rfl, hexposed⟩ := onJobBody_exposed hcall (h.counted hstage st hs hsaid)
    change job.Exposed st hs (lengthOf (chunksOf (hop.said ++ [.chunk chunk])) % 2 ^ 64)
    rwa [chunksOf_append, lengthOf_append, chunksOf_chunk, chunksOf_nil, lengthOf_singleton,
      ← Nat.mod_add_mod]
  case finished =>
    refine h.finished_append reply (congrArg Request.method hsame.request) ?_
    rintro rfl
    rcases hreplies with ⟨-, hreply⟩ | ⟨-, hreply⟩ <;> cases hreply

theorem Framed.finish (h : hop.Framed) {now : ClockReading}
    (hvalid : hop.job.cacheValidation.isSome = true → shared.cache.isSome = true)
    (hfinish : Hop.finish engine hop shared now = some (shared', hop')) : hop'.Framed := by
  unfold Hop.finish at hfinish
  split_ifs at hfinish with hstage
  obtain ⟨shared₁, job, reply, hcall, hsame, -⟩ :=
    onJobComplete_cases engine shared hop.job now hvalid
  rw [hcall] at hfinish
  cases hfinish
  refine ⟨fun _ hended => absurd rfl hended, (fun hreceiving => by cases hreceiving),
    h.finished_append reply (congrArg Request.method hsame.request) ?_⟩
  rintro rfl st hs hmem
  have hexposed := h.counted hstage st hs hmem
  obtain ⟨length, hlength, hdeclared⟩ := hexposed.length
  refine ⟨length, hlength, ?_⟩
  have hagree := lengthMismatch_eq_false (onJobComplete_complete hcall) hdeclared
  rwa [hexposed.status, hexposed.count, ← hsame.request] at hagree

theorem Framed.fail (h : hop.Framed) {code : ErrorCode} {now : ClockReading}
    (hfail : hop.fail shared code now = some hop') : hop'.Framed := by
  unfold Hop.fail at hfail
  split_ifs at hfail
  obtain ⟨job, reply, hcall, hsame, -⟩ := onJobError_cases shared.cache hop.job code now
  rw [hcall] at hfail
  cases hfail
  -- what an error callback says is neither headers nor a chunk nor the end
  have hreply (r : Reply) (hr : reply = some r) :
      r.chunk? = none ∧ r ≠ .complete ∧ ∀ st hs, r ≠ .expose st hs := by
    subst hr
    rcases onJobError_ne_expose hcall with ⟨_, rfl⟩ | ⟨_, rfl⟩ <;> simp [chunk?]
  have hchunks : chunksOf (hop.said ++ reply.toList) = chunksOf hop.said := by
    cases reply with
    | none => simp
    | some r => exact chunksOf_concat_of_not_chunk (hreply r rfl).1
  have hexpose (st : ℕ) (hs : HeaderList) (hmem : .expose st hs ∈ hop.said ++ reply.toList) :
      .expose st hs ∈ hop.said := by
    rcases List.mem_append.mp hmem with hmem | hmem
    · exact hmem
    · exact absurd rfl ((hreply _ (Option.mem_toList.mp hmem)).2.2 st hs)
  constructor
  case unstarted =>
    intro hreceiving hended
    obtain ⟨hnew, hnone, hcomplete, hnever⟩ := h.unstarted hreceiving hended
    refine ⟨?_, hchunks.trans hnone, fun hmem => ?_, fun st hs hmem => hnever st hs (hexpose st hs hmem)⟩
    · rcases onJobError_capture hcall with ⟨rfl, -⟩ | rfl
      · exact hnew
      · exact ⟨disableCapture_eq_none hnew.capture, hnew.length, hnew.count⟩
    · rcases List.mem_append.mp hmem with hmem | hmem
      · exact hcomplete hmem
      · exact (hreply _ (Option.mem_toList.mp hmem)).2.1 rfl
  case counted =>
    intro hstage st hs hmem
    change job.Exposed st hs (lengthOf (chunksOf (hop.said ++ reply.toList)) % 2 ^ 64)
    rw [hchunks]
    exact onJobError_exposed hcall (h.counted hstage st hs (hexpose st hs hmem))
  case finished =>
    refine h.finished_append reply (congrArg Request.method hsame.request) ?_
    rintro rfl
    exact absurd rfl (hreply _ rfl).2.1

theorem Framed.between (h : hop.Framed) (pending : List AppEvent)
    (following : Option (RedirectDecision × Request × Url)) :
    Hop.Framed { hop with pending := pending, following := following } :=
  ⟨h.unstarted, h.counted, h.finished⟩

end Hop

/-! ### What was told is what was said -/

/-- The events of a body that is complete are those of chunks and an end. -/
theorem body_prefix_cases {chunks : List Chunk} {said : List Reply}
    (h : chunks.map AppEvent.body ++ [AppEvent.complete] <+: said.flatMap Reply.events) :
    ∃ before after, said = before ++ .complete :: after ∧ chunksOf before = chunks := by
  induction said generalizing chunks with
  | nil => simp at h
  | cons reply said ih =>
    rw [List.flatMap_cons] at h
    have hskip (hnone : reply.events = []) (hchunk : reply.chunk? = none) :
        ∃ before after, reply :: said = before ++ .complete :: after ∧ chunksOf before = chunks := by
      rw [hnone, List.nil_append] at h
      obtain ⟨before, after, rfl, hchunks⟩ := ih h
      refine ⟨reply :: before, after, rfl, ?_⟩
      rw [← hchunks]
      simp [chunksOf, hchunk]
    cases reply with
    | expose status headers => cases chunks <;> simp [Reply.events] at h
    | stored response => cases chunks <;> simp [Reply.events] at h
    | error code => cases chunks <;> simp [Reply.events] at h
    | follow dec request url => exact hskip rfl rfl
    | complete =>
      cases chunks with
      | nil => exact ⟨[], said, rfl, rfl⟩
      | cons chunk chunks => simp [Reply.events] at h
    | chunk data =>
      cases chunks with
      | nil => simp [Reply.events] at h
      | cons chunk chunks =>
        simp only [Reply.events, List.map_cons, List.cons_append, List.nil_append,
          List.cons_prefix_cons, AppEvent.body.injEq] at h
        obtain ⟨rfl, h⟩ := h
        obtain ⟨before, after, rfl, rfl⟩ := ih h
        exact ⟨.chunk chunk :: before, after, rfl, rfl⟩

/-- A whole response among the events of a hop is a stored one or the hop's own. -/
theorem response_prefix_cases {status : ℕ} {headers : HeaderList} {chunks : List Chunk}
    {said : List Reply}
    (h : AppEvent.headers status headers :: (chunks.map AppEvent.body ++ [AppEvent.complete]) <+:
      said.flatMap Reply.events) :
    (∃ response, .stored response ∈ said ∧
        AppEvent.headers status headers :: (chunks.map AppEvent.body ++ [AppEvent.complete]) =
          (Reply.stored response).events) ∨
      ∃ before after, said = before ++ .complete :: after ∧ .expose status headers ∈ before ∧
        chunksOf before = chunks := by
  induction said with
  | nil => simp at h
  | cons reply said ih =>
    rw [List.flatMap_cons] at h
    cases reply with
    | chunk data => simp [Reply.events] at h
    | complete => simp [Reply.events] at h
    | error code => simp [Reply.events] at h
    | follow dec request url =>
      rcases ih h with ⟨response, hmem, heq⟩ | ⟨before, after, rfl, hexpose, hchunks⟩
      · exact Or.inl ⟨response, List.mem_cons_of_mem _ hmem, heq⟩
      · exact Or.inr ⟨.follow dec request url :: before, after, rfl,
          List.mem_cons_of_mem _ hexpose, hchunks⟩
    | expose st hs =>
      simp only [Reply.events, List.cons_append, List.nil_append, List.cons_prefix_cons,
        AppEvent.headers.injEq] at h
      obtain ⟨⟨rfl, rfl⟩, h⟩ := h
      obtain ⟨before, after, rfl, rfl⟩ := body_prefix_cases h
      exact Or.inr ⟨.expose status headers :: before, after, rfl, List.mem_cons_self, rfl⟩
    | stored response =>
      refine Or.inl ⟨response, List.mem_cons_self, ?_⟩
      simp only [Reply.events, List.cons_append, List.cons_prefix_cons, List.append_assoc,
        List.nil_append] at h ⊢
      obtain ⟨hheaders, h⟩ := h
      rw [hheaders]
      congr 1
      by_cases hbody : response.body = []
      · rw [if_pos hbody] at h ⊢
        cases chunks with
        | nil => rfl
        | cons chunk chunks => simp at h
      · rw [if_neg hbody] at h ⊢
        cases chunks with
        | nil => simp at h
        | cons single more =>
          cases more with
          | nil =>
            simp only [List.map_cons, List.map_nil, List.cons_append, List.nil_append,
              List.cons_prefix_cons] at h ⊢
            rw [h.1]
          | cons second more => simp at h

namespace Hop

/-- What a callback has to dispatch is what it has said. -/
def Says (hop hop' : Hop) : Prop :=
  ∃ reply : Option Reply, hop'.said = hop.said ++ reply.toList ∧
    hop'.pending = (reply.map Reply.events).getD []

variable {hop hop' : Hop}

theorem says_saying (job : Job) (reply : Option Reply) (stage : Stage) (received : Str) :
    hop.Says { hop.saying job reply with stage := stage, received := received } :=
  ⟨reply, rfl, rfl⟩

theorem Says.route (hidle : hop.idle = true) {admitted : Bool}
    (h : hop.route admitted = some hop') : hop.Says hop' := by
  unfold Hop.route at h
  split_ifs at h
  · cases h
    exact ⟨none, by simp, (idle_iff.mp hidle).1⟩
  · cases h
    exact says_saying hop.job _ .ended hop.received

theorem Says.dispatch {now : ClockReading} (h : hop.dispatch shared now = some hop') :
    hop.Says hop' := by
  unfold Hop.dispatch at h
  split at h
  · cases h
    exact says_saying hop.job _ .ended hop.received
  · cases h

theorem Says.flatMap (h : hop.Says hop') {log : List AppEvent}
    (hlog : log = hop.said.flatMap Reply.events) :
    log ++ hop'.pending = hop'.said.flatMap Reply.events := by
  obtain ⟨reply, hsaid, hpending⟩ := h
  rw [hsaid, hpending, List.flatMap_append, hlog]
  cases reply <;> simp

end Hop

namespace Call

variable {c c' : Call J}

def AllFramed (c : Call J) : Prop := ∀ hop ∈ c.hops, hop.Framed

theorem AllFramed.set (h : c.AllFramed) {k : ℕ} {hop' : Hop} {shared : Shared J} {live : Bool}
    {log : List AppEvent} (hnew : hop'.Framed) :
    AllFramed { c with shared := shared, hops := c.hops.set k hop', live := live, log := log } := by
  intro hop hmem
  rcases List.mem_or_eq_of_mem_set hmem with hmem | rfl
  · exact h hop hmem
  · exact hnew

theorem AllFramed.callback (h : c.AllFramed) {k : ℕ} {f : Hop → Option (Shared J × Hop)}
    (hf : ∀ hop shared hop', hop ∈ c.hops → hop.Framed → f hop = some (shared, hop') → hop'.Framed)
    (hstep : c.callback k f = some c') : c'.AllFramed := by
  obtain ⟨hop, shared, hop', hk, -, heq, rfl⟩ := callback_cases hstep
  have hmem := List.mem_iff_getElem?.mpr ⟨k, hk⟩
  exact h.set (hf hop shared hop' hmem (h hop hmem) heq)

/-- Headers are awaited only by a hop that was not redirected. -/
theorem Shape.not_redirected (h : c.Shape) {hop : Hop} (hmem : hop ∈ c.hops)
    (hstage : hop.stage = .waiting) : hop.job.redirected = false := by
  by_contra hredirected
  have hpassed := (h.sound hop hmem).marked (Bool.eq_true_of_not_eq_false hredirected)
  exact Hop.not_passed (by simp [hstage]) (by simp [hstage]) hpassed

theorem AllFramed.step (hshape : c.Shape) (h : c.AllFramed) {i : CallStep J}
    (hstep : c.step engine i = some c') : c'.AllFramed := by
  cases i with
  | interfere shared =>
    simp only [Call.step] at hstep
    split_ifs at hstep
    cases hstep
    exact h
  | route k admitted =>
    apply h.callback _ hstep
    intro hop shared hop' _ hframed heq
    obtain ⟨_, hroute, heq⟩ := Option.map_eq_some_iff.mp heq
    cases heq
    exact hframed.route hroute
  | dispatch k now =>
    apply h.callback _ hstep
    intro hop shared hop' _ hframed heq
    obtain ⟨_, hdispatch, heq⟩ := Option.map_eq_some_iff.mp heq
    cases heq
    exact hframed.dispatch hdispatch
  | headers k status headers now =>
    apply h.callback _ hstep
    intro hop shared hop' hmem hframed heq
    refine hframed.headers (hshape.not_redirected hmem ?_) heq
    unfold Hop.headers at heq
    split_ifs at heq with hstage
    exact hstage
  | chunk k chunk =>
    apply h.callback _ hstep
    intro hop shared hop' _ hframed heq
    obtain ⟨_, hchunk, heq⟩ := Option.map_eq_some_iff.mp heq
    cases heq
    exact hframed.chunk hchunk
  | finish k now =>
    apply h.callback _ hstep
    intro hop shared hop' hmem hframed heq
    exact hframed.finish (hshape.sound hop hmem).validation heq
  | fail k code now =>
    apply h.callback _ hstep
    intro hop shared hop' _ hframed heq
    obtain ⟨_, hfail, heq⟩ := Option.map_eq_some_iff.mp heq
    cases heq
    exact hframed.fail hfail
  | hop k now =>
    obtain ⟨hop, shared, next, hk, hnext, rfl⟩ := hop_cases hstep
    have hframed := h hop (List.mem_iff_getElem?.mpr ⟨k, hk⟩)
    intro x hx
    rcases List.mem_append.mp hx with hx | hx
    · rcases List.mem_or_eq_of_mem_set hx with hx | rfl
      · exact h x hx
      · exact hframed.between hop.pending none
    · rw [List.mem_singleton.mp hx]
      unfold Hop.next at hnext
      obtain ⟨⟨dec, request, url⟩, -, heq⟩ := Option.map_eq_some_iff.mp hnext
      cases heq
      exact Hop.framed_new
        (startJob_unanswered c.shared hop.job.id request url (hop.job.redirectCount + 1) now) _
  | deliver k =>
    obtain ⟨hop, event, rest, hk, -, rfl⟩ := deliver_cases hstep
    have hframed := h hop (List.mem_iff_getElem?.mpr ⟨k, hk⟩)
    exact h.set (hframed.between rest hop.following)
  | abort code =>
    simp only [Call.step] at hstep
    split_ifs at hstep
    cases hstep
    exact h

theorem allFramed_execute {shared : Shared J} {id : ℤ} {request : Request} {now : ClockReading}
    (h : execute engine shared id request now = some c) : c.AllFramed := by
  unfold execute at h
  split at h
  · cases h
  · rename_i url _
    cases h
    intro hop hmem
    rw [List.mem_singleton.mp hmem]
    exact Hop.framed_new (startJob_unanswered _ id _ url 0 now) _

/-- While the request is live the application has been told what its last hop has said and
dispatched. Afterwards it is a prefix of what one hop has said, or an error cut it off. -/
structure Voiced (c : Call J) : Prop where
  speaking : c.live = true → ∀ k hop, c.hops[k]? = some hop → k + 1 = c.hops.length →
    c.log ++ hop.pending = hop.said.flatMap Reply.events
  told : c.live = false → ∃ hop ∈ c.hops, ∃ log ending, c.log = log ++ ending ∧
    (ending = [] ∨ ∃ code, ending = [.error code]) ∧ log <+: hop.said.flatMap Reply.events

/-- What was told stays a prefix when a hop says more. -/
theorem Voiced.told_set (h : c.Voiced) {k : ℕ} {hop hop' : Hop} (hk : c.hops[k]? = some hop)
    (hsaid : hop.said <+: hop'.said) (hdead : c.live = false) :
    ∃ hop ∈ c.hops.set k hop', ∃ log ending, c.log = log ++ ending ∧
      (ending = [] ∨ ∃ code, ending = [.error code]) ∧ log <+: hop.said.flatMap Reply.events := by
  obtain ⟨x, hx, log, ending, hlog, hending, hprefix⟩ := h.told hdead
  obtain ⟨j, hj⟩ := List.mem_iff_getElem?.mp hx
  by_cases hjk : j = k
  · subst hjk
    obtain rfl : hop = x := Option.some.inj (hk.symm.trans hj)
    obtain ⟨more, hmore⟩ := hsaid
    refine ⟨hop', List.mem_set (List.getElem?_eq_some_iff.mp hk).1 _, log, ending, hlog, hending,
      hprefix.trans ⟨more.flatMap Reply.events, ?_⟩⟩
    rw [← List.flatMap_append, hmore]
  · refine ⟨x, List.mem_iff_getElem?.mpr ⟨j, ?_⟩, log, ending, hlog, hending, hprefix⟩
    rw [List.getElem?_set_ne (Ne.symm hjk), hj]

theorem Voiced.callback (h : c.Voiced) {k : ℕ} {f : Hop → Option (Shared J × Hop)}
    (hf : ∀ hop shared hop', hop.idle = true → f hop = some (shared, hop') → hop.Says hop')
    (hstep : c.callback k f = some c') : c'.Voiced := by
  obtain ⟨hop, shared, hop', hk, hidle, heq, rfl⟩ := callback_cases hstep
  have hsays := hf hop shared hop' hidle heq
  constructor
  case speaking =>
    intro hlive j x hj hlast
    rw [List.length_set] at hlast
    rcases CallStacks.getElem?_set_cases hj with ⟨rfl, rfl⟩ | ⟨-, hj⟩
    · have hlog := h.speaking hlive j hop hk hlast
      rw [(Hop.idle_iff.mp hidle).1, List.append_nil] at hlog
      exact hsays.flatMap hlog
    · exact h.speaking hlive j x hj hlast
  case told =>
    obtain ⟨reply, hsaid, -⟩ := hsays
    exact h.told_set hk (hsaid ▸ List.prefix_append _ _)

theorem Voiced.step (hinv : c.Inv) (h : c.Voiced) {i : CallStep J}
    (hstep : c.step engine i = some c') : c'.Voiced := by
  cases i with
  | interfere shared =>
    simp only [Call.step] at hstep
    split_ifs at hstep
    cases hstep
    exact ⟨h.speaking, h.told⟩
  | route k admitted =>
    apply h.callback _ hstep
    intro hop shared hop' hidle heq
    obtain ⟨_, hroute, heq⟩ := Option.map_eq_some_iff.mp heq
    cases heq
    exact .route hidle hroute
  | dispatch k now =>
    apply h.callback _ hstep
    intro hop shared hop' _ heq
    obtain ⟨_, hdispatch, heq⟩ := Option.map_eq_some_iff.mp heq
    cases heq
    exact .dispatch hdispatch
  | headers k status headers now =>
    apply h.callback _ hstep
    intro hop shared hop' _ heq
    unfold Hop.headers at heq
    split_ifs at heq
    cases heq
    exact Hop.says_saying _ _ .receiving hop.received
  | chunk k chunk =>
    apply h.callback _ hstep
    intro hop shared hop' _ heq
    obtain ⟨_, hchunk, heq⟩ := Option.map_eq_some_iff.mp heq
    cases heq
    unfold Hop.chunk at hchunk
    split_ifs at hchunk
    cases hchunk
    exact Hop.says_saying _ _ hop.stage _
  | finish k now =>
    apply h.callback _ hstep
    intro hop shared hop' _ heq
    unfold Hop.finish at heq
    split_ifs at heq
    cases heq
    exact Hop.says_saying _ _ .ended hop.received
  | fail k code now =>
    apply h.callback _ hstep
    intro hop shared hop' _ heq
    obtain ⟨_, hfail, heq⟩ := Option.map_eq_some_iff.mp heq
    cases heq
    unfold Hop.fail at hfail
    split_ifs at hfail
    cases hfail
    exact Hop.says_saying _ _ hop.stage hop.received
  | hop k now =>
    obtain ⟨hop, shared, next, hk, hnext, rfl⟩ := hop_cases hstep
    obtain ⟨dec, request, url, hfollowing, -, -, -, -, hnext', -⟩ := next_cases hnext
    constructor
    case speaking =>
      intro hlive j x hj hlast
      rw [List.length_append, List.length_set, List.length_singleton] at hlast
      rw [List.getElem?_append_right (by rw [List.length_set]; omega), List.length_set,
        show j - c.hops.length = 0 by omega] at hj
      cases hj
      rw [(hinv.quiet_of_following hlive hk (by simp [hfollowing])).1, hnext']
      rfl
    case told =>
      intro hdead
      have hsaid : hop.said <+: { hop with following := none }.said := List.prefix_refl _
      obtain ⟨x, hx, htold⟩ := h.told_set hk hsaid hdead
      exact ⟨x, List.mem_append_left _ hx, htold⟩
  | deliver k =>
    obtain ⟨hop, event, rest, hk, hpending, rfl⟩ := deliver_cases hstep
    by_cases hlive : c.live = true
    · have hklt := (List.getElem?_eq_some_iff.mp hk).1
      -- only the last hop has events to deliver while the request is live
      have hlast : k + 1 = c.hops.length := by
        by_contra hne
        have hnone := hinv.quiet hlive k hop hk (by omega)
        rw [hpending] at hnone
        cases hnone
      have hlog : (c.log ++ [event]) ++ rest = hop.said.flatMap Reply.events := by
        rw [← h.speaking hlive k hop hk hlast, hpending, List.append_assoc]
        rfl
      simp only [if_pos hlive]
      constructor
      case speaking =>
        intro _ j x hj hjlast
        rw [List.length_set] at hjlast
        obtain rfl : j = k := by omega
        rw [List.getElem?_set_self hklt] at hj
        cases hj
        exact hlog
      case told =>
        intro _
        exact ⟨_, List.mem_set hklt _, c.log ++ [event], [], by simp, Or.inl rfl, rest, hlog⟩
    · simp only [if_neg hlive]
      rw [Bool.not_eq_true] at hlive
      exact ⟨fun hopen => by simp [hlive] at hopen,
        fun _ => h.told_set hk (List.prefix_refl _) hlive⟩
  | abort code =>
    simp only [Call.step] at hstep
    split_ifs at hstep with hlive
    cases hstep
    refine ⟨(fun hopen => by cases hopen), fun _ => ?_⟩
    obtain ⟨hop, hmem⟩ := List.exists_mem_of_ne_nil _ hinv.nonempty
    have hlast := List.getElem?_eq_getElem
      (show c.hops.length - 1 < c.hops.length from
        Nat.sub_lt (List.length_pos_of_mem hmem) Nat.one_pos)
    have hlog := h.speaking hlive _ _ hlast (by have := List.length_pos_of_mem hmem; omega)
    exact ⟨_, List.getElem_mem _, c.log, [.error code], rfl, Or.inr ⟨code, rfl⟩, _, hlog⟩

theorem voiced_execute {shared : Shared J} {id : ℤ} {request : Request} {now : ClockReading}
    (h : execute engine shared id request now = some c) : c.Voiced := by
  unfold execute at h
  split at h
  · cases h
  · cases h
    refine ⟨fun _ k x hk hlast => ?_, (fun hdead => by cases hdead)⟩
    obtain rfl : k = 0 := by simpa using hlast
    cases hk
    rfl

/-- A hop that says that its response is complete has handed on as many bytes as the fields
gave; and a response that the application saw end is one that comes from a cache of the run, or
such a response. -/
theorem run_framed {shared : Shared J} {id : ℤ} {request : Request} {now : ClockReading}
    {steps : List (CallStep J)} (hexecute : execute engine shared id request now = some c)
    (hrun : Transition.run (step engine) c steps = some c') :
    (∀ hop ∈ c'.hops, ∀ before after, hop.said = before ++ Reply.complete :: after → ∀ status headers,
        .expose status headers ∈ before →
          LengthAgrees hop.job.request.method status headers (chunksOf before)) ∧
      (Transition.Meets (step engine) (fun c i => c.chunkInTime i = true) c steps →
        ∀ status headers chunks,
          c'.log = AppEvent.headers status headers :: (chunks.map AppEvent.body ++ [AppEvent.complete]) →
          ∃ hop ∈ c'.hops,
            (∃ response, .stored response ∈ hop.said ∧
                FromCache engine.cacheConfig (Had engine shared c steps) response ∧
                c'.log = (Reply.stored response).events) ∨
              .expose status headers ∈ hop.said ∧
                LengthAgrees hop.job.request.method status headers chunks) := by
  have hframed : c'.AllFramed := by
    have hinv : c'.Shape ∧ c'.AllFramed := by
      apply Transition.run_invariant_of_step _ hrun
      · exact ⟨(inv_execute hexecute).toShape, allFramed_execute hexecute⟩
      · exact fun s i s' h hstep => ⟨h.1.step (step_cases h.1 hstep), h.2.step h.1 hstep⟩
    exact hinv.2
  refine ⟨fun hop hmem => (hframed hop hmem).finished, fun hok status headers chunks hlog => ?_⟩
  have hinv : c'.Inv ∧ c'.Voiced := by
    apply Transition.run_invariant _ hrun hok
    · exact ⟨inv_execute hexecute, voiced_execute hexecute⟩
    · exact fun s i s' h hok hstep =>
        ⟨h.1.step hok (step_cases h.1.toShape hstep), h.2.step h.1 hstep⟩
  -- the end was delivered, so that the request is no longer live
  have hdead : c'.live = false := by
    by_contra hlive
    have hopen := hinv.1.unended (Bool.eq_true_of_not_eq_false hlive) .complete (by simp [hlog])
    cases hopen
  obtain ⟨hop, hmem, log, ending, hsplit, hending, hprefix⟩ := hinv.2.told hdead
  have hwhole : log = c'.log := by
    rcases hending with rfl | ⟨code, rfl⟩
    · rw [hsplit, List.append_nil]
    · rw [hlog, ← List.cons_append] at hsplit
      have hlast := (List.append_inj' hsplit rfl).2
      cases hlast
  rw [hwhole, hlog] at hprefix
  refine ⟨hop, hmem, ?_⟩
  rcases response_prefix_cases hprefix with ⟨response, hstored, heq⟩ | ⟨before, after, hsaid, hexpose, rfl⟩
  · have hbacked := run_backed hexecute hrun hop hmem
    exact Or.inl ⟨response, hstored, hbacked.said response hstored, hlog.trans heq⟩
  · refine Or.inr ⟨?_, (hframed hop hmem).finished before after hsaid status headers hexpose⟩
    rw [hsaid]
    exact List.mem_append_left _ hexpose

/-- A response of four bytes in two chunks, told to its end. -/
theorem run_framed_two_chunks :
    ∃ c headers, Transition.run (step plainEngine) cachedStart
        (storedSteps ++ [.finish 0 plainNow, .deliver 0]) = some c ∧
      c.log = [.headers 200 headers, .body (.bytes "ka".toList), .body (.bytes "ta".toList),
        .complete] ∧
      ∃ hop ∈ c.hops,
        (∃ response, .stored response ∈ hop.said ∧
            FromCache plainEngine.cacheConfig
              (Had plainEngine ⟨some {}, ()⟩ cachedStart
                (storedSteps ++ [.finish 0 plainNow, .deliver 0])) response ∧
            c.log = (Reply.stored response).events) ∨
          .expose 200 headers ∈ hop.said ∧ LengthAgrees hop.job.request.method 200 headers
            [.bytes "ka".toList, .bytes "ta".toList] := by
  obtain ⟨c, hrun, hlog⟩ := Option.map_eq_some_iff.mp
    (show (Transition.run (step plainEngine) cachedStart
        (storedSteps ++ [.finish 0 plainNow, .deliver 0])).map Call.log =
      some [.headers 200 [⟨"cache-control".toList, "max-age=60".toList⟩,
          ⟨"content-length".toList, "4".toList⟩],
        .body (.bytes "ka".toList), .body (.bytes "ta".toList), .complete] by decide +kernel)
  have hexecute : execute plainEngine ⟨some {}, ()⟩ 7 plainGet plainNow = some cachedStart := by
    decide +kernel
  exact ⟨c, _, hrun, hlog, (run_framed hexecute hrun).2 (by decide +kernel) 200 _
    [.bytes "ka".toList, .bytes "ta".toList] hlog⟩

end Call

end KatHttp3
