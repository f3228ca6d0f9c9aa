import KatHttp3.Connection.Upload

/-!
# The producer of a streaming body

The coroutine of `startBodyProducer`, which appends the chunks of a request body one
after the other. When the queue of the request has no room it waits and tries again,
without bound, while nghttp3 reads from the queue and the request goes on.
-/

namespace KatHttp3

open Str

/-- How the coroutine ends: every way but the first one is reported to the caller. -/
inductive ProducerOutcome
  | finished
  | emptyChunk
  | native (result : AppendResult)
  deriving DecidableEq

structure BodyProducer where
  upload : UploadRun
  /-- The chunks that are not yet accepted; the first one is being sent. -/
  chunks : List Str
  outcome : Option ProducerOutcome := none
  deriving DecidableEq

inductive ProducerStep
  /-- The next call of `appendRequestBody`. -/
  | attempt
  /-- Something else happens to the request, whose only producer this is. -/
  | other (step : UploadStep)
  deriving DecidableEq

def UploadStep.isAppend : UploadStep → Bool
  | .append _ _ => true
  | _ => false

namespace BodyProducer

variable (sizeMax : ℕ) (s : BodyProducer)

/-- The coroutine throws: it cancels the request and reports the failure. -/
def fail (outcome : ProducerOutcome) : BodyProducer :=
  { s with
    upload := { s.upload with job := { s.upload.job with cancelled := true } }
    outcome := some outcome }

def attempt : Option BodyProducer :=
  match s.chunks with
  | [] =>
    let result := (s.upload.job.appendRequestBody [] true).2
    if result = .ok then
      (s.upload.step sizeMax (.append [] true)).map fun upload =>
        { s with upload := upload, outcome := some .finished }
    else some (s.fail (.native result))
  | chunk :: rest =>
    if chunk = [] then some (s.fail .emptyChunk)
    else
      let result := (s.upload.job.appendRequestBody chunk false).2
      if result = .ok then
        (s.upload.step sizeMax (.append chunk false)).map fun upload =>
          { s with upload := upload, chunks := rest }
      -- the coroutine is delayed and tries again
      else if result = .nomem then some s
      else some (s.fail (.native result))

def step (s : BodyProducer) : ProducerStep → Option BodyProducer
  | .attempt => if s.outcome = none then s.attempt sizeMax else none
  | .other step =>
    if step.isAppend then none
    else (s.upload.step sizeMax step).map fun upload => { s with upload := upload }

end BodyProducer

/-! ### One append -/

namespace Upload

variable {job : Upload}

theorem append_nomem_iff {data : Str} (finished : Bool)
    (hopen : job.cancelled = false ∧ job.completed = false) :
    (job.appendRequestBody data finished).2 = .nomem ↔
      kMaxBufferedRequestBodyBytes - job.requestBodyBufferedBytes < data.length := by
  unfold appendRequestBody
  rw [if_neg (by simp [hopen])]
  split_ifs with hsize hfinished
  · exact iff_of_true rfl hsize
  · exact iff_of_false nofun hsize
  · exact iff_of_false nofun hsize

theorem readChunk_open (sizeMax : ℕ) : (job.readChunk sizeMax).1.cancelled = job.cancelled ∧
    (job.readChunk sizeMax).1.completed = job.completed := by
  unfold readChunk
  split
  · split_ifs <;> exact ⟨rfl, rfl⟩
  · split
    · exact ⟨rfl, rfl⟩
    · exact ⟨rfl, rfl⟩
    · dsimp only
      split_ifs <;> exact ⟨rfl, rfl⟩

theorem dataRead_open (job : Upload) (sizeMax : ℕ) : (job.dataRead sizeMax).1.cancelled = job.cancelled ∧
    (job.dataRead sizeMax).1.completed = job.completed := by
  unfold dataRead
  split_ifs with hstreaming
  · dsimp only
    split_ifs
    · exact readChunk_open sizeMax
    · exact ⟨rfl, rfl⟩
  · unfold readBody
    split <;> exact ⟨rfl, rfl⟩

theorem append_open (job : Upload) (data : Str) (finished : Bool) :
    (job.appendRequestBody data finished).1.cancelled = job.cancelled ∧
      (job.appendRequestBody data finished).1.completed = job.completed := by
  by_cases haccepts : job.accepts data
  · rw [append_of_accepts finished haccepts]
    exact ⟨rfl, rfl⟩
  · rw [(append_of_not_accepts finished haccepts).1]
    exact ⟨rfl, rfl⟩

/-- The request is neither cancelled nor over. -/
def Ongoing (job : Upload) : Prop := job.cancelled = false ∧ job.completed = false

end Upload

namespace UploadRun

variable {sizeMax : ℕ} {s s' : UploadRun}

/-- A request that is ongoing was so before. -/
theorem ongoing_of_step {step : UploadStep} (hstep : s.step sizeMax step = some s')
    (h : s'.job.Ongoing) : s.job.Ongoing := by
  cases step with
  | append data finished =>
    obtain rfl := Option.some.inj hstep
    have hsame := Upload.append_open s.job data finished
    exact ⟨hsame.1.symm.trans h.1, hsame.2.symm.trans h.2⟩
  | read =>
    obtain rfl := Option.some.inj hstep
    have hsame := Upload.dataRead_open s.job sizeMax
    exact ⟨hsame.1.symm.trans h.1, hsame.2.symm.trans h.2⟩
  | acknowledge n =>
    dsimp only [UploadRun.step] at hstep
    split_ifs at hstep
    obtain rfl := Option.some.inj hstep
    exact h
  | cancel =>
    obtain rfl := Option.some.inj hstep
    cases h.1
  | complete =>
    obtain rfl := Option.some.inj hstep
    cases h.2

end UploadRun

namespace BodyProducer

variable {sizeMax : ℕ} {s s' : BodyProducer}

/-! ### Runs -/

theorem attempt_faithful (h : s.upload.Faithful) (hstep : s.attempt sizeMax = some s') :
    s'.upload.Faithful := by
  have hcancel := h.step (rfl : s.upload.step sizeMax .cancel = some _)
  unfold attempt at hstep
  dsimp only at hstep
  split at hstep
  · split_ifs at hstep
    · obtain ⟨upload, happend, rfl⟩ := Option.map_eq_some_iff.mp hstep
      exact h.step happend
    · obtain rfl := Option.some.inj hstep
      exact hcancel
  · split_ifs at hstep
    · obtain rfl := Option.some.inj hstep
      exact hcancel
    · obtain ⟨upload, happend, rfl⟩ := Option.map_eq_some_iff.mp hstep
      exact h.step happend
    · obtain rfl := Option.some.inj hstep
      exact h
    · obtain rfl := Option.some.inj hstep
      exact hcancel

theorem attempt_ongoing (hstep : s.attempt sizeMax = some s') (h : s'.upload.job.Ongoing) :
    s.upload.job.Ongoing := by
  unfold attempt at hstep
  dsimp only at hstep
  split at hstep
  · split_ifs at hstep
    · obtain ⟨upload, happend, rfl⟩ := Option.map_eq_some_iff.mp hstep
      exact UploadRun.ongoing_of_step happend h
    · obtain rfl := Option.some.inj hstep
      cases h.1
  · split_ifs at hstep
    · obtain rfl := Option.some.inj hstep
      cases h.1
    · obtain ⟨upload, happend, rfl⟩ := Option.map_eq_some_iff.mp hstep
      exact UploadRun.ongoing_of_step happend h
    · obtain rfl := Option.some.inj hstep
      exact h
    · obtain rfl := Option.some.inj hstep
      cases h.1

theorem step_faithful {label : ProducerStep} (h : s.upload.Faithful)
    (hstep : s.step sizeMax label = some s') : s'.upload.Faithful := by
  cases label with
  | attempt =>
    simp only [step] at hstep
    split_ifs at hstep
    exact attempt_faithful h hstep
  | other step =>
    simp only [BodyProducer.step] at hstep
    split_ifs at hstep
    obtain ⟨upload, hother, rfl⟩ := Option.map_eq_some_iff.mp hstep
    exact h.step hother

/-- A producer that has not started. -/
def start (request : Request) (chunks : List Str) : BodyProducer :=
  { upload := { job := { request := request } }, chunks := chunks }

theorem run_upload_faithful {request : Request} (hstreaming : request.streamingBody = true)
    {chunks : List Str} {labels : List ProducerStep}
    (hrun : Transition.run (step sizeMax) (start request chunks) labels = some s) :
    s.upload.Faithful := by
  apply Transition.run_invariant_of_step (fun _ _ _ h hstep => step_faithful h hstep) hrun
  exact UploadRun.Faithful.start hstreaming

/-- The producer is still sending this chunk. -/
def Sending (s : BodyProducer) (chunk : Str) (rest : List Str) : Prop :=
  s.chunks = chunk :: rest ∧ s.outcome = none

theorem attempt_of_nomem {chunk : Str} {rest : List Str} (hsending : s.Sending chunk rest)
    (hchunk : chunk ≠ []) (hnomem : (s.upload.job.appendRequestBody chunk false).2 = .nomem) :
    s.step sizeMax .attempt = some s := by
  simp [step, attempt, hsending.1, hsending.2, hchunk, hnomem]

theorem attempt_of_ok {chunk : Str} {rest : List Str} (hsending : s.Sending chunk rest)
    (hchunk : chunk ≠ []) (hok : (s.upload.job.appendRequestBody chunk false).2 = .ok) :
    ∃ s', s.step sizeMax .attempt = some s' ∧ s'.chunks = rest ∧
      s'.upload.accepted = s.upload.accepted ++ [chunk] := by
  obtain ⟨upload, happend⟩ : ∃ upload, s.upload.step sizeMax (.append chunk false) = some upload :=
    ⟨_, rfl⟩
  refine ⟨{ s with upload := upload, chunks := rest }, ?_, rfl, ?_⟩
  · simp [step, attempt, hsending.1, hsending.2, hchunk, hok, happend]
  · rcases UploadRun.step_append happend with ⟨hnot, -⟩ | ⟨-, rfl⟩
    · exact absurd hok (Upload.append_of_not_accepts false hnot).2
    · rfl

theorem attempt_of_refused {chunk : Str} {rest : List Str} (hsending : s.Sending chunk rest)
    (hchunk : chunk ≠ []) (hok : (s.upload.job.appendRequestBody chunk false).2 ≠ .ok)
    (hnomem : (s.upload.job.appendRequestBody chunk false).2 ≠ .nomem) :
    s.step sizeMax .attempt =
      some (s.fail (.native (s.upload.job.appendRequestBody chunk false).2)) := by
  simp [step, attempt, hsending.1, hsending.2, hchunk, hok, hnomem]

/-- The loop is over for the chunk: it is accepted, or a failure is reported. -/
def Settled (s : BodyProducer) (chunk : Str) (rest : List Str) (s' : BodyProducer) : Prop :=
  s'.chunks = rest ∧ s'.upload.accepted = s.upload.accepted ++ [chunk] ∨
    ∃ result, s'.outcome = some (.native result)

/-! ### Chunks beyond the limit -/

/-- A chunk that cannot fit into the queue is tried for as long as the request goes on. -/
theorem step_oversized {chunk : Str} {rest : List Str} (hsending : s.Sending chunk rest)
    (hsize : kMaxBufferedRequestBodyBytes < chunk.length) {label : ProducerStep}
    (hstep : s.step sizeMax label = some s') (hopen : s'.upload.job.Ongoing) :
    s'.Sending chunk rest := by
  cases label with
  | attempt =>
    have hchunk : chunk ≠ [] := by
      rintro rfl
      exact absurd hsize (Nat.not_lt_zero _)
    have hattempt : s.attempt sizeMax = some s' := by
      simpa [step, hsending.2] using hstep
    have hbefore := attempt_ongoing hattempt hopen
    have hnomem : (s.upload.job.appendRequestBody chunk false).2 = .nomem := by
      rw [Upload.append_nomem_iff false hbefore]
      omega
    rw [attempt_of_nomem hsending hchunk hnomem] at hstep
    obtain rfl := Option.some.inj hstep
    exact hsending
  | other step =>
    simp only [BodyProducer.step] at hstep
    split_ifs at hstep
    obtain ⟨upload, -, rfl⟩ := Option.map_eq_some_iff.mp hstep
    exact hsending

theorem ongoing_of_step {label : ProducerStep} (hstep : s.step sizeMax label = some s')
    (h : s'.upload.job.Ongoing) : s.upload.job.Ongoing := by
  cases label with
  | attempt =>
    simp only [step] at hstep
    split_ifs at hstep
    exact attempt_ongoing hstep h
  | other step =>
    simp only [BodyProducer.step] at hstep
    split_ifs at hstep
    obtain ⟨upload, hother, rfl⟩ := Option.map_eq_some_iff.mp hstep
    exact UploadRun.ongoing_of_step hother h

theorem ongoing_of_run {labels : List ProducerStep}
    (hrun : Transition.run (step sizeMax) s labels = some s') (h : s'.upload.job.Ongoing) :
    s.upload.job.Ongoing := by
  induction labels generalizing s with
  | nil =>
    obtain rfl : s = s' := Option.some.inj hrun
    exact h
  | cons label labels ih =>
    obtain ⟨next, hstep, hrest⟩ := Transition.run_cons.mp hrun
    exact ongoing_of_step hstep (ih hrest)

theorem run_oversized {chunk : Str} {rest : List Str} (hsending : s.Sending chunk rest)
    (hsize : kMaxBufferedRequestBodyBytes < chunk.length) {labels : List ProducerStep}
    (hrun : Transition.run (step sizeMax) s labels = some s') (hopen : s'.upload.job.Ongoing) :
    s'.Sending chunk rest := by
  induction labels generalizing s with
  | nil =>
    obtain rfl : s = s' := Option.some.inj hrun
    exact hsending
  | cons label labels ih =>
    obtain ⟨next, hstep, hrest⟩ := Transition.run_cons.mp hrun
    exact ih (step_oversized hsending hsize hstep (ongoing_of_run hrest hopen)) hrest

/-- Whatever a producer has done so far, when all that was accepted has been read, the next
call for an ongoing request is not told to try again, and ends the loop for the chunk, if
and only if the chunk fits into an empty queue; otherwise the loop goes on for as long as the
request does. -/
theorem bodyProducer_progress_iff {request : Request} (hstreaming : request.streamingBody = true)
    {chunks : List Str} {labels : List ProducerStep}
    (hrun : Transition.run (step sizeMax) (start request chunks) labels = some s) {chunk : Str}
    {rest : List Str} (hsending : s.Sending chunk rest) (hchunk : chunk ≠ [])
    (hopen : s.upload.job.Ongoing) (hdrained : s.upload.job.queued = []) :
    ((s.upload.job.appendRequestBody chunk false).2 ≠ .nomem ↔
        chunk.length ≤ kMaxBufferedRequestBodyBytes) ∧
      ((∃ s', s.step sizeMax .attempt = some s' ∧ s.Settled chunk rest s') ↔
        chunk.length ≤ kMaxBufferedRequestBodyBytes) ∧
      (kMaxBufferedRequestBodyBytes < chunk.length →
        ∀ labels s', Transition.run (step sizeMax) s labels = some s' → s'.upload.job.Ongoing →
          s'.Sending chunk rest) := by
  have hempty : s.upload.job.requestBodyBufferedBytes = 0 := by
    rw [(run_upload_faithful hstreaming hrun).sound.buffered, hdrained]
    rfl
  have hnomem : (s.upload.job.appendRequestBody chunk false).2 ≠ .nomem ↔
      chunk.length ≤ kMaxBufferedRequestBodyBytes := by
    rw [Ne, Upload.append_nomem_iff false hopen, hempty, Nat.sub_zero, Nat.not_lt]
  refine ⟨hnomem, ?_, ?_⟩
  · rw [← hnomem]
    constructor
    · rintro ⟨s', hstep, hsettled⟩ htry
      rw [attempt_of_nomem hsending hchunk htry] at hstep
      obtain rfl := Option.some.inj hstep
      rcases hsettled with ⟨-, haccepted⟩ | ⟨result, hfailed⟩
      · simp at haccepted
      · rw [hsending.2] at hfailed
        cases hfailed
    · intro htry
      by_cases hok : (s.upload.job.appendRequestBody chunk false).2 = .ok
      · obtain ⟨s', hstep, hrest, haccepted⟩ := attempt_of_ok hsending hchunk hok
        exact ⟨s', hstep, .inl ⟨hrest, haccepted⟩⟩
      · exact ⟨_, attempt_of_refused hsending hchunk hok htry, .inr ⟨_, rfl⟩⟩
  · intro hsize later s' hlater hongoing
    exact run_oversized hsending hsize hlater hongoing

/-- A request that streams one chunk of so many bytes. -/
def oneChunk (n : ℕ) : BodyProducer := start { streamingBody := true } [List.replicate n 'a']

/-- A chunk of the greatest size that the queue takes. -/
theorem bodyProducer_progress_fits :
    ((oneChunk kMaxBufferedRequestBodyBytes).upload.job.appendRequestBody
      (List.replicate kMaxBufferedRequestBodyBytes 'a') false).2 ≠ .nomem := by
  have hrun : Transition.run (step 0) (start { streamingBody := true }
      [List.replicate kMaxBufferedRequestBodyBytes 'a']) [] = some _ := rfl
  have hpos : List.replicate kMaxBufferedRequestBodyBytes 'a' ≠ [] := by
    apply List.ne_nil_of_length_pos
    rw [List.length_replicate]
    decide
  have hprogress := bodyProducer_progress_iff rfl hrun ⟨rfl, rfl⟩ hpos ⟨rfl, rfl⟩ rfl
  exact hprogress.1.mpr (le_of_eq List.length_replicate)

/-- One byte more, and the first call for an untouched request is told to try again. -/
theorem bodyProducer_stuck :
    (oneChunk (4 * 1024 * 1024 + 1)).upload.job.queued = [] ∧
      (oneChunk (4 * 1024 * 1024 + 1)).upload.job.Ongoing ∧
      ((oneChunk (4 * 1024 * 1024 + 1)).upload.job.appendRequestBody
        (List.replicate (4 * 1024 * 1024 + 1) 'a') false).2 = .nomem := by
  refine ⟨rfl, ⟨rfl, rfl⟩, (Upload.append_nomem_iff false ⟨rfl, rfl⟩).mpr ?_⟩
  rw [List.length_replicate]
  decide

end BodyProducer

end KatHttp3
