import KatHttp3.Connection.RequestBody

/-!
# Uploads

What `data_read_cb` offers over any run of appends, reads, acknowledgements and
cancellations: the accepted bytes in order, how many of them a declared length
lets through, and which of their buffers are still held.
-/

namespace KatHttp3

open Str

namespace Upload

variable {sizeMax : ℕ} {job : Upload}

/-- The bytes that wait in the queue. -/
def queued (job : Upload) : Str :=
  (job.requestBodyChunks.flatMap BodyChunk.bytes).drop job.requestBodyChunkOffset

/-- What appends and reads keep of the queue and its counters. -/
structure Sound (job : Upload) : Prop where
  nonempty : ∀ chunk ∈ job.requestBodyChunks, chunk.bytes ≠ []
  offset : job.requestBodyChunkOffset ≤ (job.requestBodyChunks.head?.elim 0 fun c => c.bytes.length)
  buffered : job.requestBodyBufferedBytes = job.queued.length
  limit : job.requestBodyBufferedBytes ≤ kMaxBufferedRequestBodyBytes

/-- Whether an append is accepted, apart from its size. -/
def isOpen (job : Upload) : Bool :=
  !job.cancelled && !job.completed && !job.requestBodyFinished

def accepts (job : Upload) (data : Str) : Prop :=
  job.isOpen = true ∧ data.length ≤ kMaxBufferedRequestBodyBytes - job.requestBodyBufferedBytes

instance (job : Upload) (data : Str) : Decidable (job.accepts data) :=
  inferInstanceAs (Decidable (_ ∧ _))

/-! ### Appends -/

theorem append_of_accepts {data : Str} (finished : Bool) (h : job.accepts data) :
    job.appendRequestBody data finished =
      ({ job with
          requestBodyChunks :=
            job.requestBodyChunks ++ if data = [] then [] else [⟨job.buffers, data⟩]
          requestBodyBufferedBytes := job.requestBodyBufferedBytes + data.length
          buffers := job.buffers + if data = [] then 0 else 1
          requestBodyFinished := finished }, .ok) := by
  obtain ⟨hopen, hfits⟩ := h
  simp only [isOpen, Bool.and_eq_true, Bool.not_eq_true'] at hopen
  obtain ⟨⟨hcancelled, hcompleted⟩, hfinished⟩ := hopen
  have hfits : ¬kMaxBufferedRequestBodyBytes - job.requestBodyBufferedBytes < data.length := by
    omega
  by_cases hdata : data = []
  · simp [appendRequestBody, hcancelled, hcompleted, hfinished, hdata]
  · simp [appendRequestBody, hcancelled, hcompleted, hfinished, hfits, hdata]

theorem append_of_not_accepts {data : Str} (finished : Bool) (h : ¬job.accepts data) :
    (job.appendRequestBody data finished).1 = job ∧
      (job.appendRequestBody data finished).2 ≠ .ok := by
  unfold appendRequestBody
  by_cases hclosed : job.cancelled = true ∨ job.completed = true
  · simp [hclosed]
  by_cases hsize : kMaxBufferedRequestBodyBytes - job.requestBodyBufferedBytes < data.length
  · simp [hclosed, hsize]
  by_cases hfinished : job.requestBodyFinished = true
  · simp [hclosed, hsize, hfinished]
  exfalso
  apply h
  simp only [not_or, Bool.not_eq_true] at hclosed hfinished
  exact ⟨by simp [isOpen, hclosed, hfinished], by omega⟩

theorem append_request (data : Str) (finished : Bool) :
    (job.appendRequestBody data finished).1.request = job.request := by
  by_cases h : job.accepts data
  · rw [append_of_accepts finished h]
  · rw [(append_of_not_accepts finished h).1]

theorem queued_append (chunks : List BodyChunk) (h : job.Sound) :
    ((job.requestBodyChunks ++ chunks).flatMap BodyChunk.bytes).drop job.requestBodyChunkOffset =
      job.queued ++ chunks.flatMap BodyChunk.bytes := by
  rw [List.flatMap_append, List.drop_append_of_le_length]
  · rfl
  · refine h.offset.trans ?_
    cases job.requestBodyChunks <;> simp

theorem Sound.append {data : Str} (h : job.Sound) (finished : Bool) (haccepts : job.accepts data) :
    (job.appendRequestBody data finished).1.Sound ∧
      (job.appendRequestBody data finished).1.queued = job.queued ++ data := by
  have hnew : ((if data = [] then [] else [⟨job.buffers, data⟩]).flatMap BodyChunk.bytes) = data := by
    split_ifs with hdata <;> simp [hdata]
  have hqueued : (job.appendRequestBody data finished).1.queued = job.queued ++ data := by
    rw [append_of_accepts finished haccepts]
    exact (queued_append _ h).trans (by rw [hnew])
  refine ⟨?_, hqueued⟩
  have hlimit := h.limit
  have hfits := haccepts.2
  constructor
  · rw [append_of_accepts finished haccepts]
    intro chunk hchunk
    rcases List.mem_append.mp hchunk with hold | hadded
    · exact h.nonempty chunk hold
    · split_ifs at hadded with hdata
      · cases hadded
      · obtain rfl := List.mem_singleton.mp hadded
        exact hdata
  · rw [append_of_accepts finished haccepts]
    have hoffset := h.offset
    cases hchunks : job.requestBodyChunks with
    | nil => simp_all
    | cons chunk rest => simp_all
  · rw [hqueued, append_of_accepts finished haccepts, List.length_append, ← h.buffered]
  · rw [append_of_accepts finished haccepts]
    dsimp only
    omega

/-! ### Reads -/

/-- The job once chunks that were offered whole are released. -/
def released (job : Upload) : Upload :=
  let (chunks, offset, _) := releaseChunks job.requestBodyChunks job.requestBodyChunkOffset
  { job with requestBodyChunks := chunks, requestBodyChunkOffset := offset }

theorem releaseChunks_of_lt {chunk : BodyChunk} {rest : List BodyChunk} {offset : ℕ}
    (h : offset < chunk.bytes.length) :
    releaseChunks (chunk :: rest) offset = (chunk :: rest, offset, true) := by
  rw [releaseChunks, if_neg (by omega), if_pos (by omega)]

theorem releaseChunks_zero {chunks : List BodyChunk} (h : ∀ chunk ∈ chunks, chunk.bytes ≠ []) :
    releaseChunks chunks 0 = (chunks, 0, true) := by
  cases chunks with
  | nil => rfl
  | cons chunk rest =>
    apply releaseChunks_of_lt
    exact List.length_pos_iff.mpr (h chunk List.mem_cons_self)

/-- At most the first chunk is released, and only if it was offered whole. -/
theorem releaseChunks_cases {chunks : List BodyChunk} {offset : ℕ}
    (hne : ∀ chunk ∈ chunks, chunk.bytes ≠ [])
    (hoffset : offset ≤ (chunks.head?.elim 0 fun c => c.bytes.length)) :
    (releaseChunks chunks offset = (chunks, offset, true) ∧
        ∀ chunk ∈ chunks.head?, offset < chunk.bytes.length) ∨
      ∃ chunk rest, chunks = chunk :: rest ∧ offset = chunk.bytes.length ∧
        releaseChunks chunks offset = (rest, 0, true) := by
  cases chunks with
  | nil =>
    left
    exact ⟨rfl, by simp⟩
  | cons chunk rest =>
    rcases Nat.lt_or_eq_of_le hoffset with hlt | heq
    · left
      exact ⟨releaseChunks_of_lt hlt, by simpa using hlt⟩
    · right
      refine ⟨chunk, rest, rfl, heq, ?_⟩
      have hlen : offset = chunk.bytes.length := heq
      rw [releaseChunks, if_neg (by omega), if_neg (by omega)]
      exact releaseChunks_zero fun c hc => hne c (List.mem_cons_of_mem _ hc)

/-- What a release leaves: the queue as it was, from inside its first chunk. -/
structure Released (job after : Upload) : Prop where
  sound : after.Sound
  queued : after.queued = job.queued
  inside : ∀ chunk ∈ after.requestBodyChunks.head?,
    after.requestBodyChunkOffset < chunk.bytes.length
  kept : after = { job with
    requestBodyChunks := after.requestBodyChunks
    requestBodyChunkOffset := after.requestBodyChunkOffset }
  chunks : after.requestBodyChunks = job.requestBodyChunks ∨
    ∃ chunk, job.requestBodyChunks = chunk :: after.requestBodyChunks ∧
      job.requestBodyChunkOffset = chunk.bytes.length

theorem Sound.released (h : job.Sound) : Released job job.released := by
  rcases releaseChunks_cases h.nonempty h.offset with ⟨hsame, hinside⟩ | ⟨chunk, rest, hchunks, hoffset, hrest⟩
  · have heq : job.released = job := by simp [Upload.released, hsame]
    rw [heq]
    exact ⟨h, rfl, hinside, rfl, .inl rfl⟩
  · have heq : job.released =
        { job with requestBodyChunks := rest, requestBodyChunkOffset := 0 } := by
      simp [Upload.released, hrest]
    have hnonempty : ∀ c ∈ rest, c.bytes ≠ [] := by
      intro c hc
      exact h.nonempty c (hchunks ▸ List.mem_cons_of_mem _ hc)
    have hqueued : job.released.queued = job.queued := by
      simp [heq, Upload.queued, hchunks, hoffset]
    rw [heq] at hqueued ⊢
    refine ⟨⟨hnonempty, Nat.zero_le _, ?_, h.limit⟩, hqueued, ?_, rfl, .inr ⟨chunk, hchunks, hoffset⟩⟩
    · rw [hqueued]
      exact h.buffered
    · intro c hc
      exact List.length_pos_iff.mpr (hnonempty c (List.mem_of_mem_head? hc))

theorem Sound.dataRead (sizeMax : ℕ) (h : job.Sound) (hstreaming : job.request.streamingBody = true) :
    job.dataRead sizeMax = job.released.readChunk sizeMax := by
  unfold Upload.dataRead Upload.released
  rcases releaseChunks_cases h.nonempty h.offset with ⟨hsame, _⟩ | ⟨chunk, rest, _, _, hrest⟩
  · simp [hstreaming, hsame]
  · simp [hstreaming, hrest]

theorem readChunk_request : (job.readChunk sizeMax).1.request = job.request := by
  unfold readChunk
  split
  · split_ifs <;> rfl
  · split
    · rfl
    · rfl
    · dsimp only
      split_ifs <;> rfl

theorem readBody_request : job.readBody.1.request = job.request := by
  unfold readBody
  split <;> rfl

theorem dataRead_request : (job.dataRead sizeMax).1.request = job.request := by
  unfold dataRead
  split_ifs with hstreaming
  · dsimp only
    split_ifs
    · exact readChunk_request
    · rfl
  · exact readBody_request

/-- A slice that a read hands out of the first chunk. -/
structure Offers (sizeMax : ℕ) (job after : Upload) (slice : BodySlice) (last : Bool) : Prop where
  after : after = job.advance slice.bytes.length
  chunk : ∃ chunk rest, job.requestBodyChunks = chunk :: rest ∧ slice.buffer = some chunk.buffer ∧
    slice.bytes = (chunk.bytes.drop slice.offset).take slice.bytes.length ∧
    slice.bytes.length ≤ chunk.bytes.length - slice.offset ∧
    (last = true → rest = [] ∧ job.requestBodyChunkOffset + slice.bytes.length = chunk.bytes.length)
  offset : slice.offset = job.requestBodyChunkOffset
  start : slice.start = job.bodySent
  positive : 0 < slice.bytes.length
  buffered : slice.bytes.length ≤ job.requestBodyBufferedBytes
  finished : last = true → job.requestBodyFinished = true
  declared : 0 ≤ job.request.streamingBodyLength →
    job.request.streamingBodyLength.toNat ≤ sizeMax ∧
      job.bodySent + slice.bytes.length ≤ job.request.streamingBodyLength.toNat

theorem Sound.remaining_le (h : job.Sound) {chunk : BodyChunk} {rest : List BodyChunk}
    (hchunks : job.requestBodyChunks = chunk :: rest) :
    chunk.bytes.length - job.requestBodyChunkOffset ≤ job.requestBodyBufferedBytes := by
  rw [h.buffered, queued, hchunks, List.length_drop, List.flatMap_cons, List.length_append]
  omega

/-- The ways in which a read of the queue ends. -/
theorem Sound.readChunk_cases (sizeMax : ℕ) (h : job.Sound) :
    (∃ why, job.readChunk sizeMax = (job, .failure why) ∧
        why ≠ .offsetOverflow ∧ why ≠ .accountingUnderflow) ∨
      (job.readChunk sizeMax = (job, .wouldBlock) ∧ job.requestBodyChunks = []) ∨
      (job.readChunk sizeMax = (job, .eof) ∧ job.requestBodyChunks = [] ∧
        job.requestBodyFinished = true ∧
        (0 ≤ job.request.streamingBodyLength →
          job.bodySent = job.request.streamingBodyLength.toNat % (sizeMax + 1))) ∨
      ∃ after slice last, job.readChunk sizeMax = (after, .data slice last) ∧
        Offers sizeMax job after slice last := by
  cases hchunks : job.requestBodyChunks with
  | nil =>
    by_cases hfinished : job.requestBodyFinished = true
    · by_cases hlength : 0 ≤ job.request.streamingBodyLength ∧
          job.bodySent ≠ job.request.streamingBodyLength.toNat % (sizeMax + 1)
      · left
        exact ⟨.lengthMismatch, by simp [readChunk, hchunks, hfinished, hlength], by simp⟩
      · right; right; left
        refine ⟨by simp [readChunk, hchunks, hfinished, hlength], rfl, hfinished, ?_⟩
        intro hdeclared
        by_contra hne
        exact hlength ⟨hdeclared, hne⟩
    · right; left
      exact ⟨by simp [readChunk, hchunks, hfinished], rfl⟩
  | cons chunk rest =>
    by_cases hinside : job.requestBodyChunkOffset < chunk.bytes.length
    · have hremaining : requestBodyRemaining chunk.bytes.length job.requestBodyChunkOffset =
          some (chunk.bytes.length - job.requestBodyChunkOffset) := by
        unfold requestBodyRemaining
        rw [if_neg (by omega)]
      have hbuffered := h.remaining_le hchunks
      obtain ⟨remaining, hr⟩ : ∃ n, chunk.bytes.length - job.requestBodyChunkOffset = n + 1 :=
        ⟨chunk.bytes.length - job.requestBodyChunkOffset - 1, by omega⟩
      have hoffered : 0 < requestBodyNextChunkSize (remaining + 1) ∧
          requestBodyNextChunkSize (remaining + 1) ≤ remaining + 1 := by
        unfold requestBodyNextChunkSize kMaxHttp3DataReaderBytes
        omega
      generalize hsize : requestBodyNextChunkSize (remaining + 1) = offered at hoffered
      by_cases hadvance : requestBodyCanAdvance job.bodySent offered sizeMax = false
      · left
        exact ⟨.sizeOverflow, by simp [readChunk, hchunks, hremaining, hr, hsize, hadvance], by simp⟩
      by_cases hexceeds : job.exceedsDeclared sizeMax offered = true
      · left
        exact ⟨.declaredLength,
          by simp [readChunk, hchunks, hremaining, hr, hsize, hadvance, hexceeds], by simp⟩
      right; right; right
      have hnot : ¬job.requestBodyBufferedBytes < offered := by omega
      refine ⟨_, _, _,
        by simp only [readChunk, hchunks, hremaining, hr, hsize, hadvance, hexceeds, hnot, if_false,
          Bool.false_eq_true]; rfl, ?_⟩
      have hlength : ((chunk.bytes.drop job.requestBodyChunkOffset).take offered).length =
          offered := by
        rw [List.length_take, List.length_drop]
        omega
      constructor
      · dsimp only
        rw [hlength]
      · refine ⟨chunk, rest, hchunks, rfl, ?_, ?_, ?_⟩
        · dsimp only
          rw [hlength]
        · dsimp only
          omega
        · dsimp only
          rw [hlength]
          intro hlast
          simp at hlast
          exact ⟨hlast.1.2, hlast.2⟩
      · rfl
      · rfl
      · dsimp only
        omega
      · dsimp only
        omega
      · intro hlast
        simp at hlast
        exact hlast.1.1
      · intro hdeclared
        dsimp only
        rw [hlength]
        simp [exceedsDeclared, hdeclared, requestBodyCanAdvance] at hexceeds
        omega
    · left
      refine ⟨.nothingRemaining, ?_, by simp⟩
      rcases Nat.lt_or_eq_of_le (Nat.le_of_not_lt hinside) with hlt | heq
      · simp [readChunk, hchunks, requestBodyRemaining, hlt]
      · simp [readChunk, hchunks, requestBodyRemaining, heq]

theorem Offers.queued {after : Upload} {slice : BodySlice} {last : Bool}
    (h : Offers sizeMax job after slice last) : job.queued = slice.bytes ++ after.queued := by
  obtain ⟨chunk, rest, hchunks, _, hbytes, hlength, _⟩ := h.chunk
  rw [h.offset] at hbytes hlength
  have htake : slice.bytes = job.queued.take slice.bytes.length := by
    rw [Upload.queued, hchunks, List.flatMap_cons,
      List.drop_append_of_le_length (by have := h.positive; omega),
      List.take_append_of_le_length (by rwa [List.length_drop])]
    exact hbytes
  have hdrop : after.queued = job.queued.drop slice.bytes.length := by
    simp [h.after, Upload.queued, advance, List.drop_drop]
  calc
    job.queued = job.queued.take slice.bytes.length ++ job.queued.drop slice.bytes.length :=
      (List.take_append_drop _ _).symm
    _ = slice.bytes ++ after.queued := by rw [← htake, hdrop]

/-- The last slice of a finished body is all that waits. -/
theorem Offers.buffered_eq {after : Upload} {slice : BodySlice} (h : job.Sound)
    (ho : Offers sizeMax job after slice true) :
    job.requestBodyBufferedBytes = slice.bytes.length := by
  obtain ⟨chunk, rest, hchunks, _, _, _, hlast⟩ := ho.chunk
  obtain ⟨rfl, hend⟩ := hlast rfl
  rw [h.buffered, Upload.queued, hchunks]
  simp
  omega

theorem Offers.sound {after : Upload} {slice : BodySlice} {last : Bool}
    (ho : Offers sizeMax job after slice last) (h : job.Sound) : after.Sound := by
  have hlimit := h.limit
  have hbuffered := h.buffered
  rw [ho.queued, List.length_append] at hbuffered
  obtain ⟨chunk, rest, hchunks, _, _, hlength, _⟩ := ho.chunk
  rw [ho.offset] at hlength
  have hpositive := ho.positive
  refine ⟨?_, ?_, ?_, ?_⟩
  · rw [ho.after]
    exact h.nonempty
  · rw [ho.after]
    simp only [advance, hchunks, List.head?_cons, Option.elim_some]
    omega
  · have : after.requestBodyBufferedBytes =
        job.requestBodyBufferedBytes - slice.bytes.length := by rw [ho.after]; rfl
    omega
  · rw [ho.after]
    dsimp only [advance]
    omega

end Upload

namespace UploadRun

variable {sizeMax : ℕ} {s s' : UploadRun} {i : UploadStep}

theorem offeredBytes_concat (s : UploadRun) (job : Upload) (slice : BodySlice) (ended : Bool) :
    offeredBytes { s with job := job, offered := s.offered ++ [slice], ended := ended } =
      s.offeredBytes ++ slice.bytes := by
  simp [offeredBytes]

theorem step_append {data : Str} {finished : Bool}
    (hstep : s.step sizeMax (.append data finished) = some s') :
    (¬s.job.accepts data ∧ s' = s) ∨
      (s.job.accepts data ∧ s' = { s with
        job := (s.job.appendRequestBody data finished).1
        accepted := s.accepted ++ [data] }) := by
  simp only [step, Option.some.injEq] at hstep
  by_cases haccepts : s.job.accepts data
  · right
    refine ⟨haccepts, ?_⟩
    simpa [Upload.append_of_accepts finished haccepts] using hstep.symm
  · left
    obtain ⟨hjob, hresult⟩ := Upload.append_of_not_accepts finished haccepts
    exact ⟨haccepts, by simpa [hjob, hresult] using hstep.symm⟩

theorem step_request (hstep : s.step sizeMax i = some s') : s'.job.request = s.job.request := by
  cases i with
  | append data finished =>
    obtain rfl := Option.some.inj hstep
    exact Upload.append_request data finished
  | read =>
    obtain rfl := Option.some.inj hstep
    exact Upload.dataRead_request
  | acknowledge n =>
    dsimp only [UploadRun.step] at hstep
    split_ifs at hstep
    obtain rfl := Option.some.inj hstep
    rfl
  | cancel =>
    obtain rfl := Option.some.inj hstep
    rfl
  | complete =>
    obtain rfl := Option.some.inj hstep
    rfl

/-- What a read does to a streaming upload. -/
theorem step_read (hs : s.job.Sound) (hstreaming : s.job.request.streamingBody = true)
    (hstep : s.step sizeMax .read = some s') :
    ∃ job, Upload.Released s.job job ∧
      (s' = { s with job := job } ∨
        (s' = { s with job := job, ended := true } ∧ job.requestBodyChunks = [] ∧
          job.requestBodyFinished = true ∧
          (0 ≤ job.request.streamingBodyLength →
            job.bodySent = job.request.streamingBodyLength.toNat % (sizeMax + 1))) ∨
        ∃ after slice last, Upload.Offers sizeMax job after slice last ∧
          s' = { s with
            job := after
            offered := s.offered ++ [slice]
            ended := s.ended || last }) := by
  have hreleased := hs.released
  refine ⟨s.job.released, hreleased, ?_⟩
  simp only [step, hs.dataRead sizeMax hstreaming, Option.some.injEq] at hstep
  rcases hreleased.sound.readChunk_cases sizeMax with
    ⟨why, hread, _⟩ | ⟨hread, _⟩ | ⟨hread, heof⟩ | ⟨after, slice, last, hread, hoffers⟩
  · left
    simpa [hread, ReadResult.signalsEof] using hstep.symm
  · left
    simpa [hread, ReadResult.signalsEof] using hstep.symm
  · right; left
    exact ⟨by simpa [hread, ReadResult.signalsEof] using hstep.symm, heof⟩
  · right; right
    exact ⟨after, slice, last, hoffers, by simpa [hread, ReadResult.signalsEof] using hstep.symm⟩

/-- What every step keeps of a streaming upload. -/
structure Faithful (s : UploadRun) : Prop where
  streaming : s.job.request.streamingBody = true
  sound : s.job.Sound
  sent : s.job.bodySent = s.offeredBytes.length
  order : s.offeredBytes ++ s.job.queued = s.accepted.flatten

theorem Faithful.released {job : Upload} (h : s.Faithful) (hreleased : Upload.Released s.job job) :
    Faithful { s with job := job } := by
  refine ⟨?_, hreleased.sound, ?_, ?_⟩
  · rw [hreleased.kept]
    exact h.streaming
  · rw [hreleased.kept]
    exact h.sent
  · dsimp only
    rw [hreleased.queued]
    exact h.order

theorem Faithful.step (h : s.Faithful) (hstep : s.step sizeMax i = some s') : s'.Faithful := by
  cases i with
  | append data finished =>
    rcases step_append hstep with ⟨_, rfl⟩ | ⟨haccepts, rfl⟩
    · exact h
    · obtain ⟨hsound, hqueued⟩ := h.sound.append finished haccepts
      refine ⟨?_, hsound, ?_, ?_⟩
      · exact (congrArg Request.streamingBody (Upload.append_request data finished)).trans h.streaming
      · rw [Upload.append_of_accepts finished haccepts]
        exact h.sent
      · have horder := congrArg (· ++ data) h.order
        simpa [offeredBytes, hqueued] using horder
  | read =>
    obtain ⟨job, hreleased, hcases⟩ := step_read h.sound h.streaming hstep
    have hsame := h.released hreleased
    rcases hcases with rfl | ⟨rfl, _⟩ | ⟨after, slice, last, hoffers, rfl⟩
    · exact hsame
    · exact ⟨hsame.streaming, hsame.sound, hsame.sent, hsame.order⟩
    · have hsent : job.bodySent = s.offeredBytes.length := hsame.sent
      have horder : s.offeredBytes ++ job.queued = s.accepted.flatten := hsame.order
      refine ⟨?_, hoffers.sound hsame.sound, ?_, ?_⟩
      · rw [hoffers.after]
        exact hsame.streaming
      · rw [offeredBytes_concat, List.length_append, ← hsent, hoffers.after]
        rfl
      · rw [offeredBytes_concat, List.append_assoc, ← hoffers.queued]
        exact horder
  | acknowledge n =>
    dsimp only [UploadRun.step] at hstep
    split_ifs at hstep
    obtain rfl := Option.some.inj hstep
    exact ⟨h.streaming, h.sound, h.sent, h.order⟩
  | cancel =>
    obtain rfl := Option.some.inj hstep
    exact ⟨h.streaming, ⟨h.sound.1, h.sound.2, h.sound.3, h.sound.4⟩, h.sent, h.order⟩
  | complete =>
    obtain rfl := Option.some.inj hstep
    exact ⟨h.streaming, ⟨h.sound.1, h.sound.2, h.sound.3, h.sound.4⟩, h.sent, h.order⟩

theorem Faithful.start {request : Request} (h : request.streamingBody = true) :
    Faithful { job := { request := request } } := by
  refine ⟨h, ⟨?_, ?_, ?_, ?_⟩, rfl, rfl⟩
  · intro chunk hchunk
    cases hchunk
  · exact Nat.zero_le _
  · rfl
  · exact Nat.zero_le _

/-- Over every run the offered bytes and the queued ones are the accepted bytes
in order, and the counters agree with the queue. -/
theorem run_faithful {request : Request} (hstreaming : request.streamingBody = true)
    {steps : List UploadStep}
    (hrun : Transition.run (step sizeMax) { job := { request := request } } steps = some s) :
    s.offeredBytes ++ s.job.queued = s.accepted.flatten ∧
      s.job.requestBodyBufferedBytes = s.job.queued.length ∧
      s.job.requestBodyBufferedBytes ≤ kMaxBufferedRequestBodyBytes ∧
      (∀ data finished, (s.job.appendRequestBody data finished).2 ≠ .ok →
        (s.job.appendRequestBody data finished).1 = s.job) ∧
      (s.job.dataRead sizeMax).2 ≠ .failure .offsetOverflow ∧
      (s.job.dataRead sizeMax).2 ≠ .failure .accountingUnderflow := by
  have h : s.Faithful := Transition.run_invariant_of_step (fun _ _ _ hs hstep => hs.step hstep) hrun
    (Faithful.start hstreaming)
  refine ⟨h.order, h.sound.buffered, h.sound.limit, ?_, ?_⟩
  · intro data finished hrefused
    by_cases haccepts : s.job.accepts data
    · exact absurd (by rw [Upload.append_of_accepts finished haccepts]) hrefused
    · exact (Upload.append_of_not_accepts finished haccepts).1
  · rw [h.sound.dataRead sizeMax h.streaming]
    rcases h.sound.released.sound.readChunk_cases sizeMax with
      ⟨why, hread, hoverflow, hunderflow⟩ | ⟨hread, _⟩ | ⟨hread, _⟩ | ⟨_, _, _, hread, _⟩
    · rw [hread]
      exact ⟨by simpa using hoverflow, by simpa using hunderflow⟩
    all_goals
      rw [hread]
      exact ⟨nofun, nofun⟩

theorem run_faithful_two_chunks :
    ['a', 'b'] ++ ['c'] = [['a', 'b'], [], ['c']].flatten := by
  have hrun : Transition.run (step (2 ^ 64 - 1)) { job := { request := { streamingBody := true } } }
      [.append ['a', 'b'] false, .read, .append [] false, .append ['c'] true] =
        some
          { job :=
              { request := { streamingBody := true }
                bodySent := 2
                requestBodyChunks := [⟨0, ['a', 'b']⟩, ⟨1, ['c']⟩]
                requestBodyChunkOffset := 2
                requestBodyBufferedBytes := 1
                requestBodyFinished := true
                buffers := 2 }
            offered := [⟨some 0, 0, 0, ['a', 'b']⟩]
            accepted := [['a', 'b'], [], ['c']] } := by decide +kernel
  exact (run_faithful rfl hrun).1

/-! ### Retention -/

/-- Offered bytes that are not yet acknowledged are in a buffer of the queue. -/
def Retained (s : UploadRun) : Prop :=
  ∀ slice ∈ s.offered, s.acked < slice.start + slice.bytes.length →
    ∃ chunk ∈ s.job.requestBodyChunks, slice.buffer = some chunk.buffer ∧
      slice.bytes = (chunk.bytes.drop slice.offset).take slice.bytes.length

/-- A read that finds the first chunk offered whole comes when every offered
byte is acknowledged. -/
def ReleasesAcknowledged (s : UploadRun) : UploadStep → Prop
  | .read => ∀ chunk ∈ s.job.requestBodyChunks.head?,
      s.job.requestBodyChunkOffset = chunk.bytes.length → s.acked = s.job.bodySent
  | _ => True

instance (s : UploadRun) (i : UploadStep) : Decidable (s.ReleasesAcknowledged i) := by
  cases i <;> unfold ReleasesAcknowledged <;> infer_instance

structure Retaining (s : UploadRun) : Prop where
  faithful : s.Faithful
  sent : ∀ slice ∈ s.offered, slice.start + slice.bytes.length ≤ s.job.bodySent
  retained : s.Retained

theorem Retaining.step (h : s.Retaining) (hok : s.ReleasesAcknowledged i)
    (hstep : s.step sizeMax i = some s') : s'.Retaining := by
  have hfaithful := h.faithful.step hstep
  cases i with
  | append data finished =>
    rcases step_append hstep with ⟨_, rfl⟩ | ⟨haccepts, rfl⟩
    · exact h
    · rw [Upload.append_of_accepts finished haccepts] at hfaithful ⊢
      refine ⟨hfaithful, h.sent, ?_⟩
      intro slice hslice hacked
      obtain ⟨chunk, hchunk, hheld⟩ := h.retained slice hslice hacked
      exact ⟨chunk, List.mem_append_left _ hchunk, hheld⟩
  | read =>
    obtain ⟨job, hreleased, hcases⟩ := step_read h.faithful.sound h.faithful.streaming hstep
    have hsent : job.bodySent = s.job.bodySent := by rw [hreleased.kept]
    have hretained : Retained { s with job := job } := by
      intro slice hslice hacked
      rcases hreleased.chunks with hsame | ⟨chunk, hchunks, hoffset⟩
      · dsimp only
        rw [hsame]
        exact h.retained slice hslice hacked
      · have hall : s.acked = s.job.bodySent := hok chunk (by rw [hchunks]; rfl) hoffset
        have := h.sent slice hslice
        dsimp only at hacked
        omega
    rcases hcases with rfl | ⟨rfl, _⟩ | ⟨after, slice, last, hoffers, rfl⟩
    · exact ⟨hfaithful, fun slice hslice => hsent ▸ h.sent slice hslice, hretained⟩
    · exact ⟨hfaithful, fun slice hslice => hsent ▸ h.sent slice hslice, hretained⟩
    · have hafter := hoffers.after
      have hchunks : after.requestBodyChunks = job.requestBodyChunks := by rw [hafter]; rfl
      have hbody : after.bodySent = job.bodySent + slice.bytes.length := by rw [hafter]; rfl
      refine ⟨hfaithful, ?_, ?_⟩
      · intro other hother
        dsimp only at hother ⊢
        rcases List.mem_append.mp hother with hold | hnew
        · have := h.sent other hold
          omega
        · obtain rfl := List.mem_singleton.mp hnew
          rw [hoffers.start, hbody]
      · intro other hother hacked
        dsimp only at hother hacked ⊢
        rw [hchunks]
        rcases List.mem_append.mp hother with hold | hnew
        · exact hretained other hold hacked
        · obtain rfl := List.mem_singleton.mp hnew
          obtain ⟨chunk, rest, hfirst, hbuffer, hbytes, _⟩ := hoffers.chunk
          exact ⟨chunk, hfirst ▸ List.mem_cons_self, hbuffer, hbytes⟩
  | acknowledge n =>
    dsimp only [UploadRun.step] at hstep
    split_ifs at hstep
    obtain rfl := Option.some.inj hstep
    refine ⟨hfaithful, h.sent, ?_⟩
    intro slice hslice hacked
    dsimp only at hacked
    exact h.retained slice hslice (by omega)
  | cancel =>
    obtain rfl := Option.some.inj hstep
    exact ⟨hfaithful, h.sent, h.retained⟩
  | complete =>
    obtain rfl := Option.some.inj hstep
    exact ⟨hfaithful, h.sent, h.retained⟩

/-- Offered bytes stay in place until they are acknowledged, in every run that
releases chunks only once they are. -/
theorem run_retained {request : Request} (hstreaming : request.streamingBody = true)
    {steps : List UploadStep}
    (hrun : Transition.run (step sizeMax) { job := { request := request } } steps = some s)
    (hok : Transition.Meets (step sizeMax) ReleasesAcknowledged { job := { request := request } }
      steps) : s.Retained := by
  have hstart : Retaining { job := { request := request } } := by
    refine ⟨Faithful.start hstreaming, ?_, ?_⟩
    · intro slice hslice
      cases hslice
    · intro slice hslice
      cases hslice
  exact (Transition.run_invariant (fun _ _ _ hs hmeets hstep => hs.step hmeets hstep) hrun hok
    hstart).retained

theorem run_retained_acknowledged :
    ∃ s, Transition.run (step (2 ^ 64 - 1)) { job := { request := { streamingBody := true } } }
        [.append ['a', 'b'] false, .read, .acknowledge 2, .append ['c'] true, .read] = some s ∧
      s.Retained := by
  have hrun : Transition.run (step (2 ^ 64 - 1)) { job := { request := { streamingBody := true } } }
      [.append ['a', 'b'] false, .read, .acknowledge 2, .append ['c'] true, .read] =
        some
          { job :=
              { request := { streamingBody := true }
                bodySent := 3
                requestBodyChunks := [⟨1, ['c']⟩]
                requestBodyChunkOffset := 1
                requestBodyFinished := true
                buffers := 2 }
            offered := [⟨some 0, 0, 0, ['a', 'b']⟩, ⟨some 1, 0, 2, ['c']⟩]
            accepted := [['a', 'b'], ['c']]
            acked := 2
            ended := true } := by decide +kernel
  exact ⟨_, hrun, run_retained rfl hrun (by decide +kernel)⟩

/-- The second read frees the buffer of the two bytes in flight. -/
theorem run_released_in_flight :
    ¬∀ (request : Request) (steps : List UploadStep) (s : UploadRun),
      request.streamingBody = true →
        Transition.run (step (2 ^ 64 - 1)) { job := { request := request } } steps = some s →
          s.Retained := by
  intro h
  have hrun : Transition.run (step (2 ^ 64 - 1)) { job := { request := { streamingBody := true } } }
      [.append ['a', 'b'] false, .read, .read] =
        some
          { job := { request := { streamingBody := true }, bodySent := 2, buffers := 1 }
            offered := [⟨some 0, 0, 0, ['a', 'b']⟩]
            accepted := [['a', 'b']] } := by decide +kernel
  obtain ⟨chunk, hchunk, _⟩ := h _ _ _ rfl hrun _ List.mem_cons_self (by decide)
  cases hchunk

end UploadRun

end KatHttp3
