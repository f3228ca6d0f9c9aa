import KatHttp3.Connection.Upload

/-!
# The length of an upload

A request that passes `validate_request_body_framing` sends Content-Length
fields that all state the length of its body. What is offered never exceeds
it, and the end is signalled at it unless a streaming body is finished short.
-/

namespace KatHttp3

open Str

/-! ### Framing -/

theorem Request.Built.wellFormed {request : Request} (h : request.Built) : request.WellFormed := by
  induction h with
  | create method url => exact ⟨nofun, le_refl _, nofun⟩
  | addHeader built added ih =>
    unfold Request.addHeader at added
    dsimp only at added
    split_ifs at added
    obtain rfl := Option.some.inj added
    refine ⟨?_, ih.length, ih.buffered⟩
    intro header hheader
    rcases List.mem_append.mp hheader with hold | hnew
    · exact ih.names header hold
    · obtain rfl := List.mem_singleton.mp hnew
      exact asciiLower_asciiLower _
  | setBody built data ih => exact ⟨ih.names, le_refl _, nofun⟩
  | setStreamingBody built set ih =>
    unfold Request.setStreamingBody at set
    split_ifs at set with hlength
    obtain rfl := Option.some.inj set
    exact ⟨ih.names, Int.not_lt.mp hlength, fun _ => rfl⟩
  | setFollowRedirects built enable ih => exact ⟨ih.names, ih.length, ih.buffered⟩
  | setStreaming built enable ih => exact ⟨ih.names, ih.length, ih.buffered⟩

/-- A field value that states a length. -/
def Announces (value : Str) (n : ℕ) : Prop :=
  value ≠ [] ∧ value.all Char.isDigit = true ∧ decimal value = n

theorem announces_of_fromChars {limit n : ℕ} {value : Str} (h : fromChars limit value = some n) :
    Announces value n := by
  unfold fromChars at h
  split_ifs at h with hvalue
  exact ⟨hvalue.1, hvalue.2.1, Option.some.inj h⟩

theorem announces_ofNat (n : ℕ) : Announces (ofNat n) n :=
  announces_of_fromChars (fromChars_ofNat (le_refl n))

theorem framingField_eq_some {seen r : Option ℕ} {header : Header}
    (h : framingField seen header = some r) :
    ∃ n, r = some n ∧ fromChars (2 ^ 64 - 1) header.value = some n ∧ (seen = none ∨ seen = some n) := by
  unfold framingField at h
  cases hvalue : fromChars (2 ^ 64 - 1) header.value with
  | none =>
    rw [hvalue] at h
    cases h
  | some n =>
    simp only [hvalue] at h
    split_ifs at h with hn
    refine ⟨n, (Option.some.inj h).symm, rfl, ?_⟩
    cases seen with
    | none => exact .inl rfl
    | some m =>
      right
      by_contra hne
      exact hn (.inr (by simpa using hne))

theorem foldlM_framingField {headers : HeaderList} {seen r : Option ℕ}
    (h : headers.foldlM framingField seen = some r) :
    (seen = none ∨ seen = r) ∧
      ∀ header ∈ headers, ∃ n, r = some n ∧ fromChars (2 ^ 64 - 1) header.value = some n := by
  induction headers generalizing seen with
  | nil =>
    obtain rfl : seen = r := Option.some.inj h
    exact ⟨.inr rfl, nofun⟩
  | cons header headers ih =>
    rw [List.foldlM_cons] at h
    obtain ⟨next, hfield, hrest⟩ := Option.bind_eq_some_iff.mp h
    obtain ⟨n, rfl, hvalue, hseen⟩ := framingField_eq_some hfield
    obtain ⟨hnext, hall⟩ := ih hrest
    obtain rfl : some n = r := hnext.resolve_left nofun
    refine ⟨hseen, ?_⟩
    intro other hother
    rcases List.mem_cons.mp hother with rfl | hmem
    · exact ⟨n, rfl, hvalue⟩
    · exact hall other hmem

/-- Each given Content-Length value states the length that was checked. -/
theorem fromChars_of_framingLength {request : Request} (hrequest : request.WellFormed)
    {length : Option ℕ} (h : framingLength request.headers = some length) {value : Str}
    (hvalue : value ∈ request.headers.getAll "content-length".toList) :
    ∃ n, length = some n ∧ fromChars (2 ^ 64 - 1) value = some n := by
  obtain ⟨header, hheader, rfl⟩ := List.mem_map.mp hvalue
  obtain ⟨hmem, hname⟩ := List.mem_filter.mp hheader
  apply (foldlM_framingField h).2
  refine List.mem_filter.mpr ⟨hmem, ?_⟩
  have hlower := asciiIequals_iff.mp hname
  rw [hrequest.names header hmem] at hlower
  rw [hlower]
  decide

/-- What an accepted request has in place of its Content-Length fields. -/
theorem validateRequestBodyFraming_eq_some {request accepted : Request}
    (h : validateRequestBodyFraming request = some accepted) :
    ∃ length, framingLength request.headers = some length ∧
      accepted.headers = request.headers ∧
        ∀ n, length = some n → accepted.bodyLength = n ∧
          (accepted.streamingBody = true → 0 ≤ accepted.streamingBodyLength) := by
  unfold validateRequestBodyFraming at h
  cases hlength : framingLength request.headers with
  | none => simp [hlength] at h
  | some length =>
    refine ⟨length, rfl, ?_⟩
    cases length with
    | none =>
      have : accepted.headers = request.headers := by
        simp only [hlength, Option.any_none] at h
        split_ifs at h
        all_goals
          obtain rfl := Option.some.inj h
          rfl
      exact ⟨this, nofun⟩
    | some n =>
      simp only [hlength, Option.any_some] at h
      split_ifs at h with hstreaming hdeclared hbuffered
      · obtain rfl := Option.some.inj h
        refine ⟨rfl, ?_⟩
        rintro _ ⟨⟩
        exact ⟨by simp [Request.bodyLength, hstreaming], fun _ => by simp⟩
      · obtain rfl := Option.some.inj h
        refine ⟨rfl, ?_⟩
        rintro _ ⟨⟩
        refine ⟨?_, fun hs => absurd hs hstreaming⟩
        have hlen : n = request.body.length := by simpa using hbuffered
        simp [Request.bodyLength, hstreaming, hlen]

/-- Every Content-Length that is sent states the length of the body, which a
streaming body then has declared. -/
theorem sentContentLengths_announces {request accepted : Request} (hbuilt : request.Built)
    (hvalid : validateRequestBodyFraming request = some accepted) {value : Str}
    (hsent : value ∈ sentContentLengths accepted) :
    Announces value accepted.bodyLength ∧
      (accepted.streamingBody = true → 0 ≤ accepted.streamingBodyLength) := by
  obtain ⟨length, hlength, hheaders, hagrees⟩ := validateRequestBodyFraming_eq_some hvalid
  unfold sentContentLengths at hsent
  dsimp only at hsent
  split_ifs at hsent with hgenerated
  · obtain rfl := List.mem_singleton.mp hsent
    refine ⟨announces_ofNat _, ?_⟩
    intro hstreaming
    exact hgenerated.2.2.resolve_left (by simp [hstreaming])
  · rw [hheaders] at hsent
    obtain ⟨n, hn, hvalue⟩ := fromChars_of_framingLength hbuilt.wellFormed hlength hsent
    obtain ⟨hbody, hdeclared⟩ := hagrees n hn
    exact ⟨hbody ▸ announces_of_fromChars hvalue, hdeclared⟩

/-! ### Streaming bodies -/

/-- Finishing the body with so many more bytes falls short of its declared
length where no read notices: some of them are still to be offered, or the
declared length as a `size_t` is what was offered. -/
def Upload.endsShort (sizeMax : ℕ) (job : Upload) (len : ℕ) : Prop :=
  job.request.streamingBody = true ∧ 0 ≤ job.request.streamingBodyLength ∧
    job.bodySent + (job.requestBodyBufferedBytes + len) < job.request.streamingBodyLength.toNat ∧
    if job.requestBodyBufferedBytes + len = 0 then
      job.bodySent = job.request.streamingBodyLength.toNat % (sizeMax + 1)
    else job.request.streamingBodyLength.toNat ≤ sizeMax

instance (sizeMax : ℕ) (job : Upload) (len : ℕ) : Decidable (job.endsShort sizeMax len) := by
  unfold Upload.endsShort
  infer_instance

namespace UploadRun

variable {sizeMax : ℕ} {s s' : UploadRun} {i : UploadStep}

/-- An accepted append that finishes the body does not end it short. -/
def FinishesWhole (sizeMax : ℕ) (s : UploadRun) : UploadStep → Prop
  | .append data true => s.job.accepts data → ¬s.job.endsShort sizeMax data.length
  | _ => True

instance (sizeMax : ℕ) (s : UploadRun) (i : UploadStep) : Decidable (s.FinishesWhole sizeMax i) := by
  unfold FinishesWhole
  split <;> infer_instance

/-- What a streaming upload with a declared length keeps. -/
structure Within (sizeMax : ℕ) (s : UploadRun) : Prop where
  faithful : s.Faithful
  declared : 0 ≤ s.job.request.streamingBodyLength
  sent : s.job.bodySent ≤ s.job.request.streamingBodyLength.toNat
  finished : s.job.requestBodyFinished = true → ¬s.job.endsShort sizeMax 0
  ended : s.ended = true → s.job.bodySent = s.job.request.streamingBodyLength.toNat

theorem Within.released {job : Upload} (h : s.Within sizeMax)
    (hreleased : Upload.Released s.job job) : Within sizeMax { s with job := job } := by
  refine ⟨h.faithful.released hreleased, ?_, ?_, ?_, ?_⟩
  · rw [hreleased.kept]
    exact h.declared
  · rw [hreleased.kept]
    exact h.sent
  · rw [hreleased.kept]
    exact h.finished
  · rw [hreleased.kept]
    exact h.ended

theorem Within.step (h : s.Within sizeMax) (hok : s.FinishesWhole sizeMax i)
    (hstep : s.step sizeMax i = some s') : s'.Within sizeMax := by
  have hfaithful := h.faithful.step hstep
  cases i with
  | append data finished =>
    rcases step_append hstep with ⟨_, rfl⟩ | ⟨haccepts, rfl⟩
    · exact h
    · rw [Upload.append_of_accepts finished haccepts] at hfaithful ⊢
      refine ⟨hfaithful, h.declared, h.sent, ?_, h.ended⟩
      rintro rfl
      exact hok haccepts
  | read =>
    obtain ⟨job, hreleased, hcases⟩ := step_read h.faithful.sound h.faithful.streaming hstep
    have hsame := h.released hreleased
    have hsound := hreleased.sound
    rcases hcases with rfl | ⟨rfl, hempty, hfinished, heof⟩ | ⟨after, slice, last, hoffers, rfl⟩
    · exact hsame
    · refine ⟨hfaithful, hsame.declared, hsame.sent, hsame.finished, fun _ => ?_⟩
      have hbuffered : job.requestBodyBufferedBytes = 0 := by
        rw [hsound.buffered, Upload.queued, hempty]
        simp
      have hshort : ¬job.endsShort sizeMax 0 := hsame.finished hfinished
      refine Nat.le_antisymm hsame.sent ?_
      by_contra hlt
      apply hshort
      refine ⟨hsame.faithful.streaming, hsame.declared, by dsimp only at hlt; omega, ?_⟩
      rw [if_pos (by omega)]
      exact heof hsame.declared
    · obtain ⟨hlimit, hsent⟩ := hoffers.declared hsame.declared
      have hwhole : job.requestBodyFinished = true → job.request.streamingBodyLength.toNat ≤
          job.bodySent + job.requestBodyBufferedBytes := by
        intro hfinished
        have hshort : ¬job.endsShort sizeMax 0 := hsame.finished hfinished
        have hpositive := hoffers.positive
        have hbuffered := hoffers.buffered
        by_contra hlt
        apply hshort
        refine ⟨hsame.faithful.streaming, hsame.declared, by omega, ?_⟩
        rw [if_neg (by omega)]
        exact hlimit
      have hended : s.ended = true → job.bodySent = job.request.streamingBodyLength.toNat :=
        hsame.ended
      have hafter := hoffers.after
      subst hafter
      refine ⟨hfaithful, hsame.declared, hsent, ?_, ?_⟩
      · rintro hfinished ⟨_, _, hlt, _⟩
        have := hwhole hfinished
        have hbuffered := hoffers.buffered
        dsimp only [Upload.advance] at hlt
        omega
      · intro hlast
        dsimp only [Upload.advance]
        rcases Bool.or_eq_true_iff.mp hlast with hbefore | rfl
        · have := hended hbefore
          have := hoffers.positive
          omega
        · have := hwhole (hoffers.finished rfl)
          have := hoffers.buffered_eq hsound
          omega
  | acknowledge n =>
    dsimp only [UploadRun.step] at hstep
    split_ifs at hstep
    obtain rfl := Option.some.inj hstep
    exact ⟨hfaithful, h.declared, h.sent, h.finished, h.ended⟩
  | cancel =>
    obtain rfl := Option.some.inj hstep
    exact ⟨hfaithful, h.declared, h.sent, h.finished, h.ended⟩
  | complete =>
    obtain rfl := Option.some.inj hstep
    exact ⟨hfaithful, h.declared, h.sent, h.finished, h.ended⟩

/-! ### Buffered bodies -/

/-- What an upload of a buffered body keeps. -/
structure Prefix (s : UploadRun) : Prop where
  buffered : s.job.request.streamingBody = false
  offered : s.offeredBytes = s.job.request.body.take s.job.bodySent
  sent : s.job.bodySent ≤ s.job.request.body.length
  ended : s.ended = true → s.job.bodySent = s.job.request.body.length

/-- What a read does to the upload of a buffered body. -/
theorem Prefix.step_read (h : s.Prefix) (hstep : s.step sizeMax .read = some s') :
    (s.job.bodySent = s.job.request.body.length ∧ s' = { s with ended := true }) ∨
      ∃ n, 0 < n ∧ s.job.bodySent + n ≤ s.job.request.body.length ∧ s' = { s with
        job := { s.job with bodySent := s.job.bodySent + n }
        offered := s.offered ++
          [⟨none, s.job.bodySent, s.job.bodySent, (s.job.request.body.drop s.job.bodySent).take n⟩]
        ended := s.ended || s.job.bodySent + n == s.job.request.body.length } := by
  have hsent := h.sent
  have hremaining : requestBodyRemaining s.job.request.body.length s.job.bodySent =
      some (s.job.request.body.length - s.job.bodySent) := by
    unfold requestBodyRemaining
    rw [if_neg (by omega)]
  simp only [step, Upload.dataRead, h.buffered, Upload.readBody, hremaining, Option.some.injEq,
    Bool.false_eq_true, if_false] at hstep
  cases hr : s.job.request.body.length - s.job.bodySent with
  | zero =>
    left
    exact ⟨by omega, by simpa [hr, ReadResult.signalsEof] using hstep.symm⟩
  | succ remaining =>
    right
    have hsize : 0 < requestBodyNextChunkSize (remaining + 1) ∧
        requestBodyNextChunkSize (remaining + 1) ≤ remaining + 1 := by
      unfold requestBodyNextChunkSize kMaxHttp3DataReaderBytes
      omega
    refine ⟨requestBodyNextChunkSize (remaining + 1), hsize.1, by omega, ?_⟩
    simpa [hr, ReadResult.signalsEof] using hstep.symm

theorem Prefix.step (h : s.Prefix) (hstep : s.step sizeMax i = some s') : s'.Prefix := by
  cases i with
  | append data finished =>
    rcases step_append hstep with ⟨_, rfl⟩ | ⟨haccepts, rfl⟩
    · exact h
    · rw [Upload.append_of_accepts finished haccepts]
      exact ⟨h.buffered, h.offered, h.sent, h.ended⟩
  | read =>
    rcases h.step_read hstep with ⟨hall, rfl⟩ | ⟨n, hpositive, hn, rfl⟩
    · exact ⟨h.buffered, h.offered, h.sent, fun _ => hall⟩
    · refine ⟨h.buffered, ?_, hn, ?_⟩
      · rw [offeredBytes_concat, h.offered]
        exact (List.take_add ..).symm
      · intro hended
        rcases Bool.or_eq_true_iff.mp hended with hbefore | hlast
        · have := h.ended hbefore
          omega
        · exact beq_iff_eq.mp hlast
  | acknowledge n =>
    dsimp only [UploadRun.step] at hstep
    split_ifs at hstep
    obtain rfl := Option.some.inj hstep
    exact ⟨h.buffered, h.offered, h.sent, h.ended⟩
  | cancel =>
    obtain rfl := Option.some.inj hstep
    exact ⟨h.buffered, h.offered, h.sent, h.ended⟩
  | complete =>
    obtain rfl := Option.some.inj hstep
    exact ⟨h.buffered, h.offered, h.sent, h.ended⟩

/-! ### Every accepted request -/

/-- No run offers more than each Content-Length that was sent states, and none
in which every finishing append reaches the declared length ends before it. -/
theorem run_contentLength {request accepted : Request} (hbuilt : request.Built)
    (hvalid : validateRequestBodyFraming request = some accepted) {steps : List UploadStep}
    (hrun : Transition.run (step sizeMax) { job := { request := accepted } } steps = some s)
    (hok : Transition.Meets (step sizeMax) (FinishesWhole sizeMax) { job := { request := accepted } }
      steps) {value : Str} (hsent : value ∈ sentContentLengths accepted) :
    ∃ n, Announces value n ∧ s.offeredBytes.length ≤ n ∧
      (s.ended = true → s.offeredBytes.length = n) := by
  obtain ⟨hannounces, hdeclared⟩ := sentContentLengths_announces hbuilt hvalid hsent
  refine ⟨accepted.bodyLength, hannounces, ?_⟩
  have hrequest : s.job.request = accepted :=
    Transition.run_invariant_of_step
      (fun t _ _ (hs : t.job.request = accepted) hstep => (step_request hstep).trans hs) hrun rfl
  cases hstreaming : accepted.streamingBody with
  | true =>
    have hstart : Within sizeMax { job := { request := accepted } } := by
      refine ⟨Faithful.start hstreaming, hdeclared hstreaming, Nat.zero_le _, nofun, nofun⟩
    have h := Transition.run_invariant (fun _ _ _ hs hmeets hstep => hs.step hmeets hstep) hrun hok
      hstart
    rw [Request.bodyLength, if_pos hstreaming, ← hrequest, ← h.faithful.sent]
    exact ⟨h.sent, h.ended⟩
  | false =>
    have hstart : Prefix { job := { request := accepted } } :=
      ⟨hstreaming, rfl, Nat.zero_le _, nofun⟩
    have h := Transition.run_invariant_of_step (fun _ _ _ hs hstep => hs.step hstep) hrun hstart
    have hlength : s.offeredBytes.length = s.job.bodySent := by
      rw [h.offered, List.length_take, Nat.min_eq_left h.sent]
    rw [Request.bodyLength, if_neg (by simp [hstreaming]), ← hrequest, hlength]
    exact ⟨h.sent, h.ended⟩

/-- A body of three declared bytes, in two appends. -/
theorem run_contentLength_whole :
    ∃ n, Announces ['3'] n ∧ 3 ≤ n ∧ (true = true → 3 = n) := by
  have hrun : Transition.run (step (2 ^ 64 - 1))
      { job := { request := { streamingBody := true, bodyPresent := true, streamingBodyLength := 3 } } }
      [.append ['a', 'b'] false, .read, .append ['c'] true, .read] =
        some
          { job :=
              { request := { streamingBody := true, bodyPresent := true, streamingBodyLength := 3 }
                bodySent := 3
                requestBodyChunks := [⟨1, ['c']⟩]
                requestBodyChunkOffset := 1
                requestBodyFinished := true
                buffers := 2 }
            offered := [⟨some 0, 0, 0, ['a', 'b']⟩, ⟨some 1, 0, 2, ['c']⟩]
            accepted := [['a', 'b'], ['c']]
            ended := true } := by decide +kernel
  have hset : Request.setStreamingBody {} 3 =
      some { streamingBody := true, bodyPresent := true, streamingBodyLength := 3 } := rfl
  exact run_contentLength (.setStreamingBody (.create [] []) hset) rfl hrun (by decide +kernel)
    List.mem_cons_self

/-- The end is signalled after three of ten declared bytes. -/
theorem run_ended_short :
    ¬∀ (request accepted : Request) (steps : List UploadStep) (s : UploadRun) (value : Str),
      request.Built → validateRequestBodyFraming request = some accepted →
        Transition.run (step (2 ^ 64 - 1)) { job := { request := accepted } } steps = some s →
          value ∈ sentContentLengths accepted →
            ∃ n, Announces value n ∧ s.offeredBytes.length ≤ n ∧
              (s.ended = true → s.offeredBytes.length = n) := by
  intro h
  have hrun : Transition.run (step (2 ^ 64 - 1))
      { job := { request := { streamingBody := true, bodyPresent := true, streamingBodyLength := 10 } } }
      [.append ['a', 'b', 'c'] true, .read] =
        some
          { job :=
              { request := { streamingBody := true, bodyPresent := true, streamingBodyLength := 10 }
                bodySent := 3
                requestBodyChunks := [⟨0, ['a', 'b', 'c']⟩]
                requestBodyChunkOffset := 3
                requestBodyFinished := true
                buffers := 1 }
            offered := [⟨some 0, 0, 0, ['a', 'b', 'c']⟩]
            accepted := [['a', 'b', 'c']]
            ended := true } := by decide +kernel
  have hset : Request.setStreamingBody {} 10 =
      some { streamingBody := true, bodyPresent := true, streamingBodyLength := 10 } := rfl
  obtain ⟨n, ⟨_, _, hvalue⟩, _, hended⟩ :=
    h _ _ _ _ ['1', '0'] (.setStreamingBody (.create [] []) hset) rfl hrun List.mem_cons_self
  have hn : n = 3 := (hended rfl).symm
  have hten : decimal ['1', '0'] = 10 := by decide
  omega

end UploadRun

end KatHttp3
