import KatHttp3.Library.MachineInt
import KatHttp3.Library.Transition
import KatHttp3.Library.WeightedList
import KatHttp3.Text.HeaderList

/-!
# Response header blocks

The callbacks that nghttp3 makes for the header blocks of a response. Interim blocks
may come in any number, and the first other block is the response that is notified.
A callback that fails ends the run. What a block says is stated on the fields
received since it began, and compared with what the callbacks keep in the job.
-/

namespace KatHttp3

open MachineInt Str WeightedList

def kMaxResponseHeaderSectionBytes : ℕ := 256 * 1024

def kMaxResponseHeaderCount : ℕ := 256

def kMaxSingleHeaderValueBytes : ℕ := 64 * 1024

def isTrailersValue (value : Str) : Bool := asciiIequals (trimOws value) "trailers".toList

/-- The fields of `Job` that the callbacks use, with the status and the headers of its response. -/
structure HeaderJob where
  statusCode : ℕ := 0
  headers : HeaderList := []
  responseHeaderBlock : HeaderList := []
  sawHeaders : Bool := false
  /-- A `uint8_t`. -/
  statusFieldCount : ℕ := 0
  sawRegularResponseHeader : Bool := false
  responseHeaderSectionBytes : ℕ := 0
  responseHeaderCount : ℕ := 0
  deriving DecidableEq

/-- A byte that no field name contains. -/
def invalidNameByte (ch : Char) : Bool := ch.toNat ≤ 0x20 || 0x7f ≤ ch.toNat || ('A' ≤ ch && ch ≤ 'Z')

def statusName : Str := ":status".toList

/-- A field that is specific to a connection. -/
def connectionSpecific (name value : Str) : Bool :=
  name == "connection".toList || name == "keep-alive".toList || name == "proxy-connection".toList ||
    name == "transfer-encoding".toList || name == "upgrade".toList ||
      (name == "te".toList && !isTrailersValue value)

namespace HeaderJob

variable (job : HeaderJob)

def resetHeaderBlock : HeaderJob :=
  { job with
    responseHeaderBlock := []
    statusFieldCount := 0
    sawRegularResponseHeader := false
    responseHeaderSectionBytes := 0
    responseHeaderCount := 0 }

def beginHeaders : HeaderJob :=
  let job := if job.sawHeaders then job else { job with headers := [], statusCode := 0 }
  job.resetHeaderBlock

/-- Whether a field is within the limits on sizes and numbers. -/
def withinLimits (name value : Str) : Bool :=
  name ≠ [] ∧ value.length ≤ kMaxSingleHeaderValueBytes ∧
    job.responseHeaderCount + 1 ≤ kMaxResponseHeaderCount ∧
      name.length ≤ usub 64 kMaxResponseHeaderSectionBytes job.responseHeaderSectionBytes ∧
        value.length ≤
          usub 64 (usub 64 kMaxResponseHeaderSectionBytes job.responseHeaderSectionBytes) name.length

/-- The job once the size of a field is accounted for. -/
def accountField (name value : Str) : HeaderJob :=
  { job with
    responseHeaderCount := job.responseHeaderCount + 1
    responseHeaderSectionBytes := job.responseHeaderSectionBytes + (name.length + value.length) }

/-- The branch of the `:status` field. A sign is no digit, and a negative number no status. -/
def recvStatus (value : Str) : Option HeaderJob :=
  let count := (job.statusFieldCount + 1) % 2 ^ 8
  if job.sawRegularResponseHeader = true ∨ count ≠ 1 then none
  else
    match fromChars (2 ^ 31 - 1) value with
    | none => none
    | some status =>
      if status < 100 ∨ 599 < status then none
      else some { job with statusFieldCount := count, statusCode := status }

/-- The branch of the other fields. -/
def recvRegular (name value : Str) : Option HeaderJob :=
  if name.head? = some ':' then none
  else if connectionSpecific name value then none
  else
    some
      { job with
        sawRegularResponseHeader := true
        responseHeaderBlock := job.responseHeaderBlock.add name value }

def recvHeader (name value : Str) : Option HeaderJob :=
  if job.withinLimits name value = false then none
  else if name.any invalidNameByte then none
  else if name = statusName then (job.accountField name value).recvStatus value
  else (job.accountField name value).recvRegular name value

/-- The job and the arguments of `notify_job_headers`, if that is called. -/
def endHeaders : Option (HeaderJob × Option (ℕ × HeaderList)) :=
  if job.statusFieldCount ≠ 1 then none
  else if 100 ≤ job.statusCode ∧ job.statusCode < 200 then
    if job.statusCode = 101 then none
    else some ({ job with statusCode := 0 }.resetHeaderBlock, none)
  else if job.sawHeaders then none
  else
    some
      ({ job with
          sawHeaders := true
          headers := job.responseHeaderBlock
          responseHeaderBlock := [] },
        some (job.statusCode, job.responseHeaderBlock))

end HeaderJob

/-! ### What a block says -/

namespace HeaderBlock

def isStatus (field : Header) : Bool := field.name == statusName

/-- The status in the first `:status` field. -/
def status (block : HeaderList) : Option ℕ :=
  (block.find? isStatus).bind fun field => fromChars (2 ^ 31 - 1) field.value

def regular (block : HeaderList) : HeaderList := block.filter fun field => !isStatus field

def fieldSize (field : Header) : ℕ := field.name.length + field.value.length

/-- The status and the fields of a block that is not an interim one. -/
def final (block : HeaderList) : Option (ℕ × HeaderList) :=
  match status block with
  | none => none
  | some status => if 100 ≤ status ∧ status < 200 then none else some (status, regular block)

/-- A field that a response may have. -/
structure Permitted (field : Header) : Prop where
  nonempty : field.name ≠ []
  bytes : field.name.any invalidNameByte = false
  value : field.value.length ≤ kMaxSingleHeaderValueBytes
  known : isStatus field = true ∨
    field.name.head? ≠ some ':' ∧ connectionSpecific field.name field.value = false

/-- A block that is led by its only `:status` field and within all limits. -/
structure WellFormed (block : HeaderList) : Prop where
  leading : ∃ status value rest, block = ⟨statusName, value⟩ :: rest ∧
    fromChars (2 ^ 31 - 1) value = some status ∧ 100 ≤ status ∧ status ≤ 599 ∧ status ≠ 101 ∧
      ∀ field ∈ rest, isStatus field = false
  permitted : ∀ field ∈ block, Permitted field
  count : block.length ≤ kMaxResponseHeaderCount
  size : total fieldSize block ≤ kMaxResponseHeaderSectionBytes

end HeaderBlock

/-! ### Runs -/

inductive HeaderCallback
  | beginHeaders
  | recvHeader (name value : Str)
  | endHeaders
  deriving DecidableEq

/-- A job with what has been received and notified. -/
structure HeaderRun where
  job : HeaderJob := {}
  /-- The fields since the block began. -/
  block : HeaderList := []
  /-- What the first block that is not an interim one says. -/
  response : Option (ℕ × HeaderList) := none
  /-- The calls of `notify_job_headers`. -/
  notified : List (ℕ × HeaderList) := []
  deriving DecidableEq

namespace HeaderRun

def step (s : HeaderRun) : HeaderCallback → Option HeaderRun
  | .beginHeaders => some { s with job := s.job.beginHeaders, block := [] }
  | .recvHeader name value =>
    (s.job.recvHeader name value).map fun job =>
      { s with job := job, block := s.block ++ [⟨name, value⟩] }
  | .endHeaders =>
    s.job.endHeaders.map fun (job, notice) =>
      { s with
        job := job
        block := []
        response := s.response.or (HeaderBlock.final s.block)
        notified := s.notified ++ notice.toList }

end HeaderRun

/-! ### One field -/

namespace HeaderJob

open HeaderBlock

variable {job : HeaderJob} {name value : Str}

/-- What the job has counted of a field that is within the limits. -/
structure Within (job : HeaderJob) (field : Header) : Prop where
  nonempty : field.name ≠ []
  value : field.value.length ≤ kMaxSingleHeaderValueBytes
  count : job.responseHeaderCount + 1 ≤ kMaxResponseHeaderCount
  size : job.responseHeaderSectionBytes + fieldSize field ≤ kMaxResponseHeaderSectionBytes

theorem within_of_withinLimits
    (hbytes : job.responseHeaderSectionBytes ≤ kMaxResponseHeaderSectionBytes)
    (h : job.withinLimits name value = true) : job.Within ⟨name, value⟩ := by
  simp only [withinLimits, decide_eq_true_eq] at h
  obtain ⟨hname, hvalue, hcount, hfirst, hsecond⟩ := h
  rw [usub_of_le hbytes] at hfirst hsecond
  rw [usub_of_le hfirst] at hsecond
  refine ⟨hname, hvalue, hcount, ?_⟩
  dsimp only [fieldSize]
  omega

/-- What an accepted field does to the job. -/
inductive Received (job : HeaderJob) (name value : Str) : HeaderJob → Prop
  | status (status : ℕ) (name_eq : name = statusName)
      (first : job.sawRegularResponseHeader = false ∧ (job.statusFieldCount + 1) % 2 ^ 8 = 1)
      (parsed : fromChars (2 ^ 31 - 1) value = some status) (range : 100 ≤ status ∧ status ≤ 599) :
      Received job name value
        { job.accountField name value with statusFieldCount := 1, statusCode := status }
  | regular (name_ne : name ≠ statusName)
      (known : name.head? ≠ some ':' ∧ connectionSpecific name value = false) :
      Received job name value
        { job.accountField name value with
          sawRegularResponseHeader := true
          responseHeaderBlock := job.responseHeaderBlock.add name value }

theorem recvHeader_cases {job' : HeaderJob} (h : job.recvHeader name value = some job') :
    job.withinLimits name value = true ∧ name.any invalidNameByte = false ∧
      Received job name value job' := by
  unfold recvHeader at h
  split_ifs at h with hlimits hname hstatus
  · refine ⟨by simpa using hlimits, by simpa using hname, ?_⟩
    unfold recvStatus at h
    dsimp only at h
    split_ifs at h with hfirst
    simp only [not_or, Bool.not_eq_true, not_not] at hfirst
    split at h
    · cases h
    · rename_i status hparsed
      split_ifs at h with hrange
      obtain rfl := Option.some.inj h
      rw [hfirst.2]
      exact .status status hstatus hfirst hparsed (by omega)
  · refine ⟨by simpa using hlimits, by simpa using hname, ?_⟩
    unfold recvRegular at h
    split_ifs at h with hpseudo hspecific
    obtain rfl := Option.some.inj h
    exact .regular hstatus ⟨hpseudo, by simpa using hspecific⟩

theorem isStatus_iff : isStatus ⟨name, value⟩ = true ↔ name = statusName := by
  simp [isStatus]

theorem permitted_of_recvHeader {job' : HeaderJob}
    (hbytes : job.responseHeaderSectionBytes ≤ kMaxResponseHeaderSectionBytes)
    (h : job.recvHeader name value = some job') :
    job.Within ⟨name, value⟩ ∧ Permitted ⟨name, value⟩ := by
  obtain ⟨hlimits, hname, hreceived⟩ := recvHeader_cases h
  have hwithin := within_of_withinLimits hbytes hlimits
  refine ⟨hwithin, hwithin.nonempty, hname, hwithin.value, ?_⟩
  cases hreceived with
  | status status name_eq first parsed range => exact .inl (isStatus_iff.mpr name_eq)
  | regular name_ne known => exact .inr known

/-! ### A block -/

/-- What the job keeps of the fields of the current block. -/
structure Tracks (job : HeaderJob) (block : HeaderList) : Prop where
  regular : job.responseHeaderBlock = HeaderBlock.regular block
  seen : job.sawRegularResponseHeader = false → HeaderBlock.regular block = []
  bytes : job.responseHeaderSectionBytes = total fieldSize block
  size : total fieldSize block ≤ kMaxResponseHeaderSectionBytes
  fields : job.responseHeaderCount = block.length
  count : block.length ≤ kMaxResponseHeaderCount
  permitted : ∀ field ∈ block, Permitted field
  status : (job.statusFieldCount = 0 ∧ ∀ field ∈ block, isStatus field = false) ∨
    (job.statusFieldCount = 1 ∧ ∃ value rest, block = ⟨statusName, value⟩ :: rest ∧
      fromChars (2 ^ 31 - 1) value = some job.statusCode ∧ 100 ≤ job.statusCode ∧
        job.statusCode ≤ 599 ∧ ∀ field ∈ rest, isStatus field = false)

theorem tracks_nil (job : HeaderJob) : job.resetHeaderBlock.Tracks [] :=
  ⟨rfl, fun _ => rfl, rfl, Nat.zero_le _, rfl, Nat.zero_le _, nofun, .inl ⟨rfl, nofun⟩⟩

theorem tracks_beginHeaders (job : HeaderJob) : job.beginHeaders.Tracks [] := by
  unfold beginHeaders
  apply tracks_nil

theorem Tracks.eq_nil {block : HeaderList} (h : job.Tracks block)
    (hseen : job.sawRegularResponseHeader = false) (hfirst : (job.statusFieldCount + 1) % 2 ^ 8 = 1) :
    block = [] := by
  rcases h.status with ⟨-, hnone⟩ | ⟨hone, -⟩
  · have hregular := h.seen hseen
    apply List.eq_nil_iff_forall_not_mem.mpr
    intro field hfield
    apply List.not_mem_nil (a := field)
    rw [← hregular]
    exact List.mem_filter.mpr ⟨hfield, by simp [hnone field hfield]⟩
  · rw [hone] at hfirst
    cases hfirst

theorem Tracks.recvHeader {block : HeaderList} {job' : HeaderJob} (h : job.Tracks block)
    (hrecv : job.recvHeader name value = some job') : job'.Tracks (block ++ [⟨name, value⟩]) := by
  have hbytes : job.responseHeaderSectionBytes ≤ kMaxResponseHeaderSectionBytes := by
    rw [h.bytes]
    exact h.size
  obtain ⟨hwithin, hpermitted⟩ := permitted_of_recvHeader hbytes hrecv
  have hsize := hwithin.size
  have hcount := hwithin.count
  rw [h.bytes] at hsize
  rw [h.fields] at hcount
  have htotal : total fieldSize (block ++ [(⟨name, value⟩ : Header)]) =
      total fieldSize block + fieldSize ⟨name, value⟩ := by
    simp
  have hlength : (block ++ [(⟨name, value⟩ : Header)]).length = block.length + 1 := by simp
  have hall : ∀ field ∈ block ++ [⟨name, value⟩], Permitted field :=
    List.forall_mem_append.mpr ⟨h.permitted, List.forall_mem_singleton.mpr hpermitted⟩
  obtain ⟨-, -, hreceived⟩ := recvHeader_cases hrecv
  cases hreceived with
  | status status name_eq first parsed range =>
    obtain rfl : block = [] := h.eq_nil first.1 first.2
    subst name_eq
    refine ⟨h.regular.trans rfl, fun _ => rfl, ?_, ?_, ?_, ?_, hall, .inr ⟨rfl, value, [], rfl, parsed, range.1, range.2, nofun⟩⟩
    · rw [htotal, ← h.bytes]
      rfl
    · rw [htotal]
      exact hsize
    · rw [hlength, ← h.fields]
      rfl
    · rw [hlength]
      exact hcount
  | regular name_ne known =>
    have hregular : isStatus ⟨name, value⟩ = false := by simp [isStatus, name_ne]
    have hadd : HeaderBlock.regular (block ++ [⟨name, value⟩]) =
        (HeaderBlock.regular block).add name value := by
      simp [HeaderBlock.regular, HeaderList.add, hregular]
    have hseen : true = false → HeaderBlock.regular (block ++ [⟨name, value⟩]) = [] := by
      intro hfalse
      cases hfalse
    refine ⟨?_, hseen, ?_, ?_, ?_, ?_, hall, ?_⟩
    · rw [hadd, ← h.regular]
    · rw [htotal, ← h.bytes]
      rfl
    · rw [htotal]
      exact hsize
    · rw [hlength, ← h.fields]
      rfl
    · rw [hlength]
      exact hcount
    · rcases h.status with ⟨hzero, hnone⟩ | ⟨hone, first, rest, rfl, hparsed, hlow, hhigh, hrest⟩
      · exact .inl ⟨hzero, List.forall_mem_append.mpr ⟨hnone, List.forall_mem_singleton.mpr hregular⟩⟩
      · refine .inr ⟨hone, first, rest ++ [⟨name, value⟩], rfl, hparsed, hlow, hhigh, ?_⟩
        exact List.forall_mem_append.mpr ⟨hrest, List.forall_mem_singleton.mpr hregular⟩

/-- What the end of a block does to the job, and what is notified. -/
inductive Ended (job : HeaderJob) : HeaderJob → Option (ℕ × HeaderList) → Prop
  | interim (range : 100 ≤ job.statusCode ∧ job.statusCode < 200) (not : job.statusCode ≠ 101) :
      Ended job { job with statusCode := 0 }.resetHeaderBlock none
  | final (range : ¬(100 ≤ job.statusCode ∧ job.statusCode < 200)) (new : job.sawHeaders = false) :
      Ended job
        { job with
          sawHeaders := true
          headers := job.responseHeaderBlock
          responseHeaderBlock := [] }
        (some (job.statusCode, job.responseHeaderBlock))

theorem endHeaders_cases {job' : HeaderJob} {notice : Option (ℕ × HeaderList)}
    (h : job.endHeaders = some (job', notice)) : job.statusFieldCount = 1 ∧ job.Ended job' notice := by
  unfold endHeaders at h
  split_ifs at h with hcount hrange hupgrade hsaw
  · obtain ⟨rfl, rfl⟩ := Prod.mk.inj (Option.some.inj h)
    exact ⟨not_not.mp hcount, .interim hrange hupgrade⟩
  · obtain ⟨rfl, rfl⟩ := Prod.mk.inj (Option.some.inj h)
    exact ⟨not_not.mp hcount, .final hrange (Bool.not_eq_true _ ▸ hsaw)⟩

variable {block : HeaderList}

theorem Tracks.leading (h : job.Tracks block) (hone : job.statusFieldCount = 1) :
    ∃ value rest, block = ⟨statusName, value⟩ :: rest ∧
      fromChars (2 ^ 31 - 1) value = some job.statusCode ∧ 100 ≤ job.statusCode ∧
        job.statusCode ≤ 599 ∧ ∀ field ∈ rest, isStatus field = false := by
  rcases h.status with ⟨hzero, -⟩ | ⟨-, hleading⟩
  · rw [hzero] at hone
    cases hone
  · exact hleading

theorem beginHeaders_sawHeaders (job : HeaderJob) : job.beginHeaders.sawHeaders = job.sawHeaders := by
  unfold beginHeaders
  split_ifs <;> rfl

theorem recvHeader_sawHeaders {job' : HeaderJob} (h : job.recvHeader name value = some job') :
    job'.sawHeaders = job.sawHeaders ∧ job'.headers = job.headers := by
  obtain ⟨-, -, hreceived⟩ := recvHeader_cases h
  cases hreceived <;> exact ⟨rfl, rfl⟩

theorem recvHeader_bytes {job' : HeaderJob}
    (hbytes : job.responseHeaderSectionBytes ≤ kMaxResponseHeaderSectionBytes)
    (h : job.recvHeader name value = some job') :
    job'.responseHeaderSectionBytes ≤ kMaxResponseHeaderSectionBytes := by
  have hsize := (permitted_of_recvHeader hbytes h).1.size
  obtain ⟨-, -, hreceived⟩ := recvHeader_cases h
  cases hreceived <;> exact hsize

/-- What the block says is what the job keeps of it. -/
theorem Tracks.final_eq (h : job.Tracks block) (hone : job.statusFieldCount = 1) :
    HeaderBlock.final block =
      if 100 ≤ job.statusCode ∧ job.statusCode < 200 then none
      else some (job.statusCode, job.responseHeaderBlock) := by
  obtain ⟨value, rest, hblock, hparsed, -⟩ := h.leading hone
  have hstatus : HeaderBlock.status block = some job.statusCode := by
    rw [hblock]
    simpa [HeaderBlock.status, isStatus] using hparsed
  rw [h.regular]
  simp only [HeaderBlock.final, hstatus]

theorem Tracks.wellFormed {job' : HeaderJob} {notice : Option (ℕ × HeaderList)}
    (h : job.Tracks block) (hend : job.endHeaders = some (job', notice)) : WellFormed block := by
  obtain ⟨hone, hended⟩ := endHeaders_cases hend
  obtain ⟨value, rest, hblock, hparsed, hlow, hhigh, hrest⟩ := h.leading hone
  have hupgrade : job.statusCode ≠ 101 := by
    cases hended with
    | interim range not => exact not
    | final range new =>
      intro heq
      apply range
      omega
  exact ⟨⟨job.statusCode, value, rest, hblock, hparsed, hlow, hhigh, hupgrade, hrest⟩,
    h.permitted, h.count, h.size⟩

/-- The subtractions of `withinLimits` that are evaluated do not wrap around. -/
def NoWrap (job : HeaderJob) : Prop :=
  usub 64 kMaxResponseHeaderSectionBytes job.responseHeaderSectionBytes +
      job.responseHeaderSectionBytes = kMaxResponseHeaderSectionBytes ∧
    ∀ length ≤ usub 64 kMaxResponseHeaderSectionBytes job.responseHeaderSectionBytes,
      usub 64 (usub 64 kMaxResponseHeaderSectionBytes job.responseHeaderSectionBytes) length +
        length + job.responseHeaderSectionBytes = kMaxResponseHeaderSectionBytes

theorem noWrap_of_le (h : job.responseHeaderSectionBytes ≤ kMaxResponseHeaderSectionBytes) :
    job.NoWrap := by
  unfold NoWrap
  rw [usub_of_le h]
  refine ⟨Nat.sub_add_cancel h, ?_⟩
  intro length hlength
  rw [usub_of_le hlength]
  omega

end HeaderJob

/-! ### All blocks -/

namespace HeaderRun

open HeaderBlock HeaderJob

/-- The callbacks of a whole block. -/
def blockCalls (fields : HeaderList) : List HeaderCallback :=
  .beginHeaders :: fields.map (fun field => .recvHeader field.name field.value) ++ [.endHeaders]

/-- No `:status` field says anything new once the response is there. -/
def KeepsStatus (s : HeaderRun) : HeaderCallback → Prop
  | .recvHeader name value => s.job.sawHeaders = true → name = statusName →
      fromChars (2 ^ 31 - 1) value = some s.job.statusCode
  | _ => True

instance (s : HeaderRun) (call : HeaderCallback) : Decidable (s.KeepsStatus call) := by
  cases call <;> unfold KeepsStatus <;> infer_instance

/-- The job has the status and the headers of the response. -/
def HasResponse (s : HeaderRun) : Prop := ∀ r ∈ s.response, (s.job.statusCode, s.job.headers) = r

/-- What all callbacks keep. -/
structure Inv (s : HeaderRun) : Prop where
  saw : s.job.sawHeaders = s.response.isSome
  notified : s.notified = s.response.toList
  bytes : s.job.responseHeaderSectionBytes ≤ kMaxResponseHeaderSectionBytes
  tracks : s.job.sawHeaders = false → s.job.Tracks s.block
  final : ∀ r ∈ s.response, ¬(100 ≤ r.1 ∧ r.1 < 200)

variable {s s' : HeaderRun} {call : HeaderCallback}

/-- The step at the end of a block. -/
inductive EndStep (s : HeaderRun) : HeaderRun → Prop
  | interim (range : 100 ≤ s.job.statusCode ∧ s.job.statusCode < 200) :
      EndStep s { s with job := { s.job with statusCode := 0 }.resetHeaderBlock, block := [] }
  | final (new : s.job.sawHeaders = false)
      (range : ¬(100 ≤ s.job.statusCode ∧ s.job.statusCode < 200)) :
      EndStep s
        { job :=
            { s.job with
              sawHeaders := true
              headers := s.job.responseHeaderBlock
              responseHeaderBlock := [] }
          block := []
          response := some (s.job.statusCode, s.job.responseHeaderBlock)
          notified := [(s.job.statusCode, s.job.responseHeaderBlock)] }

theorem Inv.end_cases (h : s.Inv) (hstep : s.step .endHeaders = some s') : s.EndStep s' := by
  obtain ⟨⟨job, notice⟩, hend, rfl⟩ := Option.map_eq_some_iff.mp hstep
  obtain ⟨hone, hended⟩ := endHeaders_cases hend
  have hblock : s.job.sawHeaders = false → s.response = none ∧ HeaderBlock.final s.block =
      if 100 ≤ s.job.statusCode ∧ s.job.statusCode < 200 then none
      else some (s.job.statusCode, s.job.responseHeaderBlock) := by
    intro hnew
    exact ⟨Option.not_isSome_iff_eq_none.mp (by simp [← h.saw, hnew]), (h.tracks hnew).final_eq hone⟩
  cases hended with
  | interim range not =>
    have hresponse : s.response.or (HeaderBlock.final s.block) = s.response := by
      cases hsaw : s.job.sawHeaders with
      | true =>
        obtain ⟨r, hr⟩ := Option.isSome_iff_exists.mp (h.saw ▸ hsaw)
        rw [hr, Option.some_or]
      | false =>
        obtain ⟨hnone, hfinal⟩ := hblock hsaw
        rw [hfinal, if_pos range, Option.or_none]
    simp only [hresponse, Option.toList_none, List.append_nil]
    exact .interim range
  | final range new =>
    obtain ⟨hnone, hfinal⟩ := hblock new
    have hnotified : s.notified = [] := by rw [h.notified, hnone, Option.toList_none]
    simp only [hnone, hfinal, if_neg range, Option.none_or, hnotified, Option.toList_some,
      List.nil_append]
    exact .final new range

theorem inv_start : Inv {} :=
  ⟨rfl, rfl, Nat.zero_le _, fun _ => tracks_nil {}, nofun⟩

theorem Inv.step (h : s.Inv) (hstep : s.step call = some s') : s'.Inv := by
  cases call with
  | beginHeaders =>
    obtain rfl := Option.some.inj hstep
    have htracks := tracks_beginHeaders s.job
    exact ⟨(beginHeaders_sawHeaders s.job).trans h.saw, h.notified, htracks.bytes.trans_le htracks.size,
      fun _ => htracks, h.final⟩
  | recvHeader name value =>
    obtain ⟨job, hrecv, rfl⟩ := Option.map_eq_some_iff.mp hstep
    have hsaw := (recvHeader_sawHeaders hrecv).1
    refine ⟨hsaw.trans h.saw, h.notified, recvHeader_bytes h.bytes hrecv, ?_, h.final⟩
    intro hnew
    exact (h.tracks (hsaw.symm.trans hnew)).recvHeader hrecv
  | endHeaders =>
    cases h.end_cases hstep with
    | interim range =>
      exact ⟨h.saw, h.notified, Nat.zero_le _, fun _ => tracks_nil _, h.final⟩
    | final new range =>
      refine ⟨rfl, rfl, h.bytes, nofun, ?_⟩
      intro r hr
      obtain rfl := Option.mem_some_iff.mp hr
      exact range

/-- A step keeps the response exactly if it says nothing new. -/
theorem Inv.hasResponse_iff (h : s.Inv) (hresponse : s.HasResponse) (hstep : s.step call = some s') :
    s'.HasResponse ↔ s.KeepsStatus call := by
  cases call with
  | beginHeaders =>
    obtain rfl := Option.some.inj hstep
    refine iff_of_true ?_ trivial
    intro r hr
    have hsaw : s.job.sawHeaders = true := by rw [h.saw, Option.mem_def.mp hr, Option.isSome_some]
    rw [← hresponse r hr]
    simp [beginHeaders, resetHeaderBlock, hsaw]
  | recvHeader name value =>
    obtain ⟨job, hrecv, rfl⟩ := Option.map_eq_some_iff.mp hstep
    obtain ⟨-, -, hreceived⟩ := recvHeader_cases hrecv
    cases hreceived with
    | status status name_eq first parsed range =>
      constructor
      · intro hafter hsaw _
        obtain ⟨r, hr⟩ := Option.isSome_iff_exists.mp (h.saw ▸ hsaw)
        rw [parsed]
        have hnew := congrArg Prod.fst (hafter r hr)
        have hold := congrArg Prod.fst (hresponse r hr)
        exact congrArg some (hnew.trans hold.symm)
      · intro hkeeps r hr
        have hsaw : s.job.sawHeaders = true := by rw [h.saw, Option.mem_def.mp hr, Option.isSome_some]
        obtain rfl : status = s.job.statusCode := Option.some.inj (parsed.symm.trans (hkeeps hsaw name_eq))
        exact hresponse r hr
    | regular name_ne known =>
      exact iff_of_true hresponse fun _ heq => absurd heq name_ne
  | endHeaders =>
    refine iff_of_true ?_ trivial
    cases h.end_cases hstep with
    | interim range =>
      intro r hr
      apply absurd range
      have hstatus := congrArg Prod.fst (hresponse r hr)
      rw [show s.job.statusCode = r.1 from hstatus]
      exact h.final r hr
    | final new range =>
      intro r hr
      exact Option.mem_some_iff.mp hr

/-! ### One block of a run -/

/-- Only the end of a block notifies. -/
theorem notified_eq {calls : List HeaderCallback} (hcalls : ∀ call ∈ calls, call ≠ .endHeaders)
    (hrun : Transition.run step s calls = some s') : s'.notified = s.notified := by
  induction calls generalizing s with
  | nil =>
    obtain rfl := Option.some.inj hrun
    rfl
  | cons call calls ih =>
    obtain ⟨hcall, hcalls⟩ := List.forall_mem_cons.mp hcalls
    obtain ⟨t, hstep, hrest⟩ := Transition.run_cons.mp hrun
    rw [ih hcalls hrest]
    cases call with
    | beginHeaders =>
      obtain rfl := Option.some.inj hstep
      rfl
    | recvHeader name value =>
      obtain ⟨job, -, rfl⟩ := Option.map_eq_some_iff.mp hstep
      rfl
    | endHeaders => exact absurd rfl hcall

theorem run_tracks {fields : HeaderList} (h : s.job.Tracks s.block)
    (hrun : Transition.run step s
      (fields.map fun field => HeaderCallback.recvHeader field.name field.value) = some s') :
    s'.job.Tracks s'.block ∧ s'.block = s.block ++ fields := by
  induction fields generalizing s with
  | nil =>
    obtain rfl := Option.some.inj hrun
    exact ⟨h, (List.append_nil _).symm⟩
  | cons field fields ih =>
    obtain ⟨t, hstep, hrest⟩ := Transition.run_cons.mp hrun
    obtain ⟨job, hrecv, rfl⟩ := Option.map_eq_some_iff.mp hstep
    obtain ⟨htracks, hblock⟩ := ih (h.recvHeader hrecv) hrest
    refine ⟨htracks, ?_⟩
    rw [hblock, List.append_assoc, List.singleton_append]

theorem wellFormed_of_run {fields : HeaderList}
    (hrun : Transition.run step s (blockCalls fields) = some s') : WellFormed fields := by
  obtain ⟨t, hfields, hend⟩ := Transition.run_append.mp hrun
  obtain ⟨u, hbegin, hfields⟩ := Transition.run_cons.mp hfields
  obtain rfl := Option.some.inj hbegin
  obtain ⟨htracks, hblock⟩ := run_tracks (tracks_beginHeaders s.job) hfields
  obtain ⟨v, hend, -⟩ := Transition.run_cons.mp hend
  obtain ⟨⟨job, notice⟩, hend, -⟩ := Option.map_eq_some_iff.mp hend
  have hwell := htracks.wellFormed hend
  rwa [hblock] at hwell

/-- A malformed block ends in an error, and nothing is notified before. -/
theorem rejects_of_not_wellFormed {fields : HeaderList} (h : ¬WellFormed fields) :
    Transition.run step s (blockCalls fields) = none ∧
      ∀ before t, before <+: blockCalls fields → Transition.run step s before = some t →
        t.notified = s.notified := by
  have hnone : Transition.run step s (blockCalls fields) = none := by
    apply Option.eq_none_iff_forall_ne_some.mpr
    intro t ht
    exact h (wellFormed_of_run ht)
  refine ⟨hnone, ?_⟩
  intro before t hprefix hrun
  rcases List.prefix_concat_iff.mp hprefix with hwhole | hproper
  · rw [show before = blockCalls fields from hwhole, hnone] at hrun
    cases hrun
  · apply notified_eq _ hrun
    intro call hcall
    have hmem := hproper.subset hcall
    rintro rfl
    simp at hmem

/-- In every run of the callbacks without an error, what is notified is the first response
that is not an interim one, no size wraps around and malformed blocks are rejected; the job
keeps the response in every state reached if and only if no `:status` field says anything
new once the response is there. -/
theorem responseHeaders_kept_iff (calls : List HeaderCallback) (s : HeaderRun)
    (hrun : Transition.run step {} calls = some s) :
    s.notified = s.response.toList ∧ s.job.NoWrap ∧
      (∀ fields, ¬WellFormed fields → Transition.run step s (blockCalls fields) = none ∧
        ∀ before t, before <+: blockCalls fields → Transition.run step s before = some t →
          t.notified = s.notified) ∧
      (Transition.Meets step KeepsStatus {} calls ↔
        ∀ before after t, calls = before ++ after → Transition.run step {} before = some t →
          t.HasResponse) := by
  have hinv : s.Inv := Transition.run_invariant_of_step (fun _ _ _ h hstep => h.step hstep) hrun inv_start
  refine ⟨hinv.notified, noWrap_of_le hinv.bytes, fun _ => rejects_of_not_wellFormed, ?_⟩
  apply Transition.meets_iff (fun t (h : Inv t ∧ HasResponse t) => h.2) _ _ hrun
  · exact ⟨inv_start, nofun⟩
  · intro t call u h hok hstep
    exact ⟨h.1.step hstep, (h.1.hasResponse_iff h.2 hstep).mpr hok⟩
  · intro t call u h hstep hgood
    exact (h.1.hasResponse_iff h.2 hstep).mp hgood

/-- An interim block and the final one with a field. -/
def interimCalls : List HeaderCallback :=
  blockCalls [⟨statusName, "103".toList⟩] ++
    blockCalls [⟨statusName, "200".toList⟩, ⟨"a".toList, "b".toList⟩]

theorem responseHeaders_kept_iff_interim :
    ∃ s, Transition.run step {} interimCalls = some s ∧
      s.notified = [(200, [⟨"a".toList, "b".toList⟩])] ∧ s.notified = s.response.toList ∧
      ∀ before after t, interimCalls = before ++ after → Transition.run step {} before = some t →
        t.HasResponse := by
  obtain ⟨s, hrun, hnotified⟩ := Option.map_eq_some_iff.mp
    (show (Transition.run step {} interimCalls).map HeaderRun.notified =
      some [(200, [⟨"a".toList, "b".toList⟩])] by decide +kernel)
  have hkept := responseHeaders_kept_iff interimCalls s hrun
  exact ⟨s, hrun, hnotified, hkept.1, hkept.2.2.2.mp (by decide +kernel)⟩

/-- An interim block after the response takes its status away. -/
theorem responseHeaders_changed :
    Transition.run step {}
        (blockCalls [⟨statusName, "200".toList⟩] ++ blockCalls [⟨statusName, "103".toList⟩]) =
      some { job := { sawHeaders := true }, response := some (200, []), notified := [(200, [])] } ∧
    ¬HasResponse
      { job := { sawHeaders := true }, response := some (200, []), notified := [(200, [])] } := by
  refine ⟨by decide +kernel, ?_⟩
  intro h
  exact absurd (congrArg Prod.fst (h _ rfl)) (by decide)

end HeaderRun

end KatHttp3
