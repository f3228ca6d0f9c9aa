import KatHttp3.Connection.ContentLength
import KatHttp3.Engine.Credentials
import KatHttp3.Text.LetterCase

/-!
# The field sections sent

What `submit_request` hands to nghttp3 for the request of a hop. The fields that
an application adds are checked by `kathttp3_request_add_header`, those that the
engine adds are a few, and a redirect only takes fields away, so that every hop
sends a field section that HTTP/3 allows and that states the length of its body.
-/

namespace KatHttp3

open Str

/-! ### submit_request -/

/-- The Content-Length that is generated for a body without one. -/
def generatedContentLength (request : Request) : HeaderList :=
  let hasCl := request.headers.any fun header => asciiIequals header.name "content-length".toList
  if (request.body ≠ [] ∨ request.streamingBody) ∧ hasCl = false ∧
      (request.streamingBody = false ∨ 0 ≤ request.streamingBodyLength) then
    [⟨"content-length".toList, ofNat request.bodyLength⟩]
  else []

/-- The fields handed to nghttp3 and whether a data reader goes with them. -/
def submitRequest (url : Url) (request : Request) : HeaderList × Bool :=
  ([⟨":method".toList, request.method⟩, ⟨":scheme".toList, url.scheme⟩,
      ⟨":authority".toList, url.authority⟩, ⟨":path".toList, url.requestTarget⟩] ++
      request.headers ++ generatedContentLength request,
    request.body != [] || request.streamingBody)

theorem any_contentLength (headers : HeaderList) :
    (headers.any fun header => asciiIequals header.name "content-length".toList) = false ↔
      headers.getAll "content-length".toList = [] := by
  simp [HeaderList.getAll, List.filter_eq_nil_iff]

/-- The Content-Length fields of the section are those of `sentContentLengths`. -/
theorem submitRequest_contentLengths (url : Url) (request : Request) :
    (submitRequest url request).1.getAll "content-length".toList = sentContentLengths request := by
  have hpseudo (method scheme authority path : Str) :
      HeaderList.getAll [⟨":method".toList, method⟩, ⟨":scheme".toList, scheme⟩,
        ⟨":authority".toList, authority⟩, ⟨":path".toList, path⟩] "content-length".toList = [] := by
    unfold HeaderList.getAll
    rfl
  unfold submitRequest
  rw [HeaderList.getAll_append, HeaderList.getAll_append, hpseudo, List.nil_append]
  unfold generatedContentLength sentContentLengths
  dsimp only
  by_cases hgiven : request.headers.getAll "content-length".toList = []
  · rw [(any_contentLength _).mpr hgiven, hgiven]
    simp only [true_and, List.nil_append]
    split_ifs
    · simp [HeaderList.getAll, asciiIequals]
    · rfl
  · have hany : (request.headers.any fun header =>
        asciiIequals header.name "content-length".toList) ≠ false :=
      fun h => hgiven ((any_contentLength _).mp h)
    rw [if_neg (fun h => hany h.2.1), if_neg (fun h => hgiven h.2.1)]
    simp

/-! ### Fields that HTTP/3 allows -/

structure Header.Allowed (header : Header) : Prop where
  token : isFieldName header.name = true
  lower : asciiLower header.name = header.name
  permitted : forbiddenHttp3Header header.name = false
  trailers : header.name = "te".toList → validTeValue header.value = true

theorem isTokenChar_toLower {c : Char} (h : isTokenChar c = true) : isTokenChar c.toLower = true := by
  by_cases hupper : c.val ≥ 'A'.val ∧ c.val ≤ 'Z'.val
  · have hlower : c.toLower.isLower = true := by
      rw [isLower_eq, toLower_of_upper hupper]
      simp only [ge_iff_le, UInt32.le_iff_toNat_le, UInt32.toNat_add, UInt32.toNat_sub,
        UInt32.reduceToNat, Char.reduceVal, Bool.and_eq_true, decide_eq_true_eq] at hupper ⊢
      omega
    simp [isTokenChar, Char.isAlphanum, isAlpha_eq, hlower]
  · rwa [toLower_of_not_upper hupper]

theorem isFieldName_asciiLower {name : Str} (h : isFieldName name = true) :
    isFieldName (asciiLower name) = true := by
  simp only [isFieldName, Bool.and_eq_true, bne_iff_ne, ne_eq, List.all_eq_true] at h ⊢
  refine ⟨by simpa [asciiLower] using h.1, fun c hc => ?_⟩
  obtain ⟨d, hd, rfl⟩ := List.mem_map.mp hc
  exact isTokenChar_toLower (h.2 d hd)

theorem allowed_literal {name : Str} (value : Str) (h : (isFieldName name && asciiLower name == name &&
    !forbiddenHttp3Header name && name != "te".toList) = true) : Header.Allowed ⟨name, value⟩ := by
  simp only [Bool.and_eq_true, Bool.not_eq_true', beq_iff_eq, bne_iff_ne, ne_eq] at h
  exact ⟨h.1.1.1, h.1.1.2, h.1.2, fun hte => absurd hte h.2⟩

/-! ### Requests that may be sent -/

namespace Request

/-- What lets a request be sent on a hop, and what its redirects inherit. -/
structure Lawful (request : Request) : Prop where
  method : isFieldName request.method = true
  fields : ∀ header ∈ request.headers, header.Allowed
  length : ∀ header ∈ request.headers, header.name = "content-length".toList →
    Announces header.value request.bodyLength ∧
      (request.streamingBody = true → 0 ≤ request.streamingBodyLength)

theorem Built.allowed {request : Request} (h : request.Built) :
    ∀ header ∈ request.headers, header.Allowed := by
  induction h with
  | create method url => exact nofun
  | @addHeader request request' name value built added ih =>
    unfold Request.addHeader at added
    dsimp only at added
    split_ifs at added with hvalid hforbidden hte
    obtain rfl := Option.some.inj added
    intro header hheader
    rcases List.mem_append.mp hheader with hold | hnew
    · exact ih header hold
    · obtain rfl := List.mem_singleton.mp hnew
      rw [Bool.not_eq_false, validHeader, Bool.and_eq_true] at hvalid
      refine ⟨isFieldName_asciiLower hvalid.1, asciiLower_asciiLower _,
        Bool.eq_false_of_not_eq_true hforbidden, fun hname => ?_⟩
      by_contra hvalue
      exact hte ⟨hname, Bool.eq_false_of_not_eq_true hvalue⟩
  | setBody built data ih => exact ih
  | setStreamingBody built set ih =>
    unfold Request.setStreamingBody at set
    split_ifs at set
    obtain rfl := Option.some.inj set
    exact ih
  | setFollowRedirects built enable ih => exact ih
  | setStreaming built enable ih => exact ih

theorem validateRequestBodyFraming_method {request accepted : Request}
    (h : validateRequestBodyFraming request = some accepted) : accepted.method = request.method := by
  unfold validateRequestBodyFraming at h
  split at h
  · cases h
  · split_ifs at h with hstreaming
    · split at h
      · cases h
        rfl
      · split_ifs at h
        cases h
        rfl
    · cases h
      rfl

/-- An accepted request may be sent. -/
theorem Built.lawful {request accepted : Request} (hbuilt : request.Built)
    (hmethod : isFieldName request.method = true)
    (hvalid : validateRequestBodyFraming request = some accepted) : accepted.Lawful := by
  obtain ⟨length, hlength, hheaders, hagrees⟩ := validateRequestBodyFraming_eq_some hvalid
  constructor
  case method => rwa [validateRequestBodyFraming_method hvalid]
  case fields =>
    rw [hheaders]
    exact hbuilt.allowed
  case length =>
    intro header hmem hname
    rw [hheaders] at hmem
    have hvalue : header.value ∈ request.headers.getAll "content-length".toList :=
      List.mem_map.mpr ⟨header, List.mem_filter.mpr ⟨hmem, by simp [hname, asciiIequals]⟩, rfl⟩
    obtain ⟨n, hn, hchars⟩ := fromChars_of_framingLength hbuilt.wellFormed hlength hvalue
    obtain ⟨hbody, hdeclared⟩ := hagrees n hn
    exact ⟨hbody ▸ announces_of_fromChars hchars, hdeclared⟩

/-- Fields that state no length may be added. -/
theorem Lawful.add {request : Request} (h : request.Lawful) {added : HeaderList}
    (hadded : ∀ header ∈ added, header.Allowed ∧ header.name ≠ "content-length".toList) :
    Lawful { request with headers := request.headers ++ added } where
  method := h.method
  fields header hmem := by
    rcases List.mem_append.mp hmem with hmem | hmem
    · exact h.fields header hmem
    · exact (hadded header hmem).1
  length header hmem hname := by
    rcases List.mem_append.mp hmem with hmem | hmem
    · exact h.length header hmem hname
    · exact absurd hname (hadded header hmem).2

theorem Lawful.addCookie {request : Request} (h : request.Lawful) (cookie : Str) :
    (addCookieHeader request cookie).Lawful := by
  unfold addCookieHeader
  split_ifs
  · exact h
  · exact h
  · apply h.add
    intro header hmem
    rw [List.mem_singleton.mp hmem]
    exact ⟨allowed_literal cookie (by decide), by simp⟩

theorem Lawful.addValidators {request : Request} (h : request.Lawful) {added : HeaderList}
    (hadded : ∀ header ∈ added,
      header.name = "if-none-match".toList ∨ header.name = "if-modified-since".toList) :
    Lawful { request with headers := request.headers ++ added } := by
  apply h.add
  rintro ⟨name, value⟩ hmem
  rcases hadded _ hmem with hname | hname
  · obtain rfl : name = _ := hname
    exact ⟨allowed_literal value (by decide), by simp⟩
  · obtain rfl : name = _ := hname
    exact ⟨allowed_literal value (by decide), by simp⟩

end Request

/-- Every Content-Length that is sent states the length of the body. -/
theorem Request.Lawful.sentContentLengths {request : Request} (h : request.Lawful) {value : Str}
    (hvalue : value ∈ sentContentLengths request) :
    Announces value request.bodyLength ∧
      (request.streamingBody = true → 0 ≤ request.streamingBodyLength) := by
  unfold KatHttp3.sentContentLengths at hvalue
  dsimp only at hvalue
  split_ifs at hvalue with hgenerated
  · rw [List.mem_singleton.mp hvalue]
    exact ⟨announces_ofNat _, fun hstreaming => hgenerated.2.2.resolve_left (by simp [hstreaming])⟩
  · obtain ⟨header, hheader, rfl⟩ := List.mem_map.mp hvalue
    obtain ⟨hmem, hname⟩ := List.mem_filter.mp hheader
    have hlower := asciiIequals_iff.mp hname
    rw [(h.fields header hmem).lower] at hlower
    exact h.length header hmem (hlower.trans (by decide))

/-- Only a streaming body of unknown length is sent without. -/
theorem Request.Lawful.sentContentLengths_eq_nil {request : Request} (h : request.Lawful)
    (hbody : request.body ≠ [] ∨ request.streamingBody = true) :
    KatHttp3.sentContentLengths request = [] ↔
      request.streamingBody = true ∧ request.streamingBodyLength < 0 := by
  constructor
  · intro hnone
    unfold KatHttp3.sentContentLengths at hnone
    dsimp only at hnone
    split_ifs at hnone with hgenerated
    by_contra hknown
    refine hgenerated ⟨hbody, hnone, ?_⟩
    rw [not_and_or, not_lt, Bool.not_eq_true] at hknown
    exact hknown
  · rintro ⟨hstreaming, hunknown⟩
    by_contra hsome
    obtain ⟨value, hvalue⟩ := List.exists_mem_of_ne_nil _ hsome
    have := (h.sentContentLengths hvalue).2 hstreaming
    omega

/-! ### The next hop -/

theorem rewriteMethod_cases (method : Str) (status : ℕ) :
    (rewriteMethod method status).1 = method ∨ (rewriteMethod method status).1 = "GET".toList := by
  unfold rewriteMethod
  split_ifs
  · exact Or.inr rfl
  · exact Or.inl rfl

theorem evaluate_newMethod (net : InetPton) (method : Str) (base : Url) (resp : Response)
    (auto : Bool) (remaining : ℕ) :
    (evaluate net method base resp auto remaining).newMethod = method ∨
      (evaluate net method base resp auto remaining).newMethod = "GET".toList := by
  unfold evaluate
  dsimp only
  split_ifs
  · exact Or.inl rfl
  · exact Or.inl rfl
  · exact Or.inl rfl
  · exact Or.inl rfl
  · split
    · exact Or.inl rfl
    · split_ifs
      · exact Or.inl rfl
      · exact Or.inl rfl
      · exact rewriteMethod_cases method resp.statusCode

/-- A redirect keeps the fields, or drops the body and what describes it. -/
theorem redirectRequest_lawful {job : Job} {dec : RedirectDecision} {url : Url}
    (h : job.request.Lawful) (horiginal : job.originalCacheRequestHeaders ⊆ job.request.headers)
    (hmethod : dec.newMethod = job.request.method ∨ dec.newMethod = "GET".toList) :
    (redirectRequest job dec url).Lawful where
  method := by
    change isFieldName dec.newMethod = true
    rcases hmethod with hmethod | hmethod
    · rw [hmethod]
      exact h.method
    · rw [hmethod]
      decide
  fields header hmem := h.fields header (horiginal (List.mem_filter.mp hmem).1)
  length header hmem hname := by
    obtain ⟨hmem, hcarried⟩ := List.mem_filter.mp hmem
    cases hdrop : dec.dropBody with
    | true =>
      have hbody : bodyHeader header.name = true := by
        rw [hname]
        decide
      simp [carriedOver, hdrop, hbody] at hcarried
    | false =>
      have hlength := h.length header (horiginal hmem) hname
      simpa [redirectRequest, Request.bodyLength, hdrop] using hlength

theorem startJob_request {J : Type} (shared : Shared J) (id : ℤ) (request : Request) (url : Url)
    (redirectCount : ℕ) (now : ClockReading) :
    ∃ added, (startJob shared id request url redirectCount now).2.request =
        { request with headers := request.headers ++ added } ∧
      (startJob shared id request url redirectCount now).2.originalCacheRequestHeaders =
        request.headers ∧
      (startJob shared id request url redirectCount now).2.url = url ∧
      ∀ header ∈ added,
        header.name = "if-none-match".toList ∨ header.name = "if-modified-since".toList := by
  unfold startJob prepareCache
  split
  · exact ⟨[], by simp, rfl, rfl, by simp⟩
  · dsimp only
    split
    · exact ⟨[], by simp, rfl, rfl, by simp⟩
    · rename_i response _ _
      obtain ⟨added, hadded, hnames⟩ := addCacheValidator_cases request response
      exact ⟨added, hadded, rfl, rfl, hnames⟩
    · exact ⟨[], by simp, rfl, rfl, by simp⟩

/-! ### Every hop of a run -/

variable {J : Type} {engine : EngineConfig J}

structure Hop.Sendable (engine : EngineConfig J) (hop : Hop) : Prop where
  request : hop.job.request.Lawful
  url : hop.job.url.WellFormed engine.net
  original : hop.job.originalCacheRequestHeaders ⊆ hop.job.request.headers
  following : ∀ dec request url, hop.following = some (dec, request, url) →
    request.Lawful ∧ url.WellFormed engine.net

theorem Hop.sendable_new {shared : Shared J} {id : ℤ} {request : Request} {url : Url}
    {redirectCount : ℕ} {now : ClockReading} {application : HeaderList} (hrequest : request.Lawful)
    (hurl : url.WellFormed engine.net) :
    Hop.Sendable engine
      { job := (startJob shared id request url redirectCount now).2, application := application } := by
  obtain ⟨added, hadded, horiginal, hsame, hnames⟩ :=
    startJob_request shared id request url redirectCount now
  refine ⟨?_, ?_, ?_, fun _ _ _ hnone => by cases hnone⟩
  · rw [hadded]
    exact hrequest.addValidators hnames
  · rwa [hsame]
  · rw [horiginal, hadded]
    exact List.subset_append_left _ _

/-- A callback leaves the request alone; a redirect that it follows may be sent. -/
theorem Hop.Sendable.moved {hop hop' : Hop} (h : hop.Sendable engine) (hgrows : hop.Extends hop')
    (hfollows : hop'.following ≠ none → ∃ status headers, hop.Follows engine hop' status headers) :
    hop'.Sendable engine := by
  have hsame := hgrows.request
  have horiginal : hop'.job.originalCacheRequestHeaders = hop.job.originalCacheRequestHeaders := by
    unfold Job.originalCacheRequestHeaders
    rw [hsame.request, hsame.cacheRequestHeaders]
  refine ⟨?_, ?_, ?_, fun dec request url hfollowing => ?_⟩
  · rw [hsame.request]
    exact h.request
  · rw [hsame.url]
    exact h.url
  · rw [horiginal, hsame.request]
    exact h.original
  · obtain ⟨status, headers, dec', url', cookie, htarget, -, heq⟩ :=
      hfollows (by simp [hfollowing])
    rw [hfollowing] at heq
    cases heq
    obtain ⟨rfl, -, hparse⟩ := redirectTarget_cases htarget
    have hmethod := evaluate_newMethod engine.net hop.job.request.method hop.job.url
      { statusCode := status, headers := headers } true (kDefaultMaxRedirects - hop.job.redirectCount)
    exact ⟨(redirectRequest_lawful h.request h.original hmethod).addCookie cookie,
      Url.parseUrl_wellFormed hparse⟩

namespace Call

variable {c c' : Call J}

theorem sendable_step (h : ∀ hop ∈ c.hops, hop.Sendable engine) {i : CallStep J}
    (hstep : c.Steps engine i c') : ∀ hop ∈ c'.hops, hop.Sendable engine := by
  cases hstep with
  | interfered => exact h
  | aborted => exact h
  | @moved k hop hop' shared chunked hk _ hm _ hfollows _ =>
    intro x hx
    rcases List.mem_or_eq_of_mem_set hx with hx | rfl
    · exact h x hx
    · refine (h hop (List.mem_iff_getElem?.mpr ⟨k, hk⟩)).moved hm.grows fun hne => ?_
      obtain ⟨status, headers, -, -, hf⟩ := hfollows hne
      exact ⟨status, headers, hf⟩
  | @delivered k hop event rest hk _ =>
    intro x hx
    rcases List.mem_or_eq_of_mem_set hx with hx | rfl
    · exact h x hx
    · obtain ⟨hrequest, hurl, horiginal, hfollowing⟩ := h hop (List.mem_iff_getElem?.mpr ⟨k, hk⟩)
      exact ⟨hrequest, hurl, horiginal, hfollowing⟩
  | @followed k hop next shared now hk hnext =>
    obtain ⟨hrequest, hurl, horiginal, hfollowing⟩ := h hop (List.mem_iff_getElem?.mpr ⟨k, hk⟩)
    intro x hx
    rcases List.mem_append.mp hx with hx | hx
    · rcases List.mem_or_eq_of_mem_set hx with hx | rfl
      · exact h x hx
      · exact ⟨hrequest, hurl, horiginal, fun _ _ _ hnone => by cases hnone⟩
    · rw [List.mem_singleton.mp hx]
      unfold Hop.next at hnext
      obtain ⟨⟨dec, request, url⟩, heq, hnext⟩ := Option.map_eq_some_iff.mp hnext
      cases hnext
      obtain ⟨hlawful, hwell⟩ := hfollowing dec request url heq
      exact Hop.sendable_new hlawful hwell

theorem sendable_execute {shared : Shared J} {id : ℤ} {request : Request} {now : ClockReading}
    (hrequest : request.Lawful) (h : execute engine shared id request now = some c) :
    ∀ hop ∈ c.hops, hop.Sendable engine := by
  unfold execute at h
  split at h
  · cases h
  · rename_i url hparse
    obtain ⟨shared₁, cookie, hcookie, -⟩ := withCookies_cases engine shared request url now
    dsimp only at h
    rw [hcookie] at h
    cases h
    intro hop hmem
    rw [List.mem_singleton.mp hmem]
    exact Hop.sendable_new (hrequest.addCookie cookie) (Url.parseUrl_wellFormed hparse)

end Call

/-! ### The sections of a run -/

/-- A field section for a request: the pseudo-header fields, then fields that are allowed, whose
Content-Length, if there is one, is that of the body. -/
structure FieldSection (request : Request) (fields : HeaderList) (reader : Bool) : Prop where
  pseudo : ∃ method authority path regular,
    fields = ⟨":method".toList, method⟩ :: ⟨":scheme".toList, "https".toList⟩ ::
      ⟨":authority".toList, authority⟩ :: ⟨":path".toList, path⟩ :: regular ∧
    isFieldName method = true ∧ authority ≠ [] ∧ path.head? = some '/' ∧
    (∀ c ∈ path, uriChar ":@/?".toList c = true) ∧ ∀ header ∈ regular, header.Allowed
  lengths : ∀ value ∈ fields.getAll "content-length".toList, Announces value request.bodyLength
  stated : reader = true →
    (fields.getAll "content-length".toList = [] ↔
      request.streamingBody = true ∧ request.streamingBodyLength < 0)

theorem authority_ne_nil {net : InetPton} {url : Url} (h : url.WellFormed net) :
    url.authority ≠ [] := by
  have hhost := h.host.1
  unfold Url.authority
  dsimp only
  split_ifs <;> simp [hhost]

theorem requestTarget_head {net : InetPton} {url : Url} (h : url.WellFormed net) :
    url.requestTarget.head? = some '/' := by
  unfold Url.requestTarget
  dsimp only
  rcases h.path_head with hpath | ⟨t, hpath⟩
  · rw [if_pos hpath]
    split_ifs <;> rfl
  · rw [hpath]
    split_ifs <;> simp_all

theorem requestTarget_chars {net : InetPton} {url : Url} (h : url.WellFormed net) {c : Char}
    (hc : c ∈ url.requestTarget) : uriChar ":@/?".toList c = true := by
  have hpath (hmem : c ∈ url.path) : uriChar ":@/?".toList c = true := by
    have hchar := uriChar_of_mem h.path c hmem
    simp only [uriChar, Bool.or_eq_true, List.contains_eq_mem, decide_eq_true_eq] at hchar ⊢
    rcases hchar with hchar | hchar
    · exact Or.inl hchar
    · simp at hchar ⊢
      tauto
  have htarget (hmem : c ∈ if url.path = [] then ['/'] else url.path) :
      uriChar ":@/?".toList c = true := by
    split_ifs at hmem
    · rw [List.mem_singleton.mp hmem]
      decide
    · exact hpath hmem
  unfold Url.requestTarget at hc
  dsimp only at hc
  split at hc
  · rcases List.mem_append.mp hc with hmem | hmem
    · exact htarget hmem
    · rcases List.mem_cons.mp hmem with rfl | hmem
      · decide
      · exact uriChar_of_mem h.query c hmem
  · exact htarget hc

/-- A lawful request to a parsed URL makes a field section. -/
theorem Hop.Sendable.fieldSection {hop : Hop} (h : hop.Sendable engine) :
    FieldSection hop.job.request (submitRequest hop.job.url hop.job.request).1
      (submitRequest hop.job.url hop.job.request).2 where
  pseudo := by
    refine ⟨_, _, _, hop.job.request.headers ++ generatedContentLength hop.job.request, ?_,
      h.request.method, authority_ne_nil h.url, requestTarget_head h.url,
      fun c hc => requestTarget_chars h.url hc, fun header hmem => ?_⟩
    · rw [submitRequest, h.url.scheme]
      simp
    · rcases List.mem_append.mp hmem with hmem | hmem
      · exact h.request.fields header hmem
      · unfold generatedContentLength at hmem
        dsimp only at hmem
        split_ifs at hmem
        · rw [List.mem_singleton.mp hmem]
          exact allowed_literal _ (by decide)
        · cases hmem
  lengths value hvalue := by
    rw [submitRequest_contentLengths] at hvalue
    exact (h.request.sentContentLengths hvalue).1
  stated hreader := by
    rw [submitRequest_contentLengths]
    exact h.request.sentContentLengths_eq_nil (by simpa [submitRequest] using hreader)

/-- In every run of a request that was accepted, each hop, redirected or not, sends a field
section that HTTP/3 allows and that fits its body. -/
theorem Call.run_fieldSection {request accepted : Request} (hbuilt : request.Built)
    (hmethod : isFieldName request.method = true)
    (hvalid : validateRequestBodyFraming request = some accepted) {shared : Shared J} {id : ℤ}
    {now : ClockReading} {c c' : Call J} {steps : List (CallStep J)}
    (hexecute : execute engine shared id accepted now = some c)
    (hrun : Transition.run (step engine) c steps = some c') :
    ∀ hop ∈ c'.hops,
      FieldSection hop.job.request (submitRequest hop.job.url hop.job.request).1
        (submitRequest hop.job.url hop.job.request).2 := by
  have hlawful := hbuilt.lawful hmethod hvalid
  have hinv : c'.Shape ∧ ∀ hop ∈ c'.hops, hop.Sendable engine := by
    apply Transition.run_invariant_of_step _ hrun
    · exact ⟨(inv_execute hexecute).toShape, sendable_execute hlawful hexecute⟩
    · intro s i s' h hstep
      have hsteps := step_cases h.1 hstep
      exact ⟨h.1.step hsteps, sendable_step h.2 hsteps⟩
  exact fun hop hmem => (hinv.2 hop hmem).fieldSection

/-- A request with a body of two bytes. -/
def postedRequest : Request :=
  { method := "POST".toList
    url := "https://a.test/x".toList
    headers := [⟨"content-length".toList, "2".toList⟩]
    body := "ok".toList
    bodyPresent := true }

theorem built_postedRequest : postedRequest.Built :=
  .addHeader (.setBody (.create "POST".toList "https://a.test/x".toList) "ok".toList)
    (show Request.addHeader _ "Content-Length".toList "2".toList = some postedRequest by decide)

/-- It is redirected with its body. -/
def postedSteps : List (CallStep Unit) :=
  [.route 0 true, .headers 0 307 [⟨"location".toList, "https://b.test/y".toList⟩] plainNow,
    .hop 0 plainNow]

theorem Call.run_fieldSection_posted :
    ∃ c, ((execute plainEngine ⟨none, ()⟩ 7 postedRequest plainNow).bind fun c =>
        Transition.run (step plainEngine) c postedSteps) = some c ∧
      (c.hops.map fun hop => (submitRequest hop.job.url hop.job.request).1.map Header.value) =
        [["POST".toList, "https".toList, "a.test".toList, "/x".toList, "2".toList],
          ["POST".toList, "https".toList, "b.test".toList, "/y".toList, "2".toList]] ∧
      ∀ hop ∈ c.hops,
        FieldSection hop.job.request (submitRequest hop.job.url hop.job.request).1
          (submitRequest hop.job.url hop.job.request).2 := by
  obtain ⟨c, hboth, hvalues⟩ := Option.map_eq_some_iff.mp
    (show ((execute plainEngine ⟨none, ()⟩ 7 postedRequest plainNow).bind fun c =>
        Transition.run (step plainEngine) c postedSteps).map (fun c => c.hops.map fun hop =>
          (submitRequest hop.job.url hop.job.request).1.map Header.value) =
      some [["POST".toList, "https".toList, "a.test".toList, "/x".toList, "2".toList],
        ["POST".toList, "https".toList, "b.test".toList, "/y".toList, "2".toList]] by
      decide +kernel)
  obtain ⟨start, hexecute, hrun⟩ := Option.bind_eq_some_iff.mp hboth
  exact ⟨c, hboth, hvalues, run_fieldSection built_postedRequest (by decide) (by decide +kernel)
    hexecute hrun⟩

end KatHttp3
