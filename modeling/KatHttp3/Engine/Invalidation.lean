import KatHttp3.Cache.Provenance
import KatHttp3.Engine.Events
import KatHttp3.Url.CacheKey

/-!
# What an unsafe request invalidates

A response to a request that changes something removes the entries for its URL,
and for the URLs of the same origin that its Location and Content-Location
fields name. The cache compares URLs as texts.
-/

namespace KatHttp3

open Str Rfc3986

variable {J : Type} {engine : EngineConfig J} {shared : Shared J} {net : InetPton} {job : Job}

/-- The entries of the cache, none where it is disabled. -/
def Shared.entries (shared : Shared J) : List CachedResponse :=
  (shared.cache.map ResponseCache.entries).getD []

/-- `on_job_headers` to its end, where the job of a followed redirect is prepared. -/
def EngineConfig.afterHeaders (engine : EngineConfig J) (shared : Shared J) (job : Job)
    (status : ℕ) (headers : HeaderList) (now : ClockReading) : Shared J :=
  match engine.onJobHeaders shared job status headers now with
  | (shared, job, some (.follow _ request url)) =>
    (startJob shared job.id request url (job.redirectCount + 1) now).1
  | (shared, _, _) => shared

def safeMethods : List Str := ["GET".toList, "HEAD".toList, "OPTIONS".toList, "TRACE".toList]

/-- The Location and Content-Location values. -/
def relatedValues (headers : HeaderList) : List Str :=
  headers.getAll "location".toList ++ headers.getAll "content-location".toList

/-- The texts that are removed: the request's URL as it is printed, and the URLs of its origin
that the related values are parsed or resolved to. -/
def invalidatedUrls (net : InetPton) (url : Url) (headers : HeaderList) : List Str :=
  url.toString :: (relatedValues headers).filterMap fun value =>
    ((relatedUrl net url value).filter (sameOrigin url)).map Url.toString

/-- The response is handed on or its redirect is followed. -/
def answered (net : InetPton) (job : Job) (status : ℕ) (headers : HeaderList) : Bool :=
  (contentLength headers).isSome || (redirectTarget net job status headers).isSome

/-- The same origin and request target. -/
def SameTarget (u v : Url) : Prop := sameOrigin v u = true ∧ u.requestTarget = v.requestTarget

/-- A cached URL that an unsafe request to `url` makes stale: one of the request's own target,
or of the target RFC 3986 gives a related value, if that has the request's origin. -/
def Stale (net : InetPton) (url : Url) (headers : HeaderList) (cached : Str) : Prop :=
  ∃ entry, parseUrl net cached = some entry ∧
    (SameTarget entry url ∨
      ∃ value ∈ relatedValues headers, ∃ related,
        Denotes net related (resolve url.toReference (split value)) ∧
          sameOrigin url related = true ∧ SameTarget entry related)

theorem mem_entries_map {after : Shared J} {f : ResponseCache → ResponseCache}
    {removed : CachedResponse → Prop} {e : CachedResponse}
    (hf : ∀ cache, e ∈ (f cache).entries ↔ e ∈ cache.entries ∧ ¬ removed e)
    (hafter : after.cache = shared.cache.map f) :
    e ∈ after.entries ↔ e ∈ shared.entries ∧ ¬ removed e := by
  unfold Shared.entries
  rw [hafter]
  cases shared.cache with
  | none => simp
  | some cache => exact hf cache

theorem mem_foldl_entries {f : ResponseCache → Str → ResponseCache} (named : Str → Option Str)
    {e : CachedResponse} (hf : ∀ cache value,
      e ∈ (f cache value).entries ↔ e ∈ cache.entries ∧ named value ≠ some e.url)
    (values : List Str) (cache : ResponseCache) :
    e ∈ (values.foldl f cache).entries ↔ e ∈ cache.entries ∧ e.url ∉ values.filterMap named := by
  induction values generalizing cache with
  | nil => simp
  | cons value values ih =>
    rw [List.foldl_cons, ih, hf]
    simp only [List.mem_filterMap, List.mem_cons, exists_eq_or_imp, not_or, and_assoc, ne_eq]

theorem mem_invalidateAfterUnsafeRequest (hnotSafe : job.request.method ∉ safeMethods)
    (hlow : 200 ≤ job.response.statusCode) (hhigh : job.response.statusCode < 400)
    (headers : HeaderList) (cache : ResponseCache) (e : CachedResponse) :
    e ∈ (invalidateAfterUnsafeRequest net cache job headers).entries ↔
      e ∈ cache.entries ∧ e.url ∉ invalidatedUrls net job.url headers := by
  have hchanges : ¬ (job.request.method ∈
      ["GET".toList, "HEAD".toList, "OPTIONS".toList, "TRACE".toList] ∨
        job.response.statusCode < 200 ∨ 400 ≤ job.response.statusCode) := by
    rintro (hsafe | hstatus)
    · exact hnotSafe hsafe
    · omega
  unfold invalidateAfterUnsafeRequest
  dsimp only
  rw [if_neg hchanges, mem_foldl_entries fun value =>
    ((relatedUrl net job.url value).filter (sameOrigin job.url)).map Url.toString]
  · rw [ResponseCache.mem_invalidate]
    simp only [invalidatedUrls, relatedValues, List.mem_cons, not_or, and_assoc, ne_eq]
  · intro cache value
    cases relatedUrl net job.url value with
    | none => simp
    | some related =>
      by_cases horigin : sameOrigin job.url related = true
      · simp [horigin, ResponseCache.mem_invalidate, Option.filter_some, eq_comm]
      · simp [horigin, Option.filter_some]

section

variable (shared : Shared J) (id : ℤ) (request : Request) (url : Url) (redirectCount : ℕ)
  (now : ClockReading)

/-- Only a `GET` has a stored response to validate. -/
theorem startJob_unsafe (hnotSafe : request.method ∉ safeMethods) :
    (startJob shared id request url redirectCount now).2.cacheValidation = none ∧
      (startJob shared id request url redirectCount now).2.request.method = request.method ∧
      (startJob shared id request url redirectCount now).2.url = url := by
  have hget : request.method ≠ "GET".toList := fun hget => hnotSafe (by simp [hget, safeMethods])
  unfold startJob prepareCache
  split
  · exact ⟨rfl, rfl, rfl⟩
  · rename_i cache _
    have hmiss (req : CacheRequest) (hmethod : req.method = request.method) :
        cache.lookup req now = (cache, {}) := by
      have hbypassed : (req.method != "GET".toList) = true := by
        rw [hmethod]
        simpa using hget
      simp only [ResponseCache.lookup, requestCacheBypassed, hbypassed, Bool.true_or, if_true]
    dsimp only
    rw [hmiss _ rfl]
    exact ⟨rfl, rfl, rfl⟩

theorem mem_entries_startJob (e : CachedResponse) :
    e ∈ (startJob shared id request url redirectCount now).1.entries ↔ e ∈ shared.entries := by
  unfold startJob prepareCache
  split
  · exact Iff.rfl
  · rename_i cache hcache
    have hlookup (req : CacheRequest) : e ∈ (cache.lookup req now).1.entries ↔
        e ∈ shared.entries := by
      rw [(ResponseCache.lookup_perm cache req now).1.mem_iff]
      simp [Shared.entries, hcache]
    dsimp only
    split
    · exact hlookup _
    · exact hlookup _
    · exact hlookup _

end

/-- What is left of the cache once the headers of a response have been dealt with. -/
theorem mem_entries_afterHeaders (hnotSafe : job.request.method ∉ safeMethods)
    (hvalidation : job.cacheValidation = none) {status : ℕ} (hlow : 200 ≤ status)
    (hhigh : status < 400) (headers : HeaderList) (now : ClockReading) (e : CachedResponse) :
    e ∈ (engine.afterHeaders shared job status headers now).entries ↔
      e ∈ shared.entries ∧ (answered engine.net job status headers = true →
        e.url ∉ invalidatedUrls engine.net job.url headers) := by
  unfold EngineConfig.afterHeaders EngineConfig.onJobHeaders
  dsimp only
  generalize hanswer : ({ job with response := { statusCode := status, headers := headers } } : Job) =
    answer
  have hnone : answer.cacheValidation = none := by rw [← hanswer, ← hvalidation]
  have hkept : dropValidation shared answer status = (shared, answer) := by
    simp [dropValidation, hnone]
  have htarget : redirectTarget engine.net answer status headers =
      redirectTarget engine.net job status headers := by
    rw [← hanswer]
    rfl
  have hremoved {after : Shared J} (answer' : Job) (hmethod : answer'.request = answer.request)
      (hresponse : answer'.response = answer.response) (hurl : answer'.url = answer.url)
      (hafter : after.cache = shared.cache.map
        (invalidateAfterUnsafeRequest engine.net · answer' headers)) :
      e ∈ after.entries ↔ e ∈ shared.entries ∧ e.url ∉ invalidatedUrls engine.net job.url headers := by
    apply mem_entries_map _ hafter
    intro cache
    have hurl : answer'.url = job.url := by rw [hurl, ← hanswer]
    rw [← hurl]
    apply mem_invalidateAfterUnsafeRequest
    · rwa [hmethod, ← hanswer]
    · rwa [hresponse, ← hanswer]
    · rwa [hresponse, ← hanswer]
  rw [hkept]
  dsimp only
  rw [htarget]
  cases hredirect : redirectTarget engine.net job status headers with
  | some target =>
    obtain ⟨dec, url⟩ := target
    obtain ⟨after, cookie, hcookies, hcache, -⟩ := withCookies_cases engine
      { engine.storeCookies shared answer.url headers now with
        cache := (engine.storeCookies shared answer.url headers now).cache.map
          (invalidateAfterUnsafeRequest engine.net · answer headers) }
      (redirectRequest answer dec url) url now
    have hafter : after.cache = shared.cache.map
        (invalidateAfterUnsafeRequest engine.net · answer headers) := by
      rw [hcache, storeCookies_cache]
    dsimp only
    rw [hcookies]
    dsimp only
    rw [mem_entries_startJob, hremoved answer rfl rfl rfl hafter]
    simp [answered, hredirect]
  | none =>
    dsimp only
    unfold EngineConfig.onResponseHeaders
    cases hlength : contentLength headers with
    | none =>
      have hanswered : answered engine.net job status headers = false := by
        simp [answered, hredirect, hlength]
      dsimp only [onJobError]
      rw [hnone]
      split_ifs
      · simp [hanswered]
      · simp [hanswered]
    | some length =>
      dsimp only
      rw [hnone]
      dsimp only [EngineConfig.onResponseHeaders.expose]
      have hanswered : answered engine.net job status headers = true := by
        simp [answered, hlength]
      refine (hremoved { answer with
        cacheValidation := none
        declaredContentLength :=
          (length.map fun n => (n : ℤ)).getD answer.declaredContentLength } rfl rfl rfl ?_).trans ?_
      · rw [storeCookies_cache]
      · simp [hanswered]

/-- Nothing stale is left exactly if the response is not refused and what was stale in the cache
is spelled as one of the removed URLs. -/
theorem startJob_afterHeaders_iff (engine : EngineConfig J) (before shared : Shared J) (id : ℤ)
    (request : Request) (url : Url) (redirectCount : ℕ) (start now : ClockReading) (status : ℕ)
    (headers : HeaderList) (hnotSafe : request.method ∉ safeMethods) (hlow : 200 ≤ status)
    (hhigh : status < 400) :
    (∀ e ∈ (engine.afterHeaders shared
        (startJob before id request url redirectCount start).2 status headers now).entries,
      ¬ Stale engine.net url headers e.url) ↔
      ∀ e ∈ shared.entries, Stale engine.net url headers e.url →
        answered engine.net (startJob before id request url redirectCount start).2 status headers =
            true ∧
          e.url ∈ invalidatedUrls engine.net url headers := by
  obtain ⟨hvalidation, hmethod, hurl⟩ :=
    startJob_unsafe before id request url redirectCount start hnotSafe
  rw [← hmethod] at hnotSafe
  constructor
  · intro hclean e hmem hstale
    by_contra hkept
    apply hclean e _ hstale
    rw [mem_entries_afterHeaders hnotSafe hvalidation hlow hhigh, hurl]
    exact ⟨hmem, fun hanswered hremoved => hkept ⟨hanswered, hremoved⟩⟩
  · intro hspelled e hmem hstale
    rw [mem_entries_afterHeaders hnotSafe hvalidation hlow hhigh, hurl] at hmem
    obtain ⟨hanswered, hremoved⟩ := hspelled e hmem.1 hstale
    exact hmem.2 hanswered hremoved

/-! ### Which URLs are removed -/

/-- The URL that is taken for a related value is the one RFC 3986 gives it exactly when the
reference is one that is followed to the letter. -/
theorem relatedUrl_denotes_iff {url related : Url} {value : Str} (hurl : url.WellFormed net)
    (h : relatedUrl net url value = some related) :
    Denotes net related.normalized (resolve url.toReference (split value)) ↔
      FollowedToTheLetter url (split value) := by
  unfold relatedUrl at h
  split at h
  · rename_i absolute hparse
    obtain rfl := Option.some.inj h
    have hnamed : NamedTarget net url (split value) absolute := namedTarget_absolute hparse
    rw [FollowedToTheLetter, if_pos hnamed.named]
    exact ⟨hnamed.dots_of_denotes, hnamed.denotes⟩
  · obtain ⟨hfollow, hparse⟩ := Option.ite_none_right_eq_some.mp h
    obtain ⟨target, hresolved, hnewUrl, -⟩ := evaluate_follow hfollow
    have hlocation : HeaderList.get [⟨"location".toList, value⟩] "location".toList = value := rfl
    rw [hnewUrl] at hparse
    rw [hlocation] at hresolved
    rcases resolveReference_cases hurl hresolved with hnamed | hrelative
    · rw [hnamed.wellFormed.parse_toString] at hparse
      obtain rfl := Option.some.inj hparse
      rw [FollowedToTheLetter, if_pos hnamed.named, Url.normalized_normalized]
      exact ⟨hnamed.dots_of_denotes, hnamed.denotes⟩
    · rw [hrelative.denotes_iff hurl hparse, FollowedToTheLetter, if_neg]
      rw [hrelative.scheme, hrelative.authority]
      simp

theorem relatedUrl_wellFormed {url related : Url} {value : Str}
    (h : relatedUrl net url value = some related) : related.WellFormed net := by
  unfold relatedUrl at h
  split at h
  · rename_i hparse
    obtain rfl := Option.some.inj h
    exact Url.parseUrl_wellFormed hparse
  · obtain ⟨-, hparse⟩ := Option.ite_none_right_eq_some.mp h
    exact Url.parseUrl_wellFormed hparse

/-- The printed URLs that are removed: those of the target of the request's URL, or of a same-origin
URL taken for a related value, whose host is written as there. -/
theorem toString_mem_invalidatedUrls {url v : Url} (hurl : url.WellFormed net)
    (hv : v.WellFormed net) (headers : HeaderList) :
    v.toString ∈ invalidatedUrls net url headers ↔
      ∃ target, (target = url ∨ ∃ value ∈ relatedValues headers,
          relatedUrl net url value = some target ∧ sameOrigin url target = true) ∧
        SameTarget v target ∧ v.host = target.host := by
  have hsame {target : Url} (htarget : target.WellFormed net) :
      v.toString = target.toString ↔ SameTarget v target ∧ v.host = target.host := by
    rw [hv.toString_eq_iff htarget]
    constructor
    · rintro ⟨hhost, hport, hpath⟩
      refine ⟨⟨?_, hpath⟩, hhost⟩
      simp [sameOrigin, hv.scheme, htarget.scheme, hhost, hport, asciiIequals]
    · rintro ⟨⟨horigin, hpath⟩, hhost⟩
      simp only [sameOrigin, Bool.and_eq_true, beq_iff_eq] at horigin
      exact ⟨hhost, horigin.2, hpath⟩
  rw [invalidatedUrls, List.mem_cons, List.mem_filterMap]
  constructor
  · rintro (hown | ⟨value, hvalue, hrelated⟩)
    · exact ⟨url, .inl rfl, (hsame hurl).mp hown⟩
    · obtain ⟨target, hfilter, hprinted⟩ := Option.map_eq_some_iff.mp hrelated
      obtain ⟨htaken, horigin⟩ := Option.filter_eq_some_iff.mp hfilter
      exact ⟨target, .inr ⟨value, hvalue, htaken, horigin⟩,
        (hsame (relatedUrl_wellFormed htaken)).mp hprinted.symm⟩
  · rintro ⟨target, rfl | ⟨value, hvalue, htaken, horigin⟩, hwritten⟩
    · exact .inl ((hsame hurl).mpr hwritten)
    · refine .inr ⟨value, hvalue, ?_⟩
      rw [htaken, Option.filter_some, if_pos horigin, Option.map_some,
        (hsame (relatedUrl_wellFormed htaken)).mpr hwritten]

/-! ### One request -/

def plainPost : Request := { method := "POST".toList, url := "https://a.test/x".toList }

/-- A response for `https://A.test/x` is stored. -/
def upperCaseShared : Shared Unit :=
  ⟨some (({} : ResponseCache).store plainEngine.cacheConfig (requestFor "https://A.test/x".toList)
    (taggedResponse []) none wrapClock).1, ()⟩

theorem startJob_afterHeaders_iff_post :
    (∀ e ∈ (plainEngine.afterHeaders upperCaseShared
        (startJob upperCaseShared 7 plainPost (urlAt "/x".toList) 0 plainNow).2 200
        [⟨"location".toList, "https://A.test/x".toList⟩] plainNow).entries,
      ¬ Stale noLiterals (urlAt "/x".toList) [⟨"location".toList, "https://A.test/x".toList⟩]
        e.url) ↔
      ∀ e ∈ upperCaseShared.entries,
        Stale noLiterals (urlAt "/x".toList) [⟨"location".toList, "https://A.test/x".toList⟩]
          e.url →
        answered noLiterals (startJob upperCaseShared 7 plainPost (urlAt "/x".toList) 0 plainNow).2
            200 [⟨"location".toList, "https://A.test/x".toList⟩] = true ∧
          e.url ∈ invalidatedUrls noLiterals (urlAt "/x".toList)
            [⟨"location".toList, "https://A.test/x".toList⟩] :=
  startJob_afterHeaders_iff plainEngine upperCaseShared upperCaseShared 7 plainPost
    (urlAt "/x".toList) 0 plainNow plainNow 200 [⟨"location".toList, "https://A.test/x".toList⟩]
    (by decide) (by decide) (by decide)

/-- A `POST` to `https://a.test/x` leaves the entry for `https://A.test/x`. -/
theorem afterHeaders_upper_case :
    ∃ e ∈ (plainEngine.afterHeaders upperCaseShared
        (startJob upperCaseShared 7 plainPost (urlAt "/x".toList) 0 plainNow).2 200 []
        plainNow).entries,
      Stale noLiterals (urlAt "/x".toList) [] e.url := by
  have hurls : ((plainEngine.afterHeaders upperCaseShared
      (startJob upperCaseShared 7 plainPost (urlAt "/x".toList) 0 plainNow).2 200 []
      plainNow).entries.map CachedResponse.url) = ["https://A.test/x".toList] := by
    decide +kernel
  obtain ⟨e, hmem, hurl⟩ := List.mem_map.mp (hurls ▸ List.mem_singleton_self _)
  refine ⟨e, hmem, { urlAt "/x".toList with host := "A.test".toList }, ?_, Or.inl ?_⟩
  · rw [hurl]
    decide +kernel
  · exact ⟨by decide +kernel, by decide +kernel⟩

end KatHttp3
