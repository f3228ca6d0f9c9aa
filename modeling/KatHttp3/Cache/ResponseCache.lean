import KatHttp3.Cache.CacheControl
import KatHttp3.Cache.HttpDate
import KatHttp3.Url.Redirect

/-!
# The private response cache

`ResponseCache` of `response_cache.cc`. An operation receives the two clock
readings it makes and runs as one step, which is what its mutex provides. A
shared immutable body is the string of its bytes.
-/

namespace KatHttp3

open Str

/-- The readings of a `CacheClock`; the monotonic one is 0 when unavailable. -/
structure ClockReading where
  wall : Option ℕ
  monotonic : ℕ
  deriving DecidableEq

structure ResponseCacheConfig where
  maxEntries : ℕ := 128
  maxBytes : ℕ := 32 * 1024 * 1024
  maxEntryBytes : ℕ := 4 * 1024 * 1024
  /-- `SIZE_MAX` of the platform. -/
  sizeMax : ℕ
  /-- `sizeof(CachedResponse)` on the platform. -/
  sizeofCachedResponse : ℕ
  deriving DecidableEq

/-- The constructor replaces limits of zero by the defaults. -/
def ResponseCacheConfig.effective (config : ResponseCacheConfig) : ResponseCacheConfig :=
  { config with
    maxEntries := if config.maxEntries ≠ 0 then config.maxEntries else 128
    maxBytes := if config.maxBytes ≠ 0 then config.maxBytes else 32 * 1024 * 1024
    maxEntryBytes := if config.maxEntryBytes ≠ 0 then config.maxEntryBytes else 4 * 1024 * 1024 }

structure VaryKey where
  name : Str
  requestValues : List Str
  deriving DecidableEq

structure CachedResponse where
  url : Str := []
  statusCode : ℕ := 0
  headers : HeaderList := []
  body : Str := []
  vary : List VaryKey := []
  entryId : ℕ := 0
  selectionDateSeconds : ℤ := 0
  storedAtMonotonicNs : ℕ := 0
  correctedInitialAgeSeconds : ℕ := 0
  freshnessLifetimeSeconds : ℕ := 0
  etag : Option Str := none
  lastModified : Option Str := none
  requiresRevalidation : Bool := false
  mustRevalidate : Bool := false
  staleIfErrorSeconds : Option ℕ := none
  accountedBytes : ℕ := 0
  deriving DecidableEq

/-- The response under an entry id. -/
def CachedResponse.withId (response : CachedResponse) (entryId : ℕ) : CachedResponse :=
  { response with entryId := entryId }

structure CacheRequest where
  method : Str
  url : Str
  headers : HeaderList := []
  streaming : Bool := false
  hasBody : Bool := false
  deriving DecidableEq

inductive CacheState
  | miss
  | fresh
  | needsValidation
  deriving DecidableEq

structure CacheLookup where
  state : CacheState := .miss
  response : Option CachedResponse := none
  validationCandidateIds : List ℕ := []
  deriving DecidableEq

structure RevalidationResult where
  delivery : CachedResponse
  retentionCandidate : Option CachedResponse
  deriving DecidableEq

/-- `entries` has the most recently used entry in front. Nothing reads `issued`,
the number of entry ids handed out so far. -/
structure ResponseCache where
  entries : List CachedResponse := []
  totalBytes : ℕ := 0
  nextEntryId : ℕ := 1
  issued : ℕ := 0
  deriving DecidableEq

/-! ### Requests and header fields -/

def isTokenChar (ch : Char) : Bool := ch.isAlphanum || "!#$%&'*+-.^_\x60|~".toList.contains ch

def isFieldName (name : Str) : Bool := name != [] && name.all isTokenChar

def hasSensitiveRequestHeader (headers : HeaderList) : Bool :=
  headers.hasHeader "authorization".toList || headers.hasHeader "cookie".toList

def hasConditionalRequestHeader (headers : HeaderList) : Bool :=
  headers.hasHeader "if-none-match".toList || headers.hasHeader "if-modified-since".toList ||
    headers.hasHeader "if-match".toList || headers.hasHeader "if-unmodified-since".toList ||
    headers.hasHeader "if-range".toList

def requestCacheBypassed (request : CacheRequest) (control : CacheControl) : Bool :=
  request.method != "GET".toList || request.streaming || request.hasBody || control.noStore ||
    hasSensitiveRequestHeader request.headers || hasConditionalRequestHeader request.headers ||
    request.headers.hasHeader "range".toList

structure ParsedVary where
  valid : Bool := true
  star : Bool := false
  names : List Str := []
  deriving DecidableEq

def addVaryName (out : ParsedVary) (rawName : Str) : ParsedVary :=
  let name := trimOws rawName
  if name = [] then { out with valid := false }
  else if name = "*".toList then { out with star := true }
  else if isFieldName name = false then { out with valid := false }
  else if asciiLower name ∈ out.names then out
  else { out with names := out.names ++ [asciiLower name] }

def parseVary (headers : HeaderList) : ParsedVary :=
  ((headers.getAll "vary".toList).flatMap (splitQuoted false false [])).foldl addVaryName {}

def varyMatches (cached : CachedResponse) (requestHeaders : HeaderList) : Bool :=
  cached.vary.all fun key => requestHeaders.getAll key.name == key.requestValues

def sameVariant (lhs rhs : CachedResponse) : Bool := lhs.url == rhs.url && lhs.vary == rhs.vary

def moreRecent (lhs rhs : CachedResponse) : Bool :=
  if lhs.selectionDateSeconds ≠ rhs.selectionDateSeconds then
    rhs.selectionDateSeconds < lhs.selectionDateSeconds
  else rhs.storedAtMonotonicNs < lhs.storedAtMonotonicNs

structure EntityTag where
  weak : Bool
  text : Str
  deriving DecidableEq

def parseEntityTag (value : Str) : Option EntityTag :=
  let value := trimOws value
  let weak := startsWith value "W/".toList
  let value := if weak then value.drop 2 else value
  if value.length < 2 ∨ value.head? ≠ some '"' ∨ value.getLast? ≠ some '"' then none
  else
    let text := (value.drop 1).dropLast
    if text.any fun ch => ch = '"' ∨ ch.toNat < 0x21 ∨ ch.toNat = 0x7f then none
    else some ⟨weak, text⟩

def entityTagSelectsStored (stored received : Str) : Bool :=
  match parseEntityTag stored, parseEntityTag received with
  | some storedTag, some receivedTag =>
    if receivedTag.weak = false then !storedTag.weak && storedTag.text == receivedTag.text
    else storedTag.text == receivedTag.text
  | _, _ => false

def saturatingAdd (limit lhs rhs : ℕ) : ℕ := if rhs > limit - lhs then limit else lhs + rhs

def accountedBytes (config : ResponseCacheConfig) (response : CachedResponse) : ℕ :=
  let add := saturatingAdd config.sizeMax
  let total := add (add config.sizeofCachedResponse response.url.length) response.body.length
  let total := response.headers.foldl
    (fun total header => add (add total header.name.length) header.value.length) total
  let total := response.vary.foldl
    (fun total key => key.requestValues.foldl (fun total value => add total value.length)
      (add total key.name.length)) total
  let total := (response.etag.map fun etag => add total etag.length).getD total
  (response.lastModified.map fun value => add total value.length).getD total

def headersWithAge (headers : HeaderList) (age : ℕ) : HeaderList :=
  HeaderList.add (headers.filter fun header => !asciiIequals header.name "age".toList)
    "age".toList (ofNat age)

def headersForRevalidation (headers : HeaderList) : HeaderList :=
  headers.filter fun header =>
    !(asciiIequals header.name "age".toList || asciiIequals header.name "date".toList)

def mergeHeaders (stored updated : HeaderList) : HeaderList :=
  (stored.filter fun oldHeader =>
    asciiIequals oldHeader.name "content-length".toList ||
      !updated.any fun newHeader => asciiIequals oldHeader.name newHeader.name) ++
  updated.filter fun header => !asciiIequals header.name "content-length".toList

/-- The largest Age value: `none` when one of them is invalid. -/
def parseAge (headers : HeaderList) : Option ℕ :=
  (headers.getAll "age".toList).foldl
    (fun result value =>
      match result, parseDeltaSeconds value with
      | some result, some parsed => some (max result parsed)
      | _, _ => none)
    (some 0)

def currentAge (response : CachedResponse) (nowMonotonicNs : ℕ) : ℕ :=
  if nowMonotonicNs = 0 ∨ response.storedAtMonotonicNs = 0 then
    response.correctedInitialAgeSeconds
  else
    saturatingAdd maxUint64 response.correctedInitialAgeSeconds
      ((nowMonotonicNs - response.storedAtMonotonicNs) / 1000000000)

/-! ### Making an entry -/

/-- A Date or Expires field, absent when it is empty or not a date. -/
def dateField (headers : HeaderList) (name : Str) (nowWallSeconds : Option ℕ) : Option ℤ :=
  if headers.get name = [] then none else parseHttpDate (headers.get name) nowWallSeconds

/-- The freshness lifetime the headers give, if they give one. -/
def freshnessLifetime (headers : HeaderList) (nowWallSeconds : Option ℕ) : Option ℕ :=
  let parsedDate := dateField headers "date".toList nowWallSeconds
  let parsedExpires := dateField headers "expires".toList nowWallSeconds
  match (parseCacheControl headers).maxAge, parsedExpires, parsedDate with
  | some maxAge, _, _ => some maxAge
  | none, some expires, some date => some (if expires > date then (expires - date).toNat else 0)
  | none, _, _ => none

def apparentAge (parsedDate : Option ℤ) (nowWallSeconds : Option ℕ) : ℕ :=
  match nowWallSeconds, parsedDate with
  | some now, some date =>
    if date ≤ 0 then saturatingAdd maxUint64 now (-date).toNat
    else if date.toNat < now then now - date.toNat
    else 0
  | _, _ => 0

def responseDelay (requestWallSeconds nowWallSeconds : Option ℕ) : ℕ :=
  match nowWallSeconds, requestWallSeconds with
  | some now, some sent => if sent ≤ now then now - sent else 0
  | _, _ => 0

/-- The age a response has on arrival. -/
def correctedInitialAge (headers : HeaderList) (requestWallSeconds nowWallSeconds : Option ℕ) : ℕ :=
  max (apparentAge (dateField headers "date".toList nowWallSeconds) nowWallSeconds)
    (saturatingAdd maxUint64 ((parseAge headers).getD maxUint64)
      (responseDelay requestWallSeconds nowWallSeconds))

def nonEmpty (value : Str) : Option Str := if value = [] then none else some value

/-- The checks of `make_cached_response` that `require_cacheable` switches on, its
size checks apart. -/
def cacheable (headers : HeaderList) (now : ClockReading) : Bool :=
  let control := parseCacheControl headers
  let vary := parseVary headers
  let freshness := freshnessLifetime headers now.wall
  let hasValidator :=
    headers.get "etag".toList != [] || headers.get "last-modified".toList != []
  let expiresInvalid := headers.get "expires".toList != [] &&
    (dateField headers "expires".toList now.wall).isNone
  now.monotonic != 0 && !control.noStore && !control.invalid && !control.conflictingMaxAge &&
    vary.valid && !vary.star && !(control.noCache && !hasValidator) &&
    !(freshness.isNone && !control.noCache && !hasValidator) &&
    !(expiresInvalid && control.maxAge.isNone && !control.noCache && !hasValidator) &&
    now.wall.isSome

variable (config : ResponseCacheConfig)

/-- The entry built from a request and its response, before any check. -/
def buildCachedResponse (request : CacheRequest) (statusCode : ℕ) (headers : HeaderList)
    (body : Str) (requestWallSeconds : Option ℕ) (now : ClockReading) : CachedResponse :=
  let control := parseCacheControl headers
  let cached : CachedResponse :=
    { url := request.url
      statusCode := statusCode
      headers := headers
      body := body
      vary := (parseVary headers).names.map fun name => ⟨name, request.headers.getAll name⟩
      selectionDateSeconds :=
        match dateField headers "date".toList now.wall, now.wall with
        | some date, _ => date
        | none, some wall => (min wall (2 ^ 63 - 1) : ℕ)
        | none, none => 0
      storedAtMonotonicNs := now.monotonic
      correctedInitialAgeSeconds := correctedInitialAge headers requestWallSeconds now.wall
      freshnessLifetimeSeconds := (freshnessLifetime headers now.wall).getD 0
      etag := nonEmpty (headers.get "etag".toList)
      lastModified := nonEmpty (headers.get "last-modified".toList)
      requiresRevalidation := control.noCache
      mustRevalidate := control.mustRevalidate
      staleIfErrorSeconds := control.staleIfError }
  { cached with accountedBytes := accountedBytes config cached }

def makeCachedResponse (request : CacheRequest) (statusCode : ℕ) (headers : HeaderList)
    (body : Str) (requestWallSeconds : Option ℕ) (now : ClockReading) (requireCacheable : Bool) :
    Option CachedResponse :=
  let requestControl := parseCacheControl request.headers
  if requestCacheBypassed request requestControl || requestControl.invalid ||
      statusCode != 200 || (requireCacheable && config.maxEntryBytes < body.length) then
    none
  else if requireCacheable && !cacheable headers now then none
  else
    let cached := buildCachedResponse config request statusCode headers body requestWallSeconds now
    if requireCacheable && config.maxEntryBytes < cached.accountedBytes then none
    else some cached

def shouldCapture (request : CacheRequest) (status : ℕ) (responseHeaders : HeaderList) : Bool :=
  let requestControl := parseCacheControl request.headers
  let control := parseCacheControl responseHeaders
  let vary := parseVary responseHeaders
  let hasFreshness := control.maxAge.isSome ||
    (responseHeaders.get "expires".toList != [] && responseHeaders.get "date".toList != [])
  let hasValidator :=
    responseHeaders.get "etag".toList != [] || responseHeaders.get "last-modified".toList != []
  if requestCacheBypassed request requestControl || requestControl.invalid || status != 200 then
    false
  else if control.noStore || control.invalid || control.conflictingMaxAge then false
  else if !vary.valid || vary.star then false
  else if control.noCache && !hasValidator then false
  else hasFreshness || (control.noCache && hasValidator)

/-! ### Operations -/

namespace ResponseCache

variable (cache : ResponseCache)

/-- The entries without the variant the response replaces and the byte count
without its bytes; `none` when that variant is more recent. -/
def replaceVariant (response : CachedResponse) : Option (List CachedResponse × ℕ) :=
  match cache.entries.findIdx? (sameVariant · response) with
  | none => some (cache.entries, cache.totalBytes)
  | some i =>
    match cache.entries[i]? with
    | none => some (cache.entries, cache.totalBytes)
    | some old =>
      if moreRecent old response then none
      else some (cache.entries.eraseIdx i, cache.totalBytes - min cache.totalBytes old.accountedBytes)

/-- The eviction loop on the entries in reverse order. It also says whether the
entry with the given id stayed. -/
def evictLoop (insertedId : ℕ) : List CachedResponse → ℕ → Bool → List CachedResponse × ℕ × Bool
  | [], total, retained => ([], total, retained)
  | last :: rest, total, retained =>
    if config.maxEntries < rest.length + 1 ∨ config.maxBytes < total then
      evictLoop insertedId rest (total - min total last.accountedBytes)
        (if last.entryId = insertedId then false else retained)
    else (last :: rest, total, retained)

/-- The id the next entry gets: the counter starts again at 1 when it wraps. -/
def insertedId : ℕ := if cache.nextEntryId = 0 then 1 else cache.nextEntryId

def insertLocked (response : CachedResponse) : ResponseCache × Option ℕ :=
  match cache.replaceVariant response with
  | none => (cache, none)
  | some (entries, totalBytes) =>
    let (reversed, totalBytes, retained) :=
      evictLoop config cache.insertedId (response.withId cache.insertedId :: entries).reverse
        (saturatingAdd config.sizeMax totalBytes response.accountedBytes) true
    ({ entries := reversed.reverse
       totalBytes := totalBytes
       nextEntryId := (cache.insertedId + 1) % 2 ^ 64
       issued := cache.issued + 1 },
      if retained then some cache.insertedId else none)

def store (request : CacheRequest) (response : Response) (requestWallSeconds : Option ℕ)
    (now : ClockReading) : ResponseCache × Bool :=
  match makeCachedResponse config request response.statusCode response.headers response.body
    requestWallSeconds now true with
  | none => (cache, false)
  | some cached =>
    let (cache, inserted) := cache.insertLocked config cached
    (cache, inserted.isSome)

/-- The position of the entry a lookup selects. -/
def selectBest (request : CacheRequest) : Option ℕ :=
  (cache.entries.zipIdx.foldl
    (fun best (entry, i) =>
      if entry.url ≠ request.url ∨ varyMatches entry request.headers = false then best
      else
        match best with
        | none => some (entry, i)
        | some (current, j) => if moreRecent entry current then some (entry, i) else some (current, j))
    none).map Prod.snd

def candidateIds (request : CacheRequest) : List ℕ :=
  (cache.entries.filter fun entry =>
    entry.url == request.url && varyMatches entry request.headers).map CachedResponse.entryId

def lookupLocked (request : CacheRequest) (requestControl : CacheControl) (now : ClockReading) :
    ResponseCache × CacheLookup :=
  match cache.selectBest request with
  | none => (cache, {})
  | some i =>
    match cache.entries[i]? with
    | none => (cache, {})
    | some best =>
      let age := currentAge best now.monotonic
      let response := { best with headers := headersWithAge best.headers age }
      let requestAgeExceeded := requestControl.maxAge.any (· < age)
      let clockUnavailable := now.wall.isNone || now.monotonic == 0
      let cache' := { cache with entries := best :: cache.entries.eraseIdx i }
      if !clockUnavailable && !response.requiresRevalidation && !requestControl.noCache &&
          !requestAgeExceeded && decide (age < response.freshnessLifetimeSeconds) then
        (cache', ⟨.fresh, some response, []⟩)
      else (cache', ⟨.needsValidation, some response, cache.candidateIds request⟩)

def lookup (request : CacheRequest) (now : ClockReading) : ResponseCache × CacheLookup :=
  let requestControl := parseCacheControl request.headers
  if requestCacheBypassed request requestControl || requestControl.invalid then (cache, {})
  else cache.lookupLocked request requestControl now

/-- What a 304 carries and what the request for it looked like. -/
structure Validation where
  responseHeaders : HeaderList
  requestWallSeconds : Option ℕ := none
  sentIfModifiedSince : Bool := false
  now : ClockReading

namespace Validation

variable (v : Validation)

def hasEtag : Bool := v.responseHeaders.hasHeader "etag".toList

def hasLastModified : Bool := v.responseHeaders.hasHeader "last-modified".toList

def etag : Str := v.responseHeaders.get "etag".toList

def lastModified : Str := v.responseHeaders.get "last-modified".toList

/-- An If-Modified-Since request answered without any validator. -/
def deliveryOnlyIms (stored : CachedResponse) : Bool :=
  !v.hasEtag && !v.hasLastModified && v.sentIfModifiedSince && stored.etag.isNone &&
    stored.lastModified.isSome

/-- The first check of the 304 against the response it was sent for. -/
def accepts (stored : CachedResponse) : Bool :=
  if v.hasEtag then stored.etag.any (entityTagSelectsStored · v.etag)
  else if v.hasLastModified then stored.lastModified == some v.lastModified
  else !((stored.etag.isSome || stored.lastModified.isSome) && !v.deliveryOnlyIms stored)

def validationHeaders : HeaderList :=
  match v.now.wall with
  | some now =>
    if v.responseHeaders.hasHeader "date".toList then v.responseHeaders
    else v.responseHeaders.add "date".toList (formatHttpDate now)
  | none => v.responseHeaders

def mergedHeaders (stored : HeaderList) : HeaderList :=
  mergeHeaders (headersForRevalidation stored) v.validationHeaders

def validatorMatches (current : CachedResponse) : Bool :=
  if v.hasEtag then current.etag.any (entityTagSelectsStored · v.etag)
  else if v.hasLastModified then current.lastModified == some v.lastModified
  else current.etag.isNone && current.lastModified.isNone

/-- A weak validator updates only the newest matching response. -/
def selectOne : Bool :=
  (v.hasEtag && (parseEntityTag v.etag).any EntityTag.weak) || (!v.hasEtag && v.hasLastModified)

end Validation

/-- The entries a 304 applies to, in order. -/
def selected (v : Validation) (ids : List ℕ) : List CachedResponse :=
  let matching := cache.entries.filter fun entry =>
    ids.contains entry.entryId && v.validatorMatches entry
  if v.selectOne then
    (matching.foldl (fun newest current =>
      match newest with
      | none => some current
      | some newest => if moreRecent current newest then some current else some newest)
      none).toList
  else matching

/-- The refreshed form of an entry, if it may be kept. -/
def refreshed (v : Validation) (request : CacheRequest) (current : CachedResponse) :
    Option CachedResponse :=
  if v.now.wall.isSome ∧ v.now.monotonic ≠ 0 then
    makeCachedResponse config request current.statusCode (v.mergedHeaders current.headers)
      current.body v.requestWallSeconds v.now true
  else none

def removeEntries (ids : List ℕ) : ResponseCache :=
  { cache with
    entries := cache.entries.filter fun entry => !ids.contains entry.entryId
    totalBytes := (cache.entries.filter fun entry => ids.contains entry.entryId).foldl
      (fun total entry => total - min total entry.accountedBytes) cache.totalBytes }

/-- One turn of the loop over the refresh candidates: the replaced entry's id and
its refreshed form. -/
def insertRefreshed (removed : List ℕ) (storedId : ℕ)
    (state : ResponseCache × Option CachedResponse) (candidate : ℕ × CachedResponse) :
    ResponseCache × Option CachedResponse :=
  let (cache, retainedSelected) := state
  if cache.entries.any fun current =>
      !removed.contains current.entryId && sameVariant current candidate.2 then state
  else
    let (cache, insertedId) := cache.insertLocked config candidate.2
    match insertedId with
    | some id =>
      if candidate.1 = storedId then
        (cache, (cache.entries.find? (·.entryId == id)).or retainedSelected)
      else (cache, retainedSelected)
    | none => (cache, retainedSelected)

/-- What a 304 without any validator needs: the generation it was sent for must
still be there. `some true` asks for delivery only. -/
def validatorlessSelection (v : Validation) (stored : CachedResponse) (request : CacheRequest)
    (snapshot ids : List ℕ) : Option Bool :=
  match cache.entries.find? fun entry =>
      entry.entryId == stored.entryId && ids.contains entry.entryId with
  | none => none
  | some selected =>
    if v.deliveryOnlyIms stored then
      if selected.etag.isSome || selected.lastModified != stored.lastModified then none
      else some true
    else
      let ambiguousWithoutSnapshot := snapshot.isEmpty && cache.entries.any fun entry =>
        entry.entryId != stored.entryId && entry.url == request.url &&
          varyMatches entry request.headers
      if ids.length != 1 || ambiguousWithoutSnapshot || selected.etag.isSome ||
          selected.lastModified.isSome then none
      else some false

/-- The update of the entries a 304 selects. -/
def refresh (v : Validation) (stored : CachedResponse) (request : CacheRequest) (ids : List ℕ) :
    ResponseCache × Option CachedResponse :=
  let current := cache.selected v ids
  let removed := current.map CachedResponse.entryId
  let candidates := current.filterMap fun entry =>
    (refreshed config v request entry).map fun response => (entry.entryId, response)
  candidates.foldl (insertRefreshed config removed stored.entryId)
    (cache.removeEntries removed, none)

def merge304 (stored : CachedResponse) (request : CacheRequest) (v : Validation)
    (snapshot : List ℕ) : ResponseCache × Option RevalidationResult :=
  if stored.url ≠ request.url ∨ varyMatches stored request.headers = false then (cache, none)
  else if v.accepts stored = false then (cache, none)
  else
    let ids := if snapshot = [] then [stored.entryId] else snapshot
    match makeCachedResponse config request stored.statusCode (v.mergedHeaders stored.headers)
      stored.body v.requestWallSeconds v.now false with
    | none => (cache, none)
    | some delivery =>
      let go : ResponseCache × Option RevalidationResult :=
        let (cache, retained) := cache.refresh config v stored request ids
        (cache, some ⟨delivery, retained⟩)
      if v.hasEtag || v.hasLastModified then go
      else
        match cache.validatorlessSelection v stored request snapshot ids with
        | none => (cache, none)
        | some true => (cache, some ⟨delivery, none⟩)
        | some false => go

def canServeStaleIfError (response : CachedResponse) (now : ClockReading) : Bool :=
  match response.staleIfErrorSeconds with
  | none => false
  | some window =>
    if response.mustRevalidate || response.requiresRevalidation || now.wall.isNone then false
    else
      let age := currentAge response now.monotonic
      if age < response.freshnessLifetimeSeconds then false
      else age - response.freshnessLifetimeSeconds ≤ window

def responseWithCurrentAge (response : CachedResponse) (nowMonotonicNs : ℕ) : CachedResponse :=
  if nowMonotonicNs = 0 ∨ response.storedAtMonotonicNs = 0 then response
  else { response with headers := headersWithAge response.headers (currentAge response nowMonotonicNs) }

def invalidate (url : Str) : ResponseCache :=
  { cache with
    entries := cache.entries.filter (·.url ≠ url)
    totalBytes := (cache.entries.filter (·.url = url)).foldl
      (fun total entry => total - min total entry.accountedBytes) cache.totalBytes }

def invalidateEntry (entryId : ℕ) : ResponseCache × Bool :=
  if entryId = 0 then (cache, false)
  else
    match cache.entries.findIdx? (·.entryId == entryId) with
    | none => (cache, false)
    | some i =>
      match cache.entries[i]? with
      | none => (cache, false)
      | some entry =>
        ({ cache with
           entries := cache.entries.eraseIdx i
           totalBytes := cache.totalBytes - min cache.totalBytes entry.accountedBytes }, true)

def clear : ResponseCache := { cache with entries := [], totalBytes := 0 }

end ResponseCache

end KatHttp3
