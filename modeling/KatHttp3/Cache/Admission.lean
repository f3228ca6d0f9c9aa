import KatHttp3.Cache.Merge

/-!
# What is admitted to the cache

The admission test before a body arrives, the checks of the store behind it, and
what a store that is refused leaves of the cache.
-/

namespace KatHttp3

open Str ResponseCache WeightedList

/-! ### A cache with room -/

theorem saturatingAdd_le_limit {limit a b : ℕ} (ha : a ≤ limit) :
    saturatingAdd limit a b ≤ limit := by
  unfold saturatingAdd
  split_ifs <;> omega

theorem accountedBytes_le_sizeMax {config : ResponseCacheConfig}
    (h : config.sizeofCachedResponse ≤ config.sizeMax) (response : CachedResponse) :
    accountedBytes config response ≤ config.sizeMax := by
  have hheaders : ∀ (headers : HeaderList) (start : ℕ), start ≤ config.sizeMax →
      headers.foldl (fun total header => saturatingAdd config.sizeMax
        (saturatingAdd config.sizeMax total header.name.length) header.value.length) start ≤
        config.sizeMax := by
    intro headers
    induction headers with
    | nil => exact fun _ hstart => hstart
    | cons header headers ih =>
      exact fun _ hstart => ih _ (saturatingAdd_le_limit (saturatingAdd_le_limit hstart))
  have hvalues : ∀ (values : List Str) (start : ℕ), start ≤ config.sizeMax →
      values.foldl (fun total value => saturatingAdd config.sizeMax total value.length) start ≤
        config.sizeMax := by
    intro values
    induction values with
    | nil => exact fun _ hstart => hstart
    | cons value values ih => exact fun _ hstart => ih _ (saturatingAdd_le_limit hstart)
  have hvary : ∀ (vary : List VaryKey) (start : ℕ), start ≤ config.sizeMax →
      vary.foldl (fun total key => key.requestValues.foldl
        (fun total value => saturatingAdd config.sizeMax total value.length)
        (saturatingAdd config.sizeMax total key.name.length)) start ≤ config.sizeMax := by
    intro vary
    induction vary with
    | nil => exact fun _ hstart => hstart
    | cons key vary ih => exact fun _ hstart => ih _ (hvalues _ _ (saturatingAdd_le_limit hstart))
  have hoption : ∀ (value : Option Str) (start : ℕ), start ≤ config.sizeMax →
      (value.map fun text => saturatingAdd config.sizeMax start text.length).getD start ≤
        config.sizeMax := by
    intro value start hstart
    cases value with
    | none => exact hstart
    | some text => exact saturatingAdd_le_limit hstart
  unfold accountedBytes
  exact hoption _ _ (hoption _ _ (hvary _ _ (hheaders _ _
    (saturatingAdd_le_limit (saturatingAdd_le_limit h)))))

/-- Limits that nothing exceeds. -/
def roomyConfig : ResponseCacheConfig where
  maxBytes := 2 ^ 64 - 1
  maxEntryBytes := 2 ^ 64 - 1
  sizeMax := 2 ^ 64 - 1
  sizeofCachedResponse := 256

/-- An empty cache with room stores whatever passes the checks of the store. -/
theorem store_roomy {request : CacheRequest} {headers : HeaderList} {sent : Option ℕ}
    {now : ClockReading}
    (hbypass : requestCacheBypassed request (parseCacheControl request.headers) = false)
    (hvalid : (parseCacheControl request.headers).invalid = false)
    (hcacheable : cacheable headers now = true) :
    (({} : ResponseCache).store roomyConfig request ⟨200, headers, []⟩ sent now).2 = true ∧
      (({} : ResponseCache).store roomyConfig request ⟨200, headers, []⟩ sent now).1.entries =
        [(buildCachedResponse roomyConfig request 200 headers [] sent now).withId 1] := by
  have hbytes : (buildCachedResponse roomyConfig request 200 headers [] sent now).accountedBytes ≤
      2 ^ 64 - 1 := accountedBytes_le_sizeMax (by decide) _
  have hmade : makeCachedResponse roomyConfig request 200 headers [] sent now true =
      some (buildCachedResponse roomyConfig request 200 headers [] sent now) := by
    have hfits : ¬ roomyConfig.maxEntryBytes <
        (buildCachedResponse roomyConfig request 200 headers [] sent now).accountedBytes :=
      Nat.not_lt.mpr hbytes
    simp [makeCachedResponse, hbypass, hvalid, hcacheable, hfits]
  have htotal : saturatingAdd roomyConfig.sizeMax 0
      (buildCachedResponse roomyConfig request 200 headers [] sent now).accountedBytes ≤
        2 ^ 64 - 1 := saturatingAdd_le_limit (Nat.zero_le _)
  have hroom : ¬ (roomyConfig.maxEntries < ([] : List CachedResponse).length + 1 ∨
      roomyConfig.maxBytes < saturatingAdd roomyConfig.sizeMax 0
        (buildCachedResponse roomyConfig request 200 headers [] sent now).accountedBytes) := by
    rintro (hcount | hmany)
    · exact absurd hcount (by decide)
    · exact absurd htotal (Nat.not_le.mpr hmany)
  unfold store
  simp only [hmade]
  unfold insertLocked replaceVariant
  simp only [List.findIdx?_nil, List.reverse_singleton, evictLoop, if_neg hroom]
  exact ⟨rfl, rfl⟩

/-! ### Admission before the body -/

/-- The checks that the admission test and the store have in common. -/
structure Admissible (request : CacheRequest) (headers : HeaderList) : Prop where
  request : requestCacheBypassed request (parseCacheControl request.headers) = false ∧
    (parseCacheControl request.headers).invalid = false
  control : (parseCacheControl headers).noStore = false ∧
    (parseCacheControl headers).invalid = false ∧
    (parseCacheControl headers).conflictingMaxAge = false
  vary : (parseVary headers).valid = true ∧ (parseVary headers).star = false

def HasValidator (headers : HeaderList) : Prop :=
  headers.get "etag".toList ≠ [] ∨ headers.get "last-modified".toList ≠ []

/-- A response that can be kept only because it can be validated. -/
structure ValidatorOnly (headers : HeaderList) : Prop where
  validator : HasValidator headers
  maxAge : (parseCacheControl headers).maxAge = none
  dates : ¬ (headers.get "expires".toList ≠ [] ∧ headers.get "date".toList ≠ [])
  noCache : (parseCacheControl headers).noCache = false

theorem shouldCapture_iff {request : CacheRequest} {headers : HeaderList}
    (h : Admissible request headers) :
    shouldCapture request 200 headers = true ↔
      ((parseCacheControl headers).noCache = true → HasValidator headers) ∧
        ((parseCacheControl headers).maxAge ≠ none ∨
          (headers.get "expires".toList ≠ [] ∧ headers.get "date".toList ≠ []) ∨
          (parseCacheControl headers).noCache = true) := by
  unfold shouldCapture HasValidator
  simp only [h.request.1, h.request.2, h.control.1, h.control.2.1, h.control.2.2, h.vary.1, h.vary.2]
  generalize headers.get "etag".toList = etag
  generalize headers.get "last-modified".toList = lastModified
  generalize headers.get "expires".toList = expires
  generalize headers.get "date".toList = date
  cases (parseCacheControl headers).noCache <;> cases (parseCacheControl headers).maxAge <;>
    by_cases hetag : etag = [] <;> by_cases hmodified : lastModified = [] <;>
    simp [hetag, hmodified]

theorem hasValidator_iff {headers : HeaderList} :
    (headers.get "etag".toList != [] || headers.get "last-modified".toList != []) = true ↔
      HasValidator headers := by
  unfold HasValidator
  rw [Bool.or_eq_true, bne_iff_ne, bne_iff_ne]

theorem admissible_of_makeCachedResponse {config : ResponseCacheConfig} {request : CacheRequest}
    {statusCode : ℕ} {headers : HeaderList} {body : Str} {sent : Option ℕ} {now : ClockReading}
    {cached : CachedResponse}
    (h : makeCachedResponse config request statusCode headers body sent now true = some cached) :
    Admissible request headers ∧ cacheable headers now = true := by
  have hcacheable := (makeCachedResponse_eq_some h).2.2.2 rfl
  unfold makeCachedResponse at h
  simp only at h
  split_ifs at h with h1 h2 h3
  simp only [Bool.or_eq_true, not_or, Bool.not_eq_true] at h1
  refine ⟨⟨⟨h1.1.1.1, h1.1.1.2⟩, ?_, ?_⟩, hcacheable⟩
  all_goals
    unfold cacheable at hcacheable
    simp only [Bool.and_eq_true, Bool.not_eq_true'] at hcacheable
    obtain ⟨⟨⟨⟨⟨⟨⟨⟨⟨-, hstore⟩, hinvalid⟩, hconflict⟩, hvary⟩, hstar⟩, -⟩, -⟩, -⟩, -⟩ := hcacheable
  · exact ⟨hstore, hinvalid, hconflict⟩
  · exact ⟨hvary, hstar⟩

/-- What the store asks of a response that it may have to validate. -/
theorem hasValidator_of_cacheable {headers : HeaderList} {now : ClockReading}
    (h : cacheable headers now = true)
    (hneeded : (parseCacheControl headers).noCache = true ∨
      freshnessLifetime headers now.wall = none) : HasValidator headers := by
  rw [← hasValidator_iff]
  unfold cacheable at h
  simp only [Bool.and_eq_true, Bool.not_eq_true'] at h
  obtain ⟨⟨⟨⟨-, hnoCache⟩, hfreshness⟩, -⟩, -⟩ := h
  by_contra hnone
  rw [Bool.not_eq_true] at hnone
  rw [hnone] at hnoCache hfreshness
  rcases hneeded with hno | hlifetime
  · rw [hno] at hnoCache
    cases hnoCache
  · rw [hlifetime] at hfreshness
    cases hno : (parseCacheControl headers).noCache with
    | true =>
      rw [hno] at hnoCache
      cases hnoCache
    | false =>
      rw [hno] at hfreshness
      cases hfreshness

/-- The store keeps a response without a freshness lifetime if it has a validator. -/
theorem cacheable_of_validatorOnly {request : CacheRequest} {headers : HeaderList}
    (h : Admissible request headers) (hvalidator : HasValidator headers)
    (hno : (parseCacheControl headers).noCache = false) {now : ClockReading}
    (hwall : now.wall.isSome = true) (hmonotonic : now.monotonic ≠ 0) :
    cacheable headers now = true := by
  have hhas := hasValidator_iff.mpr hvalidator
  unfold cacheable
  simp only [h.control.1, h.control.2.1, h.control.2.2, h.vary.1, h.vary.2, hno, hhas, hwall]
  simpa using hmonotonic

/-- A freshness lifetime comes from a max-age or from two dates. -/
theorem freshnessLifetime_eq_none {headers : HeaderList} {wall : Option ℕ}
    (hmax : (parseCacheControl headers).maxAge = none)
    (hdates : ¬ (headers.get "expires".toList ≠ [] ∧ headers.get "date".toList ≠ [])) :
    freshnessLifetime headers wall = none := by
  unfold freshnessLifetime dateField
  rw [hmax]
  by_cases hexpires : headers.get "expires".toList = []
  · rw [if_pos hexpires]
  · by_cases hdate : headers.get "date".toList = []
    · rw [if_pos hdate]
      dsimp only
      split <;> simp_all
    · exact absurd ⟨hexpires, hdate⟩ hdates

/-- Every response that some store accepts passes the admission test, unless only
its validator makes it worth keeping. -/
theorem shouldCapture_complete_iff (request : CacheRequest) (headers : HeaderList) :
    (∀ (config : ResponseCacheConfig) (cache : ResponseCache) (body : Str) (sent : Option ℕ)
        (now : ClockReading),
      (cache.store config request ⟨200, headers, body⟩ sent now).2 = true →
        shouldCapture request 200 headers = true) ↔
      ¬ (Admissible request headers ∧ ValidatorOnly headers) := by
  constructor
  · rintro hcomplete ⟨hadmissible, honly⟩
    have hcacheable : cacheable headers ⟨some 0, 1⟩ = true :=
      cacheable_of_validatorOnly hadmissible honly.validator honly.noCache rfl (by decide)
    have hstored : (({} : ResponseCache).store roomyConfig request ⟨200, headers, []⟩ none
        ⟨some 0, 1⟩).2 = true :=
      (store_roomy hadmissible.request.1 hadmissible.request.2 hcacheable).1
    rcases ((shouldCapture_iff hadmissible).mp (hcomplete _ _ _ _ _ hstored)).2 with
      hmax | hdates | hno
    · exact hmax honly.maxAge
    · exact honly.dates hdates
    · rw [honly.noCache] at hno
      cases hno
  · intro hnot config cache body sent now hstored
    rcases store_cases config cache request ⟨200, headers, body⟩ sent now with
      heq | ⟨cached, hmade, -⟩
    · rw [heq] at hstored
      cases hstored
    obtain ⟨hadmissible, hcacheable⟩ := admissible_of_makeCachedResponse hmade
    rw [shouldCapture_iff hadmissible]
    refine ⟨fun hno => hasValidator_of_cacheable hcacheable (Or.inl hno), ?_⟩
    by_contra hlacks
    simp only [not_or, not_not, Bool.not_eq_true] at hlacks
    obtain ⟨hmax, hdates, hno⟩ := hlacks
    have hvalidator := hasValidator_of_cacheable hcacheable
      (Or.inr (freshnessLifetime_eq_none hmax hdates))
    exact hnot ⟨hadmissible, hvalidator, hmax, hdates, hno⟩

/-- A response with an entity tag only is stored, but never captured. -/
theorem shouldCapture_tagged :
    (({} : ResponseCache).store roomyConfig (requestFor "a".toList)
        ⟨200, [⟨"etag".toList, "\"v1\"".toList⟩], "A".toList⟩ none wrapClock).2 = true ∧
      shouldCapture (requestFor "a".toList) 200 [⟨"etag".toList, "\"v1\"".toList⟩] = false := by
  constructor <;> decide +kernel

/-! ### Refused stores -/

namespace ResponseCache

variable {config : ResponseCacheConfig} {cache : ResponseCache}

/-- What the byte count still attributes to a response once all other entries are evicted. -/
def ownBytes (config : ResponseCacheConfig) (cache : ResponseCache)
    (response : CachedResponse) : ℕ :=
  saturatingAdd config.sizeMax
      (cache.totalBytes - (bytesIn cache.entries - bytesIn (cache.others response)))
      response.accountedBytes -
    bytesIn (cache.others response)

/-- The byte count of accounted entries attributes its own bytes to a response. -/
theorem ownBytes_eq (h : cache.Accounted config)
    (hlimits : config.maxBytes + config.maxEntryBytes ≤ config.sizeMax) {response : CachedResponse}
    (hresponse : response.Accounted config) :
    ownBytes config cache response = response.accountedBytes := by
  have hle : bytesIn (cache.others response) ≤ bytesIn cache.entries :=
    total_le_of_sublist List.eraseP_sublist
  have hwithin : bytesIn cache.entries ≤ config.maxBytes := h.within.2
  have hbound := hresponse.bound
  have htotal := h.totalBytes
  unfold ownBytes
  rw [saturatingAdd_eq (by omega)]
  omega

theorem ownBytes_le_of_nil (hbytes : cache.totalBytes = 0) (response : CachedResponse) :
    ownBytes config cache response ≤ response.accountedBytes := by
  have hadd := saturatingAdd_le config.sizeMax 0 response.accountedBytes
  unfold ownBytes
  rw [hbytes, Nat.zero_sub]
  omega

/-- Whether the eviction loop gets down to the inserted entry, which is the most
recently used one. -/
theorem evictLoop_last {insertedId : ℕ} {inserted : CachedResponse} {rest : List CachedResponse}
    (hentries : 1 ≤ config.maxEntries) (hinserted : inserted.entryId = insertedId)
    (hids : ∀ e ∈ rest, e.entryId ≠ insertedId) (bytes : ℕ) :
    if bytes - bytesIn rest ≤ config.maxBytes then
      (evictLoop config insertedId (rest ++ [inserted]) bytes true).2.2 = true
    else
      evictLoop config insertedId (rest ++ [inserted]) bytes true =
        ([], bytes - bytesIn rest - inserted.accountedBytes, false) := by
  induction rest generalizing bytes with
  | nil =>
    rw [List.nil_append, bytesIn_nil, Nat.sub_zero]
    split_ifs with hroom
    · have hstay : ¬ (config.maxEntries < ([] : List CachedResponse).length + 1 ∨
          config.maxBytes < bytes) := by
        rw [List.length_nil]
        omega
      rw [evictLoop, if_neg hstay]
    · rw [evictLoop, if_pos (Or.inr (Nat.not_le.mp hroom)), if_pos hinserted, evictLoop]
      congr 2
      omega
  | cons last rest ih =>
    rw [List.cons_append, evictLoop, bytesIn_cons]
    by_cases hfull : config.maxEntries < (rest ++ [inserted]).length + 1 ∨ config.maxBytes < bytes
    · rw [if_pos hfull, if_neg (hids last List.mem_cons_self)]
      have hrest := ih (fun e he => hids e (List.mem_cons_of_mem _ he))
        (bytes - min bytes last.accountedBytes)
      have hsub : bytes - min bytes last.accountedBytes - bytesIn rest =
          bytes - (last.accountedBytes + bytesIn rest) := by
        omega
      rw [hsub] at hrest
      exact hrest
    · rw [if_neg hfull, if_pos (by omega)]

/-- A response that is not up to date is not inserted; one that is stays unless its
own bytes exceed the limit, and then nothing stays. -/
theorem insertLocked_own (hentries : 1 ≤ config.maxEntries) (response : CachedResponse)
    (hids : ∀ e ∈ cache.entries, e.entryId ≠ cache.insertedId) :
    cache.NewerVariant response ∧ cache.insertLocked config response = (cache, none) ∨
      ¬ cache.NewerVariant response ∧
        if ownBytes config cache response ≤ config.maxBytes then
          (cache.insertLocked config response).2.isSome = true
        else
          (cache.insertLocked config response).2 = none ∧
            (cache.insertLocked config response).1.entries = [] ∧
            (cache.insertLocked config response).1.totalBytes =
              ownBytes config cache response - response.accountedBytes := by
  unfold insertLocked
  rcases replaceVariant_cases cache response with ⟨hnewer, hreplace⟩ | ⟨hnot, hreplace⟩
  · rw [hreplace]
    exact Or.inl ⟨hnewer, rfl⟩
  rw [hreplace]
  refine Or.inr ⟨hnot, ?_⟩
  have hothers : ∀ e ∈ (cache.others response).reverse, e.entryId ≠ cache.insertedId :=
    fun e he => hids e (List.eraseP_subset (List.mem_reverse.mp he))
  have hbytes : bytesIn (cache.others response).reverse = bytesIn (cache.others response) :=
    total_perm (List.reverse_perm _)
  have hloop := @evictLoop_last config cache.insertedId (response.withId cache.insertedId) _
    hentries rfl hothers (saturatingAdd config.sizeMax
      (cache.totalBytes - (bytesIn cache.entries - bytesIn (cache.others response)))
      response.accountedBytes)
  rw [hbytes] at hloop
  simp only [List.reverse_cons]
  change if ownBytes config cache response ≤ config.maxBytes then _ else _ at hloop
  by_cases hroom : ownBytes config cache response ≤ config.maxBytes
  · rw [if_pos hroom] at hloop ⊢
    rw [hloop]
    rfl
  · rw [if_neg hroom] at hloop ⊢
    rw [hloop]
    exact ⟨rfl, rfl, rfl⟩

end ResponseCache

theorem ResponseCacheConfig.one_le_maxEntries (config : ResponseCacheConfig) :
    1 ≤ config.effective.maxEntries := by
  unfold effective
  dsimp only
  split_ifs with h
  · omega
  · decide

/-- In every run with fewer than 2^64 - 1 insertions, a store that is refused
changes nothing unless the response alone exceeds the byte limit, is not
outdated and finds other entries in the cache. -/
theorem after_refusedStore_iff (config : ResponseCacheConfig) (ops : List CacheOp)
    (hlt : (CacheRun.after config.effective ops).cache.issued + 1 < 2 ^ 64)
    (request : CacheRequest) (response : Response) (sent : Option ℕ) (now : ClockReading) :
    (((CacheRun.after config.effective ops).cache.store config.effective request response sent
          now).2 = false →
        ((CacheRun.after config.effective ops).cache.store config.effective request response sent
            now).1.entries = (CacheRun.after config.effective ops).cache.entries ∧
          ((CacheRun.after config.effective ops).cache.store config.effective request response sent
            now).1.totalBytes = (CacheRun.after config.effective ops).cache.totalBytes) ↔
      ∀ cached, makeCachedResponse config.effective request response.statusCode response.headers
          response.body sent now true = some cached →
        (CacheRun.after config.effective ops).cache.entries = [] ∨
          (CacheRun.after config.effective ops).cache.NewerVariant cached ∨
          ownBytes config.effective (CacheRun.after config.effective ops).cache cached ≤
            config.effective.maxBytes := by
  have hnumbered := (@CacheRun.inv_after config.effective ops (by omega)).numbered
  have hunder := CacheRun.undercounted_after config.effective ops
  have hentries := config.one_le_maxEntries
  generalize (CacheRun.after config.effective ops).cache = cache at hlt hnumbered hunder ⊢
  have hids : ∀ e ∈ cache.entries, e.entryId ≠ cache.insertedId := by
    intro e he
    have := (hnumbered.bounds e he).2
    rw [hnumbered.insertedId_eq hlt]
    omega
  unfold store
  cases hmade : makeCachedResponse config.effective request response.statusCode response.headers
      response.body sent now true with
  | none => simp
  | some cached =>
    have hcases := insertLocked_own hentries cached hids
    simp only [Option.isSome_eq_false_iff, Option.isNone_iff_eq_none]
    constructor
    · intro hunchanged other hother
      obtain rfl := Option.some.inj hother
      rcases hcases with ⟨hnewer, -⟩ | ⟨-, hown⟩
      · exact Or.inr (Or.inl hnewer)
      by_cases hroom : ownBytes config.effective cache cached ≤ config.effective.maxBytes
      · exact Or.inr (Or.inr hroom)
      · rw [if_neg hroom] at hown
        left
        rw [← (hunchanged hown.1).1]
        exact hown.2.1
    · intro hcond hrefused
      rcases hcases with ⟨-, hsame⟩ | ⟨hnot, hown⟩
      · rw [hsame]
        exact ⟨rfl, rfl⟩
      by_cases hroom : ownBytes config.effective cache cached ≤ config.effective.maxBytes
      · rw [if_pos hroom, hrefused] at hown
        cases hown
      rw [if_neg hroom] at hown
      rcases hcond cached rfl with hempty | hnewer | hfits
      · rw [hown.2.1, hown.2.2, hempty]
        refine ⟨rfl, ?_⟩
        rw [hempty, bytesIn_nil, Nat.le_zero] at hunder
        rw [hunder, Nat.sub_eq_zero_of_le (ownBytes_le_of_nil hunder cached)]
      · exact absurd hnewer hnot
      · exact absurd hfits hroom

/-- A cache of 600 bytes, with an entry limit above that. -/
def smallConfig : ResponseCacheConfig where
  maxBytes := 600
  sizeMax := 2 ^ 64 - 1
  sizeofCachedResponse := 256

def largeResponse : Response :=
  ⟨200, [⟨"cache-control".toList, "max-age=9".toList⟩], List.replicate 600 'B'⟩

theorem after_refusedStore_error :
    ((CacheRun.after smallConfig.effective [storeFor "a".toList "A".toList]).cache.store
        smallConfig.effective (requestFor "a".toList) ⟨500, [], []⟩ none wrapClock).2 = false ∧
      ((CacheRun.after smallConfig.effective [storeFor "a".toList "A".toList]).cache.store
          smallConfig.effective (requestFor "a".toList) ⟨500, [], []⟩ none wrapClock).1.entries =
        (CacheRun.after smallConfig.effective [storeFor "a".toList "A".toList]).cache.entries ∧
      ((CacheRun.after smallConfig.effective [storeFor "a".toList "A".toList]).cache.store
          smallConfig.effective (requestFor "a".toList) ⟨500, [], []⟩ none wrapClock).1.totalBytes =
        (CacheRun.after smallConfig.effective
          [storeFor "a".toList "A".toList]).cache.totalBytes := by
  have hrefused : ((CacheRun.after smallConfig.effective
      [storeFor "a".toList "A".toList]).cache.store smallConfig.effective
        (requestFor "a".toList) ⟨500, [], []⟩ none wrapClock).2 = false := by
    decide +kernel
  refine ⟨hrefused, (after_refusedStore_iff smallConfig _ (by decide +kernel)
    (requestFor "a".toList) ⟨500, [], []⟩ none wrapClock).mpr (fun cached hmade => ?_) hrefused⟩
  exact absurd hmade (by simp [makeCachedResponse])

/-- A response above the byte limit is refused and takes the entry of `a` with it. -/
theorem refusedStore_empties :
    ((CacheRun.after smallConfig.effective [storeFor "a".toList "A".toList]).cache.store
        smallConfig.effective (requestFor "b".toList) largeResponse none wrapClock).2 = false ∧
      ((CacheRun.after smallConfig.effective [storeFor "a".toList "A".toList]).cache.store
        smallConfig.effective (requestFor "b".toList) largeResponse none wrapClock).1.entries ≠
      (CacheRun.after smallConfig.effective [storeFor "a".toList "A".toList]).cache.entries := by
  constructor <;> decide +kernel

end KatHttp3
