import KatHttp3.Cache.Admission
import KatHttp3.Library.LatestPerKey

/-!
# The order of stores

Responses for one URL that are stored in any order, with lookups in between: as
long as nothing is evicted the cache keeps the latest response of every variant,
and a lookup returns the latest of those that match its request.
-/

namespace KatHttp3

open Str ResponseCache WeightedList LatestPerKey

/-- The variant of a response: its URL and the values its Vary fields were stored with. -/
def CachedResponse.variant (e : CachedResponse) : Str × List VaryKey := (e.url, e.vary)

/-- The response answers the request: it is for its URL and its Vary values match. -/
def Matches (request : CacheRequest) (e : CachedResponse) : Prop :=
  e.url = request.url ∧ varyMatches e request.headers = true

instance (request : CacheRequest) (e : CachedResponse) : Decidable (Matches request e) :=
  inferInstanceAs (Decidable (_ ∧ _))

theorem matches_of_variant {request : CacheRequest} {a b : CachedResponse}
    (h : a.variant = b.variant) (ha : Matches request a) : Matches request b := by
  obtain ⟨hurl, hvary⟩ := Prod.ext_iff.mp h
  change a.url = b.url at hurl
  change a.vary = b.vary at hvary
  refine ⟨hurl.symm.trans ha.1, ?_⟩
  rw [varyMatches, ← hvary]
  exact ha.2

theorem sameVariant_iff_variant {a b : CachedResponse} :
    sameVariant a b = true ↔ a.variant = b.variant := by
  rw [sameVariant_iff, CachedResponse.variant, CachedResponse.variant, Prod.mk.injEq]

theorem le_of_moreRecent {a b : CachedResponse} (h : moreRecent a b = true) :
    b.selectionDateSeconds ≤ a.selectionDateSeconds := by
  unfold moreRecent at h
  split_ifs at h with hne
  · exact le_of_lt (by simpa using h)
  · exact le_of_eq (not_not.mp hne).symm

theorem le_of_not_moreRecent {a b : CachedResponse} (h : moreRecent a b = false) :
    a.selectionDateSeconds ≤ b.selectionDateSeconds := by
  unfold moreRecent at h
  split_ifs at h with hne
  · simpa using h
  · exact le_of_eq (not_not.mp hne)

/-! ### Selecting the best entry -/

namespace ResponseCache

variable {cache : ResponseCache} {request : CacheRequest}

/-- One turn of the search of a lookup. -/
def better (request : CacheRequest) (best : Option (CachedResponse × ℕ))
    (entry : CachedResponse × ℕ) : Option (CachedResponse × ℕ) :=
  if entry.1.url ≠ request.url ∨ varyMatches entry.1 request.headers = false then best
  else
    match best with
    | none => some entry
    | some current => if moreRecent entry.1 current.1 then some entry else some current

/-- The search so far: nothing matched, or the best entry is a latest one that did. -/
def SearchedIn (request : CacheRequest) (entries : List CachedResponse)
    (best : Option (CachedResponse × ℕ)) : Prop :=
  match best with
  | none => ∀ e ∈ entries, ¬ Matches request e
  | some (e, _) => Latest CachedResponse.selectionDateSeconds (Matches request) entries e

theorem SearchedIn.snoc {entries : List CachedResponse} {best : Option (CachedResponse × ℕ)}
    (h : SearchedIn request entries best) (entry : CachedResponse × ℕ) :
    SearchedIn request (entries ++ [entry.1]) (better request best entry) := by
  unfold better
  by_cases hskip : entry.1.url ≠ request.url ∨ varyMatches entry.1 request.headers = false
  · rw [if_pos hskip]
    have hno : ¬ Matches request entry.1 := by
      rintro ⟨hurl, hvary⟩
      rcases hskip with hother | hdiffers
      · exact hother hurl
      · rw [hvary] at hdiffers
        cases hdiffers
    cases best with
    | none =>
      intro e he
      rcases List.mem_append.mp he with hold | hnew
      · exact h e hold
      · rwa [List.mem_singleton.mp hnew]
    | some current =>
      refine ⟨List.mem_append_left _ h.mem, h.holds, fun e he hmatch => ?_⟩
      rcases List.mem_append.mp he with hold | hnew
      · exact h.le e hold hmatch
      · rw [List.mem_singleton.mp hnew] at hmatch
        exact absurd hmatch hno
  · rw [if_neg hskip]
    rw [not_or, not_not, Bool.not_eq_false] at hskip
    have hmatches : Matches request entry.1 := hskip
    cases best with
    | none =>
      refine ⟨List.mem_append_right _ List.mem_cons_self, hmatches, fun e he hmatch => ?_⟩
      rcases List.mem_append.mp he with hold | hnew
      · exact absurd hmatch (h e hold)
      · rw [List.mem_singleton.mp hnew]
    | some current =>
      dsimp only
      cases hrecent : moreRecent entry.1 current.1 with
      | true =>
        rw [if_pos rfl]
        refine ⟨List.mem_append_right _ List.mem_cons_self, hmatches, fun e he hmatch => ?_⟩
        rcases List.mem_append.mp he with hold | hnew
        · exact (h.le e hold hmatch).trans (le_of_moreRecent hrecent)
        · rw [List.mem_singleton.mp hnew]
      | false =>
        rw [if_neg (by decide)]
        refine ⟨List.mem_append_left _ h.mem, h.holds, fun e he hmatch => ?_⟩
        rcases List.mem_append.mp he with hold | hnew
        · exact h.le e hold hmatch
        · rw [List.mem_singleton.mp hnew]
          exact le_of_not_moreRecent hrecent

theorem searchedIn_foldl (entries : List (CachedResponse × ℕ)) :
    SearchedIn request (entries.map Prod.fst) (entries.foldl (better request) none) := by
  induction entries using List.reverseRecOn with
  | nil => exact fun e he => absurd he List.not_mem_nil
  | append_singleton entries entry ih =>
    rw [List.map_append, List.foldl_append]
    exact ih.snoc entry

theorem mem_foldl_better {entries : List (CachedResponse × ℕ)} {p : CachedResponse × ℕ}
    (h : entries.foldl (better request) none = some p) : p ∈ entries := by
  induction entries using List.reverseRecOn with
  | nil => cases h
  | append_singleton entries entry ih =>
    rw [List.foldl_append, List.foldl_cons, List.foldl_nil] at h
    unfold better at h
    split_ifs at h
    · exact List.mem_append_left _ (ih h)
    · split at h
      · obtain rfl := Option.some.inj h
        exact List.mem_append_right _ List.mem_cons_self
      · rename_i current hcurrent
        split_ifs at h
        · obtain rfl := Option.some.inj h
          exact List.mem_append_right _ List.mem_cons_self
        · exact List.mem_append_left _ (ih (hcurrent.trans h))

theorem selectBest_eq (cache : ResponseCache) (request : CacheRequest) :
    cache.selectBest request = (cache.entries.zipIdx.foldl (better request) none).map Prod.snd := by
  unfold selectBest
  congr 2
  funext best entry
  cases best <;> rfl

/-- A lookup selects a latest entry that matches, if any does. -/
theorem selectBest_latest (cache : ResponseCache) (request : CacheRequest) :
    (cache.selectBest request = none ∧ ∀ e ∈ cache.entries, ¬ Matches request e) ∨
      ∃ i best, cache.selectBest request = some i ∧ cache.entries[i]? = some best ∧
        Latest CachedResponse.selectionDateSeconds (Matches request) cache.entries best := by
  have hsearched := @searchedIn_foldl request cache.entries.zipIdx
  rw [List.zipIdx_map_fst] at hsearched
  rw [selectBest_eq]
  cases hbest : cache.entries.zipIdx.foldl (better request) none with
  | none =>
    rw [hbest] at hsearched
    exact Or.inl ⟨rfl, hsearched⟩
  | some p =>
    rw [hbest] at hsearched
    exact Or.inr ⟨p.2, p.1, rfl, List.mem_zipIdx_iff_getElem?.mp (mem_foldl_better hbest),
      hsearched⟩

/-! ### Inserting with room -/

variable {config : ResponseCacheConfig}

theorem evictLoop_of_fits (insertedId : ℕ) {reversed : List CachedResponse} {bytes : ℕ}
    (hcount : reversed.length ≤ config.maxEntries) (hbytes : bytes ≤ config.maxBytes)
    (retained : Bool) :
    evictLoop config insertedId reversed bytes retained = (reversed, bytes, retained) := by
  cases reversed with
  | nil => rfl
  | cons last rest =>
    rw [List.length_cons] at hcount
    rw [evictLoop, if_neg (by omega)]

/-- With room for all, inserting drops the variant it replaces and nothing else. -/
theorem insertLocked_of_fits {response : CachedResponse}
    (htotal : cache.totalBytes ≤ bytesIn cache.entries)
    (hcount : cache.entries.length + 1 ≤ config.maxEntries)
    (hbytes : bytesIn cache.entries + response.accountedBytes ≤ config.maxBytes) :
    cache.NewerVariant response ∧ cache.insertLocked config response = (cache, none) ∨
      ¬ cache.NewerVariant response ∧ (cache.insertLocked config response).1.entries =
        response.withId cache.insertedId :: cache.others response := by
  unfold insertLocked
  rcases replaceVariant_cases cache response with ⟨hnewer, hreplace⟩ | ⟨hnot, hreplace⟩
  · rw [hreplace]
    exact Or.inl ⟨hnewer, rfl⟩
  rw [hreplace]
  refine Or.inr ⟨hnot, ?_⟩
  have hothers : (cache.others response).length ≤ cache.entries.length :=
    List.eraseP_sublist.length_le
  have hadd := saturatingAdd_le config.sizeMax
    (cache.totalBytes - (bytesIn cache.entries - bytesIn (cache.others response)))
    response.accountedBytes
  dsimp only
  rw [evictLoop_of_fits _ (by rw [List.length_reverse, List.length_cons]; omega) (by omega)]
  exact List.reverse_reverse _

/-- Erasing the first element that passes a test drops no other element. -/
theorem mem_eraseP_or_find? {p : CachedResponse → Bool} {entries : List CachedResponse}
    {e : CachedResponse} (he : e ∈ entries) : e ∈ entries.eraseP p ∨ entries.find? p = some e := by
  induction entries with
  | nil => cases he
  | cons first rest ih =>
    cases hfirst : p first with
    | true =>
      rw [List.eraseP_cons_of_pos hfirst, List.find?_cons_of_pos hfirst]
      rcases List.mem_cons.mp he with rfl | hrest
      · exact Or.inr rfl
      · exact Or.inl hrest
    | false =>
      rw [List.eraseP_cons_of_neg (by simp [hfirst]), List.find?_cons_of_neg (by simp [hfirst])]
      rcases List.mem_cons.mp he with rfl | hrest
      · exact Or.inl List.mem_cons_self
      · exact (ih hrest).imp_left (List.mem_cons_of_mem _)

/-- What is dropped for a response is of its variant and not later. -/
theorem mem_others_or_replaced {response e : CachedResponse}
    (hnot : ¬ cache.NewerVariant response) (he : e ∈ cache.entries) :
    e ∈ cache.others response ∨
      e.variant = response.variant ∧ e.selectionDateSeconds ≤ response.selectionDateSeconds := by
  rcases mem_eraseP_or_find? (p := (sameVariant · response)) he with hstays | hfind
  · exact Or.inl hstays
  · have hsame := @List.find?_some _ (sameVariant · response) _ _ hfind
    refine Or.inr ⟨sameVariant_iff_variant.mp hsame, le_of_not_moreRecent ?_⟩
    by_contra hrecent
    exact hnot ⟨e, hfind, by simpa using hrecent⟩

end ResponseCache

/-! ### Runs of stores and lookups -/

variable {config : ResponseCacheConfig}

/-- A response under no id. -/
def CachedResponse.content (e : CachedResponse) : CachedResponse := e.withId 0

/-- One call of `store`. -/
structure StoreCall where
  request : CacheRequest
  response : Response
  requestWallSeconds : Option ℕ
  now : ClockReading

/-- The entry a call gives, if it is storable. -/
def StoreCall.made (config : ResponseCacheConfig) (s : StoreCall) : Option CachedResponse :=
  makeCachedResponse config s.request s.response.statusCode s.response.headers s.response.body
    s.requestWallSeconds s.now true

/-- A store or a lookup. -/
inductive OrderOp
  | store (s : StoreCall)
  | lookup (request : CacheRequest) (now : ClockReading)

namespace OrderOp

def toCacheOp : OrderOp → CacheOp
  | store s => .store s.request s.response s.requestWallSeconds s.now
  | lookup request now => .lookup request now

def storeCall? : OrderOp → Option StoreCall
  | store s => some s
  | lookup .. => none

end OrderOp

/-- The calls of `store` among the operations, in their order. -/
def storeCalls (ops : List OrderOp) : List StoreCall := ops.filterMap OrderOp.storeCall?

/-- The cache after a sequence of stores and lookups. -/
def afterOrder (config : ResponseCacheConfig) (ops : List OrderOp) : ResponseCache :=
  (CacheRun.after config (ops.map OrderOp.toCacheOp)).cache

/-- The entries that the calls give. -/
def entriesOf (config : ResponseCacheConfig) (submitted : List StoreCall) : List CachedResponse :=
  submitted.filterMap (StoreCall.made config)

/-- After stores and lookups without eviction: the latest response of every
variant is there, and what is there takes no more room than all responses. -/
structure KeepsLatest (all : List CachedResponse) (cache : ResponseCache) : Prop where
  covers : Covers CachedResponse.variant CachedResponse.selectionDateSeconds all
    (cache.entries.map CachedResponse.content)
  count : cache.entries.length ≤ all.length
  bytes : bytesIn cache.entries ≤ bytesIn all

theorem content_made {config : ResponseCacheConfig} {s : StoreCall} {cached : CachedResponse}
    (h : s.made config = some cached) : cached.content = cached := by
  obtain ⟨rfl, -⟩ := makeCachedResponse_eq_some h
  rfl

theorem KeepsLatest.insertLocked {all : List CachedResponse} {cache : ResponseCache}
    (h : KeepsLatest all cache) (htotal : cache.totalBytes ≤ bytesIn cache.entries)
    {response : CachedResponse} (hcontent : response.content = response)
    (hcount : all.length + 1 ≤ config.maxEntries)
    (hbytes : bytesIn all + response.accountedBytes ≤ config.maxBytes) :
    KeepsLatest (all ++ [response]) (cache.insertLocked config response).1 := by
  have hlength := h.count
  have hsum := h.bytes
  rcases @insertLocked_of_fits cache config response htotal (by omega) (by omega) with
    ⟨⟨old, hfind, hrecent⟩, hnone⟩ | ⟨hnot, hentries⟩
  · have hsame := @List.find?_some _ (sameVariant · response) _ _ hfind
    have hold := List.mem_map_of_mem (f := CachedResponse.content) (List.mem_of_find?_eq_some hfind)
    rw [hnone]
    refine ⟨h.covers.skip hold (sameVariant_iff_variant.mp hsame) (le_of_moreRecent hrecent),
      ?_, ?_⟩
    · rw [List.length_append]
      exact hlength.trans (Nat.le_add_right _ _)
    · rw [bytesIn_append]
      exact hsum.trans (Nat.le_add_right _ _)
  · have hothers : (cache.others response).length ≤ cache.entries.length :=
      List.eraseP_sublist.length_le
    have hless : bytesIn (cache.others response) ≤ bytesIn cache.entries :=
      total_le_of_sublist List.eraseP_sublist
    refine ⟨h.covers.insert ?_ ?_ ?_, ?_, ?_⟩
    · rw [hentries, List.map_cons]
      exact List.mem_cons.mpr (Or.inl hcontent.symm)
    · intro b hb
      rw [hentries, List.map_cons] at hb
      rcases List.mem_cons.mp hb with rfl | hold
      · exact Or.inl hcontent
      · obtain ⟨e, he, rfl⟩ := List.mem_map.mp hold
        exact Or.inr (List.mem_map_of_mem (List.eraseP_subset he))
    · intro b hb
      obtain ⟨e, he, rfl⟩ := List.mem_map.mp hb
      rw [hentries, List.map_cons]
      exact (mem_others_or_replaced hnot he).imp_left fun hstays =>
        List.mem_cons_of_mem _ (List.mem_map_of_mem hstays)
    · rw [hentries, List.length_cons, List.length_append, List.length_singleton]
      omega
    · rw [hentries, bytesIn_cons, bytesIn_append, bytesIn_cons, bytesIn_nil]
      change response.accountedBytes + _ ≤ _
      omega

theorem KeepsLatest.lookup {all : List CachedResponse} {cache : ResponseCache}
    (h : KeepsLatest all cache) (request : CacheRequest) (now : ClockReading) :
    KeepsLatest all (cache.lookup request now).1 := by
  obtain ⟨hperm, -, -⟩ := lookup_perm cache request now
  refine ⟨h.covers.congr fun a => (hperm.map _).mem_iff, ?_, ?_⟩
  · rw [hperm.length_eq]
    exact h.count
  · have hsum : bytesIn (cache.lookup request now).1.entries = bytesIn cache.entries :=
      total_perm hperm
    rw [hsum]
    exact h.bytes

@[simp] theorem storeCalls_append (ops ops' : List OrderOp) :
    storeCalls (ops ++ ops') = storeCalls ops ++ storeCalls ops' := List.filterMap_append

@[simp] theorem entriesOf_append (config : ResponseCacheConfig) (s s' : List StoreCall) :
    entriesOf config (s ++ s') = entriesOf config s ++ entriesOf config s' := List.filterMap_append

theorem afterOrder_snoc (config : ResponseCacheConfig) (ops : List OrderOp) (op : OrderOp) :
    afterOrder config (ops ++ [op]) =
      ((CacheRun.after config (ops.map OrderOp.toCacheOp)).step config op.toCacheOp).cache := by
  rw [afterOrder, List.map_append, List.map_singleton, CacheRun.after_snoc]

/-- Without eviction the latest response of every variant stays. -/
theorem keepsLatest_afterOrder (config : ResponseCacheConfig) (ops : List OrderOp)
    (hcount : (entriesOf config (storeCalls ops)).length ≤ config.maxEntries)
    (hbytes : bytesIn (entriesOf config (storeCalls ops)) ≤ config.maxBytes) :
    KeepsLatest (entriesOf config (storeCalls ops)) (afterOrder config ops) := by
  induction ops using List.reverseRecOn with
  | nil => exact ⟨Covers.nil, le_rfl, le_rfl⟩
  | append_singleton ops op ih =>
    rw [storeCalls_append, entriesOf_append] at hcount hbytes ⊢
    rw [List.length_append] at hcount
    rw [bytesIn_append] at hbytes
    have hbefore := ih (by omega) (by omega)
    have htotal : (afterOrder config ops).totalBytes ≤ bytesIn (afterOrder config ops).entries :=
      CacheRun.undercounted_after config _
    rw [afterOrder_snoc]
    cases op with
    | lookup request now =>
      have hnone : entriesOf config (storeCalls [.lookup request now]) = [] := rfl
      rw [hnone, List.append_nil]
      exact hbefore.lookup request now
    | store s =>
      change KeepsLatest _ ((afterOrder config ops).store config s.request s.response
        s.requestWallSeconds s.now).1
      have hentries : entriesOf config (storeCalls [.store s]) = (s.made config).toList := by
        change List.filterMap (StoreCall.made config) [s] = _
        cases hmade : s.made config with
        | none => simp [hmade]
        | some cached => simp [hmade]
      rw [hentries] at hcount hbytes ⊢
      unfold store
      cases hmade : s.made config with
      | none =>
        unfold StoreCall.made at hmade
        rw [hmade, Option.toList_none, List.append_nil]
        exact hbefore
      | some cached =>
        rw [hmade, Option.toList_some] at hcount hbytes
        rw [bytesIn_cons, bytesIn_nil] at hbytes
        have hkept := hbefore.insertLocked htotal (content_made hmade) hcount (by omega)
        unfold StoreCall.made at hmade
        rw [hmade, Option.toList_some]
        exact hkept

theorem lookupLocked_response {cache : ResponseCache} {request : CacheRequest} {i : ℕ}
    {best : CachedResponse} (hbest : cache.selectBest request = some i)
    (hget : cache.entries[i]? = some best) (control : CacheControl) (now : ClockReading) :
    (cache.lookupLocked request control now).2.response =
      some { best with headers := headersWithAge best.headers (currentAge best now.monotonic) } := by
  unfold lookupLocked
  simp only [hbest, hget]
  split_ifs <;> rfl

/-- The lookup returns the latest response that matches, and none if none does. -/
def ReturnsLatest (config : ResponseCacheConfig) (submitted : List StoreCall)
    (request : CacheRequest) (now : ClockReading) (result : CacheLookup) : Prop :=
  (∀ c, Latest CachedResponse.selectionDateSeconds (Matches request) (entriesOf config submitted) c →
    ∃ entryId, result.response = some
      { c.withId entryId with headers := headersWithAge c.headers (currentAge c now.monotonic) }) ∧
  ((∀ c ∈ entriesOf config submitted, ¬ Matches request c) → result.response = none)

/-- In whatever order responses of different dates are stored, with lookups in
between and without eviction, a request that the cache is asked for gets the
latest response that matches it, and every other request gets none. -/
theorem lookup_afterOrder (config : ResponseCacheConfig) (submitted : List StoreCall)
    (hdates : ((entriesOf config submitted).map CachedResponse.selectionDateSeconds).Nodup)
    (hcount : (entriesOf config submitted).length ≤ config.maxEntries)
    (hbytes : bytesIn (entriesOf config submitted) ≤ config.maxBytes) (ops : List OrderOp)
    (horder : (storeCalls ops).Perm submitted) (request : CacheRequest) (now : ClockReading) :
    if requestCacheBypassed request (parseCacheControl request.headers) = true ∨
        (parseCacheControl request.headers).invalid = true then
      ((afterOrder config ops).lookup request now).2.response = none
    else
      ReturnsLatest config submitted request now ((afterOrder config ops).lookup request now).2 := by
  have hperm : (entriesOf config (storeCalls ops)).Perm (entriesOf config submitted) :=
    horder.filterMap _
  have hkeeps := keepsLatest_afterOrder config ops (by rwa [hperm.length_eq])
    (by rwa [bytesIn, total_perm hperm])
  generalize afterOrder config ops = cache at hkeeps ⊢
  split_ifs with hskip
  · rw [← Bool.or_eq_true] at hskip
    rw [lookup, if_pos hskip]
  have hlookup : cache.lookup request now =
      cache.lookupLocked request (parseCacheControl request.headers) now := by
    rw [lookup, if_neg (by rwa [Bool.or_eq_true])]
  rw [hlookup]
  have hvariants := fun a b => @matches_of_variant request a b
  have hmem : ∀ c, c ∈ entriesOf config submitted ↔ c ∈ entriesOf config (storeCalls ops) :=
    fun c => hperm.mem_iff.symm
  rcases selectBest_latest cache request with ⟨hbest, hnone⟩ | ⟨i, best, hbest, hget, hlatest⟩
  · have hresponse : (cache.lookupLocked request (parseCacheControl request.headers)
        now).2.response = none := by
      rw [lookupLocked, hbest]
    refine ⟨fun c hc => ?_, fun _ => hresponse⟩
    obtain ⟨b, hb, hmatches⟩ := hkeeps.covers.exists_kept hvariants ((hmem c).mp hc.mem) hc.holds
    obtain ⟨e, he, rfl⟩ := List.mem_map.mp hb
    exact absurd hmatches (hnone e he)
  · have hkept : Latest CachedResponse.selectionDateSeconds (Matches request)
        (cache.entries.map CachedResponse.content) best.content := by
      refine ⟨List.mem_map_of_mem hlatest.mem, hlatest.holds, fun b hb hmatches => ?_⟩
      obtain ⟨e, he, rfl⟩ := List.mem_map.mp hb
      exact hlatest.le e he hmatches
    have hall := (hkeeps.covers.latest_of_kept hvariants hkept).congr hmem
    refine ⟨fun c hc => ⟨best.entryId, ?_⟩, fun hno => absurd hall.holds (hno _ hall.mem)⟩
    obtain rfl := hc.unique (fun a ha b hb => List.inj_on_of_nodup_map hdates ha hb) hall
    exact lookupLocked_response hbest hget _ now

def storeCallFor (url : Str) : StoreCall :=
  ⟨requestFor url, taggedResponse "A".toList, none, wrapClock⟩

def languageRequest (language : Str) : CacheRequest :=
  { requestFor "a".toList with headers := [⟨"accept-language".toList, language⟩] }

def languageCall (language body : Str) (second : ℕ) : StoreCall :=
  ⟨languageRequest language,
    { taggedResponse body with
      headers := (taggedResponse body).headers ++ [⟨"vary".toList, "accept-language".toList⟩] },
    none, ⟨some second, second⟩⟩

/-- One German and two English responses. -/
def languageCalls : List StoreCall :=
  [languageCall "de".toList "A".toList 1, languageCall "en".toList "B".toList 2,
    languageCall "en".toList "C".toList 3]

/-- The English request gets the later English response. -/
def ReturnsEnglish (ops : List OrderOp) : Prop :=
  ReturnsLatest wrapConfig languageCalls (languageRequest "en".toList) ⟨some 4, 4⟩
      ((afterOrder wrapConfig ops).lookup (languageRequest "en".toList) ⟨some 4, 4⟩).2 ∧
    ((afterOrder wrapConfig ops).lookup (languageRequest "en".toList)
      ⟨some 4, 4⟩).2.response.map CachedResponse.body = some "C".toList

/-- In the second order the earlier English response comes behind the later one, and the German
one last. -/
theorem lookup_afterOrder_languages :
    ReturnsEnglish (languageCalls.map .store) ∧
      ReturnsEnglish (languageCalls.map OrderOp.store).reverse := by
  have hasked : ¬ (requestCacheBypassed (languageRequest "en".toList)
        (parseCacheControl (languageRequest "en".toList).headers) = true ∨
      (parseCacheControl (languageRequest "en".toList).headers).invalid = true) := by
    decide +kernel
  have hlookup (ops : List OrderOp) (horder : (storeCalls ops).Perm languageCalls) :=
    lookup_afterOrder wrapConfig languageCalls (by decide +kernel) (by decide +kernel)
      (by decide +kernel) ops horder (languageRequest "en".toList) ⟨some 4, 4⟩
  constructor
  · have hforward := hlookup (languageCalls.map .store) (List.Perm.refl languageCalls)
    rw [if_neg hasked] at hforward
    exact ⟨hforward, by decide +kernel⟩
  · have hbackward := hlookup (languageCalls.map OrderOp.store).reverse
      (List.reverse_perm languageCalls)
    rw [if_neg hasked] at hbackward
    exact ⟨hbackward, by decide +kernel⟩

/-- A POST request matches the stored response, but the cache is not asked for it. -/
theorem lookup_post :
    ¬ ReturnsLatest wrapConfig [storeCallFor "a".toList]
      { requestFor "a".toList with method := "POST".toList } wrapClock
      ((afterOrder wrapConfig [.store (storeCallFor "a".toList)]).lookup
        { requestFor "a".toList with method := "POST".toList } wrapClock).2 := by
  rintro ⟨hlatest, -⟩
  obtain ⟨c, hentries, hmatches⟩ : ∃ c, entriesOf wrapConfig [storeCallFor "a".toList] = [c] ∧
      Matches { requestFor "a".toList with method := "POST".toList } c := by
    refine ⟨_, rfl, ?_⟩
    decide +kernel
  rw [hentries] at hlatest
  obtain ⟨entryId, hresponse⟩ := hlatest c ⟨List.mem_cons_self, hmatches, fun b hb _ =>
    (congrArg CachedResponse.selectionDateSeconds (List.mem_singleton.mp hb)).le⟩
  have hnone : ((afterOrder wrapConfig [.store (storeCallFor "a".toList)]).lookup
      { requestFor "a".toList with method := "POST".toList } wrapClock).2.response = none := by
    decide +kernel
  rw [hnone] at hresponse
  cases hresponse

end KatHttp3
