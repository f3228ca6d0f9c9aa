import KatHttp3.Cache.Provenance
import KatHttp3.Library.WeightedList

/-!
# The accounting of the response cache

The byte count of the cache is the sum of what its entries account for, and the
entries stay within both limits: inserting keeps the longest prefix of the
entries, the most recently used one first, that does.
-/

namespace KatHttp3

open ResponseCache WeightedList

variable (config : ResponseCacheConfig)

/-- The size of an entry is the one computed for it and within its own limit. -/
structure CachedResponse.Accounted (e : CachedResponse) : Prop where
  size : e.accountedBytes = KatHttp3.accountedBytes config e
  bound : e.accountedBytes ≤ config.maxEntryBytes

/-- Entries within the limits on their number and on their bytes. -/
def Within (entries : List CachedResponse) : Prop :=
  Fits CachedResponse.accountedBytes config.maxEntries config.maxBytes entries

/-- What is left of entries, most recently used first, when the limits are applied. -/
def Evicted (entries kept : List CachedResponse) : Prop :=
  Trimmed CachedResponse.accountedBytes config.maxEntries config.maxBytes entries kept

/-- Bytes of entries. -/
def bytesIn (entries : List CachedResponse) : ℕ := total CachedResponse.accountedBytes entries

@[simp] theorem bytesIn_nil : bytesIn [] = 0 := rfl

@[simp] theorem bytesIn_cons (e : CachedResponse) (entries : List CachedResponse) :
    bytesIn (e :: entries) = e.accountedBytes + bytesIn entries := total_cons e entries

@[simp] theorem bytesIn_append (entries entries' : List CachedResponse) :
    bytesIn (entries ++ entries') = bytesIn entries + bytesIn entries' :=
  total_append entries entries'

namespace ResponseCache

/-- The entries a response is put in front of: all but the variant it replaces. -/
def others (cache : ResponseCache) (response : CachedResponse) : List CachedResponse :=
  cache.entries.eraseP (sameVariant · response)

/-- A more recent response of the same variant is in the cache. -/
def NewerVariant (cache : ResponseCache) (response : CachedResponse) : Prop :=
  ∃ old, cache.entries.find? (sameVariant · response) = some old ∧ moreRecent old response = true

structure Accounted (cache : ResponseCache) : Prop where
  totalBytes : cache.totalBytes = bytesIn cache.entries
  entries : ∀ e ∈ cache.entries, e.Accounted config
  within : Within config cache.entries
  variants : cache.entries.Pairwise fun e e' => sameVariant e e' = false

variable {config} {cache : ResponseCache}

/-! ### Inserting -/

theorem evictLoop_evicted (config : ResponseCacheConfig) (insertedId : ℕ)
    (reversed : List CachedResponse) {bytes : ℕ} (retained : Bool)
    (h : bytes ≤ bytesIn reversed.reverse) :
    Evicted config reversed.reverse (evictLoop config insertedId reversed bytes retained).1.reverse ∧
      (evictLoop config insertedId reversed bytes retained).2.1 ≤
        bytesIn (evictLoop config insertedId reversed bytes retained).1.reverse := by
  induction reversed generalizing bytes retained with
  | nil => exact ⟨Trimmed.refl _, h⟩
  | cons last rest ih =>
    rw [List.reverse_cons, bytesIn_append, bytesIn_cons, bytesIn_nil] at h
    unfold evictLoop
    by_cases hfull : config.maxEntries < rest.length + 1 ∨ config.maxBytes < bytes
    · rw [if_pos hfull, List.reverse_cons]
      obtain ⟨htrimmed, hle⟩ := ih (if last.entryId = insertedId then false else retained)
        (show bytes - min bytes last.accountedBytes ≤ bytesIn rest.reverse by omega)
      refine ⟨Trimmed.of_exceeds ?_ htrimmed, hle⟩
      rintro ⟨hcount, hbytes⟩
      rw [List.length_append, List.length_reverse, List.length_singleton] at hcount
      change bytesIn _ ≤ _ at hbytes
      rw [bytesIn_append, bytesIn_cons, bytesIn_nil] at hbytes
      omega
    · rw [if_neg hfull, List.reverse_cons]
      exact ⟨Trimmed.refl _, by simpa using h⟩

theorem evictLoop_exact (config : ResponseCacheConfig) (insertedId : ℕ)
    (reversed : List CachedResponse) {bytes : ℕ} (retained : Bool)
    (h : bytes = bytesIn reversed.reverse) :
    (evictLoop config insertedId reversed bytes retained).2.1 =
        bytesIn (evictLoop config insertedId reversed bytes retained).1.reverse ∧
      Within config (evictLoop config insertedId reversed bytes retained).1.reverse := by
  induction reversed generalizing bytes retained with
  | nil => exact ⟨h, Fits.nil⟩
  | cons last rest ih =>
    rw [List.reverse_cons, bytesIn_append, bytesIn_cons, bytesIn_nil] at h
    unfold evictLoop
    by_cases hfull : config.maxEntries < rest.length + 1 ∨ config.maxBytes < bytes
    · rw [if_pos hfull]
      exact ih _ (show bytes - min bytes last.accountedBytes = bytesIn rest.reverse by omega)
    · rw [if_neg hfull, List.reverse_cons]
      have hbytes : bytes = bytesIn (rest.reverse ++ [last]) := by simpa using h
      refine ⟨hbytes, ?_, ?_⟩
      · rw [List.length_append, List.length_reverse, List.length_singleton]
        omega
      · change bytesIn _ ≤ _
        omega

theorem bytesIn_eraseIdx {entries : List CachedResponse} {i : ℕ} {old : CachedResponse}
    (h : entries[i]? = some old) :
    bytesIn entries = old.accountedBytes + bytesIn (entries.eraseIdx i) := by
  obtain ⟨hi, rfl⟩ := List.getElem?_eq_some_iff.mp h
  rw [← bytesIn_cons]
  exact total_perm (List.getElem_cons_eraseIdx_perm hi).symm

/-- Replacing a variant takes its bytes off the count. -/
theorem replaceVariant_eq_some {response : CachedResponse} {entries : List CachedResponse}
    {bytes : ℕ} (h : cache.replaceVariant response = some (entries, bytes)) :
    entries = cache.others response ∧
      bytes = cache.totalBytes - min cache.totalBytes (bytesIn cache.entries - bytesIn entries) ∧
      bytesIn entries ≤ bytesIn cache.entries := by
  have hothers := @List.eraseP_eq_eraseIdx _ cache.entries (sameVariant · response)
  unfold replaceVariant at h
  unfold others
  rw [hothers]
  split at h
  · rename_i hnone
    cases h
    rw [hnone]
    exact ⟨rfl, by simp, le_rfl⟩
  · rename_i i hfind
    split at h
    · rename_i hnone
      obtain ⟨hi, -⟩ := List.findIdx?_eq_some_iff_getElem.mp hfind
      rw [List.getElem?_eq_getElem hi] at hnone
      cases hnone
    · rename_i old hold
      split_ifs at h
      cases h
      have hbytes := bytesIn_eraseIdx hold
      rw [hfind]
      refine ⟨rfl, ?_, by omega⟩
      have : bytesIn cache.entries - bytesIn (cache.entries.eraseIdx i) = old.accountedBytes := by
        omega
      rw [this]

/-- A response is put in front of the others unless a more recent one is there. -/
theorem replaceVariant_cases (cache : ResponseCache) (response : CachedResponse) :
    cache.NewerVariant response ∧ cache.replaceVariant response = none ∨
      ¬ cache.NewerVariant response ∧
        cache.replaceVariant response = some (cache.others response,
          cache.totalBytes - (bytesIn cache.entries - bytesIn (cache.others response))) := by
  have hnewer : cache.NewerVariant response ↔ cache.replaceVariant response = none := by
    unfold NewerVariant replaceVariant
    rw [List.find?_eq_bind_findIdx?_getElem?]
    cases hfind : cache.entries.findIdx? (sameVariant · response) with
    | none => simp
    | some i =>
      rw [Option.bind_some]
      dsimp only
      cases cache.entries[i]? with
      | none => simp
      | some old => simp
  cases hreplace : cache.replaceVariant response with
  | none => exact Or.inl ⟨hnewer.mpr hreplace, rfl⟩
  | some replaced =>
    obtain ⟨entries, bytes⟩ := replaced
    obtain ⟨rfl, rfl, hle⟩ := replaceVariant_eq_some hreplace
    refine Or.inr ⟨?_, ?_⟩
    · rw [hnewer, hreplace]
      simp
    · congr 2
      omega

theorem saturatingAdd_le (limit a b : ℕ) : saturatingAdd limit a b ≤ a + b := by
  unfold saturatingAdd
  split_ifs <;> omega

theorem saturatingAdd_eq {limit a b : ℕ} (h : a + b ≤ limit) : saturatingAdd limit a b = a + b := by
  unfold saturatingAdd
  rw [if_neg (by omega)]

/-- Inserting does nothing or puts the response in front and evicts from the end. -/
theorem insertLocked_evicted (config : ResponseCacheConfig) (response : CachedResponse)
    (h : cache.totalBytes ≤ bytesIn cache.entries) :
    cache.insertLocked config response = (cache, none) ∨
      Evicted config (response.withId cache.insertedId :: cache.others response)
          (cache.insertLocked config response).1.entries ∧
        (cache.insertLocked config response).1.totalBytes ≤
          bytesIn (cache.insertLocked config response).1.entries := by
  unfold insertLocked
  cases hreplace : cache.replaceVariant response with
  | none => exact Or.inl rfl
  | some replaced =>
    obtain ⟨entries, bytes⟩ := replaced
    obtain ⟨rfl, hbytes, hle⟩ := replaceVariant_eq_some hreplace
    right
    have hadd := saturatingAdd_le config.sizeMax bytes response.accountedBytes
    have hsum : saturatingAdd config.sizeMax bytes response.accountedBytes ≤
        bytesIn (response.withId cache.insertedId :: cache.others response).reverse.reverse := by
      rw [List.reverse_reverse, bytesIn_cons]
      change _ ≤ response.accountedBytes + _
      omega
    have hevicted := evictLoop_evicted config cache.insertedId _ true hsum
    rw [List.reverse_reverse] at hevicted
    exact hevicted

theorem sameVariant_iff {e e' : CachedResponse} :
    sameVariant e e' = true ↔ e.url = e'.url ∧ e.vary = e'.vary := by
  simp [sameVariant]

/-- No variant of the response is left among the others. -/
theorem sameVariant_of_mem_eraseP {entries : List CachedResponse} (response : CachedResponse)
    (h : entries.Pairwise fun e e' => sameVariant e e' = false) :
    ∀ e ∈ entries.eraseP (sameVariant · response), sameVariant e response = false := by
  induction entries with
  | nil => simp
  | cons a entries ih =>
    obtain ⟨hfirst, hrest⟩ := List.pairwise_cons.mp h
    intro e he
    by_cases ha : sameVariant a response = true
    · rw [List.eraseP_cons, ha] at he
      change e ∈ entries at he
      have hdistinct := hfirst e he
      rw [← Bool.not_eq_true, sameVariant_iff] at hdistinct ⊢
      rw [sameVariant_iff] at ha
      rintro ⟨hurl, hvary⟩
      exact hdistinct ⟨ha.1.trans hurl.symm, ha.2.trans hvary.symm⟩
    · rw [List.eraseP_cons, Bool.eq_false_iff.mpr ha] at he
      rcases List.mem_cons.mp he with rfl | he
      · exact Bool.eq_false_iff.mpr ha
      · exact ih hrest e he

theorem accounted_of_makeCachedResponse {request : CacheRequest} {statusCode : ℕ}
    {headers : HeaderList} {body : Str} {sent : Option ℕ} {now : ClockReading}
    {cached : CachedResponse}
    (h : makeCachedResponse config request statusCode headers body sent now true = some cached) :
    cached.Accounted config := by
  unfold makeCachedResponse at h
  simp only [Bool.true_and] at h
  split_ifs at h with h1 h2 h3
  cases h
  refine ⟨rfl, ?_⟩
  rw [decide_eq_true_iff] at h3
  omega

/-- Inserting does nothing where a more recent response of the variant is there, and keeps
the longest prefix within the limits where there is none. -/
structure InsertsLongest (config : ResponseCacheConfig) (cache : ResponseCache)
    (response : CachedResponse) : Prop where
  outdated : cache.NewerVariant response → cache.insertLocked config response = (cache, none)
  longest : ¬ cache.NewerVariant response →
    LongestFit CachedResponse.accountedBytes config.maxEntries config.maxBytes
      (response.withId cache.insertedId :: cache.others response)
      (cache.insertLocked config response).1.entries

theorem Accounted.insertLocked (h : cache.Accounted config)
    (hlimits : config.maxBytes + config.maxEntryBytes ≤ config.sizeMax) {response : CachedResponse}
    (hresponse : response.Accounted config) :
    (cache.insertLocked config response).1.Accounted config ∧
      cache.InsertsLongest config response := by
  rcases replaceVariant_cases cache response with ⟨hnewer, hreplace⟩ | ⟨hnot, hreplace⟩
  · have hnone : cache.insertLocked config response = (cache, none) := by
      unfold ResponseCache.insertLocked
      rw [hreplace]
    rw [hnone]
    exact ⟨h, fun _ => hnone, fun hnot => absurd hnewer hnot⟩
  have hsub : bytesIn (cache.others response) ≤ bytesIn cache.entries :=
    total_le_of_sublist List.eraseP_sublist
  have hadd : saturatingAdd config.sizeMax
      (cache.totalBytes - (bytesIn cache.entries - bytesIn (cache.others response)))
      response.accountedBytes = response.accountedBytes + bytesIn (cache.others response) := by
    have htotal := h.totalBytes
    have hwithin : bytesIn cache.entries ≤ config.maxBytes := h.within.2
    have hbound := hresponse.bound
    rw [saturatingAdd_eq (by omega)]
    omega
  -- the count that the eviction loop starts with is that of the entries
  have hstart : response.accountedBytes + bytesIn (cache.others response) =
      bytesIn (response.withId cache.insertedId :: cache.others response).reverse.reverse := by
    rw [List.reverse_reverse, bytesIn_cons]
    rfl
  have hevicted := (evictLoop_evicted config cache.insertedId _ true hstart.le).1
  have hexact := evictLoop_exact config cache.insertedId _ true hstart
  rw [List.reverse_reverse] at hevicted
  have hinsert : (cache.insertLocked config response).1.entries =
        (evictLoop config cache.insertedId
          (response.withId cache.insertedId :: cache.others response).reverse
          (response.accountedBytes + bytesIn (cache.others response)) true).1.reverse ∧
      (cache.insertLocked config response).1.totalBytes =
        (evictLoop config cache.insertedId
          (response.withId cache.insertedId :: cache.others response).reverse
          (response.accountedBytes + bytesIn (cache.others response)) true).2.1 := by
    unfold ResponseCache.insertLocked
    rw [hreplace]
    simp only [hadd, and_self]
  rw [← hinsert.1] at hevicted
  rw [← hinsert.1, ← hinsert.2] at hexact
  refine ⟨⟨hexact.1, fun e he => ?_, hexact.2, ?_⟩, fun hnewer => absurd hnewer hnot,
    fun _ => ⟨hevicted, hexact.2⟩⟩
  · rcases List.mem_cons.mp (hevicted.isPrefix.subset he) with rfl | he
    · exact ⟨hresponse.size, hresponse.bound⟩
    · exact h.entries e (List.eraseP_subset he)
  · refine List.Pairwise.sublist hevicted.isPrefix.sublist (List.pairwise_cons.mpr ⟨fun e he => ?_, ?_⟩)
    · have hother := sameVariant_of_mem_eraseP response h.variants e he
      rw [← Bool.not_eq_true, sameVariant_iff] at hother ⊢
      exact fun hsame => hother ⟨hsame.1.symm, hsame.2.symm⟩
    · exact h.variants.sublist List.eraseP_sublist

/-! ### Removing -/

theorem Accounted.of_sublist {cache' : ResponseCache} (h : cache.Accounted config)
    (hentries : cache'.entries.Sublist cache.entries)
    (hbytes : cache'.totalBytes = bytesIn cache'.entries) : cache'.Accounted config :=
  ⟨hbytes, fun e he => h.entries e (hentries.subset he), h.within.of_sublist hentries,
    h.variants.sublist hentries⟩

/-- The count after the bytes of the dropped entries are taken off one by one. -/
theorem Accounted.foldl_sub (h : cache.Accounted config) (p : CachedResponse → Bool) :
    (cache.entries.filter p).foldl (fun bytes e => bytes - min bytes e.accountedBytes)
      cache.totalBytes = bytesIn (cache.entries.filter fun e => !p e) := by
  refine WeightedList.foldl_sub _ ?_
  rw [h.totalBytes]
  exact (total_filter_add p cache.entries).symm

theorem Accounted.removeEntries (h : cache.Accounted config) (ids : List ℕ) :
    (cache.removeEntries ids).Accounted config := by
  refine h.of_sublist List.filter_sublist ?_
  exact h.foldl_sub fun e => ids.contains e.entryId

theorem Accounted.invalidate (h : cache.Accounted config) (url : Str) :
    (cache.invalidate url).Accounted config := by
  refine h.of_sublist List.filter_sublist ?_
  have hsub := h.foldl_sub fun e => decide (e.url = url)
  simp only [← decide_not] at hsub
  exact hsub

theorem Accounted.invalidateEntry (h : cache.Accounted config) (entryId : ℕ) :
    (cache.invalidateEntry entryId).1.Accounted config := by
  refine h.of_sublist (invalidateEntry_sublist cache entryId).1 ?_
  unfold ResponseCache.invalidateEntry
  split_ifs
  · exact h.totalBytes
  · split
    · exact h.totalBytes
    · split
      · exact h.totalBytes
      · rename_i old hold
        have hbytes := bytesIn_eraseIdx hold
        have htotal := h.totalBytes
        change cache.totalBytes - min cache.totalBytes old.accountedBytes =
          bytesIn (cache.entries.eraseIdx _)
        omega

theorem Accounted.clear (h : cache.Accounted config) : cache.clear.Accounted config :=
  h.of_sublist (List.nil_sublist _) rfl

theorem Accounted.lookup (h : cache.Accounted config) (request : CacheRequest) (now : ClockReading) :
    (cache.lookup request now).1.Accounted config := by
  have hbytes : (cache.lookup request now).1.totalBytes = cache.totalBytes := by
    rcases lookup_cases cache request now with heq | ⟨i, best, hfound⟩
    · rw [heq]
    · rw [hfound.cache_eq]
  obtain ⟨hperm, -, -⟩ := lookup_perm cache request now
  refine ⟨?_, fun e he => h.entries e (hperm.subset he), h.within.of_perm hperm, ?_⟩
  · rw [hbytes, h.totalBytes]
    exact (total_perm hperm).symm
  · refine (hperm.pairwise_iff fun {e e'} hdistinct => ?_).mpr h.variants
    rw [← Bool.not_eq_true, sameVariant_iff] at hdistinct ⊢
    exact fun hsame => hdistinct ⟨hsame.1.symm, hsame.2.symm⟩

/-! ### Storing and refreshing -/

theorem Accounted.store (h : cache.Accounted config)
    (hlimits : config.maxBytes + config.maxEntryBytes ≤ config.sizeMax) (request : CacheRequest)
    (response : Response) (sent : Option ℕ) (now : ClockReading) :
    (cache.store config request response sent now).1.Accounted config := by
  rcases store_cases config cache request response sent now with heq | ⟨cached, hmade, heq⟩
  · rw [heq]
    exact h
  · rw [heq]
    exact (h.insertLocked hlimits (accounted_of_makeCachedResponse hmade)).1

/-- The refreshed forms of the entries a 304 selects, with the ids they replace. -/
def refreshCandidates (config : ResponseCacheConfig) (cache : ResponseCache) (v : Validation)
    (request : CacheRequest) (ids : List ℕ) : List (ℕ × CachedResponse) :=
  (cache.selected v ids).filterMap fun entry =>
    (refreshed config v request entry).map fun response => (entry.entryId, response)

/-- The cache a 304 leaves once the entries it selects are removed. -/
def withoutSelected (cache : ResponseCache) (v : Validation) (ids : List ℕ) : ResponseCache :=
  cache.removeEntries ((cache.selected v ids).map CachedResponse.entryId)

theorem accounted_of_mem_refreshCandidates {v : Validation} {request : CacheRequest} {ids : List ℕ}
    {candidate : ℕ × CachedResponse}
    (h : candidate ∈ refreshCandidates config cache v request ids) :
    candidate.2.Accounted config := by
  obtain ⟨old, -, hmap⟩ := List.mem_filterMap.mp h
  obtain ⟨fresh, hfresh, rfl⟩ := Option.map_eq_some_iff.mp hmap
  unfold refreshed at hfresh
  split_ifs at hfresh
  exact accounted_of_makeCachedResponse hfresh

/-- Every turn of the refresh loop keeps the accounting. -/
theorem Accounted.foldl_insertRefreshed (removed : List ℕ) (storedId : ℕ)
    (hlimits : config.maxBytes + config.maxEntryBytes ≤ config.sizeMax)
    {candidates : List (ℕ × CachedResponse)} {state : ResponseCache × Option CachedResponse}
    (h : state.1.Accounted config) (hcandidates : ∀ c ∈ candidates, c.2.Accounted config) :
    (candidates.foldl (insertRefreshed config removed storedId) state).1.Accounted config := by
  induction candidates generalizing state with
  | nil => exact h
  | cons candidate candidates ih =>
    refine ih ?_ fun c hc => hcandidates c (List.mem_cons_of_mem _ hc)
    rcases insertRefreshed_cases config removed storedId state candidate with heq | heq
    · rw [heq]
      exact h
    · rw [heq]
      exact (h.insertLocked hlimits (hcandidates candidate List.mem_cons_self)).1

theorem Accounted.merge304 (h : cache.Accounted config)
    (hlimits : config.maxBytes + config.maxEntryBytes ≤ config.sizeMax) (stored : CachedResponse)
    (request : CacheRequest) (v : Validation) (snapshot : List ℕ) :
    (cache.merge304 config stored request v snapshot).1.Accounted config := by
  rcases merge304_cases config cache stored request v snapshot with heq | heq
  · rw [heq]
    exact h
  · rw [heq]
    exact Accounted.foldl_insertRefreshed _ _ hlimits (h.removeEntries _)
      fun c hc => accounted_of_mem_refreshCandidates hc

end ResponseCache

/-! ### Runs -/

theorem CacheRun.accounted_step {config : ResponseCacheConfig} {s : CacheRun}
    (h : s.cache.Accounted config)
    (hlimits : config.maxBytes + config.maxEntryBytes ≤ config.sizeMax) (op : CacheOp) :
    (s.step config op).cache.Accounted config := by
  cases op with
  | store request response sent now => exact h.store hlimits request response sent now
  | lookup request now => exact h.lookup request now
  | merge304 earlier v =>
    rcases s.step_merge304 config earlier v with hstep | ⟨request, l, stored, -, -, hstep⟩
    · rw [hstep]
      exact h
    · rw [hstep]
      exact h.merge304 hlimits stored request v l.validationCandidateIds
  | invalidate url => exact h.invalidate url
  | invalidateEntry entryId => exact h.invalidateEntry entryId
  | clear => exact h.clear

theorem CacheRun.accounted_after {config : ResponseCacheConfig}
    (hlimits : config.maxBytes + config.maxEntryBytes ≤ config.sizeMax) (ops : List CacheOp) :
    (CacheRun.after config ops).cache.Accounted config := by
  induction ops using List.reverseRecOn with
  | nil => exact ⟨rfl, by simp, Fits.nil, List.Pairwise.nil⟩
  | append_singleton ops op ih =>
    rw [CacheRun.after_snoc]
    exact CacheRun.accounted_step ih hlimits op

/-- The calls of `insert_locked` that an operation makes: the cache at the call
and the response. For a merge they include those of a 304 that is turned down. -/
inductive CacheRun.Inserts (s : CacheRun) : CacheOp → ResponseCache → CachedResponse → Prop
  | store {request : CacheRequest} {response : Response} {sent : Option ℕ} {now : ClockReading}
      {cached : CachedResponse}
      (made : makeCachedResponse config request response.statusCode response.headers response.body
        sent now true = some cached) :
      Inserts s (.store request response sent now) s.cache cached
  | merge304 {earlier : ℕ} {v : Validation} {request : CacheRequest} {l : CacheLookup}
      {before later : List (ℕ × CachedResponse)} {candidate : ℕ × CachedResponse}
      (found : s.lookups[earlier]? = some (request, l)) (storedId : ℕ)
      (candidates : refreshCandidates config s.cache v request l.mergeIds =
        before ++ candidate :: later) :
      Inserts s (.merge304 earlier v)
        (before.foldl (insertRefreshed config
          ((s.cache.selected v l.mergeIds).map CachedResponse.entryId) storedId)
          (s.cache.withoutSelected v l.mergeIds, none)).1
        candidate.2

/-- The entries account for the bytes of the cache, are numbered, and are no two
of one variant. -/
structure ResponseCache.Represents (cache : ResponseCache) : Prop extends cache.Accounted config where
  ids : ∀ e ∈ cache.entries, 0 < e.entryId ∧ e.entryId < cache.nextEntryId
  distinct : (cache.entries.map CachedResponse.entryId).Nodup

/-- After every sequence of operations with fewer than 2^64 - 1 insertions the
cache represents its entries, and every insertion of the sequence keeps the longest
prefix within the limits unless a more recent response of the variant is there. -/
theorem after_represents (ops : List CacheOp)
    (hlimits : config.maxBytes + config.maxEntryBytes ≤ config.sizeMax)
    (hlt : (CacheRun.after config ops).cache.issued + 1 < 2 ^ 64) :
    (CacheRun.after config ops).cache.Represents config ∧
      ∀ before op later cache response, ops = before ++ op :: later →
        (CacheRun.after config before).Inserts config op cache response →
        cache.InsertsLongest config response := by
  have hinv : (CacheRun.after config ops).Inv := CacheRun.inv_after config (by omega)
  have hnumbered := hinv.numbered
  refine ⟨⟨CacheRun.accounted_after hlimits ops, fun e he => ?_, hnumbered.nodup⟩, ?_⟩
  · have hbounds := hnumbered.bounds e he
    have hnext := hnumbered.next
    rw [Nat.mod_eq_of_lt hlt] at hnext
    omega
  · intro before op later cache response _ hinserts
    have haccounted := CacheRun.accounted_after hlimits before
    cases hinserts with
    | store made =>
      exact (haccounted.insertLocked hlimits (accounted_of_makeCachedResponse made)).2
    | @merge304 _ v request l candidatesBefore candidatesLater candidate found storedId candidates =>
      have hcandidates : ∀ c ∈ candidatesBefore ++ candidate :: candidatesLater,
          c.2.Accounted config := by
        rw [← candidates]
        exact fun c hc => accounted_of_mem_refreshCandidates hc
      refine (Accounted.insertLocked ?_ hlimits (hcandidates candidate (by simp))).2
      exact Accounted.foldl_insertRefreshed _ _ hlimits (haccounted.removeEntries _)
        fun c hc => hcandidates c (List.mem_append_left _ hc)

/-- A cache of two entries. -/
def pairConfig : ResponseCacheConfig :=
  { maxEntries := 2, sizeMax := 2 ^ 64 - 1, sizeofCachedResponse := 256 }

/-- The third response evicts the first one, and the fourth replaces the second. -/
def evictOps : List CacheOp :=
  [storeFor "a".toList "A".toList, storeFor "b".toList "B".toList,
    storeFor "c".toList "C".toList, storeFor "b".toList "B2".toList]

/-- URLs and bodies of the entries of a cache. -/
def ResponseCache.contents (cache : ResponseCache) : List (Str × Str) :=
  cache.entries.map fun e => (e.url, e.body)

theorem after_represents_store :
    (CacheRun.after pairConfig (evictOps.take 2)).cache.contents =
        [("b".toList, "B".toList), ("a".toList, "A".toList)] ∧
      (CacheRun.after pairConfig (evictOps.take 3)).cache.contents =
        [("c".toList, "C".toList), ("b".toList, "B".toList)] ∧
      (CacheRun.after pairConfig evictOps).cache.contents =
        [("b".toList, "B2".toList), ("c".toList, "C".toList)] ∧
      (CacheRun.after pairConfig evictOps).cache.Represents pairConfig ∧
        ∀ before op later cache response, evictOps = before ++ op :: later →
          (CacheRun.after pairConfig before).Inserts pairConfig op cache response →
          cache.InsertsLongest pairConfig response :=
  ⟨by decide +kernel, by decide +kernel, by decide +kernel,
    after_represents pairConfig evictOps (by decide) (by decide +kernel)⟩

end KatHttp3
