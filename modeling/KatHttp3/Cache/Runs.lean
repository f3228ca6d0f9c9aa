import KatHttp3.Cache.ResponseCache

/-!
# Runs of the response cache

Any sequence of cache operations, a 304 being merged with the response and the
candidate ids of some earlier lookup. Entry ids are handed out in increasing
order until the counter wraps, and every operation only removes entries or puts
in entries with new ids.
-/

namespace KatHttp3

open ResponseCache

inductive CacheOp
  | store (request : CacheRequest) (response : Response) (requestWallSeconds : Option ℕ)
      (now : ClockReading)
  | lookup (request : CacheRequest) (now : ClockReading)
  /-- The merge of a 304 received for the lookup with this number. -/
  | merge304 (earlier : ℕ) (validation : Validation)
  | invalidate (url : Str)
  | invalidateEntry (entryId : ℕ)
  | clear

/-- The cache and the lookups made so far, in order. -/
structure CacheRun where
  cache : ResponseCache := {}
  lookups : List (CacheRequest × CacheLookup) := []
  deriving DecidableEq

variable (config : ResponseCacheConfig)

namespace CacheRun

def step (s : CacheRun) : CacheOp → CacheRun
  | .store request response sent now =>
    { s with cache := (s.cache.store config request response sent now).1 }
  | .lookup request now =>
    { cache := (s.cache.lookup request now).1
      lookups := s.lookups ++ [(request, (s.cache.lookup request now).2)] }
  | .merge304 earlier v =>
    match s.lookups[earlier]? with
    | some (request, ⟨_, some stored, ids⟩) =>
      { s with cache := (s.cache.merge304 config stored request v ids).1 }
    | _ => s
  | .invalidate url => { s with cache := s.cache.invalidate url }
  | .invalidateEntry entryId => { s with cache := (s.cache.invalidateEntry entryId).1 }
  | .clear => { s with cache := s.cache.clear }

/-- The state after a sequence of operations on an empty cache. -/
def after (ops : List CacheOp) : CacheRun := ops.foldl (step config) {}

@[simp] theorem after_nil : after config [] = {} := rfl

@[simp] theorem after_snoc (ops : List CacheOp) (op : CacheOp) :
    after config (ops ++ [op]) = (after config ops).step config op := by
  simp [after]

end CacheRun

/-! ### Inserting -/

namespace ResponseCache

variable {config} {cache : ResponseCache}

theorem evictLoop_spec (config : ResponseCacheConfig) (insertedId : ℕ) (reversed : List CachedResponse) (total : ℕ)
    (retained : Bool) :
    ∃ popped, reversed = popped ++ (evictLoop config insertedId reversed total retained).1 ∧
      (evictLoop config insertedId reversed total retained).2.2 =
        (retained && !popped.any (·.entryId == insertedId)) := by
  induction reversed generalizing total retained with
  | nil => exact ⟨[], rfl, by simp [evictLoop]⟩
  | cons last rest ih =>
    unfold evictLoop
    by_cases hfull : config.maxEntries < rest.length + 1 ∨ config.maxBytes < total
    · rw [if_pos hfull]
      obtain ⟨popped, hrest, hret⟩ := ih (total - min total last.accountedBytes)
        (if last.entryId = insertedId then false else retained)
      refine ⟨last :: popped, by rw [List.cons_append, ← hrest], ?_⟩
      rw [hret, List.any_cons]
      by_cases hid : last.entryId = insertedId
      · rw [if_pos hid, beq_iff_eq.mpr hid, Bool.true_or, Bool.not_true, Bool.and_false,
          Bool.false_and]
      · rw [if_neg hid, beq_false_of_ne hid, Bool.false_or]
    · rw [if_neg hfull]
      exact ⟨[], rfl, by simp⟩

theorem replaceVariant_sublist {response : CachedResponse} {entries : List CachedResponse}
    {total : ℕ} (h : cache.replaceVariant response = some (entries, total)) :
    entries.Sublist cache.entries := by
  unfold replaceVariant at h
  split at h
  · cases h
    exact List.Sublist.refl _
  · split at h
    · cases h
      exact List.Sublist.refl _
    · split_ifs at h
      cases h
      exact List.eraseIdx_sublist _ _

theorem mem_of_popped {x : CachedResponse} {entries popped kept : List CachedResponse}
    (h : (x :: entries).reverse = popped ++ kept) (hne : kept ≠ []) : ∀ e ∈ popped, e ∈ entries := by
  have hlen := congrArg List.length h
  have hpos := List.length_pos_iff.mpr hne
  simp only [List.length_reverse, List.length_cons, List.length_append] at hlen
  have htake := congrArg (List.take popped.length) h
  rw [List.take_left, List.reverse_cons, List.take_append_of_le_length (by simp; omega)] at htake
  intro e he
  rw [← htake] at he
  simpa using List.mem_of_mem_take he

/-- All that inserting can do: nothing, or put the response under the next id in
front of entries it keeps, of which the oldest may go again. -/
theorem insertLocked_cases (config : ResponseCacheConfig) (cache : ResponseCache)
    (response : CachedResponse) :
    cache.insertLocked config response = (cache, none) ∨
      ∃ entries, entries.Sublist cache.entries ∧
        (cache.insertLocked config response).1.entries <+:
          response.withId cache.insertedId :: entries ∧
        (cache.insertLocked config response).1.nextEntryId = (cache.insertedId + 1) % 2 ^ 64 ∧
        (cache.insertLocked config response).1.issued = cache.issued + 1 ∧
        ((∀ e ∈ entries, e.entryId ≠ cache.insertedId) →
          (cache.insertLocked config response).1.entries ≠ [] →
            (cache.insertLocked config response).2 = some cache.insertedId) := by
  unfold insertLocked
  cases h : cache.replaceVariant response with
  | none => exact Or.inl rfl
  | some replaced =>
    obtain ⟨entries, total⟩ := replaced
    obtain ⟨popped, hsplit, hret⟩ := evictLoop_spec config cache.insertedId
      (response.withId cache.insertedId :: entries).reverse
      (saturatingAdd config.sizeMax total response.accountedBytes) true
    refine Or.inr ⟨entries, replaceVariant_sublist h, ?_, rfl, rfl, ?_⟩
    · have hrev := congrArg List.reverse hsplit
      rw [List.reverse_reverse, List.reverse_append] at hrev
      exact ⟨popped.reverse, hrev.symm⟩
    · intro hids hne
      have hnone : popped.any (·.entryId == cache.insertedId) = false := by
        rw [List.any_eq_false]
        intro e he
        simpa using hids e (mem_of_popped hsplit (by simpa using hne) e he)
      simp only [hret, hnone]
      rfl

/-- Distinct entry ids, all handed out before, and a counter in step with them. -/
structure Numbered (cache : ResponseCache) : Prop where
  next : cache.nextEntryId = (cache.issued + 1) % 2 ^ 64
  nodup : (cache.entries.map CachedResponse.entryId).Nodup
  bounds : ∀ e ∈ cache.entries, 1 ≤ e.entryId ∧ e.entryId ≤ cache.issued

theorem Numbered.empty : Numbered {} := ⟨rfl, List.nodup_nil, by simp⟩

theorem Numbered.insertedId_eq (h : Numbered cache) (hlt : cache.issued + 1 < 2 ^ 64) :
    cache.insertedId = cache.issued + 1 := by
  have hnext : cache.nextEntryId = cache.issued + 1 := by rw [h.next, Nat.mod_eq_of_lt hlt]
  rw [insertedId, hnext, if_neg (by omega)]

/-- Removing entries keeps the numbering. -/
theorem Numbered.of_sublist {cache' : ResponseCache} (h : Numbered cache)
    (hentries : cache'.entries.Sublist cache.entries) (hnext : cache'.nextEntryId = cache.nextEntryId)
    (hissued : cache'.issued = cache.issued) : Numbered cache' where
  next := by rw [hnext, hissued, h.next]
  nodup := h.nodup.sublist (hentries.map _)
  bounds e he := by
    rw [hissued]
    exact h.bounds e (hentries.subset he)

theorem issued_le_insertLocked (response : CachedResponse) :
    cache.issued ≤ (cache.insertLocked config response).1.issued := by
  rcases insertLocked_cases config cache response with h | ⟨_, _, _, _, h, _⟩
  · rw [h]
  · omega

/-- An entry after inserting was there before or is the inserted response. -/
theorem mem_insertLocked {response e : CachedResponse}
    (he : e ∈ (cache.insertLocked config response).1.entries) :
    e ∈ cache.entries ∨ e = response.withId cache.insertedId := by
  rcases insertLocked_cases config cache response with h | ⟨entries, hsub, hpre, -, -, -⟩
  · rw [h] at he
    exact Or.inl he
  · rcases List.mem_cons.mp (hpre.subset he) with rfl | hmem
    · exact Or.inr rfl
    · exact Or.inl (hsub.subset hmem)

theorem Numbered.insertLocked (h : Numbered cache) (response : CachedResponse)
    (hlt : (cache.insertLocked config response).1.issued < 2 ^ 64) :
    Numbered (cache.insertLocked config response).1 := by
  rcases insertLocked_cases config cache response with heq | ⟨entries, hsub, hpre, hnext, hissued, -⟩
  · rw [heq]
    exact h
  · rw [hissued] at hlt
    have hid := h.insertedId_eq hlt
    have hbounds : ∀ e ∈ entries, 1 ≤ e.entryId ∧ e.entryId ≤ cache.issued := fun e he =>
      h.bounds e (hsub.subset he)
    have hnodup : ((response.withId cache.insertedId :: entries).map CachedResponse.entryId).Nodup := by
      rw [List.map_cons, List.nodup_cons]
      refine ⟨?_, h.nodup.sublist (hsub.map _)⟩
      intro hmem
      obtain ⟨e, he, heq⟩ := List.mem_map.mp hmem
      have := (hbounds e he).2
      rw [heq] at this
      change cache.insertedId ≤ _ at this
      omega
    refine ⟨by rw [hnext, hissued, hid], hnodup.sublist (hpre.sublist.map _), ?_⟩
    intro e he
    rw [hissued]
    rcases List.mem_cons.mp (hpre.subset he) with rfl | hmem
    · change 1 ≤ cache.insertedId ∧ cache.insertedId ≤ _
      omega
    · have := hbounds e hmem
      omega

/-- An entry that is new after inserting carries the id that was returned. -/
theorem Numbered.insertLocked_result (h : Numbered cache) {response e : CachedResponse}
    (hlt : (cache.insertLocked config response).1.issued < 2 ^ 64)
    (he : e ∈ (cache.insertLocked config response).1.entries) (hnew : e ∉ cache.entries) :
    (cache.insertLocked config response).2 = some cache.insertedId ∧
      e = response.withId cache.insertedId ∧ cache.insertedId = cache.issued + 1 := by
  rcases insertLocked_cases config cache response with heq | ⟨entries, hsub, hpre, hnext, hissued, hres⟩
  · rw [heq] at he
    exact absurd he hnew
  · rw [hissued] at hlt
    have hid := h.insertedId_eq hlt
    refine ⟨hres ?_ (List.ne_nil_of_mem he), (mem_insertLocked he).resolve_left hnew, hid⟩
    intro e' he' heq
    have := (h.bounds e' (hsub.subset he')).2
    omega

/-! ### Storing -/

/-- A response that passes all checks is built from its own headers and body. -/
theorem makeCachedResponse_eq_some {request : CacheRequest} {statusCode : ℕ}
    {headers : HeaderList} {body : Str} {sent : Option ℕ} {now : ClockReading} {strict : Bool}
    {cached : CachedResponse}
    (h : makeCachedResponse config request statusCode headers body sent now strict = some cached) :
    cached = buildCachedResponse config request statusCode headers body sent now ∧
      requestCacheBypassed request (parseCacheControl request.headers) = false ∧
      statusCode = 200 ∧ (strict = true → cacheable headers now = true) := by
  unfold makeCachedResponse at h
  simp only at h
  split_ifs at h with h1 h2 h3
  simp only [Bool.or_eq_true, not_or, Bool.not_eq_true, bne_iff_ne, ne_eq, not_not] at h1
  refine ⟨(Option.some.inj h).symm, h1.1.1.1, h1.1.2, ?_⟩
  intro hstrict
  simpa [hstrict] using h2

theorem store_cases (config : ResponseCacheConfig) (cache : ResponseCache) (request : CacheRequest) (response : Response) (sent : Option ℕ)
    (now : ClockReading) :
    cache.store config request response sent now = (cache, false) ∨
      ∃ cached, makeCachedResponse config request response.statusCode response.headers
          response.body sent now true = some cached ∧
        cache.store config request response sent now =
          ((cache.insertLocked config cached).1, (cache.insertLocked config cached).2.isSome) := by
  unfold store
  cases h : makeCachedResponse config request response.statusCode response.headers
    response.body sent now true with
  | none => exact Or.inl rfl
  | some cached => exact Or.inr ⟨cached, rfl, rfl⟩

/-! ### Merging a 304 -/

theorem merge304_cases (config : ResponseCacheConfig) (cache : ResponseCache)
    (stored : CachedResponse) (request : CacheRequest) (v : Validation)
    (snapshot : List ℕ) :
    (cache.merge304 config stored request v snapshot).1 = cache ∨
      (cache.merge304 config stored request v snapshot).1 =
        (cache.refresh config v stored request
          (if snapshot = [] then [stored.entryId] else snapshot)).1 := by
  unfold merge304
  by_cases h1 : stored.url ≠ request.url ∨ varyMatches stored request.headers = false
  · rw [if_pos h1]
    exact Or.inl rfl
  rw [if_neg h1]
  by_cases h2 : v.accepts stored = false
  · rw [if_pos h2]
    exact Or.inl rfl
  rw [if_neg h2]
  cases makeCachedResponse config request stored.statusCode (v.mergedHeaders stored.headers)
    stored.body v.requestWallSeconds v.now false with
  | none => exact Or.inl rfl
  | some delivery =>
    simp only
    generalize (if snapshot = [] then [stored.entryId] else snapshot) = ids
    by_cases h3 : (v.hasEtag || v.hasLastModified) = true
    · rw [if_pos h3]
      exact Or.inr rfl
    · rw [if_neg h3]
      cases cache.validatorlessSelection v stored request snapshot ids with
      | none => exact Or.inl rfl
      | some deliveryOnly =>
        cases deliveryOnly with
        | true => exact Or.inl rfl
        | false => exact Or.inr rfl

theorem mem_of_foldl_newest {l : List CachedResponse} {e : CachedResponse}
    {start : Option CachedResponse}
    (h : l.foldl (fun newest current =>
      match newest with
      | none => some current
      | some newest => if moreRecent current newest then some current else some newest)
      start = some e) : e ∈ l ∨ start = some e := by
  induction l generalizing start with
  | nil => exact Or.inr h
  | cons x l ih =>
    rw [List.foldl_cons] at h
    rcases ih h with hmem | hstart
    · exact Or.inl (List.mem_cons_of_mem _ hmem)
    · cases start with
      | none =>
        obtain rfl := Option.some.inj hstart
        exact Or.inl List.mem_cons_self
      | some newest =>
        simp only at hstart
        split_ifs at hstart
        · obtain rfl := Option.some.inj hstart
          exact Or.inl List.mem_cons_self
        · exact Or.inr hstart

/-- A 304 selects among the candidates that are still there. -/
theorem mem_selected {v : Validation} {ids : List ℕ} {e : CachedResponse}
    (h : e ∈ cache.selected v ids) : e ∈ cache.entries ∧ e.entryId ∈ ids := by
  have hmatching : e ∈ cache.entries.filter fun entry =>
      ids.contains entry.entryId && v.validatorMatches entry := by
    unfold selected at h
    simp only at h
    split_ifs at h
    · exact (mem_of_foldl_newest (Option.mem_toList.mp h)).resolve_right (by simp)
    · exact h
  have := List.mem_filter.mp hmatching
  simp only [Bool.and_eq_true, List.contains_iff_mem] at this
  exact ⟨this.1, this.2.1⟩

/-- What refreshing may leave behind: entries from before and, under new ids,
refreshed forms of the selected ones. -/
structure RefreshedFrom (config : ResponseCacheConfig) (before : ResponseCache) (v : Validation)
    (request : CacheRequest) (current : List CachedResponse) (cache : ResponseCache) : Prop where
  numbered : Numbered cache
  issued : before.issued ≤ cache.issued
  entries : ∀ e ∈ cache.entries, e ∈ before.entries ∨
    ∃ old ∈ current, ∃ fresh, refreshed config v request old = some fresh ∧
      e = fresh.withId e.entryId ∧ before.issued < e.entryId

theorem insertRefreshed_cases (config : ResponseCacheConfig) (removed : List ℕ) (storedId : ℕ)
    (state : ResponseCache × Option CachedResponse) (candidate : ℕ × CachedResponse) :
    (insertRefreshed config removed storedId state candidate).1 = state.1 ∨
      (insertRefreshed config removed storedId state candidate).1 =
        (state.1.insertLocked config candidate.2).1 := by
  unfold insertRefreshed
  simp only
  split_ifs
  · exact Or.inl rfl
  · exact Or.inr (by split <;> rfl)
  · exact Or.inr (by split <;> rfl)

theorem issued_le_insertRefreshed (config : ResponseCacheConfig) (removed : List ℕ) (storedId : ℕ)
    (state : ResponseCache × Option CachedResponse) (candidates : List (ℕ × CachedResponse)) :
    state.1.issued ≤
      (candidates.foldl (insertRefreshed config removed storedId) state).1.issued := by
  induction candidates generalizing state with
  | nil => exact le_rfl
  | cons candidate candidates ih =>
    refine le_trans ?_ (ih _)
    rcases insertRefreshed_cases config removed storedId state candidate with h | h
    · rw [h]
    · rw [h]
      exact issued_le_insertLocked _

theorem RefreshedFrom.insert {before : ResponseCache} {v : Validation} {request : CacheRequest}
    {current : List CachedResponse} (h : RefreshedFrom config before v request current cache)
    {fresh : CachedResponse} (hfresh : ∃ old ∈ current, refreshed config v request old = some fresh)
    (hlt : (cache.insertLocked config fresh).1.issued < 2 ^ 64) :
    RefreshedFrom config before v request current (cache.insertLocked config fresh).1 where
  numbered := h.numbered.insertLocked fresh hlt
  issued := h.issued.trans (issued_le_insertLocked fresh)
  entries e he := by
    by_cases hold : e ∈ cache.entries
    · exact h.entries e hold
    · obtain ⟨-, heq, hid⟩ := h.numbered.insertLocked_result hlt he hold
      obtain ⟨old, hmem, href⟩ := hfresh
      refine Or.inr ⟨old, hmem, fresh, href, ?_, ?_⟩
      · rw [heq]
        rfl
      · rw [heq]
        change before.issued < cache.insertedId
        have := h.issued
        omega

theorem RefreshedFrom.fold {before : ResponseCache} {v : Validation} {request : CacheRequest}
    {current : List CachedResponse} (removed : List ℕ) (storedId : ℕ)
    {candidates : List (ℕ × CachedResponse)} {state : ResponseCache × Option CachedResponse}
    (h : RefreshedFrom config before v request current state.1)
    (hcandidates : ∀ candidate ∈ candidates,
      ∃ old ∈ current, refreshed config v request old = some candidate.2)
    (hlt : (candidates.foldl (insertRefreshed config removed storedId) state).1.issued < 2 ^ 64) :
    RefreshedFrom config before v request current
      (candidates.foldl (insertRefreshed config removed storedId) state).1 := by
  induction candidates generalizing state with
  | nil => exact h
  | cons candidate candidates ih =>
    have hle := issued_le_insertRefreshed config removed storedId
      (insertRefreshed config removed storedId state candidate) candidates
    rw [List.foldl_cons] at hlt
    refine ih ?_ (fun c hc => hcandidates c (List.mem_cons_of_mem _ hc)) hlt
    rcases insertRefreshed_cases config removed storedId state candidate with heq | heq
    · rw [heq]
      exact h
    · rw [heq] at hle ⊢
      exact h.insert (hcandidates candidate List.mem_cons_self) (by omega)

theorem refresh_spec (h : Numbered cache) (v : Validation) (stored : CachedResponse)
    (request : CacheRequest) (ids : List ℕ)
    (hlt : (cache.refresh config v stored request ids).1.issued < 2 ^ 64) :
    RefreshedFrom config cache v request (cache.selected v ids)
      (cache.refresh config v stored request ids).1 := by
  refine RefreshedFrom.fold _ _ ?_ ?_ hlt
  · have hsub : (cache.entries.filter fun entry =>
        !((cache.selected v ids).map CachedResponse.entryId).contains entry.entryId).Sublist
        cache.entries := List.filter_sublist
    exact ⟨h.of_sublist hsub rfl rfl, le_rfl, fun e he => Or.inl (hsub.subset he)⟩
  · intro candidate hc
    obtain ⟨old, hold, hmap⟩ := List.mem_filterMap.mp hc
    obtain ⟨fresh, hfresh, rfl⟩ := Option.map_eq_some_iff.mp hmap
    exact ⟨old, hold, hfresh⟩

theorem issued_le_store (request : CacheRequest) (response : Response) (sent : Option ℕ)
    (now : ClockReading) :
    cache.issued ≤ (cache.store config request response sent now).1.issued := by
  rcases store_cases config cache request response sent now with
    h | ⟨cached, -, h⟩
  · rw [h]
  · rw [h]
    exact issued_le_insertLocked cached

theorem issued_le_merge304 (stored : CachedResponse) (request : CacheRequest) (v : Validation)
    (snapshot : List ℕ) :
    cache.issued ≤ (cache.merge304 config stored request v snapshot).1.issued := by
  rcases merge304_cases config cache stored request v snapshot with h | h
  · rw [h]
  · rw [h]
    exact issued_le_insertRefreshed config _ _ (cache.removeEntries _, none) _

/-! ### Looking up -/

/-- A choice that goes through a list keeps what it had or takes something good from the list. -/
theorem foldl_best_cases {α : Type*} {step : Option α → α → Option α} {p : α → Prop}
    (hstep : ∀ best x y, step best x = some y → best = some y ∨ y = x ∧ p x) {l : List α}
    {best : Option α} {y : α} (h : l.foldl step best = some y) : best = some y ∨ y ∈ l ∧ p y := by
  induction l generalizing best with
  | nil => exact .inl h
  | cons x l ih =>
    rw [List.foldl_cons] at h
    rcases ih h with hfirst | ⟨hmem, hy⟩
    · rcases hstep best x y hfirst with hkept | ⟨rfl, hx⟩
      · exact .inl hkept
      · exact .inr ⟨List.mem_cons_self, hx⟩
    · exact .inr ⟨List.mem_cons_of_mem _ hmem, hy⟩

theorem selectBest_spec {request : CacheRequest} {i : ℕ} (h : cache.selectBest request = some i) :
    ∃ e, cache.entries[i]? = some e ∧ e.url = request.url ∧
      varyMatches e request.headers = true := by
  obtain ⟨⟨entry, j⟩, hbest, rfl⟩ := Option.map_eq_some_iff.mp h
  have hcases := foldl_best_cases (p := fun x : CachedResponse × ℕ =>
      x.1.url = request.url ∧ varyMatches x.1 request.headers = true) (by
    rintro best ⟨entry, i⟩ y hy
    by_cases hskip : entry.url ≠ request.url ∨ varyMatches entry request.headers = false
    · simp only [if_pos hskip] at hy
      exact .inl hy
    · simp only [if_neg hskip] at hy
      simp only [not_or, not_not, Bool.not_eq_false] at hskip
      cases best with
      | none => exact .inr ⟨(Option.some.inj hy).symm, hskip⟩
      | some current =>
        simp only at hy
        split_ifs at hy
        · exact .inr ⟨(Option.some.inj hy).symm, hskip⟩
        · exact .inl hy) hbest
  rcases hcases with hnone | ⟨hmem, hurl, hvary⟩
  · cases hnone
  · exact ⟨entry, List.mem_zipIdx_iff_getElem?.mp hmem, hurl, hvary⟩

/-- The conditions under which a lookup calls its response fresh. -/
def CountsAsFresh (request : CacheRequest) (now : ClockReading) (best : CachedResponse) : Prop :=
  now.wall ≠ none ∧ now.monotonic ≠ 0 ∧ best.requiresRevalidation = false ∧
    (parseCacheControl request.headers).noCache = false ∧
    (∀ limit, (parseCacheControl request.headers).maxAge = some limit →
      currentAge best now.monotonic ≤ limit) ∧
    currentAge best now.monotonic < best.freshnessLifetimeSeconds

/-- A lookup that returned the entry `best` at position `i`. -/
structure Found (cache : ResponseCache) (request : CacheRequest) (now : ClockReading) (i : ℕ)
    (best : CachedResponse) : Prop where
  position : cache.entries[i]? = some best
  url : best.url = request.url
  vary : varyMatches best request.headers = true
  cache_eq : (cache.lookup request now).1 = { cache with entries := best :: cache.entries.eraseIdx i }
  response : (cache.lookup request now).2.response =
    some { best with headers := headersWithAge best.headers (currentAge best now.monotonic) }
  fresh : (cache.lookup request now).2.state = .fresh → CountsAsFresh request now best
  ids : (cache.lookup request now).2.validationCandidateIds = [] ∨
    (cache.lookup request now).2.validationCandidateIds = cache.candidateIds request

theorem lookup_cases (cache : ResponseCache) (request : CacheRequest) (now : ClockReading) :
    cache.lookup request now = (cache, {}) ∨ ∃ i best, Found cache request now i best := by
  by_cases hbypass : (requestCacheBypassed request (parseCacheControl request.headers) ||
      (parseCacheControl request.headers).invalid) = true
  · left
    rw [lookup, if_pos hbypass]
  have hlookup : cache.lookup request now =
      cache.lookupLocked request (parseCacheControl request.headers) now := by
    rw [lookup, if_neg hbypass]
  cases hbest : cache.selectBest request with
  | none =>
    left
    rw [hlookup, lookupLocked, hbest]
  | some i =>
    obtain ⟨best, hpos, hurl, hvary⟩ := selectBest_spec hbest
    right
    refine ⟨i, best, ?_⟩
    rw [lookupLocked, hbest] at hlookup
    simp only [hpos] at hlookup
    by_cases hfresh : (!(now.wall.isNone || now.monotonic == 0) && !best.requiresRevalidation &&
        !(parseCacheControl request.headers).noCache &&
        !((parseCacheControl request.headers).maxAge.any (· < currentAge best now.monotonic)) &&
        decide (currentAge best now.monotonic < best.freshnessLifetimeSeconds)) = true
    · rw [if_pos hfresh] at hlookup
      refine ⟨hpos, hurl, hvary, by rw [hlookup], by rw [hlookup], ?_, by rw [hlookup]; exact Or.inl rfl⟩
      intro _
      simp only [Bool.and_eq_true, Bool.not_eq_true', Bool.or_eq_false_iff, decide_eq_true_eq,
        beq_eq_false_iff_ne, ne_eq] at hfresh
      obtain ⟨⟨⟨⟨⟨hwall, hmono⟩, hrev⟩, hno⟩, hmax⟩, hage⟩ := hfresh
      refine ⟨?_, hmono, hrev, hno, ?_, hage⟩
      · rintro hnone
        simp [hnone] at hwall
      · intro limit hlimit
        rw [hlimit] at hmax
        simpa using hmax
    · rw [if_neg hfresh] at hlookup
      refine ⟨hpos, hurl, hvary, by rw [hlookup], by rw [hlookup], ?_, by rw [hlookup]; exact Or.inr rfl⟩
      intro hstate
      rw [hlookup] at hstate
      cases hstate

theorem Found.perm {request : CacheRequest} {now : ClockReading} {i : ℕ} {best : CachedResponse}
    (h : Found cache request now i best) :
    (cache.lookup request now).1.entries.Perm cache.entries := by
  obtain ⟨hi, hget⟩ := List.getElem?_eq_some_iff.mp h.position
  rw [h.cache_eq, ← hget]
  exact List.getElem_cons_eraseIdx_perm hi

theorem lookup_perm (cache : ResponseCache) (request : CacheRequest) (now : ClockReading) :
    (cache.lookup request now).1.entries.Perm cache.entries ∧
      (cache.lookup request now).1.nextEntryId = cache.nextEntryId ∧
      (cache.lookup request now).1.issued = cache.issued := by
  rcases lookup_cases cache request now with h | ⟨i, best, h⟩
  · rw [h]
    exact ⟨List.Perm.refl _, rfl, rfl⟩
  · exact ⟨h.perm, by rw [h.cache_eq], by rw [h.cache_eq]⟩

theorem Numbered.of_perm {cache' : ResponseCache} (h : Numbered cache)
    (hentries : cache'.entries.Perm cache.entries) (hnext : cache'.nextEntryId = cache.nextEntryId)
    (hissued : cache'.issued = cache.issued) : Numbered cache' where
  next := by rw [hnext, hissued, h.next]
  nodup := (hentries.map CachedResponse.entryId).nodup_iff.mpr h.nodup
  bounds e he := by
    rw [hissued]
    exact h.bounds e (hentries.subset he)

/-! ### Invalidating -/

theorem mem_invalidate {url : Str} {e : CachedResponse} :
    e ∈ (cache.invalidate url).entries ↔ e ∈ cache.entries ∧ e.url ≠ url := by
  simp [invalidate]

theorem invalidateEntry_sublist (cache : ResponseCache) (entryId : ℕ) :
    (cache.invalidateEntry entryId).1.entries.Sublist cache.entries ∧
      (cache.invalidateEntry entryId).1.nextEntryId = cache.nextEntryId ∧
      (cache.invalidateEntry entryId).1.issued = cache.issued := by
  unfold invalidateEntry
  split_ifs
  · exact ⟨List.Sublist.refl _, rfl, rfl⟩
  · split
    · exact ⟨List.Sublist.refl _, rfl, rfl⟩
    · split
      · exact ⟨List.Sublist.refl _, rfl, rfl⟩
      · exact ⟨List.eraseIdx_sublist _ _, rfl, rfl⟩

/-- After its invalidation no entry has the id any more. -/
theorem Numbered.entryId_ne_of_mem_invalidateEntry (h : Numbered cache) {entryId : ℕ}
    {e : CachedResponse} (he : e ∈ (cache.invalidateEntry entryId).1.entries) :
    e.entryId ≠ entryId := by
  have hmem := (invalidateEntry_sublist cache entryId).1.subset he
  unfold invalidateEntry at he
  by_cases h0 : entryId = 0
  · have := (h.bounds e hmem).1
    omega
  rw [if_neg h0] at he
  cases hfind : cache.entries.findIdx? (·.entryId == entryId) with
  | none =>
    have := List.findIdx?_eq_none_iff.mp hfind e hmem
    simpa using this
  | some i =>
    obtain ⟨hi, hid, -⟩ := List.findIdx?_eq_some_iff_getElem.mp hfind
    simp only [hfind, List.getElem?_eq_getElem hi] at he
    obtain ⟨j, hj, hne, hje⟩ := List.mem_eraseIdx_iff_getElem.mp he
    intro heq
    have hsame : e = cache.entries[i] :=
      List.inj_on_of_nodup_map h.nodup hmem (List.getElem_mem hi)
        (heq.trans (beq_iff_eq.mp hid).symm)
    exact hne ((h.nodup.of_map _).getElem_inj_iff.mp (hje.trans hsame))

/-! ### What every entry satisfies -/

/-- What holds of everything that may be stored, whatever id it is given. -/
def OfMade (config : ResponseCacheConfig) (P : CachedResponse → Prop) : Prop :=
  ∀ request statusCode headers body sent now cached entryId,
    makeCachedResponse config request statusCode headers body sent now true = some cached →
      P (cached.withId entryId)

variable {P : CachedResponse → Prop}

theorem forall_mem_insertLocked (h : ∀ e ∈ cache.entries, P e) {response : CachedResponse}
    (hresponse : ∀ entryId, P (response.withId entryId)) :
    ∀ e ∈ (cache.insertLocked config response).1.entries, P e := by
  intro e he
  rcases mem_insertLocked he with hold | rfl
  · exact h e hold
  · exact hresponse _

theorem forall_mem_foldl_insertRefreshed (removed : List ℕ) (storedId : ℕ)
    {state : ResponseCache × Option CachedResponse} (h : ∀ e ∈ state.1.entries, P e)
    {candidates : List (ℕ × CachedResponse)}
    (hcandidates : ∀ candidate ∈ candidates, ∀ entryId, P (candidate.2.withId entryId)) :
    ∀ e ∈ (candidates.foldl (insertRefreshed config removed storedId) state).1.entries, P e := by
  induction candidates generalizing state with
  | nil => exact h
  | cons candidate candidates ih =>
    apply ih
    · rcases insertRefreshed_cases config removed storedId state candidate with heq | heq
      · rw [heq]
        exact h
      · rw [heq]
        exact forall_mem_insertLocked h (hcandidates candidate List.mem_cons_self)
    · exact fun c hc => hcandidates c (List.mem_cons_of_mem _ hc)

theorem forall_mem_merge304 (hmade : OfMade config P) (h : ∀ e ∈ cache.entries, P e)
    (stored : CachedResponse) (request : CacheRequest) (v : Validation) (snapshot : List ℕ) :
    ∀ e ∈ (cache.merge304 config stored request v snapshot).1.entries, P e := by
  rcases merge304_cases config cache stored request v snapshot with heq | heq
  · rw [heq]
    exact h
  rw [heq]
  apply forall_mem_foldl_insertRefreshed
  · exact fun e he => h e (List.filter_sublist.subset he)
  · intro candidate hcandidate entryId
    obtain ⟨old, -, hmap⟩ := List.mem_filterMap.mp hcandidate
    obtain ⟨fresh, hfresh, rfl⟩ := Option.map_eq_some_iff.mp hmap
    unfold refreshed at hfresh
    split_ifs at hfresh
    exact hmade _ _ _ _ _ _ fresh entryId hfresh

end ResponseCache

namespace CacheRun

theorem forall_mem_step {P : CachedResponse → Prop} {config : ResponseCacheConfig}
    (hmade : OfMade config P) {s : CacheRun} (h : ∀ e ∈ s.cache.entries, P e) (op : CacheOp) :
    ∀ e ∈ (s.step config op).cache.entries, P e := by
  cases op with
  | store request response sent now =>
    change ∀ e ∈ (s.cache.store config request response sent now).1.entries, P e
    rcases store_cases config s.cache request response sent now with heq | ⟨cached, hcached, heq⟩
    · rw [heq]
      exact h
    · rw [heq]
      exact forall_mem_insertLocked h fun entryId => hmade _ _ _ _ _ _ cached entryId hcached
  | lookup request now =>
    exact fun e he => h e ((lookup_perm s.cache request now).1.subset he)
  | merge304 earlier v =>
    unfold step
    dsimp only
    split
    · exact forall_mem_merge304 hmade h _ _ v _
    · exact h
  | invalidate url => exact fun e he => h e (mem_invalidate.mp he).1
  | invalidateEntry entryId =>
    exact fun e he => h e ((invalidateEntry_sublist s.cache entryId).1.subset he)
  | clear => exact fun e he => absurd he List.not_mem_nil

/-- The entries of every run satisfy what everything that may be stored does. -/
theorem forall_mem_after {P : CachedResponse → Prop} {config : ResponseCacheConfig}
    (hmade : OfMade config P) (ops : List CacheOp) :
    ∀ e ∈ (after config ops).cache.entries, P e := by
  induction ops using List.reverseRecOn with
  | nil => exact fun e he => absurd he List.not_mem_nil
  | append_singleton ops op ih =>
    rw [after_snoc]
    exact forall_mem_step hmade ih op

end CacheRun

end KatHttp3
