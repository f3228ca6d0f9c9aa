import KatHttp3.Cache.Retention

/-!
# When a retained response stays

The refreshed form of the stored response stays in the cache when it fits into it
together with the refreshed forms of the entries behind it, or when the 304 names
the fields that select a response: then all refreshed forms are one variant, and
only one of them is inserted.
-/

namespace KatHttp3

open Str ResponseCache WeightedList

/-! ### The variants of refreshed forms -/

/-- Whether the 304 names the fields that select a response. -/
def ResponseCache.Validation.hasVary (v : Validation) : Bool :=
  v.responseHeaders.hasHeader "vary".toList

/-- The Vary fields after a 304 are its own, or else the stored ones. -/
theorem parseVary_mergedHeaders (v : Validation) (headers : HeaderList) :
    parseVary (v.mergedHeaders headers) =
      if v.hasVary then parseVary v.responseHeaders else parseVary headers := by
  have hsame : v.validationHeaders.getAll "vary".toList =
      v.responseHeaders.getAll "vary".toList := getAll_validationHeaders (Or.inr (by decide))
  have hhas : v.validationHeaders.hasHeader "vary".toList = v.hasVary := hasHeader_congr hsame
  unfold Validation.mergedHeaders parseVary
  cases hvary : v.hasVary with
  | true =>
    rw [getAll_mergeHeaders_taken _ (by decide) (hhas.trans hvary), hsame]
    rfl
  | false =>
    rw [getAll_mergeHeaders_kept _ (Or.inr (hhas.trans hvary)),
      getAll_headersForRevalidation _ (by decide) (by decide)]
    rfl

/-- The Vary keys for a request under these names. -/
def varyKeys (names : List Str) (request : CacheRequest) : List VaryKey :=
  names.map fun name => ⟨name, request.headers.getAll name⟩

theorem refreshed_variant {config : ResponseCacheConfig} {v : Validation} {request : CacheRequest}
    {old fresh : CachedResponse} (h : refreshed config v request old = some fresh) :
    fresh.url = request.url ∧ fresh.vary =
      varyKeys (if v.hasVary then parseVary v.responseHeaders else parseVary old.headers).names
        request := by
  unfold refreshed at h
  split_ifs at h
  obtain ⟨rfl, -⟩ := makeCachedResponse_eq_some h
  refine ⟨rfl, ?_⟩
  rw [← parseVary_mergedHeaders]
  rfl

/-- The refreshed forms of all entries are one variant if the 304 has Vary fields. -/
theorem sameVariant_of_hasVary {config : ResponseCacheConfig} {v : Validation}
    {request : CacheRequest} {old old' fresh fresh' : CachedResponse} (hvary : v.hasVary = true)
    (h : refreshed config v request old = some fresh)
    (h' : refreshed config v request old' = some fresh') : sameVariant fresh fresh' = true := by
  have hfresh := refreshed_variant h
  have hfresh' := refreshed_variant h'
  rw [if_pos hvary] at hfresh hfresh'
  rw [sameVariant_iff, hfresh.1, hfresh.2, hfresh'.1, hfresh'.2]
  exact ⟨rfl, rfl⟩

/-- The Vary keys of an entry go with its own Vary fields. -/
def Keyed (e : CachedResponse) : Prop :=
  ∃ request, e.vary = varyKeys (parseVary e.headers).names request

theorem keyed_after (config : ResponseCacheConfig) (ops : List CacheOp) :
    ∀ e ∈ (CacheRun.after config ops).cache.entries, Keyed e := by
  refine CacheRun.forall_mem_after (fun request statusCode headers body sent now cached id h => ?_) ops
  obtain ⟨rfl, -⟩ := makeCachedResponse_eq_some h
  exact ⟨request, rfl⟩

/-- Without Vary fields in the 304 the refreshed form of an entry that the request
matches is of the variant of that entry. -/
theorem sameVariant_refreshed {config : ResponseCacheConfig} {v : Validation}
    {request : CacheRequest} {old fresh : CachedResponse} (hvary : v.hasVary = false)
    (hkeyed : Keyed old) (hmatches : old.url = request.url ∧ varyMatches old request.headers = true)
    (h : refreshed config v request old = some fresh) : sameVariant fresh old = true := by
  have hfresh := refreshed_variant h
  obtain ⟨maker, hkeys⟩ := hkeyed
  rw [hvary] at hfresh
  have hvalues : old.vary = varyKeys (parseVary old.headers).names request := by
    have hall := hmatches.2
    unfold varyMatches at hall
    rw [hkeys, varyKeys, List.all_map, List.all_eq_true] at hall
    rw [hkeys]
    refine List.map_congr_left fun name hname => ?_
    have hvalue := hall name hname
    simp only [Function.comp_apply, beq_iff_eq] at hvalue
    rw [hvalue]
  rw [sameVariant_iff, hfresh.1, hfresh.2]
  exact ⟨hmatches.1.symm, hvalues.symm⟩

namespace ResponseCache

variable {config : ResponseCacheConfig} {cache : ResponseCache} {v : Validation}
  {stored : CachedResponse} {request : CacheRequest} {ids : List ℕ}

/-! ### What is in front of the recorded entry -/

theorem takeWhile_of_isPrefix {α : Type*} {p : α → Bool} {l l' : List α} {a : α} (h : l <+: l')
    (ha : a ∈ l) (hstop : p a = false) : l.takeWhile p = l'.takeWhile p := by
  obtain ⟨rest, rfl⟩ := h
  induction l with
  | nil => cases ha
  | cons b l ih =>
    rw [List.cons_append, List.takeWhile_cons, List.takeWhile_cons]
    cases hb : p b with
    | false => rfl
    | true =>
      rcases List.mem_cons.mp ha with rfl | ha
      · rw [hstop] at hb
        cases hb
      · simp only [if_true]
        rw [ih ha]

/-- An insertion that an entry survives puts the response in front of it. -/
theorem inFront_insertLocked (h : Numbered cache) {response recorded : CachedResponse}
    (hlt : (cache.insertLocked config response).1.issued < 2 ^ 64)
    (hfree : ∀ e ∈ cache.entries, sameVariant e response = false)
    (hrecorded : recorded ∈ cache.entries)
    (hstays : recorded ∈ (cache.insertLocked config response).1.entries) :
    (cache.insertLocked config response).1.inFront recorded =
      response.withId cache.insertedId :: cache.inFront recorded := by
  have hissued : (cache.insertLocked config response).1.issued = cache.issued + 1 := by
    rw [insertLocked, replaceVariant_of_free hfree]
  rw [hissued] at hlt
  have hid := h.insertedId_eq hlt
  have hbound := (h.bounds recorded hrecorded).2
  have hentries : (cache.insertLocked config response).1.entries <+:
      response.withId cache.insertedId :: cache.entries := by
    have hevicted := evictLoop_spec config cache.insertedId
      (response.withId cache.insertedId :: cache.entries).reverse
      (saturatingAdd config.sizeMax cache.totalBytes response.accountedBytes) true
    obtain ⟨popped, hsplit, -⟩ := hevicted
    rw [insertLocked, replaceVariant_of_free hfree]
    have hreversed := congrArg List.reverse hsplit
    rw [List.reverse_reverse, List.reverse_append] at hreversed
    exact ⟨popped.reverse, hreversed.symm⟩
  unfold inFront
  rw [takeWhile_of_isPrefix hentries hstays (by simp), List.takeWhile_cons_of_pos]
  rw [decide_eq_true_eq]
  change cache.insertedId ≠ recorded.entryId
  omega

/-- Where the candidate for the stored response stands among the others. -/
def StoredAt (config : ResponseCacheConfig) (cache : ResponseCache) (v : Validation)
    (stored : CachedResponse) (request : CacheRequest) (ids : List ℕ)
    (first : List (ℕ × CachedResponse)) (fresh : CachedResponse)
    (later : List (ℕ × CachedResponse)) : Prop :=
  refreshCandidates config cache v request ids = first ++ (stored.entryId, fresh) :: later

/-- No candidate of the loop is left out. -/
def ConflictFree (config : ResponseCacheConfig) (cache : ResponseCache) (v : Validation)
    (stored : CachedResponse) (request : CacheRequest) (ids : List ℕ) : Prop :=
  ∀ done candidate later,
    refreshCandidates config cache v request ids = done ++ candidate :: later →
    (refreshState config cache v stored ids done).1.issued < 2 ^ 64 →
    ¬ (refreshState config cache v stored ids done).1.Conflicts
      ((cache.selected v ids).map CachedResponse.entryId) candidate.2

theorem StoredAt.others_ne (h : Numbered cache) {first later : List (ℕ × CachedResponse)}
    {fresh : CachedResponse} (hat : StoredAt config cache v stored request ids first fresh later) :
    (∀ c ∈ first, c.1 ≠ stored.entryId) ∧ ∀ c ∈ later, c.1 ≠ stored.entryId := by
  have hnodup := nodup_refreshCandidates h config v request ids
  rw [StoredAt] at hat
  rw [hat, List.map_append, List.map_cons, List.nodup_append, List.nodup_cons] at hnodup
  obtain ⟨-, ⟨hnot, -⟩, hdisjoint⟩ := hnodup
  constructor
  · intro c hc heq
    exact hdisjoint _ (List.mem_map_of_mem hc) _ List.mem_cons_self heq
  · intro c hc heq
    have hmem : c.1 ∈ later.map Prod.fst := List.mem_map_of_mem hc
    exact hnot (heq ▸ hmem)

theorem issued_lt_of_split
    (hlt : (refreshState config cache v stored ids
      (refreshCandidates config cache v request ids)).1.issued < 2 ^ 64)
    {done later : List (ℕ × CachedResponse)}
    (hsplit : refreshCandidates config cache v request ids = done ++ later) :
    (refreshState config cache v stored ids done).1.issued < 2 ^ 64 := by
  have hle := issued_le_refreshState config cache v stored ids done later
  rw [← hsplit] at hle
  exact hle.trans_lt hlt

/-- Nothing is recorded before the candidate for the stored response. -/
theorem StoredAt.recorded_before (h : Numbered cache) {first later : List (ℕ × CachedResponse)}
    {fresh : CachedResponse} (hat : StoredAt config cache v stored request ids first fresh later)
    (hlt : (refreshState config cache v stored ids first).1.issued < 2 ^ 64) :
    (refreshState config cache v stored ids first).2 = none := by
  by_contra hsome
  obtain ⟨c, hc, heq⟩ := exists_of_recorded h hlt hsome
  exact (hat.others_ne h).1 c hc heq

/-- What is recorded at that candidate is so behind it. -/
theorem StoredAt.recorded_behind (h : Numbered cache) {first mid later : List (ℕ × CachedResponse)}
    {fresh : CachedResponse}
    (hat : StoredAt config cache v stored request ids first fresh (mid ++ later))
    (hlt : (refreshState config cache v stored ids
      (first ++ (stored.entryId, fresh) :: mid)).1.issued < 2 ^ 64) :
    (refreshState config cache v stored ids (first ++ (stored.entryId, fresh) :: mid)).2 =
      (refreshState config cache v stored ids (first ++ [(stored.entryId, fresh)])).2 := by
  have happend : first ++ (stored.entryId, fresh) :: mid =
      (first ++ [(stored.entryId, fresh)]) ++ mid := by simp
  rw [happend] at hlt ⊢
  exact recorded_eq h hlt fun c hc => (hat.others_ne h).2 c (List.mem_append_left _ hc)

/-- While the recorded entry is in the cache, in front of it are candidates behind the one
for the stored response, all of them if none is left out. -/
theorem inFront_recorded (h : Numbered cache) {first mid later : List (ℕ × CachedResponse)}
    {fresh recorded : CachedResponse}
    (hat : StoredAt config cache v stored request ids first fresh (mid ++ later))
    (hlt : (refreshState config cache v stored ids
      (first ++ (stored.entryId, fresh) :: mid)).1.issued < 2 ^ 64)
    (hrecorded : (refreshState config cache v stored ids
      (first ++ (stored.entryId, fresh) :: mid)).2 = some recorded)
    (hmem : recorded ∈ (refreshState config cache v stored ids
      (first ++ (stored.entryId, fresh) :: mid)).1.entries) :
    (∃ id, recorded = fresh.withId id) ∧
      ∃ sub : List (ℕ × CachedResponse), sub.Sublist mid ∧
        (ConflictFree config cache v stored request ids → sub = mid) ∧
        ((refreshState config cache v stored ids
          (first ++ (stored.entryId, fresh) :: mid)).1.inFront recorded).map
            CachedResponse.accountedBytes =
          (sub.map fun c => c.2.accountedBytes).reverse := by
  induction mid using List.reverseRecOn generalizing later recorded with
  | nil =>
    have hle := issued_le_refreshState config cache v stored ids first [(stored.entryId, fresh)]
    have hbefore : (refreshState config cache v stored ids first).1.issued < 2 ^ 64 :=
      hle.trans_lt hlt
    have hturning := turning_refreshState h hbefore
    have hnone := hat.recorded_before h hbefore
    rw [refreshState_snoc] at hlt hrecorded hmem ⊢
    rcases insertRefreshed_turn config _ stored.entryId hturning.numbered _ hlt with
      ⟨-, hsame⟩ | ⟨hnot, hcache, ⟨hsame, -⟩ | ⟨-, hthis, -⟩⟩
    · rw [hsame, hnone] at hrecorded
      cases hrecorded
    · rw [hsame, hnone] at hrecorded
      cases hrecorded
    rcases insertLocked_cases config (refreshState config cache v stored ids first).1 fresh with
      hkept | ⟨entries, -, hprefix, -⟩
    · -- what is not inserted is not recorded
      have hsame : (insertRefreshed config ((cache.selected v ids).map CachedResponse.entryId)
          stored.entryId (refreshState config cache v stored ids first)
          (stored.entryId, fresh)).2 = none := by
        unfold Conflicts at hnot
        unfold insertRefreshed
        dsimp only at hnot ⊢
        rw [if_neg hnot, hkept]
        exact hnone
      rw [hsame] at hrecorded
      cases hrecorded
    · rw [hthis] at hrecorded
      obtain rfl := Option.some.inj hrecorded
      refine ⟨⟨_, rfl⟩, [], List.Sublist.refl _, fun _ => rfl, ?_⟩
      rw [hcache] at hmem ⊢
      unfold inFront
      rw [takeWhile_of_isPrefix hprefix hmem (by simp), List.takeWhile_cons_of_neg (by simp)]
      rfl
  | append_singleton mid candidate ih =>
    have happend : first ++ (stored.entryId, fresh) :: (mid ++ [candidate]) =
        (first ++ (stored.entryId, fresh) :: mid) ++ [candidate] := by simp
    have hothers := hat.others_ne h
    rw [List.append_assoc] at hat
    rw [happend] at hlt hrecorded hmem ⊢
    have hle := issued_le_refreshState config cache v stored ids
      (first ++ (stored.entryId, fresh) :: mid) [candidate]
    have hbefore : (refreshState config cache v stored ids
        (first ++ (stored.entryId, fresh) :: mid)).1.issued < 2 ^ 64 := by omega
    have hturning := turning_refreshState h hbefore
    have hsame := recorded_eq h hlt fun c hc => by
      rw [List.mem_singleton.mp hc]
      exact hothers.2 candidate (by simp)
    rw [hsame] at hrecorded
    rw [refreshState_snoc] at hlt hmem ⊢
    have hold := hturning.mem_of_old hlt hmem (hturning.old recorded hrecorded)
    obtain ⟨hfresh, sub, hsub, hall, hfront⟩ := ih hat hbefore hrecorded hold
    refine ⟨hfresh, ?_⟩
    rcases insertRefreshed_turn config _ stored.entryId hturning.numbered candidate hlt with
      ⟨hconflict, hkept⟩ | ⟨hnot, hcache, -⟩
    · rw [hkept]
      refine ⟨sub, hsub.trans (List.sublist_append_left _ _), fun hfree => ?_, hfront⟩
      exact absurd hconflict (hfree _ candidate later (by rw [hat]; simp) hbefore)
    · rw [hcache] at hmem hlt ⊢
      rw [inFront_insertLocked hturning.numbered hlt (hturning.free_of_not hnot) hold hmem]
      refine ⟨sub ++ [candidate], hsub.append (List.Sublist.refl _), fun hfree => ?_, ?_⟩
      · rw [hall hfree]
      · rw [List.map_cons, hfront, List.map_append, List.reverse_append]
        rfl

/-! ### Room for the candidates behind -/

section

variable (config cache v stored request ids)

/-- The refreshed form of the stored response and those of the entries behind it are within
the limits together. -/
def FitsBefore (fresh : CachedResponse) (behind : List CachedResponse) : Prop :=
  Fits CachedResponse.accountedBytes config.maxEntries config.maxBytes
    (fresh :: behind.filterMap (refreshed config v request))

/-- The 304 has Vary fields, or the refreshed form of the stored response fits into the cache
with those of the selected entries behind it. -/
def StaysWithin : Prop :=
  v.hasVary = true ∨ ∀ before old behind fresh, cache.selected v ids = before ++ old :: behind →
    old.entryId = stored.entryId → refreshed config v request old = some fresh →
      FitsBefore config v request fresh behind

/-- The refreshed form of the stored response exceeds a limit by itself. -/
def ExceedsAlone : Prop :=
  ∃ old ∈ cache.selected v ids, old.entryId = stored.entryId ∧
    ∃ fresh, refreshed config v request old = some fresh ∧
      ¬ Fits CachedResponse.accountedBytes config.maxEntries config.maxBytes [fresh]

end

/-- Limits that all refreshed forms keep together leave room for the stored one. -/
theorem staysWithin_of_fits (h : Fits CachedResponse.accountedBytes config.maxEntries
    config.maxBytes ((cache.selected v ids).filterMap (refreshed config v request))) :
    StaysWithin config cache v stored request ids := by
  refine Or.inr fun before old behind fresh hselected _ hfresh => ?_
  have hsub : (fresh :: behind.filterMap (refreshed config v request)).Sublist
      ((cache.selected v ids).filterMap (refreshed config v request)) := by
    rw [hselected, List.filterMap_append, List.filterMap_cons_some hfresh]
    exact List.sublist_append_right _ _
  exact h.of_sublist hsub

theorem map_refreshCandidates (entries : List CachedResponse) :
    (entries.filterMap fun entry =>
      (refreshed config v request entry).map fun response => (entry.entryId, response)).map
        Prod.snd = entries.filterMap (refreshed config v request) := by
  rw [List.map_filterMap]
  refine List.filterMap_congr fun entry _ => ?_
  cases refreshed config v request entry <;> rfl

theorem StoredAt.exists_old {first later : List (ℕ × CachedResponse)} {fresh : CachedResponse}
    (h : StoredAt config cache v stored request ids first fresh later) :
    ∃ before old behind, cache.selected v ids = before ++ old :: behind ∧
      old.entryId = stored.entryId ∧ refreshed config v request old = some fresh ∧
      later.map Prod.snd = behind.filterMap (refreshed config v request) := by
  unfold StoredAt refreshCandidates at h
  obtain ⟨before, rest, hselected, -, hrest⟩ := List.filterMap_eq_append_iff.mp h
  obtain ⟨skipped, old, behind, rfl, -, hold, hbehind⟩ := List.filterMap_eq_cons_iff.mp hrest
  obtain ⟨response, hfresh, heq⟩ := Option.map_eq_some_iff.mp hold
  obtain ⟨hid, rfl⟩ := Prod.mk.inj heq
  refine ⟨before ++ skipped, old, behind, by rw [hselected, List.append_assoc], hid, hfresh, ?_⟩
  rw [← hbehind, map_refreshCandidates]

theorem storedAt_of_selected {before behind : List CachedResponse} {old fresh : CachedResponse}
    (hselected : cache.selected v ids = before ++ old :: behind)
    (hid : old.entryId = stored.entryId) (hfresh : refreshed config v request old = some fresh) :
    ∃ first later, StoredAt config cache v stored request ids first fresh later ∧
      later.map Prod.snd = behind.filterMap (refreshed config v request) := by
  refine ⟨before.filterMap fun entry =>
    (refreshed config v request entry).map fun response => (entry.entryId, response), _, ?_,
    map_refreshCandidates behind⟩
  unfold StoredAt refreshCandidates
  rw [hselected, List.filterMap_append, List.filterMap_cons_some (by rw [hfresh]; rfl), hid]

/-- What is recorded stems from the candidate for the stored response. -/
theorem storedAt_of_recorded (h : Numbered cache) {done later : List (ℕ × CachedResponse)}
    {candidate : ℕ × CachedResponse} {recorded : CachedResponse}
    (hcandidates : refreshCandidates config cache v request ids = done ++ candidate :: later)
    (hlt : (refreshState config cache v stored ids done).1.issued < 2 ^ 64)
    (hrecorded : (refreshState config cache v stored ids done).2 = some recorded) :
    ∃ first fresh mid, done = first ++ (stored.entryId, fresh) :: mid ∧
      StoredAt config cache v stored request ids first fresh (mid ++ candidate :: later) := by
  obtain ⟨⟨id, fresh⟩, hmem, hid⟩ := exists_of_recorded h hlt
    (by rw [hrecorded]; exact Option.some_ne_none _)
  obtain ⟨first, mid, rfl⟩ := List.append_of_mem hmem
  obtain rfl : id = stored.entryId := hid
  refine ⟨first, fresh, mid, rfl, ?_⟩
  rw [StoredAt, hcandidates]
  simp

theorem bytesIn_eq_of_map {entries entries' : List CachedResponse}
    (h : entries.map CachedResponse.accountedBytes = entries'.map CachedResponse.accountedBytes) :
    bytesIn entries = bytesIn entries' := by
  unfold bytesIn total
  rw [h]

/-- What is in front of the recorded entry counts as the candidates that it comes from. -/
theorem front_eq {entries : List CachedResponse} {sub : List (ℕ × CachedResponse)}
    (hfront : entries.map CachedResponse.accountedBytes =
      (sub.map fun c => c.2.accountedBytes).reverse) :
    entries.length = sub.length ∧ bytesIn entries = bytesIn (sub.map Prod.snd) := by
  constructor
  · have hlength := congrArg List.length hfront
    simpa only [List.length_map, List.length_reverse] using hlength
  · have hsame : bytesIn entries = bytesIn (sub.map Prod.snd).reverse := by
      refine bytesIn_eq_of_map ?_
      rw [hfront, List.map_reverse, List.map_map]
      rfl
    rw [hsame]
    exact total_perm (List.reverse_perm _)

theorem undercounted_refreshState (config : ResponseCacheConfig) (v : Validation)
    (stored : CachedResponse) (ids : List ℕ) (hunder : cache.totalBytes ≤ bytesIn cache.entries)
    (done : List (ℕ × CachedResponse)) :
    (refreshState config cache v stored ids done).1.totalBytes ≤
      bytesIn (refreshState config cache v stored ids done).1.entries :=
  undercounted_foldl_insertRefreshed _ _ done (undercounted_filter hunder _)

/-- Where the candidates fit there is room for the recorded entry at every turn. -/
theorem roomFor_of_fits (h : Numbered cache) (hunder : cache.totalBytes ≤ bytesIn cache.entries)
    {first mid later : List (ℕ × CachedResponse)} {candidate : ℕ × CachedResponse}
    {fresh recorded : CachedResponse}
    (hat : StoredAt config cache v stored request ids first fresh (mid ++ candidate :: later))
    (hfits : Fits CachedResponse.accountedBytes config.maxEntries config.maxBytes
      (fresh :: (mid ++ candidate :: later).map Prod.snd))
    (hlt : (refreshState config cache v stored ids
      (first ++ (stored.entryId, fresh) :: mid)).1.issued < 2 ^ 64)
    (hrecorded : (refreshState config cache v stored ids
      (first ++ (stored.entryId, fresh) :: mid)).2 = some recorded)
    (hmem : recorded ∈ (refreshState config cache v stored ids
      (first ++ (stored.entryId, fresh) :: mid)).1.entries) :
    RoomFor config (refreshState config cache v stored ids
      (first ++ (stored.entryId, fresh) :: mid)).1 recorded candidate.2 := by
  obtain ⟨⟨id, hfresh⟩, sub, hsub, -, hfront⟩ := inFront_recorded h hat hlt hrecorded hmem
  have hbytes : recorded.accountedBytes = fresh.accountedBytes := by
    rw [hfresh]
    rfl
  obtain ⟨hlength, hfrontBytes⟩ := front_eq hfront
  have hcount : sub.length ≤ mid.length := hsub.length_le
  have hsubBytes : bytesIn (sub.map Prod.snd) ≤ bytesIn (mid.map Prod.snd) :=
    total_le_of_sublist (hsub.map _)
  have htotal := undercounted_refreshState config v stored ids hunder
    (first ++ (stored.entryId, fresh) :: mid)
  have hturning := turning_refreshState h hlt
  have hsplit := congrArg bytesIn (entries_split hmem hturning.numbered.nodup)
  rw [bytesIn_append, bytesIn_cons] at hsplit
  have hadd := saturatingAdd_le config.sizeMax (refreshState config cache v stored ids
    (first ++ (stored.entryId, fresh) :: mid)).1.totalBytes candidate.2.accountedBytes
  obtain ⟨hfitsCount, hfitsBytes⟩ := hfits
  have hsum : total CachedResponse.accountedBytes
      (fresh :: (mid ++ candidate :: later).map Prod.snd) =
        fresh.accountedBytes + (bytesIn (mid.map Prod.snd) + (candidate.2.accountedBytes +
          bytesIn (later.map Prod.snd))) := by
    rw [List.map_append, List.map_cons, total_cons, total_append, total_cons]
    rfl
  rw [hsum] at hfitsBytes
  simp only [List.length_cons, List.length_map, List.length_append] at hfitsCount
  exact ⟨by omega, by omega⟩

/-- The refreshed form of the stored response stays recorded and in the cache where it has
room or where all refreshed forms are one variant. -/
theorem leavesRoom_of_staysWithin (h : Numbered cache)
    (hunder : cache.totalBytes ≤ bytesIn cache.entries)
    (hlt : (refreshState config cache v stored ids
      (refreshCandidates config cache v request ids)).1.issued < 2 ^ 64)
    (hstays : StaysWithin config cache v stored request ids) :
    LeavesRoom config cache v stored request ids := by
  have hroom : ∀ done candidate later,
      refreshCandidates config cache v request ids = done ++ candidate :: later →
      ∀ recorded, (refreshState config cache v stored ids done).2 = some recorded →
        recorded ∈ (refreshState config cache v stored ids done).1.entries →
        (refreshState config cache v stored ids done).1.Conflicts
            ((cache.selected v ids).map CachedResponse.entryId) candidate.2 ∨
          RoomFor config (refreshState config cache v stored ids done).1 recorded candidate.2 := by
    intro done candidate later hsplit recorded hrecorded hmem
    have hdone := issued_lt_of_split hlt hsplit
    obtain ⟨first, fresh, mid, rfl, hat⟩ := storedAt_of_recorded h hsplit hdone hrecorded
    obtain ⟨before, old, behind, hselected, hid, hfresh, hbehind⟩ := hat.exists_old
    rcases hstays with hvary | hfits
    · obtain ⟨⟨id, rfl⟩, -⟩ := inFront_recorded h hat hdone hrecorded hmem
      obtain ⟨other, -, hother⟩ := List.mem_filterMap.mp
        (show candidate.2 ∈ behind.filterMap (refreshed config v request) by
          rw [← hbehind]
          simp)
      have hsame := sameVariant_of_hasVary hvary hfresh hother
      refine Or.inl (List.any_eq_true.mpr ⟨fresh.withId id, hmem, ?_⟩)
      have hturning := turning_refreshState h hdone
      rw [Bool.and_eq_true]
      refine ⟨?_, hsame⟩
      simpa using hturning.unremoved _ hmem
    · have hbound := hfits before old behind fresh hselected hid hfresh
      rw [FitsBefore, ← hbehind] at hbound
      exact Or.inr (roomFor_of_fits h hunder hat hbound hdone hrecorded hmem)
  intro done candidate later hsplit recorded hrecorded
  exact hroom done candidate later hsplit recorded hrecorded
    (mem_of_recorded h hroom hsplit (issued_lt_of_split hlt hsplit) hrecorded)

/-! ### Where nothing else keeps it -/

/-- The entries that a 304 selects match its request. -/
def SelectsMatching (cache : ResponseCache) (v : Validation) (request : CacheRequest)
    (ids : List ℕ) : Prop :=
  ∀ old ∈ cache.selected v ids, old.url = request.url ∧ varyMatches old request.headers = true

/-- A refreshed form keeps the variant of its entry, so that none is left out. -/
theorem conflictFree_of_selectsMatching (h : Numbered cache)
    (hvariants : cache.entries.Pairwise fun e e' => sameVariant e e' = false)
    (hkeyed : ∀ e ∈ cache.entries, Keyed e) (hmatching : SelectsMatching cache v request ids)
    (hvary : v.hasVary = false) : ConflictFree config cache v stored request ids := by
  intro done candidate later hsplit hlt hconflict
  obtain ⟨current, hcurrent, hboth⟩ := List.any_eq_true.mp hconflict
  obtain ⟨-, hsame⟩ := Bool.and_eq_true_iff.mp hboth
  have hturning := turning_refreshState h hlt
  have hcandidates : ∀ c ∈ done ++ candidate :: later, ∃ old ∈ cache.selected v ids,
      old.entryId = c.1 ∧ refreshed config v request old = some c.2 := by
    intro c hc
    rw [← hsplit] at hc
    obtain ⟨old, hold, hmap⟩ := List.mem_filterMap.mp hc
    obtain ⟨fresh, hfresh, rfl⟩ := Option.map_eq_some_iff.mp hmap
    exact ⟨old, hold, rfl, hfresh⟩
  have hvariantOf : ∀ old ∈ cache.selected v ids, ∀ fresh, refreshed config v request old = some fresh →
      sameVariant fresh old = true := fun old hold fresh hfresh =>
    sameVariant_refreshed hvary (hkeyed old (mem_selected hold).1) (hmatching old hold) hfresh
  -- two entries of one variant are the same
  have hunique : ∀ e ∈ cache.entries, ∀ e' ∈ cache.entries,
      e.url = e'.url ∧ e.vary = e'.vary → e = e' := by
    have hnodup : (cache.entries.map fun e => (e.url, e.vary)).Nodup := by
      refine List.pairwise_map.mpr (hvariants.imp fun hdistinct heq => ?_)
      rw [← Bool.not_eq_true, sameVariant_iff] at hdistinct
      exact hdistinct (Prod.mk.inj heq)
    intro e he e' he' hequal
    exact List.inj_on_of_nodup_map hnodup he he' (Prod.ext hequal.1 hequal.2)
  obtain ⟨old, hold, hid, hfresh⟩ := hcandidates candidate (by simp)
  have hself := sameVariant_iff.mp (hvariantOf old hold _ hfresh)
  have hother := sameVariant_iff.mp hsame
  have hfrom : RefreshedFrom config cache v request
      ((cache.selected v ids).filter fun old => decide (old.entryId ∈ done.map Prod.fst))
      (refreshState config cache v stored ids done).1 := by
    refine RefreshedFrom.fold _ _ ?_ (fun c hc => ?_) hlt
    · exact ⟨h.of_sublist List.filter_sublist rfl rfl, le_rfl,
        fun e he => Or.inl (List.mem_of_mem_filter he)⟩
    · obtain ⟨earlier, hearlier, hfirst, hmade⟩ := hcandidates c (List.mem_append_left _ hc)
      refine ⟨earlier, List.mem_filter.mpr ⟨hearlier, ?_⟩, hmade⟩
      rw [hfirst]
      exact decide_eq_true (List.mem_map_of_mem hc)
  rcases hfrom.entries current hcurrent with hstayed | ⟨earlier, hearlier, fresh, hmade, heq, -⟩
  · -- an entry from before is not selected
    have hold' := hunique current hstayed old (mem_selected hold).1
      ⟨hother.1.trans hself.1, hother.2.trans hself.2⟩
    refine hturning.unremoved current hcurrent ?_
    rw [hold']
    exact List.mem_map_of_mem hold
  · -- a refreshed form is one of another entry
    obtain ⟨hselected, hdone⟩ := List.mem_filter.mp hearlier
    have hvariant := sameVariant_iff.mp (hvariantOf earlier hselected _ hmade)
    have hurl : current.url = fresh.url := by rw [heq]; rfl
    have hkeys : current.vary = fresh.vary := by rw [heq]; rfl
    have hold' := hunique earlier (mem_selected hselected).1 old (mem_selected hold).1
      ⟨hvariant.1.symm.trans (hurl.symm.trans (hother.1.trans hself.1)),
        hvariant.2.symm.trans (hkeys.symm.trans (hother.2.trans hself.2))⟩
    have hnodup := nodup_refreshCandidates h config v request ids
    rw [hsplit, List.map_append, List.nodup_append] at hnodup
    rw [decide_eq_true_eq, hold', hid] at hdone
    exact hnodup.2.2 _ hdone _ List.mem_cons_self rfl

theorem accounted_refreshState (haccounted : cache.Accounted config)
    (hlimits : config.maxBytes + config.maxEntryBytes ≤ config.sizeMax)
    {done later : List (ℕ × CachedResponse)}
    (hsplit : refreshCandidates config cache v request ids = done ++ later) :
    (refreshState config cache v stored ids done).1.Accounted config := by
  refine Accounted.foldl_insertRefreshed _ _ hlimits (haccounted.removeEntries _) fun c hc => ?_
  have hmem : c ∈ refreshCandidates config cache v request ids := by
    rw [hsplit]
    exact List.mem_append_left _ hc
  exact accounted_of_mem_refreshCandidates hmem

/-- A response of a new variant that is within the limits is inserted. -/
theorem insertLocked_isSome (h : Numbered cache) (haccounted : cache.Accounted config)
    (hlimits : config.maxBytes + config.maxEntryBytes ≤ config.sizeMax) {response : CachedResponse}
    (hresponse : response.Accounted config)
    (hfree : ∀ e ∈ cache.entries, sameVariant e response = false)
    (hfits : Fits CachedResponse.accountedBytes config.maxEntries config.maxBytes [response])
    (hlt : (cache.insertLocked config response).1.issued < 2 ^ 64) :
    (cache.insertLocked config response).2 ≠ none := by
  have hissued : (cache.insertLocked config response).1.issued = cache.issued + 1 := by
    rw [insertLocked, replaceVariant_of_free hfree]
  have hnot : ¬ cache.NewerVariant response := by
    rintro ⟨old, hfind, -⟩
    have hsame : sameVariant old response = true := by simpa using List.find?_some hfind
    rw [hfree old (List.mem_of_find?_eq_some hfind)] at hsame
    cases hsame
  have hlongest := (haccounted.insertLocked hlimits hresponse).2.longest hnot
  have hentries : (cache.insertLocked config response).1.entries ≠ [] := by
    intro hnil
    rw [hnil] at hlongest
    refine hlongest.exceeds [response.withId cache.insertedId] ?_ (by simp) hfits
    exact List.cons_prefix_cons.mpr ⟨rfl, List.nil_prefix⟩
  rcases insertLocked_cases config cache response with hnone | ⟨entries, hsub, -, -, -, hsome⟩
  · rw [hnone] at hissued
    exact absurd hissued (by simp)
  · rw [hsome (fun e he => ?_) hentries]
    · exact Option.some_ne_none _
    · have hbound := (h.bounds e (hsub.subset he)).2
      rw [h.insertedId_eq (by omega)]
      omega

/-- A refreshed form of the stored response that is within the limits is recorded, where none
is left out. -/
theorem StoredAt.exists_recorded (h : Numbered cache) (haccounted : cache.Accounted config)
    (hlimits : config.maxBytes + config.maxEntryBytes ≤ config.sizeMax)
    (hlt : (refreshState config cache v stored ids
      (refreshCandidates config cache v request ids)).1.issued < 2 ^ 64)
    (hfree : ConflictFree config cache v stored request ids)
    {first later : List (ℕ × CachedResponse)} {fresh : CachedResponse}
    (hat : StoredAt config cache v stored request ids first fresh later)
    (hfits : Fits CachedResponse.accountedBytes config.maxEntries config.maxBytes [fresh]) :
    ∃ recorded, (refreshState config cache v stored ids
      (first ++ [(stored.entryId, fresh)])).2 = some recorded := by
  have hsplit : refreshCandidates config cache v request ids =
      (first ++ [(stored.entryId, fresh)]) ++ later := by
    rw [hat]
    simp
  have hbefore := issued_lt_of_split hlt hat
  have hturning := turning_refreshState h hbefore
  have hfresh : fresh.Accounted config :=
    @accounted_of_mem_refreshCandidates _ _ _ _ _ (stored.entryId, fresh) (by rw [hat]; simp)
  have hturn := issued_lt_of_split hlt hsplit
  rw [refreshState_snoc] at hturn ⊢
  rcases insertRefreshed_turn config _ stored.entryId hturning.numbered _ hturn with
    ⟨hconflict, -⟩ | ⟨hno, hcache, ⟨-, hnone⟩ | ⟨-, hthis, -⟩⟩
  · exact absurd hconflict (hfree _ _ _ hat hbefore)
  · rw [hcache] at hturn
    exact absurd (hnone rfl) (insertLocked_isSome hturning.numbered
      (accounted_refreshState haccounted hlimits hat) hlimits hfresh (hturning.free_of_not hno)
      hfits hturn)
  · exact ⟨_, hthis⟩

/-- Where all candidates so far are in front of the recorded entry and the byte count is exact,
room for one more means that they fit with it. -/
theorem fits_of_roomFor (h : Numbered cache) (haccounted : cache.Accounted config)
    (hlimits : config.maxBytes + config.maxEntryBytes ≤ config.sizeMax)
    (hfree : ConflictFree config cache v stored request ids)
    {first mid : List (ℕ × CachedResponse)} {candidate : ℕ × CachedResponse}
    {fresh recorded : CachedResponse}
    (hat : StoredAt config cache v stored request ids first fresh (mid ++ [candidate]))
    (hlt : (refreshState config cache v stored ids
      (first ++ (stored.entryId, fresh) :: mid)).1.issued < 2 ^ 64)
    (hrecorded : (refreshState config cache v stored ids
      (first ++ (stored.entryId, fresh) :: mid)).2 = some recorded)
    (hmem : recorded ∈ (refreshState config cache v stored ids
      (first ++ (stored.entryId, fresh) :: mid)).1.entries)
    (hroom : RoomFor config (refreshState config cache v stored ids
      (first ++ (stored.entryId, fresh) :: mid)).1 recorded candidate.2) :
    Fits CachedResponse.accountedBytes config.maxEntries config.maxBytes
      (fresh :: (mid ++ [candidate]).map Prod.snd) := by
  have hsplit : refreshCandidates config cache v request ids =
      (first ++ (stored.entryId, fresh) :: mid) ++ candidate :: [] := by
    rw [hat]
    simp
  obtain ⟨⟨id, hform⟩, sub, -, hall, hfront⟩ := inFront_recorded h hat hlt hrecorded hmem
  obtain rfl := hall hfree
  have hbytes : recorded.accountedBytes = fresh.accountedBytes := by
    rw [hform]
    rfl
  obtain ⟨hlength, hfrontBytes⟩ := front_eq hfront
  have hstate := @accounted_refreshState config cache v stored request ids haccounted hlimits _ _
    hsplit
  have htotal := hstate.totalBytes
  have hwithin : bytesIn (refreshState config cache v stored ids
      (first ++ (stored.entryId, fresh) :: sub)).1.entries ≤ config.maxBytes := hstate.within.2
  have hcandidate : candidate.2.Accounted config :=
    accounted_of_mem_refreshCandidates (by rw [hsplit]; simp)
  have hbound := hcandidate.bound
  have hentries := congrArg bytesIn
    (entries_split hmem (turning_refreshState h hlt).numbered.nodup)
  rw [bytesIn_append, bytesIn_cons] at hentries
  obtain ⟨hroomCount, hroomBytes⟩ := hroom
  rw [saturatingAdd_eq (by omega)] at hroomBytes
  have hsum : total CachedResponse.accountedBytes
      (fresh :: (sub ++ [candidate]).map Prod.snd) =
        fresh.accountedBytes + (bytesIn (sub.map Prod.snd) + candidate.2.accountedBytes) := by
    rw [List.map_append, total_cons, total_append]
    simp [bytesIn]
  refine ⟨?_, ?_⟩
  · simp only [List.length_cons, List.length_map, List.length_append, List.length_nil]
    omega
  · rw [hsum]
    omega

/-- Room at every turn means that the refreshed forms fit, where none is left out and the
byte count is exact. -/
theorem staysWithin_of_leavesRoom (h : Numbered cache) (haccounted : cache.Accounted config)
    (hlimits : config.maxBytes + config.maxEntryBytes ≤ config.sizeMax)
    (hkeyed : ∀ e ∈ cache.entries, Keyed e) (hmatching : SelectsMatching cache v request ids)
    (hlt : (refreshState config cache v stored ids
      (refreshCandidates config cache v request ids)).1.issued < 2 ^ 64)
    (hroom : LeavesRoom config cache v stored request ids) :
    StaysWithin config cache v stored request ids ∨
      ExceedsAlone config cache v stored request ids := by
  by_contra hneither
  rw [not_or] at hneither
  obtain ⟨hnot, hsmall⟩ := hneither
  unfold StaysWithin at hnot
  push Not at hnot
  obtain ⟨hvary, before, old, behind, fresh, hselected, hid, hfresh, hexceeds⟩ := hnot
  have hfree := @conflictFree_of_selectsMatching config cache v stored request ids h
    haccounted.variants hkeyed hmatching (by simpa using hvary)
  have hone : Fits CachedResponse.accountedBytes config.maxEntries config.maxBytes [fresh] := by
    by_contra hlarge
    exact hsmall ⟨old, by rw [hselected]; simp, hid, fresh, hfresh, hlarge⟩
  obtain ⟨first, later, hat, hbehind⟩ := storedAt_of_selected hselected hid hfresh
  rw [FitsBefore, ← hbehind] at hexceeds
  obtain ⟨recorded, hrecorded⟩ := hat.exists_recorded h haccounted hlimits hlt hfree hone
  rcases List.eq_nil_or_concat later with rfl | ⟨mid, candidate, rfl⟩
  · exact hexceeds hone
  rw [List.concat_eq_append] at hat hexceeds
  have hsplit : refreshCandidates config cache v request ids =
      (first ++ (stored.entryId, fresh) :: mid) ++ candidate :: [] := by
    rw [hat]
    simp
  have hdone := issued_lt_of_split hlt hsplit
  have hkept := (hat.recorded_behind h hdone).trans hrecorded
  have hmem := mem_of_recorded h (fun done c rest hc recorded hr _ => hroom done c rest hc recorded hr)
    hsplit hdone hkept
  have hroomFor := (hroom _ _ _ hsplit recorded hkept).resolve_left (hfree _ _ _ hsplit hdone)
  exact hexceeds (fits_of_roomFor h haccounted hlimits hfree hat hdone hkept hmem hroomFor)

/-- A refreshed form that exceeds a limit by itself is not recorded where the byte count is
exact. -/
theorem leavesRoom_of_exceedsAlone (h : Numbered cache) (haccounted : cache.Accounted config)
    (hlimits : config.maxBytes + config.maxEntryBytes ≤ config.sizeMax)
    (hlt : (refreshState config cache v stored ids
      (refreshCandidates config cache v request ids)).1.issued < 2 ^ 64)
    (hexceeds : ExceedsAlone config cache v stored request ids) :
    LeavesRoom config cache v stored request ids := by
  intro done candidate later hsplit recorded hrecorded
  have hdone := issued_lt_of_split hlt hsplit
  obtain ⟨first, fresh, mid, rfl, hat⟩ := storedAt_of_recorded h hsplit hdone hrecorded
  -- the candidate for the stored response is the one that exceeds a limit
  obtain ⟨old, hold, hid, fresh', hfresh, hlarge⟩ := hexceeds
  have hsame : fresh' = fresh := by
    obtain ⟨before, old', behind, hselected, hid', hfresh', -⟩ := hat.exists_old
    have hold' : old' ∈ cache.selected v ids := by
      rw [hselected]
      simp
    obtain rfl := List.inj_on_of_nodup_map h.nodup (mem_selected hold).1 (mem_selected hold').1
      (hid.trans hid'.symm)
    exact Option.some.inj (hfresh.symm.trans hfresh')
  subst hsame
  have hturning := turning_refreshState h (issued_lt_of_split hlt hat)
  have hnext : refreshCandidates config cache v request ids =
      (first ++ [(stored.entryId, fresh')]) ++ (mid ++ candidate :: later) := by
    rw [hat]
    simp
  have hturn := (hat.recorded_behind h hdone).symm.trans hrecorded
  have hbefore := hat.recorded_before h (issued_lt_of_split hlt hat)
  have hstate : (refreshState config cache v stored ids
      (first ++ [(stored.entryId, fresh')])).1.Accounted config :=
    accounted_refreshState haccounted hlimits hnext
  have hwithin := hstate.within
  have hlt' := issued_lt_of_split hlt hnext
  rw [refreshState_snoc] at hturn hwithin hlt'
  rcases insertRefreshed_turn config _ stored.entryId hturning.numbered _ hlt' with
    ⟨-, hkept⟩ | ⟨-, hcache, ⟨hkept, -⟩ | ⟨-, -, hmem⟩⟩
  · rw [hkept, hbefore] at hturn
    cases hturn
  · rw [hkept, hbefore] at hturn
    cases hturn
  · -- it would be in a cache that is within the limits
    rw [hcache] at hwithin
    dsimp only at hmem hwithin
    obtain ⟨front, rear, hentries⟩ := List.append_of_mem hmem
    rw [hentries] at hwithin
    obtain ⟨hcount, hbytes⟩ := hwithin
    rw [total_append, total_cons] at hbytes
    simp only [List.length_append, List.length_cons] at hcount
    have hsize : (fresh'.withId
        (refreshState config cache v stored ids first).1.insertedId).accountedBytes =
          fresh'.accountedBytes := rfl
    refine absurd ⟨?_, ?_⟩ hlarge
    · simp only [List.length_cons, List.length_nil]
      omega
    · rw [total_cons, total_nil]
      omega

/-- The entries that a lookup names for a 304 match its request ever after. -/
theorem selectsMatching_of_mem_lookups {s : CacheRun} (h : s.Inv) {l : CacheLookup}
    (hlookup : (request, l) ∈ s.lookups) (hstored : l.response = some stored) :
    SelectsMatching s.cache v request (mergeCandidates stored l.validationCandidateIds) := by
  intro old hold
  obtain ⟨hmem, hid⟩ := mem_selected hold
  refine (h.lookups _ hlookup old.entryId ?_).2 old hmem rfl
  rw [CacheLookup.mergeIds, hstored]
  exact hid

end ResponseCache

/-- In every run with fewer than 2^64 insertions the report of a merge is true of the cache
that it leaves where the 304 has Vary fields or the refreshed forms of the stored response and
of the entries behind it fit into the cache. For the merges with an earlier lookup of the
run, and limits within which the byte count does not saturate, that is also necessary, unless
the refreshed form exceeds a limit by itself. -/
theorem after_retainsAsReported_iff (config : ResponseCacheConfig) (ops : List CacheOp)
    (stored : CachedResponse) (request : CacheRequest) (v : Validation) (snapshot : List ℕ)
    (hlt : ((CacheRun.after config ops).cache.merge304 config stored request v
      snapshot).1.issued < 2 ^ 64) :
    ((RefreshRuns config (CacheRun.after config ops).cache v stored request snapshot →
        StaysWithin config (CacheRun.after config ops).cache v stored request
          (mergeCandidates stored snapshot)) →
      ReportsTruly config (CacheRun.after config ops).cache v stored request snapshot) ∧
    (config.maxBytes + config.maxEntryBytes ≤ config.sizeMax →
      (∃ l, (request, l) ∈ (CacheRun.after config ops).lookups ∧ l.response = some stored ∧
        l.validationCandidateIds = snapshot) →
      (ReportsTruly config (CacheRun.after config ops).cache v stored request snapshot ↔
        (RefreshRuns config (CacheRun.after config ops).cache v stored request snapshot →
          StaysWithin config (CacheRun.after config ops).cache v stored request
              (mergeCandidates stored snapshot) ∨
            ExceedsAlone config (CacheRun.after config ops).cache v stored request
              (mergeCandidates stored snapshot)))) := by
  have hinv : (CacheRun.after config ops).Inv := by
    refine CacheRun.inv_after config (lt_of_le_of_lt ?_ hlt)
    exact issued_le_merge304 stored request v snapshot
  have hunder := CacheRun.undercounted_after config ops
  -- where the refresh loop runs, the bound on the ids is one on the loop
  have hloop (hruns : RefreshRuns config (CacheRun.after config ops).cache v stored request
      snapshot) : (refreshState config (CacheRun.after config ops).cache v stored
        (mergeCandidates stored snapshot) (refreshCandidates config (CacheRun.after config ops).cache
          v request (mergeCandidates stored snapshot))).1.issued < 2 ^ 64 := by
    rcases @merge304_refreshes config (CacheRun.after config ops).cache v stored request snapshot with
      ⟨-, hcache, -⟩ | ⟨hnot, -⟩
    · rwa [hcache, refresh_eq] at hlt
    · exact absurd hruns hnot
  have hreport := reportsTruly_iff_leavesRoom hinv.numbered snapshot hlt
  constructor
  · intro hstays
    exact hreport.mpr fun hruns =>
      leavesRoom_of_staysWithin hinv.numbered hunder (hloop hruns) (hstays hruns)
  · rintro hlimits ⟨l, hlookup, hstored, rfl⟩
    have haccounted := CacheRun.accounted_after hlimits ops
    rw [hreport]
    refine forall_congr' fun hruns => ⟨fun hroom => ?_, fun hcase => ?_⟩
    · exact staysWithin_of_leavesRoom hinv.numbered haccounted hlimits (keyed_after config ops)
        (selectsMatching_of_mem_lookups hinv hlookup hstored) (hloop hruns) hroom
    · rcases hcase with hstays | hexceeds
      · exact leavesRoom_of_staysWithin hinv.numbered hunder (hloop hruns) hstays
      · exact leavesRoom_of_exceedsAlone hinv.numbered haccounted hlimits (hloop hruns) hexceeds

/-- The 304 adds a field to both of them. -/
def largerValidation : Validation :=
  { wrapValidation with
    responseHeaders := wrapValidation.responseHeaders ++
      [⟨"x-note".toList, List.replicate 40 'n'⟩] }

/-- A cache that has room for two entries of 325 bytes but not for the larger ones. -/
def tightConfig : ResponseCacheConfig where
  maxBytes := 700
  sizeMax := 2 ^ 64 - 1
  sizeofCachedResponse := 256

/-- The default limits leave room for both of the refreshed variants. -/
theorem after_retainsAsReported_variants :
    ∃ (l : CacheLookup) (stored candidate delivery : CachedResponse),
      (CacheRun.after wrapConfig variantOps).lookups[0]? = some (bothFields, l) ∧
      l.response = some stored ∧
      ((CacheRun.after wrapConfig variantOps).cache.merge304 wrapConfig stored bothFields
        largerValidation l.validationCandidateIds).2 = some ⟨delivery, some candidate⟩ ∧
      candidate.entryId = 3 ∧
      ReportsTruly wrapConfig (CacheRun.after wrapConfig variantOps).cache largerValidation stored
        bothFields l.validationCandidateIds ∧
      (ReportsTruly wrapConfig (CacheRun.after wrapConfig variantOps).cache largerValidation stored
          bothFields l.validationCandidateIds ↔
        (RefreshRuns wrapConfig (CacheRun.after wrapConfig variantOps).cache largerValidation stored
            bothFields l.validationCandidateIds →
          StaysWithin wrapConfig (CacheRun.after wrapConfig variantOps).cache largerValidation
              stored bothFields (mergeCandidates stored l.validationCandidateIds) ∨
            ExceedsAlone wrapConfig (CacheRun.after wrapConfig variantOps).cache largerValidation
              stored bothFields (mergeCandidates stored l.validationCandidateIds))) := by
  refine ⟨_, _, _, _, rfl, rfl, rfl, by decide +kernel, ?_, ?_⟩
  · refine (after_retainsAsReported_iff wrapConfig variantOps _ bothFields largerValidation _
      (by decide +kernel)).1 fun _ => staysWithin_of_fits ?_
    unfold Fits
    decide +kernel
  · exact (after_retainsAsReported_iff wrapConfig variantOps _ bothFields largerValidation _
      (by decide +kernel)).2 (by decide) ⟨_, List.mem_of_getElem? (i := 0) rfl, rfl, rfl⟩

/-- The variant by encoding is inserted behind the selected one and takes its
place: id 3 is reported as retained and only id 4 is there. -/
theorem merge304_reports_evicted :
    ∃ (l : CacheLookup) (stored candidate delivery : CachedResponse),
      (CacheRun.after tightConfig.effective variantOps).lookups[0]? = some (bothFields, l) ∧
      l.response = some stored ∧
      ((CacheRun.after tightConfig.effective variantOps).cache.merge304 tightConfig.effective stored
          bothFields largerValidation l.validationCandidateIds).2 =
        some ⟨delivery, some candidate⟩ ∧
      ((CacheRun.after tightConfig.effective variantOps).cache.merge304 tightConfig.effective stored
          bothFields largerValidation l.validationCandidateIds).1.entries.map
        CachedResponse.entryId = [4] ∧
      candidate.entryId = 3 :=
  ⟨_, _, _, _, rfl, rfl, rfl, by decide +kernel, by decide +kernel⟩

end KatHttp3
