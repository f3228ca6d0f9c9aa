import KatHttp3.Cache.Admission

/-!
# The retention candidate of a 304

The merge of a 304 reports the refreshed form of the response it was received
for as retained. The loop that inserts the refreshed entries records it when it
is inserted; entries that are inserted later may evict it again.
-/

namespace KatHttp3

open Str ResponseCache WeightedList

namespace ResponseCache

variable (config : ResponseCacheConfig) (cache : ResponseCache) (v : Validation)
  (stored : CachedResponse) (request : CacheRequest) (ids : List ℕ)

/-- The state of the refresh loop after some of its candidates. -/
def refreshState (done : List (ℕ × CachedResponse)) : ResponseCache × Option CachedResponse :=
  done.foldl (insertRefreshed config ((cache.selected v ids).map CachedResponse.entryId)
    stored.entryId) (cache.withoutSelected v ids, none)

/-- The candidates that a merge works through: the snapshot, or the response itself. -/
def mergeCandidates (stored : CachedResponse) (snapshot : List ℕ) : List ℕ :=
  if snapshot = [] then [stored.entryId] else snapshot

/-- The checks of `merge_304` pass and the refresh loop runs. -/
structure RefreshRuns (snapshot : List ℕ) : Prop where
  selects : stored.url = request.url ∧ varyMatches stored request.headers = true
  accepts : v.accepts stored = true
  delivery : (makeCachedResponse config request stored.statusCode (v.mergedHeaders stored.headers)
    stored.body v.requestWallSeconds v.now false).isSome = true
  validator : (v.hasEtag || v.hasLastModified) = true ∨
    cache.validatorlessSelection v stored request snapshot (mergeCandidates stored snapshot) =
      some false

/-- An entry got its id in the turn of the loop for the stored response. -/
def RefreshedFor (e : CachedResponse) : Prop :=
  ∃ done fresh later,
    refreshCandidates config cache v request ids = done ++ (stored.entryId, fresh) :: later ∧
    (refreshState config cache v stored ids done).1.issued < e.entryId ∧
    e.entryId ≤ (refreshState config cache v stored ids (done ++ [(stored.entryId, fresh)])).1.issued

/-- What the report of a merge promises about the cache it leaves. -/
structure RetainsAsReported (snapshot : List ℕ) (result : RevalidationResult)
    (after : ResponseCache) : Prop where
  retained : ∀ candidate, result.retentionCandidate = some candidate →
    ∃ e ∈ after.entries, e.entryId = candidate.entryId ∧ e.headers = candidate.headers ∧
      e.body = candidate.body
  gone : result.retentionCandidate = none → ∀ e ∈ after.entries,
    ¬ RefreshedFor config cache v stored request (mergeCandidates stored snapshot) e

/-- What a merge reports is true of the cache that it leaves. -/
def ReportsTruly (snapshot : List ℕ) : Prop :=
  ∀ result, (cache.merge304 config stored request v snapshot).2 = some result →
    RetainsAsReported config cache v stored request snapshot result
      (cache.merge304 config stored request v snapshot).1

/-- The entries in front of a recorded one and behind it. -/
def inFront (recorded : CachedResponse) : List CachedResponse :=
  cache.entries.takeWhile fun e => e.entryId ≠ recorded.entryId

def behind (recorded : CachedResponse) : List CachedResponse :=
  (cache.entries.dropWhile fun e => e.entryId ≠ recorded.entryId).tail

/-- With the response in front, the entries up to the recorded one are within the
limits, as far as the byte count goes. -/
structure RoomFor (recorded response : CachedResponse) : Prop where
  count : (cache.inFront recorded).length + 2 ≤ config.maxEntries
  bytes : saturatingAdd config.sizeMax cache.totalBytes response.accountedBytes -
    bytesIn (cache.behind recorded) ≤ config.maxBytes

/-- A candidate is left out because an entry of its variant came in the meantime. -/
def Conflicts (removed : List ℕ) (response : CachedResponse) : Prop :=
  (cache.entries.any fun current =>
    !removed.contains current.entryId && sameVariant current response) = true

/-- Every candidate of the loop that comes after the recorded one leaves room for it. -/
def LeavesRoom : Prop :=
  ∀ done candidate later,
    refreshCandidates config cache v request ids = done ++ candidate :: later →
    ∀ recorded, (refreshState config cache v stored ids done).2 = some recorded →
      (refreshState config cache v stored ids done).1.Conflicts
          ((cache.selected v ids).map CachedResponse.entryId) candidate.2 ∨
        RoomFor config (refreshState config cache v stored ids done).1 recorded candidate.2

variable {config cache v stored request ids}

theorem refresh_eq :
    cache.refresh config v stored request ids =
      refreshState config cache v stored ids (refreshCandidates config cache v request ids) := rfl

@[simp] theorem refreshState_snoc (done : List (ℕ × CachedResponse))
    (candidate : ℕ × CachedResponse) :
    refreshState config cache v stored ids (done ++ [candidate]) =
      insertRefreshed config ((cache.selected v ids).map CachedResponse.entryId) stored.entryId
        (refreshState config cache v stored ids done) candidate := by
  rw [refreshState, List.foldl_append]
  rfl

/-- A merge whose checks pass reports what the loop recorded; any other one
changes nothing and reports nothing retained. -/
theorem merge304_refreshes (snapshot : List ℕ) :
    (RefreshRuns config cache v stored request snapshot ∧
        (cache.merge304 config stored request v snapshot).1 =
          (cache.refresh config v stored request (mergeCandidates stored snapshot)).1 ∧
        ∃ delivery, (cache.merge304 config stored request v snapshot).2 = some ⟨delivery,
          (cache.refresh config v stored request (mergeCandidates stored snapshot)).2⟩) ∨
      (¬ RefreshRuns config cache v stored request snapshot ∧
        (cache.merge304 config stored request v snapshot).1 = cache ∧
        ∀ result, (cache.merge304 config stored request v snapshot).2 = some result →
          result.retentionCandidate = none) := by
  unfold merge304
  by_cases h1 : stored.url ≠ request.url ∨ varyMatches stored request.headers = false
  · rw [if_pos h1]
    refine Or.inr ⟨fun h => ?_, rfl, fun _ hresult => absurd hresult (by simp)⟩
    rcases h1 with hurl | hvary
    · exact hurl h.selects.1
    · rw [h.selects.2] at hvary
      cases hvary
  rw [if_neg h1]
  rw [not_or, not_not, Bool.not_eq_false] at h1
  by_cases h2 : v.accepts stored = false
  · rw [if_pos h2]
    refine Or.inr ⟨fun h => ?_, rfl, fun _ hresult => absurd hresult (by simp)⟩
    rw [h.accepts] at h2
    cases h2
  rw [if_neg h2]
  rw [Bool.not_eq_false] at h2
  dsimp only
  cases hmade : makeCachedResponse config request stored.statusCode (v.mergedHeaders stored.headers)
    stored.body v.requestWallSeconds v.now false with
  | none =>
    refine Or.inr ⟨fun h => ?_, rfl, fun _ hresult => absurd hresult (by simp)⟩
    have hsome := h.delivery
    rw [hmade] at hsome
    cases hsome
  | some delivery =>
    have hdelivery : (makeCachedResponse config request stored.statusCode
        (v.mergedHeaders stored.headers) stored.body v.requestWallSeconds v.now false).isSome =
          true := by
      rw [hmade]
      rfl
    have hids : (if snapshot = [] then [stored.entryId] else snapshot) =
        mergeCandidates stored snapshot := rfl
    rw [hids]
    generalize cache.refresh config v stored request (mergeCandidates stored snapshot) = refreshed
    obtain ⟨after, retained⟩ := refreshed
    dsimp only
    by_cases h3 : (v.hasEtag || v.hasLastModified) = true
    · rw [if_pos h3]
      exact Or.inl ⟨⟨h1, h2, hdelivery, Or.inl h3⟩, rfl, delivery, rfl⟩
    rw [if_neg h3]
    cases hselection : cache.validatorlessSelection v stored request snapshot
        (mergeCandidates stored snapshot) with
    | none =>
      refine Or.inr ⟨fun h => ?_, rfl, fun _ hresult => absurd hresult (by simp)⟩
      rcases h.validator with hvalidator | hsome
      · exact h3 hvalidator
      · rw [hselection] at hsome
        cases hsome
    | some deliveryOnly =>
      cases deliveryOnly with
      | false => exact Or.inl ⟨⟨h1, h2, hdelivery, Or.inr hselection⟩, rfl, delivery, rfl⟩
      | true =>
        refine Or.inr ⟨fun h => ?_, rfl, fun result hresult => ?_⟩
        · rcases h.validator with hvalidator | hsome
          · exact h3 hvalidator
          · rw [hselection] at hsome
            cases hsome
        · rw [← Option.some.inj hresult]

/-! ### Who survives an insertion -/

/-- Whether the eviction loop stops before it reaches an entry. -/
theorem evictLoop_reaches (insertedId : ℕ) (rear front : List CachedResponse) (e : CachedResponse)
    (bytes : ℕ) (retained : Bool) :
    if front.length + 1 ≤ config.maxEntries ∧ bytes - bytesIn rear ≤ config.maxBytes then
      e ∈ (evictLoop config insertedId (rear ++ e :: front) bytes retained).1
    else
      (evictLoop config insertedId (rear ++ e :: front) bytes retained).1 <:+ front := by
  induction rear generalizing bytes retained with
  | nil =>
    rw [List.nil_append, bytesIn_nil, Nat.sub_zero]
    split_ifs with hroom
    · rw [evictLoop, if_neg (by omega)]
      exact List.mem_cons_self
    · rw [evictLoop, if_pos (by omega)]
      obtain ⟨popped, hsplit, -⟩ := evictLoop_spec config insertedId front
        (bytes - min bytes e.accountedBytes)
        (if e.entryId = insertedId then false else retained)
      exact ⟨popped, hsplit.symm⟩
  | cons last rear ih =>
    rw [List.cons_append, evictLoop, bytesIn_cons]
    by_cases hfull : config.maxEntries < (rear ++ e :: front).length + 1 ∨ config.maxBytes < bytes
    · rw [if_pos hfull]
      have hrest := ih (bytes - min bytes last.accountedBytes)
        (if last.entryId = insertedId then false else retained)
      have hsub : bytes - min bytes last.accountedBytes - bytesIn rear =
          bytes - (last.accountedBytes + bytesIn rear) := by
        omega
      rw [hsub] at hrest
      exact hrest
    · rw [if_neg hfull]
      rw [List.length_append, List.length_cons] at hfull
      rw [if_pos (by omega)]
      exact List.mem_cons_of_mem _ (List.mem_append_right _ List.mem_cons_self)

theorem entries_split {e : CachedResponse} (he : e ∈ cache.entries)
    (hids : (cache.entries.map CachedResponse.entryId).Nodup) :
    cache.entries = cache.inFront e ++ e :: cache.behind e := by
  unfold inFront behind
  generalize cache.entries = entries at he hids
  induction entries with
  | nil => cases he
  | cons first rest ih =>
    rw [List.map_cons, List.nodup_cons] at hids
    by_cases hfirst : first.entryId = e.entryId
    · have hsame : e = first := by
        rcases List.mem_cons.mp he with heq | hrest
        · exact heq
        · exact absurd (hfirst ▸ List.mem_map_of_mem hrest) hids.1
      rw [List.takeWhile_cons_of_neg (by simp [hfirst]),
        List.dropWhile_cons_of_neg (by simp [hfirst]), hsame]
      rfl
    · rw [List.takeWhile_cons_of_pos (by simp [hfirst]),
        List.dropWhile_cons_of_pos (by simp [hfirst]), List.cons_append]
      have hrest : e ∈ rest :=
        (List.mem_cons.mp he).resolve_left fun heq =>
          hfirst (congrArg CachedResponse.entryId heq).symm
      exact congrArg (first :: ·) (ih hrest hids.2)

/-- A response of a new variant is put in front of everything. -/
theorem replaceVariant_of_free {response : CachedResponse}
    (hfree : ∀ e ∈ cache.entries, sameVariant e response = false) :
    cache.replaceVariant response = some (cache.entries, cache.totalBytes) := by
  unfold replaceVariant
  rw [List.findIdx?_eq_none_iff.mpr hfree]

/-- An entry survives the insertion of a response of a new variant exactly when
there is room for both. -/
theorem mem_insertLocked_iff_room (h : Numbered cache) (hlt : cache.issued + 1 < 2 ^ 64)
    {response recorded : CachedResponse}
    (hfree : ∀ e ∈ cache.entries, sameVariant e response = false)
    (hrecorded : recorded ∈ cache.entries) :
    recorded ∈ (cache.insertLocked config response).1.entries ↔
      RoomFor config cache recorded response := by
  have hsplit := entries_split hrecorded h.nodup
  have hreversed : (response.withId cache.insertedId :: cache.entries).reverse =
      (cache.behind recorded).reverse ++
        recorded :: (response.withId cache.insertedId :: cache.inFront recorded).reverse := by
    rw [hsplit]
    simp
  have hreaches := @evictLoop_reaches config cache.insertedId (cache.behind recorded).reverse
    (response.withId cache.insertedId :: cache.inFront recorded).reverse recorded
    (saturatingAdd config.sizeMax cache.totalBytes response.accountedBytes) true
  have hbytes : bytesIn (cache.behind recorded).reverse = bytesIn (cache.behind recorded) :=
    total_perm (List.reverse_perm _)
  rw [hbytes, List.length_reverse, List.length_cons, ← hreversed] at hreaches
  have hentries : (cache.insertLocked config response).1.entries =
      (evictLoop config cache.insertedId
        (response.withId cache.insertedId :: cache.entries).reverse
        (saturatingAdd config.sizeMax cache.totalBytes response.accountedBytes) true).1.reverse := by
    rw [insertLocked, replaceVariant_of_free hfree]
  rw [hentries, List.mem_reverse]
  by_cases hroom : RoomFor config cache recorded response
  · rw [if_pos ⟨hroom.count, hroom.bytes⟩] at hreaches
    exact iff_of_true hreaches hroom
  · rw [if_neg fun hboth => hroom ⟨hboth.1, hboth.2⟩] at hreaches
    refine iff_of_false (fun hmem => ?_) hroom
    have hfront := List.mem_reverse.mp (hreaches.subset hmem)
    rcases List.mem_cons.mp hfront with heq | hearlier
    · have hid := (h.bounds recorded hrecorded).2
      rw [heq] at hid
      change cache.insertedId ≤ cache.issued at hid
      rw [h.insertedId_eq hlt] at hid
      omega
    · have hdiffers := List.mem_takeWhile_imp hearlier
      simp at hdiffers

/-- A response that is inserted and stays is in the cache under its new id. -/
theorem mem_of_insertLocked_eq_some {response : CachedResponse} {id : ℕ}
    (h : (cache.insertLocked config response).2 = some id) :
    id = cache.insertedId ∧
      response.withId cache.insertedId ∈ (cache.insertLocked config response).1.entries := by
  unfold insertLocked at h ⊢
  cases hreplace : cache.replaceVariant response with
  | none =>
    rw [hreplace] at h
    cases h
  | some replaced =>
    obtain ⟨entries, bytes⟩ := replaced
    rw [hreplace] at h
    dsimp only at h ⊢
    obtain ⟨popped, hsplit, hretained⟩ := evictLoop_spec config cache.insertedId
      (response.withId cache.insertedId :: entries).reverse
      (saturatingAdd config.sizeMax bytes response.accountedBytes) true
    split_ifs at h with hstays
    refine ⟨(Option.some.inj h).symm, ?_⟩
    rw [hretained, Bool.true_and, Bool.not_eq_true', List.any_eq_false] at hstays
    have hmem : response.withId cache.insertedId ∈
        (response.withId cache.insertedId :: entries).reverse :=
      List.mem_reverse.mpr List.mem_cons_self
    rw [hsplit] at hmem
    rcases List.mem_append.mp hmem with hpopped | hkept
    · exact absurd (beq_self_eq_true _) (hstays _ hpopped)
    · exact List.mem_reverse.mpr hkept

/-! ### The loop -/

theorem find?_entryId (h : Numbered cache) {e : CachedResponse} (he : e ∈ cache.entries) :
    cache.entries.find? (·.entryId == e.entryId) = some e := by
  cases hfind : cache.entries.find? (·.entryId == e.entryId) with
  | none =>
    have hno := List.find?_eq_none.mp hfind e he
    exact absurd (beq_self_eq_true _) hno
  | some found =>
    have hid := @List.find?_some CachedResponse (·.entryId == e.entryId) _ _ hfind
    rw [List.inj_on_of_nodup_map h.nodup (List.mem_of_find?_eq_some hfind) he (beq_iff_eq.mp hid)]

/-- One turn of the loop: the candidate is left out, or it is inserted and, if it
is the one for the stored response and stays, recorded. -/
theorem insertRefreshed_turn (config : ResponseCacheConfig) (removed : List ℕ) (storedId : ℕ)
    {state : ResponseCache × Option CachedResponse} (hnumbered : Numbered state.1)
    (candidate : ℕ × CachedResponse)
    (hlt : (insertRefreshed config removed storedId state candidate).1.issued < 2 ^ 64) :
    state.1.Conflicts removed candidate.2 ∧
        insertRefreshed config removed storedId state candidate = state ∨
      ¬ state.1.Conflicts removed candidate.2 ∧
        (insertRefreshed config removed storedId state candidate).1 =
          (state.1.insertLocked config candidate.2).1 ∧
        ((insertRefreshed config removed storedId state candidate).2 = state.2 ∧
            (candidate.1 = storedId → (state.1.insertLocked config candidate.2).2 = none) ∨
          candidate.1 = storedId ∧
            (insertRefreshed config removed storedId state candidate).2 =
              some (candidate.2.withId state.1.insertedId) ∧
            candidate.2.withId state.1.insertedId ∈
              (state.1.insertLocked config candidate.2).1.entries) := by
  obtain ⟨cache, recorded⟩ := state
  unfold insertRefreshed at hlt ⊢
  unfold Conflicts
  dsimp only at hnumbered hlt ⊢
  by_cases hconflict : (cache.entries.any fun current =>
      !removed.contains current.entryId && sameVariant current candidate.2) = true
  · rw [if_pos hconflict]
    exact Or.inl ⟨hconflict, rfl⟩
  rw [if_neg hconflict] at hlt ⊢
  refine Or.inr ⟨hconflict, ?_⟩
  cases hresult : (cache.insertLocked config candidate.2).2 with
  | none => exact ⟨rfl, Or.inl ⟨rfl, fun _ => rfl⟩⟩
  | some id =>
    rw [hresult] at hlt
    dsimp only at hlt ⊢
    by_cases hstored : candidate.1 = storedId
    · rw [if_pos hstored] at hlt ⊢
      obtain ⟨rfl, hmem⟩ := mem_of_insertLocked_eq_some hresult
      have hfind := find?_entryId (hnumbered.insertLocked candidate.2 hlt) hmem
      refine ⟨rfl, Or.inr ⟨hstored, ?_, hmem⟩⟩
      change ((cache.insertLocked config candidate.2).1.entries.find?
        (·.entryId == cache.insertedId)).or recorded = _
      change List.find? (fun e : CachedResponse => e.entryId == cache.insertedId) _ = _ at hfind
      rw [hfind, Option.some_or]
    · rw [if_neg hstored] at hlt ⊢
      exact ⟨rfl, Or.inl ⟨rfl, fun heq => absurd heq hstored⟩⟩

/-- What holds at every turn of the loop: ids are handed out in order and no
entry has a removed id. -/
structure Turning (config : ResponseCacheConfig) (cache : ResponseCache) (removed : List ℕ)
    (state : ResponseCache × Option CachedResponse) : Prop where
  numbered : Numbered state.1
  issued : cache.issued ≤ state.1.issued
  unremoved : ∀ e ∈ state.1.entries, e.entryId ∉ removed
  old : ∀ recorded, state.2 = some recorded → recorded.entryId ≤ state.1.issued
  recorded : ∀ recorded, state.2 = some recorded →
    ∀ e ∈ state.1.entries, e.entryId = recorded.entryId → e = recorded

theorem Turning.turn {removed : List ℕ} (hremoved : ∀ id ∈ removed, id ≤ cache.issued)
    {state : ResponseCache × Option CachedResponse} (h : Turning config cache removed state)
    (storedId : ℕ) (candidate : ℕ × CachedResponse)
    (hlt : (insertRefreshed config removed storedId state candidate).1.issued < 2 ^ 64) :
    Turning config cache removed (insertRefreshed config removed storedId state candidate) := by
  have hissued := h.issued
  rcases insertRefreshed_turn config removed storedId h.numbered candidate hlt with
    ⟨-, hsame⟩ | ⟨-, hcache, hrecorded⟩
  · rw [hsame]
    exact h
  rw [hcache] at hlt
  have hle : state.1.issued ≤ (state.1.insertLocked config candidate.2).1.issued :=
    issued_le_insertLocked candidate.2
  have hnumbered := h.numbered.insertLocked candidate.2 hlt
  have hnew : ∀ e ∈ (state.1.insertLocked config candidate.2).1.entries,
      e ∈ state.1.entries ∨ e.entryId = state.1.issued + 1 := by
    intro e he
    by_cases hold : e ∈ state.1.entries
    · exact Or.inl hold
    · obtain ⟨-, heq, hid⟩ := h.numbered.insertLocked_result hlt he hold
      right
      rw [heq, ← hid]
      rfl
  refine ⟨by rwa [hcache], by rw [hcache]; omega, ?_, ?_, ?_⟩
  · intro e he
    rw [hcache] at he
    rcases hnew e he with hold | hid
    · exact h.unremoved e hold
    · intro hmem
      have := hremoved _ hmem
      omega
  · intro recorded hsome
    rw [hcache]
    rcases hrecorded with ⟨hsame, -⟩ | ⟨-, hthis, hmem⟩
    · rw [hsame] at hsome
      exact (h.old recorded hsome).trans hle
    · rw [hthis] at hsome
      obtain rfl := Option.some.inj hsome
      exact (hnumbered.bounds _ hmem).2
  · intro recorded hsome e he hid
    rw [hcache] at he
    rcases hrecorded with ⟨hsame, -⟩ | ⟨-, hthis, hmem⟩
    · rw [hsame] at hsome
      rcases hnew e he with hold | hnext
      · exact h.recorded recorded hsome e hold hid
      · have := h.old recorded hsome
        omega
    · rw [hthis] at hsome
      obtain rfl := Option.some.inj hsome
      exact List.inj_on_of_nodup_map hnumbered.nodup he hmem hid

/-- A candidate that is not left out is of a new variant. -/
theorem Turning.free_of_not {removed : List ℕ} {state : ResponseCache × Option CachedResponse}
    (h : Turning config cache removed state) {response : CachedResponse}
    (hnot : ¬ state.1.Conflicts removed response) :
    ∀ e ∈ state.1.entries, sameVariant e response = false := by
  intro e he
  by_contra hsame
  rw [Bool.not_eq_false] at hsame
  refine hnot (List.any_eq_true.mpr ⟨e, he, ?_⟩)
  simp [h.unremoved e he, hsame]

/-- A turn leaves a recorded entry in the cache exactly when there is room for it. -/
theorem Turning.mem_turn_iff {removed : List ℕ} {state : ResponseCache × Option CachedResponse}
    (h : Turning config cache removed state) {storedId : ℕ} {candidate : ℕ × CachedResponse}
    (hlt : (insertRefreshed config removed storedId state candidate).1.issued < 2 ^ 64)
    {recorded : CachedResponse} (hmem : recorded ∈ state.1.entries) :
    recorded ∈ (insertRefreshed config removed storedId state candidate).1.entries ↔
      state.1.Conflicts removed candidate.2 ∨ RoomFor config state.1 recorded candidate.2 := by
  rcases insertRefreshed_turn config removed storedId h.numbered candidate hlt with
    ⟨hconflict, hsame⟩ | ⟨hnot, hcache, -⟩
  · rw [hsame]
    exact iff_of_true hmem (Or.inl hconflict)
  rw [or_iff_right hnot, hcache]
  have hfree := h.free_of_not hnot
  have hissued : (state.1.insertLocked config candidate.2).1.issued = state.1.issued + 1 := by
    rw [insertLocked, replaceVariant_of_free hfree]
  rw [hcache, hissued] at hlt
  exact mem_insertLocked_iff_room h.numbered hlt hfree hmem

/-- Entries with ids that were handed out before a turn were there before it. -/
theorem Turning.mem_of_old {removed : List ℕ} {state : ResponseCache × Option CachedResponse}
    (h : Turning config cache removed state) {storedId : ℕ} {candidate : ℕ × CachedResponse}
    (hlt : (insertRefreshed config removed storedId state candidate).1.issued < 2 ^ 64)
    {e : CachedResponse} (he : e ∈ (insertRefreshed config removed storedId state candidate).1.entries)
    (hold : e.entryId ≤ state.1.issued) : e ∈ state.1.entries := by
  rcases insertRefreshed_cases config removed storedId state candidate with hsame | hinserted
  · rwa [hsame] at he
  · rw [hinserted] at he hlt
    by_contra hnew
    obtain ⟨-, heq, hid⟩ := h.numbered.insertLocked_result hlt he hnew
    rw [heq] at hold
    change state.1.insertedId ≤ state.1.issued at hold
    omega

theorem issued_le_refreshState (config : ResponseCacheConfig) (cache : ResponseCache)
    (v : Validation) (stored : CachedResponse) (ids : List ℕ)
    (done later : List (ℕ × CachedResponse)) :
    (refreshState config cache v stored ids done).1.issued ≤
      (refreshState config cache v stored ids (done ++ later)).1.issued := by
  rw [refreshState, refreshState, List.foldl_append]
  exact issued_le_insertRefreshed config _ _ _ later

section

variable (h : Numbered cache)

include h

theorem turning_start (v : Validation) (ids : List ℕ) :
    Turning config cache ((cache.selected v ids).map CachedResponse.entryId)
      (cache.withoutSelected v ids, none) := by
  refine ⟨h.of_sublist List.filter_sublist rfl rfl, le_rfl, fun e he => ?_, nofun, nofun⟩
  simpa using (List.mem_filter.mp he).2

theorem removed_le (v : Validation) (ids : List ℕ) :
    ∀ id ∈ (cache.selected v ids).map CachedResponse.entryId, id ≤ cache.issued := by
  intro id hid
  obtain ⟨e, he, rfl⟩ := List.mem_map.mp hid
  exact (h.bounds e (mem_selected he).1).2

theorem turning_refreshState {done : List (ℕ × CachedResponse)}
    (hlt : (refreshState config cache v stored ids done).1.issued < 2 ^ 64) :
    Turning config cache ((cache.selected v ids).map CachedResponse.entryId)
      (refreshState config cache v stored ids done) := by
  induction done using List.reverseRecOn with
  | nil => exact turning_start h v ids
  | append_singleton done candidate ih =>
    have hle := issued_le_refreshState config cache v stored ids done [candidate]
    rw [refreshState_snoc] at hlt hle ⊢
    exact (ih (by omega)).turn (removed_le h v ids) stored.entryId candidate hlt

/-- A property that every turn keeps is kept by the rest of the loop. -/
theorem refreshState_keeps {Q : ResponseCache × Option CachedResponse → Prop}
    {done later : List (ℕ × CachedResponse)}
    (hlt : (refreshState config cache v stored ids (done ++ later)).1.issued < 2 ^ 64)
    (hstart : Q (refreshState config cache v stored ids done))
    (hturn : ∀ candidate ∈ later, ∀ state,
      Turning config cache ((cache.selected v ids).map CachedResponse.entryId) state →
      (insertRefreshed config ((cache.selected v ids).map CachedResponse.entryId) stored.entryId
        state candidate).1.issued < 2 ^ 64 → Q state →
      Q (insertRefreshed config ((cache.selected v ids).map CachedResponse.entryId) stored.entryId
        state candidate)) :
    Q (refreshState config cache v stored ids (done ++ later)) := by
  induction later using List.reverseRecOn with
  | nil =>
    rw [List.append_nil]
    exact hstart
  | append_singleton later candidate ih =>
    have hle := issued_le_refreshState config cache v stored ids (done ++ later) [candidate]
    rw [← List.append_assoc] at hlt ⊢
    rw [refreshState_snoc] at hlt hle ⊢
    have hbefore := ih (by omega) fun c hc => hturn c (List.mem_append_left _ hc)
    exact hturn candidate (by simp) _ (turning_refreshState h (by omega)) hlt hbefore

/-- Once an entry is recorded something stays recorded. -/
theorem recorded_stays {done later : List (ℕ × CachedResponse)}
    (hlt : (refreshState config cache v stored ids (done ++ later)).1.issued < 2 ^ 64)
    (hsome : (refreshState config cache v stored ids done).2 ≠ none) :
    (refreshState config cache v stored ids (done ++ later)).2 ≠ none := by
  refine refreshState_keeps h (Q := fun state => state.2 ≠ none) hlt hsome ?_
  intro candidate _ state hturning hturn hrecorded
  rcases insertRefreshed_turn config _ stored.entryId hturning.numbered candidate hturn with
    ⟨-, hsame⟩ | ⟨-, -, ⟨hsame, -⟩ | ⟨-, hthis, -⟩⟩
  · rwa [hsame]
  · rwa [hsame]
  · rw [hthis]
    exact Option.some_ne_none _

/-- Only the candidate for the stored response is recorded. -/
theorem recorded_eq {done later : List (ℕ × CachedResponse)}
    (hlt : (refreshState config cache v stored ids (done ++ later)).1.issued < 2 ^ 64)
    (hlater : ∀ candidate ∈ later, candidate.1 ≠ stored.entryId) :
    (refreshState config cache v stored ids (done ++ later)).2 =
      (refreshState config cache v stored ids done).2 := by
  refine refreshState_keeps h (Q := fun state =>
    state.2 = (refreshState config cache v stored ids done).2) hlt rfl ?_
  intro candidate hcandidate state hturning hturn hrecorded
  rcases insertRefreshed_turn config _ stored.entryId hturning.numbered candidate hturn with
    ⟨-, hsame⟩ | ⟨-, -, ⟨hsame, -⟩ | ⟨hthis, -⟩⟩
  · rwa [hsame]
  · rwa [hsame]
  · exact absurd hthis (hlater candidate hcandidate)

/-- Something is recorded only behind the candidate for the stored response. -/
theorem exists_of_recorded {done : List (ℕ × CachedResponse)}
    (hlt : (refreshState config cache v stored ids done).1.issued < 2 ^ 64)
    (hsome : (refreshState config cache v stored ids done).2 ≠ none) :
    ∃ candidate ∈ done, candidate.1 = stored.entryId := by
  by_contra hnone
  push Not at hnone
  rw [← List.nil_append done] at hlt hsome
  rw [recorded_eq h hlt hnone] at hsome
  exact hsome rfl

/-- An entry whose id is older and that is gone does not come back. -/
theorem gone_stays {done later : List (ℕ × CachedResponse)}
    (hlt : (refreshState config cache v stored ids (done ++ later)).1.issued < 2 ^ 64) {entryId : ℕ}
    (hold : entryId ≤ (refreshState config cache v stored ids done).1.issued)
    (hgone : ∀ e ∈ (refreshState config cache v stored ids done).1.entries, e.entryId ≠ entryId) :
    ∀ e ∈ (refreshState config cache v stored ids (done ++ later)).1.entries,
      e.entryId ≠ entryId := by
  refine (refreshState_keeps h (Q := fun state => entryId ≤ state.1.issued ∧
    ∀ e ∈ state.1.entries, e.entryId ≠ entryId) hlt ⟨hold, hgone⟩ ?_).2
  intro candidate _ state hturning hturn ⟨hle, hnone⟩
  refine ⟨?_, fun e he hid => ?_⟩
  · exact hle.trans (issued_le_insertRefreshed config _ _ state [candidate])
  · exact hnone e (hturning.mem_of_old hturn he (hid.trans_le hle)) hid

/-- With room at every turn the recorded entry is in the cache. -/
theorem mem_of_recorded
    (hroom : ∀ done candidate later,
      refreshCandidates config cache v request ids = done ++ candidate :: later →
      ∀ recorded, (refreshState config cache v stored ids done).2 = some recorded →
        recorded ∈ (refreshState config cache v stored ids done).1.entries →
        (refreshState config cache v stored ids done).1.Conflicts
            ((cache.selected v ids).map CachedResponse.entryId) candidate.2 ∨
          RoomFor config (refreshState config cache v stored ids done).1 recorded candidate.2)
    {done later : List (ℕ × CachedResponse)}
    (hcandidates : refreshCandidates config cache v request ids = done ++ later)
    (hlt : (refreshState config cache v stored ids done).1.issued < 2 ^ 64)
    {recorded : CachedResponse}
    (hrecorded : (refreshState config cache v stored ids done).2 = some recorded) :
    recorded ∈ (refreshState config cache v stored ids done).1.entries := by
  induction done using List.reverseRecOn generalizing later recorded with
  | nil => cases hrecorded
  | append_singleton done candidate ih =>
    have hle := issued_le_refreshState config cache v stored ids done [candidate]
    rw [List.append_assoc] at hcandidates
    have hbefore := fun recorded => @ih (candidate :: later) hcandidates (by omega) recorded
    have hturning := turning_refreshState h
      (by omega : (refreshState config cache v stored ids done).1.issued < 2 ^ 64)
    rw [refreshState_snoc] at hlt hrecorded ⊢
    rcases insertRefreshed_turn config _ stored.entryId hturning.numbered candidate hlt with
      ⟨-, hsame⟩ | ⟨-, hcache, ⟨hsame, -⟩ | ⟨-, hthis, hmem⟩⟩
    · rw [hsame] at hrecorded ⊢
      exact hbefore recorded hrecorded
    · rw [hsame] at hrecorded
      exact (hturning.mem_turn_iff hlt (hbefore recorded hrecorded)).mpr
        (hroom done candidate later hcandidates recorded hrecorded (hbefore recorded hrecorded))
    · rw [hthis] at hrecorded
      obtain rfl := Option.some.inj hrecorded
      rwa [hcache]

theorem nodup_refreshCandidates (config : ResponseCacheConfig) (v : Validation)
    (request : CacheRequest) (ids : List ℕ) :
    ((refreshCandidates config cache v request ids).map Prod.fst).Nodup := by
  have hsub : ∀ entries : List CachedResponse,
      ((entries.filterMap fun entry => (refreshed config v request entry).map fun response =>
        (entry.entryId, response)).map Prod.fst).Sublist (entries.map CachedResponse.entryId) := by
    intro entries
    induction entries with
    | nil => exact List.Sublist.refl _
    | cons entry entries ih =>
      cases hfresh : refreshed config v request entry with
      | none =>
        rw [List.filterMap_cons_none (by rw [hfresh]; rfl)]
        exact ih.cons _
      | some fresh =>
        rw [List.filterMap_cons_some (b := (entry.entryId, fresh)) (by rw [hfresh]; rfl)]
        exact ih.cons_cons _
  refine List.Nodup.sublist (hsub _) ?_
  unfold selected
  dsimp only
  split_ifs
  · cases List.foldl _ _ _ <;> simp
  · exact h.nodup.sublist (List.filter_sublist.map _)

/-- Without room at some turn the entry that ends up recorded is gone. -/
theorem gone_of_no_room {done later : List (ℕ × CachedResponse)} {candidate : ℕ × CachedResponse}
    (hcandidates : refreshCandidates config cache v request ids = done ++ candidate :: later)
    (hlt : (refreshState config cache v stored ids (done ++ candidate :: later)).1.issued < 2 ^ 64)
    {recorded : CachedResponse}
    (hrecorded : (refreshState config cache v stored ids done).2 = some recorded)
    (hno : ¬ ((refreshState config cache v stored ids done).1.Conflicts
          ((cache.selected v ids).map CachedResponse.entryId) candidate.2 ∨
        RoomFor config (refreshState config cache v stored ids done).1 recorded candidate.2)) :
    (refreshState config cache v stored ids (done ++ candidate :: later)).2 = some recorded ∧
      ∀ e ∈ (refreshState config cache v stored ids (done ++ candidate :: later)).1.entries,
        e.entryId ≠ recorded.entryId := by
  have happend : done ++ candidate :: later = (done ++ [candidate]) ++ later := by simp
  have hle := issued_le_refreshState config cache v stored ids (done ++ [candidate]) later
  have hle' := issued_le_refreshState config cache v stored ids done [candidate]
  rw [happend] at hlt
  have hdone : (refreshState config cache v stored ids done).1.issued < 2 ^ 64 := by omega
  have hturning := turning_refreshState h hdone
  have hnext := turning_refreshState h
    (by omega : (refreshState config cache v stored ids (done ++ [candidate])).1.issued < 2 ^ 64)
  -- the stored response comes before this candidate, so nothing else is recorded
  have hothers : ∀ other ∈ candidate :: later, other.1 ≠ stored.entryId := by
    obtain ⟨first, hfirst, hid⟩ := exists_of_recorded h hdone
      (by rw [hrecorded]; exact Option.some_ne_none _)
    have hnodup := nodup_refreshCandidates h config v request ids
    rw [hcandidates, List.map_append, List.nodup_append] at hnodup
    intro other hother heq
    exact hnodup.2.2 _ (List.mem_map_of_mem hfirst) _ (List.mem_map_of_mem hother)
      (hid.trans heq.symm)
  have hstays : (refreshState config cache v stored ids (done ++ [candidate])).2 = some recorded :=
    (recorded_eq h (by omega) fun c hc => by
      rw [List.mem_singleton.mp hc]
      exact hothers candidate List.mem_cons_self).trans hrecorded
  have hnotMem :
      recorded ∉ (refreshState config cache v stored ids (done ++ [candidate])).1.entries := by
    intro hmem
    rw [refreshState_snoc] at hmem hle hnext
    by_cases hbefore : recorded ∈ (refreshState config cache v stored ids done).1.entries
    · exact hno ((hturning.mem_turn_iff (by omega) hbefore).mp hmem)
    · exact hbefore (hturning.mem_of_old (by omega) hmem (hturning.old recorded hrecorded))
  have hgone : ∀ e ∈ (refreshState config cache v stored ids (done ++ [candidate])).1.entries,
      e.entryId ≠ recorded.entryId := by
    intro e he hid
    exact hnotMem (hnext.recorded recorded hstays e he hid ▸ he)
  rw [happend]
  refine ⟨?_, gone_stays h hlt (hnext.old recorded hstays) hgone⟩
  exact (recorded_eq h hlt fun c hc => hothers c (List.mem_cons_of_mem _ hc)).trans hstays

/-- What has an id from before is from before. -/
theorem mem_of_old_refreshState {done later : List (ℕ × CachedResponse)}
    (hlt : (refreshState config cache v stored ids (done ++ later)).1.issued < 2 ^ 64)
    {e : CachedResponse}
    (he : e ∈ (refreshState config cache v stored ids (done ++ later)).1.entries)
    (hold : e.entryId ≤ (refreshState config cache v stored ids done).1.issued) :
    e ∈ (refreshState config cache v stored ids done).1.entries := by
  refine (refreshState_keeps h (Q := fun state =>
    (refreshState config cache v stored ids done).1.issued ≤ state.1.issued ∧
      ∀ e ∈ state.1.entries,
        e.entryId ≤ (refreshState config cache v stored ids done).1.issued →
          e ∈ (refreshState config cache v stored ids done).1.entries)
    hlt ⟨le_rfl, fun _ he _ => he⟩ ?_).2 e he hold
  intro candidate _ state hturning hturn ⟨hle, hmem⟩
  refine ⟨?_, fun e he hid => ?_⟩
  · exact hle.trans (issued_le_insertRefreshed config _ _ state [candidate])
  · exact hmem e (hturning.mem_of_old hturn he (hid.trans hle)) hid

/-- An entry that got its id in the turn for the stored response and is still
there at the end has been recorded. -/
theorem recorded_of_refreshedFor {e : CachedResponse}
    (hlt : (refreshState config cache v stored ids
      (refreshCandidates config cache v request ids)).1.issued < 2 ^ 64)
    (he : e ∈ (refreshState config cache v stored ids
      (refreshCandidates config cache v request ids)).1.entries)
    (hfor : RefreshedFor config cache v stored request ids e) :
    (refreshState config cache v stored ids (refreshCandidates config cache v request ids)).2 ≠
      none := by
  obtain ⟨done, fresh, later, hcandidates, hnew, hold⟩ := hfor
  have happend : done ++ (stored.entryId, fresh) :: later =
      (done ++ [(stored.entryId, fresh)]) ++ later := by simp
  rw [hcandidates, happend] at hlt he ⊢
  have hle := issued_le_refreshState config cache v stored ids
    (done ++ [(stored.entryId, fresh)]) later
  have hle' := issued_le_refreshState config cache v stored ids done [(stored.entryId, fresh)]
  have hdone : (refreshState config cache v stored ids done).1.issued < 2 ^ 64 := by omega
  have hnext : (refreshState config cache v stored ids
      (done ++ [(stored.entryId, fresh)])).1.issued < 2 ^ 64 := by omega
  have hturning := turning_refreshState h hdone
  have hmem := mem_of_old_refreshState h hlt he hold
  have hnotMem : e ∉ (refreshState config cache v stored ids done).1.entries := by
    intro hbefore
    have := (hturning.numbered.bounds e hbefore).2
    omega
  refine recorded_stays h hlt ?_
  rw [refreshState_snoc] at hnext hmem ⊢
  rcases insertRefreshed_turn config _ stored.entryId hturning.numbered _ hnext with
    ⟨-, hsame⟩ | ⟨-, hcache, ⟨-, hnone⟩ | ⟨-, hthis, -⟩⟩
  · rw [hsame] at hmem
    exact absurd hmem hnotMem
  · rw [hcache] at hmem hnext
    obtain ⟨hinserted, -⟩ := hturning.numbered.insertLocked_result hnext hmem hnotMem
    rw [hnone rfl] at hinserted
    cases hinserted
  · rw [hthis]
    exact Option.some_ne_none _

end

/-- The report of a merge is true of the cache it leaves exactly when every entry that its
loop inserts behind the reported one leaves room for that. -/
theorem reportsTruly_iff_leavesRoom (h : Numbered cache) (snapshot : List ℕ)
    (hlt : (cache.merge304 config stored request v snapshot).1.issued < 2 ^ 64) :
    ReportsTruly config cache v stored request snapshot ↔
      (RefreshRuns config cache v stored request snapshot →
        LeavesRoom config cache v stored request (mergeCandidates stored snapshot)) := by
  unfold ReportsTruly
  rcases @merge304_refreshes config cache v stored request snapshot with
    ⟨hruns, hcache, delivery, hresult⟩ | ⟨hnot, hcache, hnone⟩
  · rw [hcache, refresh_eq] at hlt
    rw [hcache, hresult, refresh_eq]
    constructor
    · intro hreport _ done candidate later hcandidates recorded hrecorded
      by_contra hno
      rw [hcandidates] at hlt
      obtain ⟨hfinal, hgone⟩ := gone_of_no_room h hcandidates hlt hrecorded hno
      rw [← hcandidates] at hfinal hgone
      obtain ⟨e, he, hid, -⟩ := (hreport _ rfl).retained recorded hfinal
      exact hgone e he hid
    · intro hroom result heq
      obtain rfl := Option.some.inj heq
      refine ⟨fun recorded hrecorded => ?_, fun hnothing e he hfor => ?_⟩
      · have hmem := mem_of_recorded h (fun done candidate later hsplit recorded hstate _ =>
          hroom hruns done candidate later hsplit recorded hstate) (List.append_nil _).symm hlt
          hrecorded
        exact ⟨recorded, hmem, rfl, rfl, rfl⟩
      · exact recorded_of_refreshedFor h hlt he hfor hnothing
  · refine iff_of_true (fun result heq => ?_) fun hruns => absurd hruns hnot
    rw [hcache]
    refine ⟨fun candidate hcandidate => ?_, fun _ e he hfor => ?_⟩
    · rw [hnone result heq] at hcandidate
      cases hcandidate
    · obtain ⟨done, fresh, later, -, hnew, -⟩ := hfor
      have hbound := (h.bounds e he).2
      have hstart := issued_le_refreshState config cache v stored
        (mergeCandidates stored snapshot) [] done
      change cache.issued ≤ _ at hstart
      rw [List.nil_append] at hstart
      omega

end ResponseCache

end KatHttp3
