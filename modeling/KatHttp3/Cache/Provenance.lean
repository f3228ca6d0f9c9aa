import KatHttp3.Cache.Runs

/-!
# Where a looked-up response comes from

Every entry has a history: a successful store put its body in, 304 responses
may have renewed its metadata since, and no invalidation has met it on the way.
-/

namespace KatHttp3

open Str ResponseCache

variable (config : ResponseCacheConfig)

/-- The operation is not an invalidation that covers the entry. -/
def Survives (e : CachedResponse) : CacheOp → Prop
  | .invalidate url => e.url ≠ url
  | .invalidateEntry entryId => e.entryId ≠ entryId
  | .clear => False
  | _ => True

/-- The ids a lookup stands for when its 304 is merged. -/
def CacheLookup.mergeIds (l : CacheLookup) : List ℕ :=
  match l.response with
  | none => []
  | some stored => if l.validationCandidateIds = [] then [stored.entryId] else l.validationCandidateIds

/-- A successful store put this entry into the cache. -/
def Stores (s : CacheRun) (request : CacheRequest) (response : Response) (sent : Option ℕ)
    (now : ClockReading) (e : CachedResponse) : Prop :=
  (s.cache.store config request response sent now).2 = true ∧
    ∃ cached, makeCachedResponse config request response.statusCode response.headers response.body
      sent now true = some cached ∧ e = cached.withId s.cache.insertedId

/-- The merge of a 304 for this request turned the entry `old` into `e`. -/
def Refreshes (s : CacheRun) (earlier : ℕ) (v : Validation) (request : CacheRequest)
    (old e : CachedResponse) : Prop :=
  ∃ l, s.lookups[earlier]? = some (request, l) ∧ old ∈ s.cache.entries ∧
    old.entryId ∈ l.mergeIds ∧
    ∃ fresh, refreshed config v request old = some fresh ∧ e = fresh.withId e.entryId

/-- From a state that holds `first`, the operations lead to a state that holds
`last`: the same entry, or what merged 304 responses made of it. -/
inductive EntryHistory : CacheRun → CachedResponse → List CacheOp → CachedResponse → Prop
  | here {s e} : e ∈ s.cache.entries → EntryHistory s e [] e
  | kept {s e op ops last} : e ∈ s.cache.entries → Survives e op →
      EntryHistory (s.step config op) e ops last → EntryHistory s e (op :: ops) last
  | refreshed {s e earlier v request next ops last} : e ∈ s.cache.entries →
      Refreshes config s earlier v request e next →
      EntryHistory (s.step config (.merge304 earlier v)) next ops last →
      EntryHistory s e (.merge304 earlier v :: ops) last

/-- The entry is what the cache makes of its own headers and body for this
request and these clock readings. -/
def BuiltFrom (request : CacheRequest) (sent : Option ℕ) (now : ClockReading)
    (e : CachedResponse) : Prop :=
  e = (buildCachedResponse config request e.statusCode e.headers e.body sent now).withId e.entryId ∧
    cacheable e.headers now = true

/-- The operation is a store or a 304 for this request. -/
def WritesFor (s : CacheRun) (request : CacheRequest) (sent : Option ℕ) (now : ClockReading) :
    CacheOp → Prop
  | .store request' _ sent' now' => request' = request ∧ sent' = sent ∧ now' = now
  | .merge304 earlier v =>
    (∃ l, s.lookups[earlier]? = some (request, l)) ∧ v.requestWallSeconds = sent ∧ v.now = now
  | _ => False

/-- The last write of an entry: a store or a 304 for the request, after which the
entry has been in the cache as it is. -/
def LastWrite (ops : List CacheOp) (e : CachedResponse) (request : CacheRequest)
    (sent : Option ℕ) (now : ClockReading) : Prop :=
  ∃ before op later, ops = before ++ op :: later ∧
    WritesFor (CacheRun.after config before) request sent now op ∧ BuiltFrom config request sent now e ∧
    ∀ l, l <+: later → e ∈ (CacheRun.after config (before ++ op :: l)).cache.entries

/-- The store an entry's body comes from, and the history since. -/
def StoredBy (ops : List CacheOp) (e : CachedResponse) (before : List CacheOp)
    (request : CacheRequest) (response : Response) (sent : Option ℕ) (now : ClockReading)
    (later : List CacheOp) : Prop :=
  ops = before ++ .store request response sent now :: later ∧
    e.body = response.body ∧ e.url = request.url ∧
    (∀ op ∈ later, op ≠ .clear ∧ op ≠ .invalidate request.url) ∧
    ∃ first, Stores config (CacheRun.after config before) request response sent now first ∧
      EntryHistory config (CacheRun.after config (before ++ [.store request response sent now])) first
        later e

/-! ### Histories -/

namespace EntryHistory

variable {config} {s : CacheRun} {first last next : CachedResponse} {ops : List CacheOp}

theorem snoc_kept {op : CacheOp} (h : EntryHistory config s first ops last)
    (hs : Survives last op)
    (hmem : last ∈ ((ops ++ [op]).foldl (CacheRun.step config) s).cache.entries) :
    EntryHistory config s first (ops ++ [op]) last := by
  induction h with
  | here h => exact .kept h hs (.here hmem)
  | kept he hse _ ih => exact .kept he hse (ih hs hmem)
  | refreshed he hr _ ih => exact .refreshed he hr (ih hs hmem)

theorem snoc_refreshed (request : CacheRequest) {earlier : ℕ} {v : Validation}
    (h : EntryHistory config s first ops last)
    (hr : Refreshes config (ops.foldl (CacheRun.step config) s) earlier v request last next)
    (hmem : next ∈ ((ops ++ [CacheOp.merge304 earlier v]).foldl (CacheRun.step config) s).cache.entries) :
    EntryHistory config s first (ops ++ [.merge304 earlier v]) next := by
  induction h with
  | here h => exact .refreshed h hr (.here hmem)
  | kept he hse _ ih => exact .kept he hse (ih hr hmem)
  | refreshed he hr' _ ih => exact .refreshed he hr' (ih hr hmem)

end EntryHistory

/-! ### The invariant of a run -/

/-- Numbered entries, and recorded ids that still mean entries for the request. -/
structure CacheRun.Inv (s : CacheRun) : Prop where
  numbered : Numbered s.cache
  lookups : ∀ p ∈ s.lookups, ∀ id ∈ p.2.mergeIds, id ≤ s.cache.issued ∧
    ∀ e ∈ s.cache.entries, e.entryId = id →
      e.url = p.1.url ∧ varyMatches e p.1.headers = true

theorem CacheRun.step_merge304 (s : CacheRun) (earlier : ℕ) (v : Validation) :
    s.step config (.merge304 earlier v) = s ∨
      ∃ request l stored, s.lookups[earlier]? = some (request, l) ∧ l.response = some stored ∧
        s.step config (.merge304 earlier v) =
          { s with
            cache := (s.cache.merge304 config stored request v l.validationCandidateIds).1 } := by
  cases h : s.lookups[earlier]? with
  | none =>
    left
    simp only [CacheRun.step, h]
  | some p =>
    obtain ⟨request, state, response, ids⟩ := p
    cases response with
    | none =>
      left
      simp only [CacheRun.step, h]
    | some stored =>
      right
      exact ⟨request, _, stored, rfl, rfl, by simp only [CacheRun.step, h]⟩

theorem CacheRun.issued_le_step (s : CacheRun) (op : CacheOp) :
    s.cache.issued ≤ (s.step config op).cache.issued := by
  cases op with
  | store request response sent now => exact issued_le_store request response sent now
  | lookup request now => exact (lookup_perm s.cache request now).2.2.ge
  | merge304 earlier v =>
    rcases s.step_merge304 config earlier v with h | ⟨request, l, stored, -, -, h⟩
    · rw [h]
    · rw [h]
      exact issued_le_merge304 stored request v l.validationCandidateIds
  | invalidate url => exact le_rfl
  | invalidateEntry entryId => exact (invalidateEntry_sublist s.cache entryId).2.2.ge
  | clear => exact le_rfl

/-- What one operation can do to the entries. -/
theorem CacheRun.Inv.mem_step {config : ResponseCacheConfig} {s : CacheRun} (h : s.Inv)
    {op : CacheOp} (hlt : (s.step config op).cache.issued < 2 ^ 64) {e : CachedResponse}
    (he : e ∈ (s.step config op).cache.entries) :
    (e ∈ s.cache.entries ∧ Survives e op) ∨
      (∃ request response sent now, op = .store request response sent now ∧
        Stores config s request response sent now e ∧ e.entryId = s.cache.issued + 1) ∨
      ∃ earlier v request old, op = .merge304 earlier v ∧
        Refreshes config s earlier v request old e ∧ s.cache.issued < e.entryId := by
  cases op with
  | store request response sent now =>
    by_cases hold : e ∈ s.cache.entries
    · exact Or.inl ⟨hold, trivial⟩
    · refine Or.inr (Or.inl ⟨request, response, sent, now, rfl, ?_⟩)
      change (s.cache.store config request response sent now).1.issued < _ at hlt
      change e ∈ (s.cache.store config request response sent now).1.entries at he
      rcases store_cases config s.cache request response sent now with
        heq | ⟨cached, hmade, heq⟩
      · rw [heq] at he
        exact absurd he hold
      · rw [heq] at he hlt
        obtain ⟨hres, hwith, hid⟩ := h.numbered.insertLocked_result hlt he hold
        refine ⟨⟨?_, cached, hmade, hwith⟩, ?_⟩
        · rw [heq, hres]
          rfl
        · rw [hwith]
          exact hid
  | lookup request now =>
    exact Or.inl ⟨(lookup_perm s.cache request now).1.subset he, trivial⟩
  | merge304 earlier v =>
    rcases s.step_merge304 config earlier v with hstep | ⟨request, l, stored, hl, hstored, hstep⟩
    · rw [hstep] at he
      exact Or.inl ⟨he, trivial⟩
    · rw [hstep] at he hlt
      rcases merge304_cases config s.cache stored request v
        l.validationCandidateIds with heq | heq
      · simp only [heq] at he
        exact Or.inl ⟨he, trivial⟩
      · simp only [heq] at he hlt
        rcases (refresh_spec h.numbered v stored request _ hlt).entries e he with
          hold | ⟨old, hsel, fresh, hfresh, hwith, hid⟩
        · exact Or.inl ⟨hold, trivial⟩
        · obtain ⟨hmem, hids⟩ := mem_selected hsel
          refine Or.inr (Or.inr ⟨earlier, v, request, old, rfl,
            ⟨l, hl, hmem, ?_, fresh, hfresh, hwith⟩, hid⟩)
          rw [CacheLookup.mergeIds, hstored]
          exact hids
  | invalidate url =>
    obtain ⟨hmem, hurl⟩ := mem_invalidate.mp he
    exact Or.inl ⟨hmem, hurl⟩
  | invalidateEntry entryId =>
    exact Or.inl ⟨(invalidateEntry_sublist s.cache entryId).1.subset he,
      h.numbered.entryId_ne_of_mem_invalidateEntry he⟩
  | clear => cases he

theorem CacheRun.Inv.numbered_step {config : ResponseCacheConfig} {s : CacheRun} (h : s.Inv)
    {op : CacheOp} (hlt : (s.step config op).cache.issued < 2 ^ 64) :
    Numbered (s.step config op).cache := by
  cases op with
  | store request response sent now =>
    change (s.cache.store config request response sent now).1.issued < _ at hlt
    change Numbered (s.cache.store config request response sent now).1
    rcases store_cases config s.cache request response sent now with
      heq | ⟨cached, -, heq⟩
    · rw [heq]
      exact h.numbered
    · rw [heq] at hlt ⊢
      exact h.numbered.insertLocked cached hlt
  | lookup request now =>
    obtain ⟨hperm, hnext, hissued⟩ := lookup_perm s.cache request now
    exact h.numbered.of_perm hperm hnext hissued
  | merge304 earlier v =>
    rcases s.step_merge304 config earlier v with hstep | ⟨request, l, stored, -, -, hstep⟩
    · rw [hstep]
      exact h.numbered
    · rw [hstep] at hlt ⊢
      rcases merge304_cases config s.cache stored request v
        l.validationCandidateIds with heq | heq
      · simp only [heq]
        exact h.numbered
      · simp only [heq] at hlt ⊢
        exact (refresh_spec h.numbered v stored request _ hlt).numbered
  | invalidate url => exact h.numbered.of_sublist List.filter_sublist rfl rfl
  | invalidateEntry entryId =>
    obtain ⟨hsub, hnext, hissued⟩ := invalidateEntry_sublist s.cache entryId
    exact h.numbered.of_sublist hsub hnext hissued
  | clear => exact h.numbered.of_sublist (List.nil_sublist _) rfl rfl

/-- The ids a lookup returns belong to entries for what it asked for. -/
theorem matches_of_mem_mergeIds {cache : ResponseCache} (h : Numbered cache)
    {request : CacheRequest} {now : ClockReading} {id : ℕ}
    (hid : id ∈ (cache.lookup request now).2.mergeIds) :
    id ≤ cache.issued ∧ ∀ e ∈ cache.entries, e.entryId = id →
      e.url = request.url ∧ varyMatches e request.headers = true := by
  have key : ∀ found ∈ cache.entries,
      found.url = request.url ∧ varyMatches found request.headers = true →
      found.entryId = id → id ≤ cache.issued ∧ ∀ e ∈ cache.entries, e.entryId = id →
        e.url = request.url ∧ varyMatches e request.headers = true := by
    intro found hmem hmatches hfound
    refine ⟨hfound ▸ (h.bounds found hmem).2, fun e he heid => ?_⟩
    rw [List.inj_on_of_nodup_map h.nodup he hmem (heid.trans hfound.symm)]
    exact hmatches
  rcases lookup_cases cache request now with heq | ⟨i, best, hf⟩
  · rw [heq] at hid
    cases hid
  · have hbest : best ∈ cache.entries := List.mem_of_getElem? hf.position
    rw [CacheLookup.mergeIds, hf.response] at hid
    simp only at hid
    split_ifs at hid with hnil
    · exact key best hbest ⟨hf.url, hf.vary⟩ (List.mem_singleton.mp hid).symm
    · rw [hf.ids.resolve_left hnil] at hid
      obtain ⟨found, hfilter, hfound⟩ := List.mem_map.mp hid
      obtain ⟨hmem, hcond⟩ := List.mem_filter.mp hfilter
      rw [Bool.and_eq_true, beq_iff_eq] at hcond
      exact key found hmem hcond hfound

theorem CacheRun.Inv.step {config : ResponseCacheConfig} {s : CacheRun} (h : s.Inv) {op : CacheOp}
    (hlt : (s.step config op).cache.issued < 2 ^ 64) : (s.step config op).Inv where
  numbered := h.numbered_step hlt
  lookups p hp id hid := by
    have hle := s.issued_le_step config op
    -- entries that are new carry ids no earlier lookup can have seen
    have hkeep : (id ≤ s.cache.issued ∧ ∀ e ∈ s.cache.entries, e.entryId = id →
          e.url = p.1.url ∧ varyMatches e p.1.headers = true) →
        id ≤ (s.step config op).cache.issued ∧
          ∀ e ∈ (s.step config op).cache.entries, e.entryId = id →
            e.url = p.1.url ∧ varyMatches e p.1.headers = true := by
      rintro ⟨hissued, hurl⟩
      refine ⟨hissued.trans hle, fun e he heid => ?_⟩
      rcases h.mem_step hlt he with ⟨hold, -⟩ | ⟨_, _, _, _, -, -, hnew⟩ | ⟨_, _, _, _, -, -, hnew⟩
      · exact hurl e hold heid
      · omega
      · omega
    cases op with
    | lookup request now =>
      rcases List.mem_append.mp hp with hp | hp
      · exact hkeep (h.lookups p hp id hid)
      · obtain rfl := List.mem_singleton.mp hp
        exact hkeep (matches_of_mem_mergeIds h.numbered hid)
    | merge304 earlier v =>
      rcases s.step_merge304 config earlier v with hstep | ⟨request, l, stored, -, -, hstep⟩
      · rw [hstep] at hp
        exact hkeep (h.lookups p hp id hid)
      · rw [hstep] at hp
        exact hkeep (h.lookups p hp id hid)
    | store request response sent now => exact hkeep (h.lookups p hp id hid)
    | invalidate url => exact hkeep (h.lookups p hp id hid)
    | invalidateEntry entryId => exact hkeep (h.lookups p hp id hid)
    | clear => exact hkeep (h.lookups p hp id hid)

theorem CacheRun.issued_le_after (ops later : List CacheOp) :
    (CacheRun.after config ops).cache.issued ≤
      (CacheRun.after config (ops ++ later)).cache.issued := by
  induction later using List.reverseRecOn with
  | nil => rw [List.append_nil]
  | append_singleton later op ih =>
    rw [← List.append_assoc, CacheRun.after_snoc]
    exact ih.trans (CacheRun.issued_le_step config _ op)

theorem CacheRun.inv_after {ops : List CacheOp}
    (hlt : (CacheRun.after config ops).cache.issued < 2 ^ 64) : (CacheRun.after config ops).Inv := by
  induction ops using List.reverseRecOn with
  | nil => exact ⟨Numbered.empty, by simp⟩
  | append_singleton ops op ih =>
    have hle := CacheRun.issued_le_after config ops [op]
    rw [CacheRun.after_snoc] at hlt hle ⊢
    exact (ih (by omega)).step hlt

/-! ### Every entry has a history -/

section

variable {config}

theorem CacheRun.after_append (ops later : List CacheOp) :
    CacheRun.after config (ops ++ later) =
      later.foldl (CacheRun.step config) (CacheRun.after config ops) := by
  simp [CacheRun.after]

theorem Stores.builtFrom {s : CacheRun} {request : CacheRequest} {response : Response}
    {sent : Option ℕ} {now : ClockReading} {e : CachedResponse}
    (h : Stores config s request response sent now e) :
    BuiltFrom config request sent now e ∧ e.body = response.body ∧ e.url = request.url := by
  obtain ⟨-, cached, hmade, rfl⟩ := h
  obtain ⟨rfl, -, -, hcacheable⟩ := makeCachedResponse_eq_some hmade
  exact ⟨⟨rfl, hcacheable rfl⟩, rfl, rfl⟩

theorem Refreshes.builtFrom {s : CacheRun} {earlier : ℕ} {v : Validation} {request : CacheRequest}
    {old e : CachedResponse} (h : Refreshes config s earlier v request old e) :
    BuiltFrom config request v.requestWallSeconds v.now e ∧ e.body = old.body ∧
      e.url = request.url := by
  obtain ⟨l, -, -, -, fresh, hfresh, hwith⟩ := h
  unfold refreshed at hfresh
  split_ifs at hfresh
  obtain ⟨rfl, -, -, hcacheable⟩ := makeCachedResponse_eq_some hfresh
  generalize e.entryId = id at hwith
  subst hwith
  exact ⟨⟨rfl, hcacheable rfl⟩, rfl, rfl⟩

theorem Refreshes.url_eq {s : CacheRun} (hs : s.Inv) {earlier : ℕ} {v : Validation}
    {request : CacheRequest} {old e : CachedResponse}
    (h : Refreshes config s earlier v request old e) : old.url = request.url := by
  obtain ⟨l, hl, hmem, hid, -⟩ := h
  exact ((hs.lookups _ (List.mem_of_getElem? hl) old.entryId hid).2 old hmem rfl).1

theorem LastWrite.of_new {ops : List CacheOp} {op : CacheOp} {e : CachedResponse}
    {request : CacheRequest} {sent : Option ℕ} {now : ClockReading}
    (hw : WritesFor (CacheRun.after config ops) request sent now op)
    (hb : BuiltFrom config request sent now e)
    (he : e ∈ (CacheRun.after config (ops ++ [op])).cache.entries) :
    LastWrite config (ops ++ [op]) e request sent now := by
  refine ⟨ops, op, [], rfl, hw, hb, fun l hl => ?_⟩
  rw [List.prefix_nil.mp hl]
  exact he

theorem LastWrite.snoc {ops : List CacheOp} {op : CacheOp} {e : CachedResponse}
    {request : CacheRequest} {sent : Option ℕ} {now : ClockReading}
    (h : LastWrite config ops e request sent now)
    (he : e ∈ (CacheRun.after config (ops ++ [op])).cache.entries) :
    LastWrite config (ops ++ [op]) e request sent now := by
  obtain ⟨before, w, later, rfl, hw, hb, hl⟩ := h
  refine ⟨before, w, later ++ [op], by simp, hw, hb, fun l hpre => ?_⟩
  rcases List.prefix_concat_iff.mp hpre with rfl | hpre
  · simpa using he
  · exact hl l hpre

theorem Survives.ne {e : CachedResponse} {op : CacheOp} {url : Str} (h : Survives e op)
    (hurl : e.url = url) : op ≠ .clear ∧ op ≠ .invalidate url := by
  constructor
  · rintro rfl
    exact h
  · rintro rfl
    exact h hurl

/-- Every entry of a run comes from a successful store and has a last write. -/
theorem exists_storedBy {ops : List CacheOp}
    (hlt : (CacheRun.after config ops).cache.issued < 2 ^ 64) {e : CachedResponse}
    (he : e ∈ (CacheRun.after config ops).cache.entries) :
    (∃ before request response sent now later,
      StoredBy config ops e before request response sent now later) ∧
    ∃ request sent now, LastWrite config ops e request sent now := by
  induction ops using List.reverseRecOn generalizing e with
  | nil => cases he
  | append_singleton ops op ih =>
    have hle := CacheRun.issued_le_after config ops [op]
    have hlt' : (CacheRun.after config ops).cache.issued < 2 ^ 64 := by omega
    have hinv := CacheRun.inv_after config hlt'
    have hsnoc : ∀ before store later, ops = before ++ store :: later →
        CacheRun.after config ops =
          later.foldl (CacheRun.step config) (CacheRun.after config (before ++ [store])) := by
      rintro before store later rfl
      rw [← CacheRun.after_append]
      simp
    have hmem := he
    rw [CacheRun.after_snoc] at hmem hlt
    rcases hinv.mem_step hlt hmem with ⟨hold, hsurvives⟩ |
        ⟨request, response, sent, now, rfl, hstores, -⟩ | ⟨earlier, v, request, old, rfl, href, -⟩
    · obtain ⟨⟨before, request, response, sent, now, later, hops, hbody, hurl, hno, first, hst,
        hist⟩, wrequest, wsent, wnow, hlast⟩ := ih hlt' hold
      refine ⟨⟨before, request, response, sent, now, later ++ [op], by rw [hops]; simp, hbody, hurl,
        ?_, first, hst, hist.snoc_kept hsurvives ?_⟩, wrequest, wsent, wnow, hlast.snoc he⟩
      · intro op' hop'
        rcases List.mem_append.mp hop' with hop' | hop'
        · exact hno op' hop'
        · obtain rfl := List.mem_singleton.mp hop'
          exact hsurvives.ne hurl
      · rw [List.foldl_append, ← hsnoc _ _ _ hops]
        exact hmem
    · obtain ⟨hbuilt, hbody, hurl⟩ := hstores.builtFrom
      exact ⟨⟨ops, request, response, sent, now, [], rfl, hbody, hurl, by simp, e, hstores,
        .here he⟩, request, sent, now, LastWrite.of_new ⟨rfl, rfl, rfl⟩ hbuilt he⟩
    · obtain ⟨hbuilt, hbody, hurl⟩ := href.builtFrom
      have holdurl := href.url_eq hinv
      have hrefreshes := href
      obtain ⟨l, hl, holdmem, -⟩ := hrefreshes
      obtain ⟨⟨before, request', response, sent, now, later, hops, hbody', hurl', hno, first, hst,
        hist⟩, -⟩ := ih hlt' holdmem
      refine ⟨⟨before, request', response, sent, now, later ++ [.merge304 earlier v],
        by rw [hops]; simp, by rw [hbody, hbody'], by rw [hurl, ← holdurl, hurl'], ?_, first, hst,
        hist.snoc_refreshed request ?_ ?_⟩, request, v.requestWallSeconds, v.now,
        LastWrite.of_new ⟨⟨l, hl⟩, rfl, rfl⟩ hbuilt he⟩
      · intro op' hop'
        rcases List.mem_append.mp hop' with hop' | hop'
        · exact hno op' hop'
        · obtain rfl := List.mem_singleton.mp hop'
          exact ⟨nofun, nofun⟩
      · rw [← hsnoc _ _ _ hops]
        exact href
      · rw [List.foldl_append, ← hsnoc _ _ _ hops]
        exact hmem

end

/-! ### Freshness -/

theorem saturatingAdd_lt {limit a b n : ℕ} (hn : n ≤ limit) (h : saturatingAdd limit a b < n) :
    a + b < n := by
  unfold saturatingAdd at h
  split_ifs at h <;> omega

theorem dateField_bounds {headers : HeaderList} {name : Str} {wall : Option ℕ} {t : ℤ}
    (h : dateField headers name wall = some t) : -2 ^ 63 ≤ t ∧ t ≤ 2 ^ 63 - 1 := by
  unfold dateField at h
  split_ifs at h
  exact parseHttpDate_bounds h

theorem freshnessLifetime_le {headers : HeaderList} {wall : Option ℕ} {lifetime : ℕ}
    (h : freshnessLifetime headers wall = some lifetime) : lifetime ≤ maxUint64 := by
  unfold freshnessLifetime at h
  simp only at h
  split at h
  · rename_i maxAge hmax
    obtain rfl := Option.some.inj h
    exact parseCacheControl_maxAge_le hmax
  · rename_i expires date _ hexpires hdate
    have he := dateField_bounds hexpires
    have hd := dateField_bounds hdate
    obtain rfl := Option.some.inj h
    unfold maxUint64
    split_ifs <;> omega
  · cases h

/-- The age of an entry at a lookup that counts as fresh. -/
theorem BuiltFrom.age_lt {config : ResponseCacheConfig} {request r : CacheRequest}
    {sent : Option ℕ} {written now : ClockReading} {e : CachedResponse}
    (h : BuiltFrom config request sent written e) (hfresh : CountsAsFresh r now e) :
    ∃ lifetime, freshnessLifetime e.headers written.wall = some lifetime ∧
      correctedInitialAge e.headers sent written.wall +
        (now.monotonic - written.monotonic) / 1000000000 < lifetime := by
  obtain ⟨hbuilt, hcacheable⟩ := h
  obtain ⟨-, hmono, -, -, -, hage⟩ := hfresh
  have hstored : e.storedAtMonotonicNs = written.monotonic := by rw [hbuilt]; rfl
  have hinitial : e.correctedInitialAgeSeconds = correctedInitialAge e.headers sent written.wall := by
    conv_lhs => rw [hbuilt]
    rfl
  have hlifetime : e.freshnessLifetimeSeconds = (freshnessLifetime e.headers written.wall).getD 0 := by
    conv_lhs => rw [hbuilt]
    rfl
  have hreadable : written.monotonic ≠ 0 := by
    unfold cacheable at hcacheable
    simp only [Bool.and_eq_true, bne_iff_ne] at hcacheable
    tauto
  rw [currentAge, if_neg (by rw [hstored]; tauto), hstored, hinitial, hlifetime] at hage
  cases hl : freshnessLifetime e.headers written.wall with
  | none =>
    rw [hl] at hage
    simp at hage
  | some lifetime =>
    rw [hl] at hage
    exact ⟨lifetime, rfl, saturatingAdd_lt (freshnessLifetime_le hl) hage⟩

/-! ### Lookups -/

/-- The fields that keep a request away from the cache. -/
def bypassingFields : List Str :=
  ["authorization".toList, "cookie".toList, "range".toList, "if-none-match".toList,
    "if-modified-since".toList, "if-match".toList, "if-unmodified-since".toList, "if-range".toList]

/-- A 200 response to a plain GET request. -/
structure Storable (request : CacheRequest) (response : Response) : Prop where
  status : response.statusCode = 200
  method : request.method = "GET".toList
  noBody : request.hasBody = false
  buffered : request.streaming = false
  fields : ∀ name ∈ bypassingFields, request.headers.hasHeader name = false

theorem storable_of_not_bypassed {request : CacheRequest} {control : CacheControl}
    {response : Response} (h : requestCacheBypassed request control = false)
    (hstatus : response.statusCode = 200) : Storable request response := by
  unfold requestCacheBypassed hasSensitiveRequestHeader hasConditionalRequestHeader at h
  simp only [Bool.or_eq_false_iff, bne_eq_false_iff_eq] at h
  obtain ⟨⟨⟨⟨⟨⟨hmethod, hstreaming⟩, hbody⟩, -⟩, hauth, hcookie⟩, ⟨⟨⟨hinm, hims⟩, him⟩, hius⟩, hir⟩,
    hrange⟩ := h
  refine ⟨hstatus, hmethod, hbody, hstreaming, ?_⟩
  intro name hname
  unfold bypassingFields at hname
  simp only [List.mem_cons, List.not_mem_nil, or_false] at hname
  rcases hname with rfl | rfl | rfl | rfl | rfl | rfl | rfl | rfl
  · exact hauth
  · exact hcookie
  · exact hrange
  · exact hinm
  · exact hims
  · exact him
  · exact hius
  · exact hir

/-- Where a looked-up response comes from: the store of its body, the history of
its entry since, and the last write of its metadata. -/
structure ServedFrom (ops : List CacheOp) (r : CacheRequest) (now : ClockReading)
    (result : CacheLookup) (response e : CachedResponse) : Prop where
  delivered : response =
    { e with headers := headersWithAge e.headers (currentAge e now.monotonic) }
  stored : ∃ before request original sent clock later,
    StoredBy config ops e before request original sent clock later ∧
      ((CacheRun.after config before).cache.store config request original sent clock).2 = true ∧
      Storable request original ∧ request.url = r.url ∧ response.body = original.body ∧
      ∀ op ∈ later, op ≠ .clear ∧ op ≠ .invalidate r.url
  written : ∃ request sent clock, LastWrite config ops e request sent clock ∧
    (∀ name ∈ (parseVary response.headers).names,
      r.headers.getAll name = request.headers.getAll name) ∧
    (result.state = .fresh → now.wall ≠ none ∧ now.monotonic ≠ 0 ∧
      ∃ lifetime, freshnessLifetime e.headers clock.wall = some lifetime ∧
        correctedInitialAge e.headers sent clock.wall +
          (now.monotonic - clock.monotonic) / 1000000000 < lifetime)

theorem parseVary_headersWithAge (headers : HeaderList) (age : ℕ) :
    parseVary (headersWithAge headers age) = parseVary headers := by
  have hvary : HeaderList.getAll (headersWithAge headers age) "vary".toList =
      HeaderList.getAll headers "vary".toList := by
    rw [headersWithAge, HeaderList.getAll_add_of_ne _ _ _ _ (by decide), HeaderList.getAll,
      HeaderList.getAll, List.filter_filter]
    congr 1
    refine List.filter_congr fun header _ => ?_
    cases hv : asciiIequals header.name "vary".toList with
    | false => rfl
    | true =>
      have hage : asciiIequals header.name "age".toList = false := by
        rw [asciiIequals, beq_iff_eq] at hv
        rw [asciiIequals, hv]
        decide
      rw [hage]
      rfl
  rw [parseVary, parseVary, hvary]

/-- The Vary keys of an entry are those of the request of its last write. -/
theorem BuiltFrom.vary_values {config : ResponseCacheConfig} {request r : CacheRequest}
    {sent : Option ℕ} {now : ClockReading} {e : CachedResponse}
    (h : BuiltFrom config request sent now e) (hvary : varyMatches e r.headers = true) :
    ∀ name ∈ (parseVary e.headers).names, r.headers.getAll name = request.headers.getAll name := by
  intro name hname
  have hkeys : e.vary = (parseVary e.headers).names.map fun name =>
      ⟨name, request.headers.getAll name⟩ := by
    conv_lhs => rw [h.1]
    rfl
  unfold varyMatches at hvary
  rw [hkeys, List.all_map, List.all_eq_true] at hvary
  simpa using hvary name hname

/-- What a lookup returns, in a run with fewer than 2^64 insertions. -/
theorem lookup_servedFrom (config : ResponseCacheConfig) (ops : List CacheOp)
    (hlt : (CacheRun.after config ops).cache.issued < 2 ^ 64) (r : CacheRequest)
    (now : ClockReading) {response : CachedResponse}
    (hresponse : ((CacheRun.after config ops).cache.lookup r now).2.response = some response) :
    ∃ e ∈ (CacheRun.after config ops).cache.entries,
      ServedFrom config ops r now ((CacheRun.after config ops).cache.lookup r now).2 response e := by
  rcases lookup_cases (CacheRun.after config ops).cache r now with hmiss | ⟨i, e, hfound⟩
  · rw [hmiss] at hresponse
    cases hresponse
  · have he := List.mem_of_getElem? hfound.position
    obtain rfl := Option.some.inj (hfound.response.symm.trans hresponse)
    obtain ⟨⟨before, request, original, sent, clock, later, hstored⟩, wrequest, wsent, wclock,
      hlast⟩ := exists_storedBy hlt he
    have hbuilt : BuiltFrom config wrequest wsent wclock e := by
      obtain ⟨_, _, _, -, -, hb, -⟩ := hlast
      exact hb
    refine ⟨e, he, rfl, ⟨before, request, original, sent, clock, later, hstored, ?_⟩,
      wrequest, wsent, wclock, hlast, ?_, fun hfresh => ?_⟩
    · obtain ⟨-, hbody, hurl, hno, first, ⟨hok, cached, hmade, -⟩, -⟩ := hstored
      obtain ⟨-, hbypass, hstatus, -⟩ := makeCachedResponse_eq_some hmade
      rw [← hfound.url, hurl]
      exact ⟨hok, storable_of_not_bypassed hbypass hstatus, rfl, hbody, hno⟩
    · rw [parseVary_headersWithAge]
      exact hbuilt.vary_values hfound.vary
    · have hcounts := hfound.fresh hfresh
      exact ⟨hcounts.1, hcounts.2.1, hbuilt.age_lt hcounts⟩

/-- The configuration, clock and request of the runs below. -/
def wrapConfig : ResponseCacheConfig := { sizeMax := 2 ^ 64 - 1, sizeofCachedResponse := 256 }

def wrapClock : ClockReading := ⟨some 1, 1⟩

def requestFor (url : Str) : CacheRequest := { method := "GET".toList, url := url }

theorem lookup_servedFrom_store :
    ∃ response e, ServedFrom wrapConfig
      [.store (requestFor "a".toList)
        { statusCode := 200, headers := [⟨"cache-control".toList, "max-age=9".toList⟩] } none wrapClock]
      (requestFor "a".toList) wrapClock
      ((CacheRun.after wrapConfig [.store (requestFor "a".toList)
        { statusCode := 200, headers := [⟨"cache-control".toList, "max-age=9".toList⟩] } none
        wrapClock]).cache.lookup (requestFor "a".toList) wrapClock).2 response e := by
  have hsome : ((CacheRun.after wrapConfig [.store (requestFor "a".toList)
      { statusCode := 200, headers := [⟨"cache-control".toList, "max-age=9".toList⟩] } none
      wrapClock]).cache.lookup (requestFor "a".toList) wrapClock).2.response.isSome = true := by
    decide +kernel
  obtain ⟨response, hresponse⟩ := Option.isSome_iff_exists.mp hsome
  obtain ⟨e, -, hserved⟩ := lookup_servedFrom wrapConfig _ (by decide +kernel) _ _ hresponse
  exact ⟨response, e, hserved⟩

/-! ### When the id counter wraps -/

def taggedResponse (body : Str) : Response :=
  { statusCode := 200
    headers := [⟨"cache-control".toList, "no-cache".toList⟩, ⟨"etag".toList, "\"x\"".toList⟩]
    body := body }

def storeFor (url body : Str) : CacheOp :=
  .store (requestFor url) (taggedResponse body) none wrapClock

def wrapValidation : Validation :=
  { responseHeaders := [⟨"etag".toList, "\"x\"".toList⟩], now := wrapClock }

/-- A response for `a` is stored, looked up and invalidated, then so many are
stored for `b` that the id of the first is used again. -/
def wrapBefore : List CacheOp :=
  [storeFor "a".toList "A".toList, .lookup (requestFor "a".toList) wrapClock,
    .invalidate "a".toList, storeFor "b".toList "B".toList]

def wrapOps : List CacheOp :=
  wrapBefore ++ List.replicate (2 ^ 64 - 3) (storeFor "b".toList "B".toList) ++
    [storeFor "b".toList "B".toList, .merge304 0 wrapValidation]

def entryB : CachedResponse :=
  buildCachedResponse wrapConfig (requestFor "b".toList) 200 (taggedResponse []).headers "B".toList
    none wrapClock

def wrapLookups : List (CacheRequest × CacheLookup) :=
  (CacheRun.after wrapConfig wrapBefore).lookups

/-- The state with the response for `b` under the id `k`. -/
def wrapState (id next k : ℕ) : CacheRun where
  cache :=
    { entries := [entryB.withId id]
      totalBytes := entryB.accountedBytes
      nextEntryId := next
      issued := k }
  lookups := wrapLookups

theorem after_wrapBefore : CacheRun.after wrapConfig wrapBefore = wrapState 2 3 2 := by
  decide +kernel

theorem makeCachedResponse_entryB :
    makeCachedResponse wrapConfig (requestFor "b".toList) (taggedResponse "B".toList).statusCode
      (taggedResponse "B".toList).headers (taggedResponse "B".toList).body none wrapClock true =
      some entryB := by
  decide +kernel

theorem step_wrapState (id next k : ℕ) :
    (wrapState id next k).step wrapConfig (storeFor "b".toList "B".toList) =
      wrapState (if next = 0 then 1 else next) (((if next = 0 then 1 else next) + 1) % 2 ^ 64)
        (k + 1) := by
  have hvariant : sameVariant (entryB.withId id) entryB = true := by
    simp [sameVariant, CachedResponse.withId]
  have hrecent : moreRecent (entryB.withId id) entryB = false := by
    simp [moreRecent, CachedResponse.withId]
  have hreplace : (wrapState id next k).cache.replaceVariant entryB = some ([], 0) := by
    have hbytes : (entryB.withId id).accountedBytes = entryB.accountedBytes := rfl
    simp [replaceVariant, wrapState, List.findIdx?_cons, hvariant, hrecent, hbytes]
  have htotal : saturatingAdd wrapConfig.sizeMax 0 entryB.accountedBytes = entryB.accountedBytes := by
    decide +kernel
  have hroom : ¬ (wrapConfig.maxEntries < ([] : List CachedResponse).length + 1 ∨
      wrapConfig.maxBytes < entryB.accountedBytes) := by
    decide +kernel
  have hinsert : ((wrapState id next k).cache.insertLocked wrapConfig entryB).1 =
      (wrapState (if next = 0 then 1 else next) (((if next = 0 then 1 else next) + 1) % 2 ^ 64)
        (k + 1)).cache := by
    unfold insertLocked
    rw [hreplace]
    simp only [htotal, List.reverse_singleton, evictLoop, if_neg hroom]
    rfl
  have hstore : ((wrapState id next k).cache.store wrapConfig (requestFor "b".toList)
      (taggedResponse "B".toList) none wrapClock).1 =
        ((wrapState id next k).cache.insertLocked wrapConfig entryB).1 := by
    rw [store, makeCachedResponse_entryB]
  change { wrapState id next k with cache := ((wrapState id next k).cache.store wrapConfig
    (requestFor "b".toList) (taggedResponse "B".toList) none wrapClock).1 } = _
  rw [hstore, hinsert]
  rfl

/-- Stores for `b` up to the last id. -/
theorem foldl_wrapState (n k : ℕ) (h : k + n < 2 ^ 64) :
    (List.replicate n (storeFor "b".toList "B".toList)).foldl (CacheRun.step wrapConfig)
      (wrapState k ((k + 1) % 2 ^ 64) k) = wrapState (k + n) ((k + n + 1) % 2 ^ 64) (k + n) := by
  induction n generalizing k with
  | zero => rfl
  | succ n ih =>
    have hnext : (k + 1) % 2 ^ 64 = k + 1 := Nat.mod_eq_of_lt (by omega)
    rw [List.replicate_succ, List.foldl_cons, step_wrapState, hnext, if_neg (by omega),
      ih (k + 1) (by omega), Nat.add_right_comm k 1 n]
    rfl

theorem after_wrapOps :
    CacheRun.after wrapConfig wrapOps =
      (wrapState 1 2 (2 ^ 64)).step wrapConfig (.merge304 0 wrapValidation) := by
  have hfold := foldl_wrapState (2 ^ 64 - 3) 2 (by norm_num)
  rw [wrapOps, CacheRun.after_append, CacheRun.after_append, after_wrapBefore]
  rw [show wrapState 2 3 2 = wrapState 2 ((2 + 1) % 2 ^ 64) 2 from rfl, hfold, List.foldl_cons,
    step_wrapState, List.foldl_cons, List.foldl_nil]
  rfl

/-- With 2^64 insertions a 304 for `a` can renew the entry of `b`, which is then
served for `a`. -/
theorem lookup_after_wrap :
    ∃ response, ((CacheRun.after wrapConfig wrapOps).cache.lookup (requestFor "a".toList)
        wrapClock).2.response = some response ∧
      ¬ ∃ e ∈ (CacheRun.after wrapConfig wrapOps).cache.entries,
        ServedFrom wrapConfig wrapOps (requestFor "a".toList) wrapClock
          ((CacheRun.after wrapConfig wrapOps).cache.lookup (requestFor "a".toList) wrapClock).2
          response e := by
  have hlookup : (((CacheRun.after wrapConfig wrapOps).cache.lookup (requestFor "a".toList)
      wrapClock).2.response.map CachedResponse.body) = some "B".toList := by
    rw [after_wrapOps]
    decide +kernel
  obtain ⟨response, hresponse, hbody⟩ := Option.map_eq_some_iff.mp hlookup
  refine ⟨response, hresponse, ?_⟩
  rintro ⟨e, -, hserved⟩
  obtain ⟨before, request, original, sent, clock, later, ⟨hops, -⟩, -, -, hurl, horiginal, -⟩ :=
    hserved.stored
  have hmem : CacheOp.store request original sent clock ∈ wrapOps := by
    rw [hops]
    simp
  unfold wrapOps wrapBefore storeFor at hmem
  simp only [List.mem_append, List.mem_cons, List.mem_replicate, List.not_mem_nil, or_false,
    CacheOp.store.injEq, reduceCtorEq, false_or] at hmem
  have hcases : original.body = "A".toList ∨ request.url = "b".toList := by
    rcases hmem with ((⟨-, rfl, -⟩ | ⟨rfl, -⟩) | ⟨-, rfl, -⟩) | ⟨rfl, -⟩
    · exact Or.inl rfl
    · exact Or.inr rfl
    · exact Or.inr rfl
    · exact Or.inr rfl
  rcases hcases with hA | hb
  · rw [hbody, hA] at horiginal
    exact absurd horiginal (by decide)
  · rw [hb] at hurl
    exact absurd hurl (by decide)

end KatHttp3
