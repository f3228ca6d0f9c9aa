import KatHttp3.Cache.Accounting

/-!
# What a 304 updates

A 304 that is accepted removes the entries it selects among the candidates of
the lookup it answers, puts refreshed forms of them in front and leaves every
other entry as it is, up to eviction from the end.
-/

namespace KatHttp3

open Str ResponseCache WeightedList

/-! ### Merged header fields -/

namespace HeaderList

theorem getAll_filter_of_forall {headers : HeaderList} {name : Str} {p : Header → Bool}
    (h : ∀ header ∈ headers, asciiIequals header.name name = true → p header = true) :
    getAll (headers.filter p) name = getAll headers name := by
  unfold getAll
  rw [List.filter_filter]
  refine congrArg (List.map Header.value) (List.filter_congr fun header hmem => ?_)
  by_cases hname : asciiIequals header.name name = true
  · rw [hname, h header hmem hname, Bool.true_and]
  · rw [Bool.eq_false_iff.mpr hname, Bool.false_and]

theorem getAll_filter_of_forall_not {headers : HeaderList} {name : Str} {p : Header → Bool}
    (h : ∀ header ∈ headers, asciiIequals header.name name = true → p header = false) :
    getAll (headers.filter p) name = [] := by
  unfold getAll
  rw [List.filter_filter, List.map_eq_nil_iff, List.filter_eq_nil_iff]
  intro header hmem
  rw [Bool.and_eq_true]
  rintro ⟨hname, hp⟩
  rw [h header hmem hname] at hp
  cases hp

theorem hasHeader_iff {headers : HeaderList} {name : Str} :
    headers.hasHeader name = true ↔
      ∃ header ∈ headers, asciiIequals header.name name = true := by
  unfold hasHeader getAll
  rw [bne_iff_ne, ne_eq, List.map_eq_nil_iff, List.filter_eq_nil_iff]
  simp

end HeaderList

/-- A field of the update other than Content-Length replaces the stored ones. -/
theorem getAll_mergeHeaders_taken (stored : HeaderList) {updated : HeaderList} {name : Str}
    (hname : asciiIequals name "content-length".toList = false)
    (hupdated : updated.hasHeader name = true) :
    (mergeHeaders stored updated).getAll name = updated.getAll name := by
  obtain ⟨newHeader, hnew, hnewName⟩ := HeaderList.hasHeader_iff.mp hupdated
  unfold mergeHeaders
  rw [HeaderList.getAll_append, HeaderList.getAll_filter_of_forall_not,
    HeaderList.getAll_filter_of_forall, List.nil_append]
  · intro header _ heq
    rw [asciiIequals_congr heq, hname]
    rfl
  · intro header _ heq
    rw [asciiIequals_congr heq, hname, Bool.false_or]
    have hany : (updated.any fun newHeader => asciiIequals header.name newHeader.name) = true := by
      refine List.any_eq_true.mpr ⟨newHeader, hnew, ?_⟩
      rw [asciiIequals_congr heq, asciiIequals_iff]
      exact (asciiIequals_iff.mp hnewName).symm
    rw [hany]
    rfl

/-- Content-Length and the fields that the update does not name stay. -/
theorem getAll_mergeHeaders_kept (stored : HeaderList) {updated : HeaderList} {name : Str}
    (h : asciiIequals name "content-length".toList = true ∨ updated.hasHeader name = false) :
    (mergeHeaders stored updated).getAll name = stored.getAll name := by
  unfold mergeHeaders
  rw [HeaderList.getAll_append, HeaderList.getAll_filter_of_forall,
    HeaderList.getAll_filter_of_forall_not, List.append_nil]
  · intro header hmem heq
    rcases h with hname | hnone
    · rw [asciiIequals_congr heq, hname]
      rfl
    · have hhas : updated.hasHeader name = true := HeaderList.hasHeader_iff.mpr ⟨header, hmem, heq⟩
      rw [hnone] at hhas
      cases hhas
  · intro header _ heq
    rw [asciiIequals_congr heq]
    rcases h with hname | hnone
    · rw [hname]
      rfl
    · rw [Bool.or_eq_true]
      right
      rw [Bool.not_eq_true', List.any_eq_false]
      intro newHeader hnew hsame
      have hhas : updated.hasHeader name = true := by
        refine HeaderList.hasHeader_iff.mpr ⟨newHeader, hnew, ?_⟩
        rw [asciiIequals_iff, ← asciiIequals_iff.mp hsame]
        exact asciiIequals_iff.mp heq
      rw [hnone] at hhas
      cases hhas

/-- The fields of the refreshed form of an entry. -/
structure RefreshOf (v : Validation) (old new : CachedResponse) : Prop where
  url : new.url = old.url
  body : new.body = old.body
  contentLength : ∀ name, asciiIequals name "content-length".toList = true →
    new.headers.getAll name = old.headers.getAll name
  taken : ∀ name, asciiIequals name "content-length".toList = false →
    v.responseHeaders.hasHeader name = true →
    new.headers.getAll name = v.responseHeaders.getAll name
  kept : ∀ name, v.responseHeaders.hasHeader name = false →
    asciiIequals name "age".toList = false → asciiIequals name "date".toList = false →
    new.headers.getAll name = old.headers.getAll name

theorem getAll_validationHeaders {v : Validation} {name : Str}
    (h : v.responseHeaders.hasHeader name = true ∨ asciiIequals name "date".toList = false) :
    v.validationHeaders.getAll name = v.responseHeaders.getAll name := by
  unfold Validation.validationHeaders
  split
  · split_ifs with hdate
    · rfl
    · refine HeaderList.getAll_add_of_ne _ _ _ _ ?_
      rcases h with hhas | hname
      · rw [← Bool.not_eq_true]
        intro hsame
        refine hdate (HeaderList.hasHeader_iff.mpr ?_)
        obtain ⟨header, hmem, heq⟩ := HeaderList.hasHeader_iff.mp hhas
        refine ⟨header, hmem, ?_⟩
        rw [asciiIequals_iff, asciiIequals_iff.mp heq]
        exact (asciiIequals_iff.mp hsame).symm
      · rw [← hname]
        unfold asciiIequals
        exact Bool.beq_comm
  · rfl

theorem getAll_headersForRevalidation (stored : HeaderList) {name : Str}
    (hage : asciiIequals name "age".toList = false)
    (hdate : asciiIequals name "date".toList = false) :
    (headersForRevalidation stored).getAll name = stored.getAll name := by
  refine HeaderList.getAll_filter_of_forall fun header _ heq => ?_
  rw [asciiIequals_congr heq, asciiIequals_congr heq, hage, hdate]
  rfl

theorem hasHeader_congr {headers headers' : HeaderList} {name : Str}
    (h : headers.getAll name = headers'.getAll name) :
    headers.hasHeader name = headers'.hasHeader name := by
  unfold HeaderList.hasHeader
  rw [h]

/-- A refreshed entry is the old one under the fields of the 304. -/
theorem refreshOf_refreshed {config : ResponseCacheConfig} {v : Validation} {request : CacheRequest}
    {old new : CachedResponse} (hurl : old.url = request.url)
    (h : refreshed config v request old = some new) : RefreshOf v old new := by
  unfold refreshed at h
  split_ifs at h
  obtain ⟨rfl, -⟩ := makeCachedResponse_eq_some h
  refine ⟨hurl.symm, rfl, fun name hname => ?_, fun name hname hhas => ?_,
    fun name hnone hage hdate => ?_⟩
  · have hlength : asciiLower name = asciiLower "content-length".toList := asciiIequals_iff.mp hname
    refine (getAll_mergeHeaders_kept _ (Or.inl hname)).trans
      (getAll_headersForRevalidation _ ?_ ?_)
    · unfold asciiIequals
      rw [hlength]
      rfl
    · unfold asciiIequals
      rw [hlength]
      rfl
  · have hvalid := getAll_validationHeaders (Or.inl hhas)
    refine (getAll_mergeHeaders_taken _ hname ?_).trans hvalid
    rw [hasHeader_congr hvalid]
    exact hhas
  · have hvalid := getAll_validationHeaders (v := v) (Or.inr hdate)
    refine (getAll_mergeHeaders_kept _ (Or.inr ?_)).trans
      (getAll_headersForRevalidation _ hage hdate)
    rw [hasHeader_congr hvalid]
    exact hnone

/-! ### The entries that are selected -/

theorem moreRecent_of_not {a b c : CachedResponse} (hab : moreRecent a b = true)
    (hcb : moreRecent c b = false) : moreRecent a c = true := by
  unfold moreRecent at *
  split_ifs at * <;> simp only [decide_eq_true_eq, decide_eq_false_iff_not] at * <;> omega

theorem moreRecent_asymm {a b : CachedResponse} (h : moreRecent a b = true) :
    moreRecent b a = false := by
  unfold moreRecent at *
  split_ifs at * <;> simp only [decide_eq_true_eq, decide_eq_false_iff_not] at * <;> omega

/-- One turn of the search for the most recent entry. -/
def newer (newest : Option CachedResponse) (current : CachedResponse) : Option CachedResponse :=
  match newest with
  | none => some current
  | some newest => if moreRecent current newest then some current else some newest

theorem foldl_newer_stays {l : List CachedResponse} {e : CachedResponse}
    (h : ∀ a ∈ l, moreRecent a e = false) : l.foldl newer (some e) = some e := by
  induction l with
  | nil => rfl
  | cons a l ih =>
    have ha := h a List.mem_cons_self
    rw [List.foldl_cons, newer, ha]
    exact ih fun b hb => h b (List.mem_cons_of_mem _ hb)

theorem foldl_newer_ne_none (a : CachedResponse) (l : List CachedResponse) :
    l.foldl newer (some a) ≠ none := by
  induction l generalizing a with
  | nil => simp
  | cons b l ih =>
    rw [List.foldl_cons, newer]
    split_ifs
    · exact ih b
    · exact ih a

/-- The search finds the first of the most recent entries. -/
theorem foldl_newer_eq_some {l : List CachedResponse} {e : CachedResponse} :
    l.foldl newer none = some e ↔
      ∃ before after, l = before ++ e :: after ∧ (∀ b ∈ before, moreRecent e b = true) ∧
        ∀ a ∈ after, moreRecent a e = false := by
  constructor
  · intro h
    induction l using List.reverseRecOn generalizing e with
    | nil => cases h
    | append_singleton l x ih =>
      rw [List.foldl_append, List.foldl_cons, List.foldl_nil] at h
      cases hl : l.foldl newer none with
      | none =>
        have hnil : l = [] := by
          cases l with
          | nil => rfl
          | cons a l => exact absurd hl (foldl_newer_ne_none a l)
        rw [hl] at h
        cases h
        exact ⟨[], [], by rw [hnil], by simp, by simp⟩
      | some newest =>
        obtain ⟨before, after, rfl, hbefore, hafter⟩ := ih hl
        rw [hl, newer] at h
        split_ifs at h with hx
        · cases h
          refine ⟨before ++ newest :: after, [], rfl, fun b hb => ?_, by simp⟩
          rcases List.mem_append.mp hb with hb | hb
          · exact moreRecent_of_not hx (moreRecent_asymm (hbefore b hb))
          rcases List.mem_cons.mp hb with rfl | hb
          · exact hx
          · exact moreRecent_of_not hx (hafter b hb)
        · cases h
          refine ⟨before, after ++ [x], by simp, hbefore, fun a ha => ?_⟩
          rcases List.mem_append.mp ha with ha | ha
          · exact hafter a ha
          · rw [List.mem_singleton.mp ha]
            exact Bool.eq_false_iff.mpr hx
  · rintro ⟨before, after, rfl, hbefore, hafter⟩
    rw [List.foldl_append, List.foldl_cons]
    have hfirst : newer (before.foldl newer none) e = some e := by
      cases hb : before.foldl newer none with
      | none => rfl
      | some b =>
        have hmem : b ∈ before := (mem_of_foldl_newest hb).resolve_right (by simp)
        rw [newer, hbefore b hmem]
        rfl
    rw [hfirst]
    exact foldl_newer_stays hafter

namespace ResponseCache

/-- The most recent of some entries, the first of them if there are several. -/
structure Newest (p : CachedResponse → Prop) (entries : List CachedResponse) (e : CachedResponse) :
    Prop where
  holds : p e
  split : ∃ before after, entries = before ++ e :: after ∧
    (∀ b ∈ before, p b → moreRecent e b = true) ∧ ∀ a ∈ after, p a → moreRecent a e = false

/-- The entries that a 304 updates, given the candidates of the lookup it answers. -/
inductive Updates (v : Validation) (stored : CachedResponse) (candidate : CachedResponse → Prop)
    (ids : List ℕ) (entries : List CachedResponse) (e : CachedResponse) : Prop
  | sameStrongTag {text tag : Str} (received : v.hasEtag = true)
      (strong : parseEntityTag v.etag = some ⟨false, text⟩) (mem : e ∈ entries)
      (isCandidate : candidate e) (etag : e.etag = some tag)
      (same : parseEntityTag tag = some ⟨false, text⟩)
  | newestMatch (weak : (v.hasEtag = true ∧ ∃ text, parseEntityTag v.etag = some ⟨true, text⟩) ∨
        v.hasEtag = false ∧ v.hasLastModified = true)
      (newest : Newest (fun e => candidate e ∧ v.validatorMatches e = true) entries e)
  | onlyCandidate (received : v.hasEtag = false ∧ v.hasLastModified = false)
      (conditional : v.deliveryOnlyIms stored = false) (mem : e ∈ entries)
      (isCandidate : candidate e) (single : ids = [e.entryId])
      (bare : e.etag = none ∧ e.lastModified = none)

theorem foldl_newer_filter {entries : List CachedResponse} {q : CachedResponse → Bool}
    {e : CachedResponse} :
    (entries.filter q).foldl newer none = some e ↔ Newest (fun e => q e = true) entries e := by
  rw [foldl_newer_eq_some]
  constructor
  · rintro ⟨before, after, hsplit, hbefore, hafter⟩
    obtain ⟨l, m, rfl, rfl, hm⟩ := List.filter_eq_append_iff.mp hsplit
    obtain ⟨skipped, rest, rfl, hskipped, he, rfl⟩ := List.filter_eq_cons_iff.mp hm
    refine ⟨he, l ++ skipped, rest, by simp, fun b hb hq => ?_, fun a ha hq => ?_⟩
    · rcases List.mem_append.mp hb with hb | hb
      · exact hbefore b (List.mem_filter.mpr ⟨hb, hq⟩)
      · exact absurd hq (hskipped b hb)
    · exact hafter a (List.mem_filter.mpr ⟨ha, hq⟩)
  · rintro ⟨he, before, after, rfl, hbefore, hafter⟩
    refine ⟨before.filter q, after.filter q, ?_, fun b hb => ?_, fun a ha => ?_⟩
    · rw [List.filter_append, List.filter_cons, if_pos he]
    · exact hbefore b (List.mem_filter.mp hb).1 (List.mem_filter.mp hb).2
    · exact hafter a (List.mem_filter.mp ha).1 (List.mem_filter.mp ha).2

variable {cache : ResponseCache} {v : Validation} {ids : List ℕ} {stored : CachedResponse}
  {candidate : CachedResponse → Prop}

theorem mem_selected_iff {e : CachedResponse} :
    e ∈ cache.selected v ids ↔
      if v.selectOne = true then
        Newest (fun e => ids.contains e.entryId && v.validatorMatches e) cache.entries e
      else e ∈ cache.entries ∧ e.entryId ∈ ids ∧ v.validatorMatches e = true := by
  unfold selected
  dsimp only
  split_ifs with hone
  · rw [Option.mem_toList, ← foldl_newer_filter]
    exact Iff.rfl
  · rw [List.mem_filter, Bool.and_eq_true, List.contains_iff_mem]

/-- With a validator in the 304 its selection is the one described. -/
theorem mem_selected_iff_updates (hcandidate : ∀ e ∈ cache.entries, candidate e ↔ e.entryId ∈ ids)
    (haccepts : v.accepts stored = true)
    (hvalidator : v.hasEtag = true ∨ v.hasLastModified = true) {e : CachedResponse} :
    e ∈ cache.selected v ids ↔ Updates v stored candidate ids cache.entries e := by
  have hnewest : Newest (fun e => ids.contains e.entryId && v.validatorMatches e) cache.entries e ↔
      Newest (fun e => candidate e ∧ v.validatorMatches e = true) cache.entries e := by
    have hiff : ∀ x ∈ cache.entries, (ids.contains x.entryId && v.validatorMatches x) = true ↔
        candidate x ∧ v.validatorMatches x = true := by
      intro x hx
      rw [Bool.and_eq_true, List.contains_iff_mem, hcandidate x hx]
    constructor
    · rintro ⟨he, before, after, hentries, hbefore, hafter⟩
      have hmem : ∀ x ∈ before ++ e :: after, x ∈ cache.entries := fun x hx => hentries ▸ hx
      exact ⟨(hiff e (hmem e (by simp))).mp he, before, after, hentries,
        fun b hb hq => hbefore b hb ((hiff b (hmem b (by simp [hb]))).mpr hq),
        fun a ha hq => hafter a ha ((hiff a (hmem a (by simp [ha]))).mpr hq)⟩
    · rintro ⟨he, before, after, hentries, hbefore, hafter⟩
      have hmem : ∀ x ∈ before ++ e :: after, x ∈ cache.entries := fun x hx => hentries ▸ hx
      exact ⟨(hiff e (hmem e (by simp))).mpr he, before, after, hentries,
        fun b hb hq => hbefore b hb ((hiff b (hmem b (by simp [hb]))).mp hq),
        fun a ha hq => hafter a ha ((hiff a (hmem a (by simp [ha]))).mp hq)⟩
  rw [mem_selected_iff, hnewest]
  cases hetag : v.hasEtag with
  | true =>
    -- an accepted 304 has an entity tag that parses
    obtain ⟨tag, htag⟩ : ∃ tag, parseEntityTag v.etag = some tag := by
      rw [Validation.accepts, if_pos hetag, Option.any_eq_true] at haccepts
      obtain ⟨storedTag, -, hselects⟩ := haccepts
      unfold entityTagSelectsStored at hselects
      split at hselects
      · exact ⟨_, by assumption⟩
      · cases hselects
    obtain ⟨weak, text⟩ := tag
    have hone : v.selectOne = weak := by
      simp [Validation.selectOne, hetag, htag]
    cases weak with
    | true =>
      rw [if_pos hone]
      constructor
      · exact fun h => .newestMatch (Or.inl ⟨hetag, text, htag⟩) h
      · rintro (⟨-, hstrong, -⟩ | ⟨-, hnew⟩ | ⟨hreceived, -⟩)
        · rw [htag] at hstrong
          cases hstrong
        · exact hnew
        · rw [hetag] at hreceived
          cases hreceived.1
    | false =>
      rw [if_neg (by rw [hone]; exact Bool.false_ne_true)]
      have hmatches : v.validatorMatches e = true ↔
          ∃ tag, e.etag = some tag ∧ parseEntityTag tag = some ⟨false, text⟩ := by
        rw [Validation.validatorMatches, if_pos hetag, Option.any_eq_true]
        refine exists_congr fun tag => and_congr_right fun _ => ?_
        unfold entityTagSelectsStored
        rw [htag]
        cases hparse : parseEntityTag tag with
        | none => simp
        | some storedTag =>
          obtain ⟨weak, text'⟩ := storedTag
          simp
      constructor
      · rintro ⟨hmem, hid, hm⟩
        obtain ⟨tag, hetag', hparse⟩ := hmatches.mp hm
        exact .sameStrongTag hetag htag hmem ((hcandidate e hmem).mpr hid) hetag' hparse
      · rintro (⟨-, hstrong, hmem, hc, hetag', hparse⟩ | ⟨hweak, -⟩ | ⟨hreceived, -⟩)
        · rw [htag] at hstrong
          cases hstrong
          exact ⟨hmem, (hcandidate e hmem).mp hc, hmatches.mpr ⟨_, hetag', hparse⟩⟩
        · rcases hweak with ⟨-, text', hweak⟩ | ⟨hnone, -⟩
          · rw [htag] at hweak
            cases hweak
          · rw [hetag] at hnone
            cases hnone
        · rw [hetag] at hreceived
          cases hreceived.1
  | false =>
    have hmodified := hvalidator.resolve_left (by rw [hetag]; exact Bool.false_ne_true)
    have hone : v.selectOne = true := by
      simp [Validation.selectOne, hetag, hmodified]
    rw [if_pos hone]
    constructor
    · exact fun h => .newestMatch (Or.inr ⟨hetag, hmodified⟩) h
    · rintro (⟨hreceived, -⟩ | ⟨-, hnew⟩ | ⟨hreceived, -⟩)
      · rw [hetag] at hreceived
        cases hreceived
      · exact hnew
      · rw [hmodified] at hreceived
        cases hreceived.2

/-- Without one it selects the only candidate, if that has none either. -/
theorem mem_selected_iff_updates_of_bare {request : CacheRequest} {snapshot : List ℕ}
    (hcandidate : ∀ e ∈ cache.entries, candidate e ↔ e.entryId ∈ ids)
    (hvalidator : v.hasEtag = false ∧ v.hasLastModified = false)
    (hselection : cache.validatorlessSelection v stored request snapshot ids = some false)
    {e : CachedResponse} :
    e ∈ cache.selected v ids ↔ Updates v stored candidate ids cache.entries e := by
  obtain ⟨hetag, hmodified⟩ := hvalidator
  have hone : v.selectOne = false := by
    simp [Validation.selectOne, hetag, hmodified]
  obtain ⟨id, rfl, hconditional⟩ : ∃ id, ids = [id] ∧ v.deliveryOnlyIms stored = false := by
    unfold validatorlessSelection at hselection
    split at hselection
    · cases hselection
    · dsimp only at hselection
      split_ifs at hselection with hconditional _ hrefused
      · cases hselection
      · simp only [Bool.or_eq_true, not_or, bne_iff_ne, ne_eq, not_not] at hrefused
        obtain ⟨id, hid⟩ := List.length_eq_one_iff.mp hrefused.1.1.1
        exact ⟨id, hid, Bool.eq_false_iff.mpr hconditional⟩
  rw [mem_selected_iff, if_neg (by rw [hone]; exact Bool.false_ne_true)]
  have hmatches : v.validatorMatches e = true ↔ e.etag = none ∧ e.lastModified = none := by
    rw [Validation.validatorMatches, if_neg (by rw [hetag]; exact Bool.false_ne_true),
      if_neg (by rw [hmodified]; exact Bool.false_ne_true)]
    simp
  constructor
  · rintro ⟨hmem, hid, hm⟩
    rw [List.mem_singleton] at hid
    exact .onlyCandidate ⟨hetag, hmodified⟩ hconditional hmem
      ((hcandidate e hmem).mpr (List.mem_singleton.mpr hid)) (by rw [hid]) (hmatches.mp hm)
  · rintro (⟨hreceived, -⟩ | ⟨hweak, -⟩ | ⟨-, -, hmem, hc, -, hbare⟩)
    · rw [hetag] at hreceived
      cases hreceived
    · rw [hetag, hmodified] at hweak
      simp at hweak
    · exact ⟨hmem, (hcandidate e hmem).mp hc, hmatches.mpr hbare⟩

/-! ### The byte count is never too high -/

variable {config : ResponseCacheConfig}

theorem undercounted_filter (h : cache.totalBytes ≤ bytesIn cache.entries)
    (p : CachedResponse → Bool) :
    (cache.entries.filter p).foldl (fun bytes e => bytes - min bytes e.accountedBytes)
      cache.totalBytes ≤ bytesIn (cache.entries.filter fun e => !p e) := by
  refine foldl_sub_le _ (h.trans ?_)
  exact (total_filter_add p cache.entries).ge

theorem undercounted_insertLocked (h : cache.totalBytes ≤ bytesIn cache.entries)
    (response : CachedResponse) :
    (cache.insertLocked config response).1.totalBytes ≤
      bytesIn (cache.insertLocked config response).1.entries := by
  rcases insertLocked_evicted config response h with heq | ⟨-, hle⟩
  · rw [heq]
    exact h
  · exact hle

theorem undercounted_foldl_insertRefreshed (removed : List ℕ) (storedId : ℕ)
    (candidates : List (ℕ × CachedResponse)) {state : ResponseCache × Option CachedResponse}
    (h : state.1.totalBytes ≤ bytesIn state.1.entries) :
    (candidates.foldl (insertRefreshed config removed storedId) state).1.totalBytes ≤
      bytesIn (candidates.foldl (insertRefreshed config removed storedId) state).1.entries := by
  induction candidates generalizing state with
  | nil => exact h
  | cons candidate candidates ih =>
    refine ih ?_
    rcases insertRefreshed_cases config removed storedId state candidate with heq | heq
    · rw [heq]
      exact h
    · rw [heq]
      exact undercounted_insertLocked h candidate.2

/-! ### The refresh loop -/

theorem insertRefreshed_spec (config : ResponseCacheConfig) (removed : List ℕ) (storedId : ℕ)
    (state : ResponseCache × Option CachedResponse) (candidate : ℕ × CachedResponse) :
    (insertRefreshed config removed storedId state candidate).1 = state.1 ∨
      (insertRefreshed config removed storedId state candidate).1 =
          (state.1.insertLocked config candidate.2).1 ∧
        ∀ e ∈ state.1.entries, e.entryId ∉ removed → sameVariant e candidate.2 = false := by
  unfold insertRefreshed
  dsimp only
  split_ifs with hconflict
  · exact Or.inl rfl
  all_goals
    refine Or.inr ⟨by split <;> rfl, fun e he hid => ?_⟩
    rw [Bool.not_eq_true, List.any_eq_false] at hconflict
    simpa [hid] using hconflict e he

/-- The state of the refresh loop: the refreshed entries are in front of the kept ones. -/
structure Refreshing (config : ResponseCacheConfig) (v : Validation) (request : CacheRequest)
    (before : ResponseCache) (current kept : List CachedResponse) (cache : ResponseCache)
    (fresh : List CachedResponse) : Prop where
  numbered : Numbered cache
  issued : before.issued ≤ cache.issued
  undercounted : cache.totalBytes ≤ bytesIn cache.entries
  entries : Evicted config (fresh ++ kept) cache.entries
  refreshes : ∀ e ∈ fresh, before.issued < e.entryId ∧ ∃ old ∈ current, ∃ new,
    refreshed config v request old = some new ∧ e = new.withId e.entryId

theorem Refreshing.insert {request : CacheRequest} {before : ResponseCache}
    {current kept fresh : List CachedResponse}
    (h : Refreshing config v request before current kept cache fresh)
    {old new : CachedResponse} (hold : old ∈ current)
    (hnew : refreshed config v request old = some new)
    (hconflict : ∀ e ∈ cache.entries, sameVariant e new = false)
    (hlt : (cache.insertLocked config new).1.issued < 2 ^ 64) :
    ∃ fresh', Refreshing config v request before current kept
      (cache.insertLocked config new).1 fresh' := by
  by_cases hnone : cache.insertLocked config new = (cache, none)
  · rw [hnone]
    exact ⟨fresh, h⟩
  obtain ⟨hevicted, hbytes⟩ := (insertLocked_evicted config new
    h.undercounted).resolve_left hnone
  obtain ⟨_, -, -, -, hissued, -⟩ := (insertLocked_cases config cache new).resolve_left hnone
  have hothers : cache.others new = cache.entries :=
    List.eraseP_of_forall_not fun e he => Bool.eq_false_iff.mp (hconflict e he)
  rw [hothers] at hevicted
  have hid : cache.insertedId = cache.issued + 1 := h.numbered.insertedId_eq (by omega)
  have hbefore := h.issued
  refine ⟨new.withId cache.insertedId :: fresh, h.numbered.insertLocked new hlt, by omega, hbytes,
    Trimmed.cons _ h.entries hevicted, fun e he => ?_⟩
  rcases List.mem_cons.mp he with rfl | he
  · refine ⟨?_, old, hold, new, hnew, rfl⟩
    change before.issued < cache.insertedId
    omega
  · exact h.refreshes e he

theorem Refreshing.fold {request : CacheRequest} {before : ResponseCache}
    {current kept fresh : List CachedResponse} {removed : List ℕ} (storedId : ℕ)
    (hremoved : ∀ id ∈ removed, id ≤ before.issued) (hkept : ∀ e ∈ kept, e.entryId ∉ removed)
    {candidates : List (ℕ × CachedResponse)} (state : ResponseCache × Option CachedResponse)
    (h : Refreshing config v request before current kept state.1 fresh)
    (hcandidates : ∀ candidate ∈ candidates,
      ∃ old ∈ current, refreshed config v request old = some candidate.2)
    (hlt : (candidates.foldl (insertRefreshed config removed storedId) state).1.issued < 2 ^ 64) :
    ∃ fresh', Refreshing config v request before current kept
      (candidates.foldl (insertRefreshed config removed storedId) state).1 fresh' := by
  induction candidates generalizing state fresh with
  | nil => exact ⟨fresh, h⟩
  | cons candidate candidates ih =>
    have hle := issued_le_insertRefreshed config removed storedId
      (insertRefreshed config removed storedId state candidate) candidates
    rw [List.foldl_cons] at hlt ⊢
    have hrest := fun c hc => hcandidates c (List.mem_cons_of_mem candidate hc)
    rcases insertRefreshed_spec config removed storedId state candidate with heq | ⟨heq, hconflict⟩
    · have hnext : Refreshing config v request before current kept
          (insertRefreshed config removed storedId state candidate).1 fresh := by
        rw [heq]
        exact h
      exact ih _ hnext hrest hlt
    · obtain ⟨old, hold, hnew⟩ := hcandidates candidate List.mem_cons_self
      -- the entries in the cache are kept or carry ids that nothing removed has
      have hfree : ∀ e ∈ state.1.entries, sameVariant e candidate.2 = false := by
        intro e he
        refine hconflict e he fun hid => ?_
        rcases List.mem_append.mp (h.entries.isPrefix.subset he) with hfresh | hkept'
        · have := (h.refreshes e hfresh).1
          have := hremoved _ hid
          omega
        · exact hkept e hkept' hid
      rw [heq] at hle
      obtain ⟨fresh', hfresh'⟩ := h.insert hold hnew hfree (by omega)
      have hnext : Refreshing config v request before current kept
          (insertRefreshed config removed storedId state candidate).1 fresh' := by
        rw [heq]
        exact hfresh'
      exact ih _ hnext hrest hlt

/-- What the update of the selected entries does to the cache. -/
theorem refresh_evicted (h : Numbered cache) (hbytes : cache.totalBytes ≤ bytesIn cache.entries)
    (v : Validation) (stored : CachedResponse) (request : CacheRequest) (ids : List ℕ)
    (hlt : (cache.refresh config v stored request ids).1.issued < 2 ^ 64) :
    ∃ kept fresh, kept.Sublist cache.entries ∧
      (∀ e ∈ cache.entries, e ∈ kept ↔ e ∉ cache.selected v ids) ∧
      Refreshing config v request cache (cache.selected v ids) kept
        (cache.refresh config v stored request ids).1 fresh := by
  have hremoved : ∀ id ∈ (cache.selected v ids).map CachedResponse.entryId, id ≤ cache.issued := by
    intro id hid
    obtain ⟨e, he, rfl⟩ := List.mem_map.mp hid
    exact (h.bounds e (mem_selected he).1).2
  have hsub : (cache.withoutSelected v ids).entries.Sublist cache.entries := List.filter_sublist
  have hkept : ∀ e ∈ (cache.withoutSelected v ids).entries,
      e.entryId ∉ (cache.selected v ids).map CachedResponse.entryId := by
    intro e he
    simpa using (List.mem_filter.mp he).2
  have hstart : Refreshing config v request cache (cache.selected v ids)
      (cache.withoutSelected v ids).entries (cache.withoutSelected v ids) [] :=
    ⟨h.of_sublist hsub rfl rfl, le_rfl, undercounted_filter hbytes _, Trimmed.refl _, by simp⟩
  obtain ⟨fresh, hfresh⟩ := Refreshing.fold stored.entryId hremoved hkept
    (cache.withoutSelected v ids, none) hstart (fun candidate hc => by
      obtain ⟨old, hold, hmap⟩ := List.mem_filterMap.mp hc
      obtain ⟨new, hnew, rfl⟩ := Option.map_eq_some_iff.mp hmap
      exact ⟨old, hold, hnew⟩) hlt
  refine ⟨(cache.withoutSelected v ids).entries, fresh, hsub, fun e he => ?_, hfresh⟩
  constructor
  · exact fun hmem hsel => hkept e hmem (List.mem_map.mpr ⟨e, hsel, rfl⟩)
  · intro hsel
    refine List.mem_filter.mpr ⟨he, ?_⟩
    rw [Bool.not_eq_true', ← Bool.not_eq_true, List.contains_iff_mem]
    intro hid
    obtain ⟨e', he', hsame⟩ := List.mem_map.mp hid
    have heq : e' = e := List.inj_on_of_nodup_map h.nodup (mem_selected he').1 he hsame
    exact hsel (heq ▸ he')

/-- How the merge of a 304 can end: turned down, with an update, or with a
delivery only. -/
theorem merge304_spec (config : ResponseCacheConfig) (cache : ResponseCache)
    (stored : CachedResponse) (request : CacheRequest) (v : Validation) (snapshot ids : List ℕ)
    (hids : ids = if snapshot = [] then [stored.entryId] else snapshot) :
    (cache.merge304 config stored request v snapshot).2 = none ∧
        (cache.merge304 config stored request v snapshot).1 = cache ∨
      (cache.merge304 config stored request v snapshot).2 ≠ none ∧ v.accepts stored = true ∧
        (((v.hasEtag = true ∨ v.hasLastModified = true) ∨
            (v.hasEtag = false ∧ v.hasLastModified = false) ∧
              cache.validatorlessSelection v stored request snapshot ids = some false) ∧
            (cache.merge304 config stored request v snapshot).1 =
              (cache.refresh config v stored request ids).1 ∨
          (v.hasEtag = false ∧ v.hasLastModified = false) ∧ v.deliveryOnlyIms stored = true ∧
            (cache.merge304 config stored request v snapshot).1 = cache) := by
  unfold merge304
  rw [← hids]
  by_cases h1 : stored.url ≠ request.url ∨ varyMatches stored request.headers = false
  · rw [if_pos h1]
    exact Or.inl ⟨rfl, rfl⟩
  rw [if_neg h1]
  by_cases h2 : v.accepts stored = false
  · rw [if_pos h2]
    exact Or.inl ⟨rfl, rfl⟩
  rw [if_neg h2]
  cases makeCachedResponse config request stored.statusCode (v.mergedHeaders stored.headers)
    stored.body v.requestWallSeconds v.now false with
  | none => exact Or.inl ⟨rfl, rfl⟩
  | some delivery =>
    have haccepts : v.accepts stored = true := Bool.not_eq_false _ ▸ h2
    dsimp only
    by_cases h3 : (v.hasEtag || v.hasLastModified) = true
    · rw [if_pos h3]
      exact Or.inr ⟨by simp, haccepts, Or.inl ⟨Or.inl (Bool.or_eq_true _ _ ▸ h3), rfl⟩⟩
    · rw [if_neg h3]
      rw [Bool.not_eq_true, Bool.or_eq_false_iff] at h3
      cases hselection : cache.validatorlessSelection v stored request snapshot ids with
      | none => exact Or.inl ⟨rfl, rfl⟩
      | some deliveryOnly =>
        cases deliveryOnly with
        | false => exact Or.inr ⟨by simp, haccepts, Or.inl ⟨Or.inr ⟨h3, rfl⟩, rfl⟩⟩
        | true =>
          refine Or.inr ⟨by simp, haccepts, Or.inr ⟨h3, ?_, rfl⟩⟩
          unfold validatorlessSelection at hselection
          split at hselection
          · cases hselection
          · dsimp only at hselection
            split_ifs at hselection with hconditional
            · exact hconditional
            · cases hselection

/-- The effect of merging a 304: nothing, or exactly the entries of `updates` go,
refreshed forms of some of them come in front, and the rest is evicted from the
end only as far as the limits require. -/
structure MergeEffect (config : ResponseCacheConfig) (v : Validation)
    (updates : CachedResponse → Prop) (cache : ResponseCache)
    (out : ResponseCache × Option RevalidationResult) : Prop where
  refused : out.2 = none → out.1 = cache
  updated : out.2 ≠ none → ∃ kept fresh : List CachedResponse, kept.Sublist cache.entries ∧
    (∀ e ∈ cache.entries, e ∈ kept ↔ ¬ updates e) ∧
    (∀ e ∈ fresh, cache.issued < e.entryId ∧
      ∃ old ∈ cache.entries, updates old ∧ RefreshOf v old e) ∧
    Evicted config (fresh ++ kept) out.1.entries

theorem mergeEffect_merge304 (h : Numbered cache) (hbytes : cache.totalBytes ≤ bytesIn cache.entries)
    {request : CacheRequest} {snapshot : List ℕ}
    (hids : ids = if snapshot = [] then [stored.entryId] else snapshot)
    (hcandidate : ∀ e ∈ cache.entries, candidate e ↔ e.entryId ∈ ids)
    (hurl : ∀ e ∈ cache.entries, e.entryId ∈ ids → e.url = request.url)
    (hlt : (cache.merge304 config stored request v snapshot).1.issued < 2 ^ 64) :
    MergeEffect config v (Updates v stored candidate ids cache.entries) cache
      (cache.merge304 config stored request v snapshot) := by
  rcases merge304_spec config cache stored request v snapshot ids hids with
    ⟨hnone, hcache⟩ |
      ⟨hsome, haccepts, ⟨hreceived, hcache⟩ | ⟨hbare, hconditional, hcache⟩⟩
  · exact ⟨fun _ => hcache, fun hsome => absurd hnone hsome⟩
  · have hselected : ∀ e, e ∈ cache.selected v ids ↔ Updates v stored candidate ids cache.entries e := by
      intro e
      rcases hreceived with hvalidator | ⟨hbare, hselection⟩
      · exact mem_selected_iff_updates hcandidate haccepts hvalidator
      · exact mem_selected_iff_updates_of_bare hcandidate hbare hselection
    rw [hcache] at hlt
    obtain ⟨kept, fresh, hsub, hkept, hloop⟩ := refresh_evicted h hbytes v stored request ids hlt
    refine ⟨fun hnone => absurd hnone hsome,
      fun _ => ⟨kept, fresh, hsub, fun e he => ?_, fun e he => ?_, ?_⟩⟩
    · rw [hkept e he, hselected]
    · obtain ⟨hissued, old, hold, new, hnew, heq⟩ := hloop.refreshes e he
      obtain ⟨hmem, hid⟩ := mem_selected hold
      refine ⟨hissued, old, hmem, (hselected old).mp hold, ?_⟩
      have hrefresh := refreshOf_refreshed (hurl old hmem hid) hnew
      rw [heq]
      exact ⟨hrefresh.url, hrefresh.body, hrefresh.contentLength, hrefresh.taken, hrefresh.kept⟩
    · rw [hcache]
      exact hloop.entries
  · refine ⟨fun _ => hcache, fun _ => ⟨cache.entries, [], List.Sublist.refl _, fun e he => ?_,
      by simp, ?_⟩⟩
    · refine iff_of_true he ?_
      rintro (⟨hetag, -⟩ | ⟨hweak, -⟩ | ⟨-, hnot, -⟩)
      · rw [hbare.1] at hetag
        cases hetag
      · rw [hbare.1, hbare.2] at hweak
        simp at hweak
      · rw [hconditional] at hnot
        cases hnot
    · rw [hcache]
      exact Trimmed.refl _

end ResponseCache

/-! ### Runs -/

theorem CacheRun.undercounted_step {config : ResponseCacheConfig} {s : CacheRun}
    (h : s.cache.totalBytes ≤ bytesIn s.cache.entries) (op : CacheOp) :
    (s.step config op).cache.totalBytes ≤ bytesIn (s.step config op).cache.entries := by
  cases op with
  | store request response sent now =>
    change (s.cache.store config request response sent now).1.totalBytes ≤
      bytesIn (s.cache.store config request response sent now).1.entries
    rcases store_cases config s.cache request response sent now with heq | ⟨cached, -, heq⟩
    · rw [heq]
      exact h
    · rw [heq]
      exact undercounted_insertLocked h cached
  | lookup request now =>
    change (s.cache.lookup request now).1.totalBytes ≤ bytesIn (s.cache.lookup request now).1.entries
    have hperm : bytesIn (s.cache.lookup request now).1.entries = bytesIn s.cache.entries :=
      total_perm (lookup_perm s.cache request now).1
    rcases lookup_cases s.cache request now with heq | ⟨i, best, hfound⟩
    · rw [heq]
      exact h
    · rw [hperm, hfound.cache_eq]
      exact h
  | merge304 earlier v =>
    rcases s.step_merge304 config earlier v with hstep | ⟨request, l, stored, -, -, hstep⟩
    · rw [hstep]
      exact h
    · rw [hstep]
      rcases merge304_cases config s.cache stored request v l.validationCandidateIds with heq | heq
      · simp only [heq]
        exact h
      · simp only [heq]
        exact undercounted_foldl_insertRefreshed _ _ _ (undercounted_filter h _)
  | invalidate url =>
    have hsub := undercounted_filter h fun e => decide (e.url = url)
    simp only [← decide_not] at hsub
    exact hsub
  | invalidateEntry entryId =>
    change (s.cache.invalidateEntry entryId).1.totalBytes ≤
      bytesIn (s.cache.invalidateEntry entryId).1.entries
    unfold ResponseCache.invalidateEntry
    split_ifs
    · exact h
    · split
      · exact h
      · split
        · exact h
        · rename_i i _ _ old hold
          have hbytes := bytesIn_eraseIdx hold
          change s.cache.totalBytes - min s.cache.totalBytes old.accountedBytes ≤
            bytesIn (s.cache.entries.eraseIdx i)
          omega
  | clear => exact le_rfl

theorem CacheRun.undercounted_after (config : ResponseCacheConfig) (ops : List CacheOp) :
    (CacheRun.after config ops).cache.totalBytes ≤
      bytesIn (CacheRun.after config ops).cache.entries := by
  induction ops using List.reverseRecOn with
  | nil => exact le_rfl
  | append_singleton ops op ih =>
    rw [CacheRun.after_snoc]
    exact CacheRun.undercounted_step ih op

/-- The entry was in the cache at the lookup with this number, as one of the
candidates a 304 for it can update. -/
def SnapshotEntry (config : ResponseCacheConfig) (ops : List CacheOp) (earlier : ℕ)
    (e : CachedResponse) : Prop :=
  ∃ before request now later, ops = before ++ .lookup request now :: later ∧
    (CacheRun.after config before).lookups.length = earlier ∧
    e ∈ (CacheRun.after config before).cache.entries ∧
    e.entryId ∈ ((CacheRun.after config before).cache.lookup request now).2.mergeIds

/-- Every recorded lookup was made by an operation of the run. -/
theorem CacheRun.exists_lookup {config : ResponseCacheConfig} {ops : List CacheOp} {earlier : ℕ}
    {p : CacheRequest × CacheLookup} (h : (CacheRun.after config ops).lookups[earlier]? = some p) :
    ∃ before now later, ops = before ++ .lookup p.1 now :: later ∧
      (CacheRun.after config before).lookups.length = earlier ∧
      p.2 = ((CacheRun.after config before).cache.lookup p.1 now).2 := by
  induction ops using List.reverseRecOn with
  | nil => simp at h
  | append_singleton ops op ih =>
    have hold (hprev : (CacheRun.after config ops).lookups[earlier]? = some p) :
        ∃ before now later, ops ++ [op] = before ++ .lookup p.1 now :: later ∧
          (CacheRun.after config before).lookups.length = earlier ∧
          p.2 = ((CacheRun.after config before).cache.lookup p.1 now).2 := by
      obtain ⟨before, now, later, rfl, hlength, hp⟩ := ih hprev
      exact ⟨before, now, later ++ [op], by simp, hlength, hp⟩
    rw [CacheRun.after_snoc] at h
    cases op with
    | lookup request now =>
      change ((CacheRun.after config ops).lookups ++ [_])[earlier]? = some p at h
      rcases Nat.lt_or_ge earlier (CacheRun.after config ops).lookups.length with hlt | hge
      · rw [List.getElem?_append_left hlt] at h
        exact hold h
      · rw [List.getElem?_append_right hge, List.getElem?_singleton] at h
        split_ifs at h with hzero
        cases h
        exact ⟨ops, now, [], rfl, by omega, rfl⟩
    | merge304 earlier' v =>
      rcases CacheRun.step_merge304 config (CacheRun.after config ops) earlier' v with
        hstep | ⟨_, _, _, -, -, hstep⟩
      · rw [hstep] at h
        exact hold h
      · rw [hstep] at h
        exact hold h
    | store request response sent now => exact hold h
    | invalidate url => exact hold h
    | invalidateEntry entryId => exact hold h
    | clear => exact hold h

/-- Lookups stay recorded. -/
theorem CacheRun.lookups_prefix (config : ResponseCacheConfig) (ops later : List CacheOp) :
    (CacheRun.after config ops).lookups <+: (CacheRun.after config (ops ++ later)).lookups := by
  induction later using List.reverseRecOn with
  | nil => simp
  | append_singleton later op ih =>
    rw [← List.append_assoc, CacheRun.after_snoc]
    refine ih.trans ?_
    cases op with
    | lookup request now => exact List.prefix_append _ _
    | merge304 earlier v =>
      rcases CacheRun.step_merge304 config (CacheRun.after config (ops ++ later)) earlier v with
        hstep | ⟨_, _, _, -, -, hstep⟩
      · rw [hstep]
      · rw [hstep]
    | store request response sent now => exact List.prefix_refl _
    | invalidate url => exact List.prefix_refl _
    | invalidateEntry entryId => exact List.prefix_refl _
    | clear => exact List.prefix_refl _

/-- An entry whose id had been handed out before was there before. -/
theorem CacheRun.mem_of_old {config : ResponseCacheConfig} {before later : List CacheOp}
    (hlt : (CacheRun.after config (before ++ later)).cache.issued < 2 ^ 64) {e : CachedResponse}
    (he : e ∈ (CacheRun.after config (before ++ later)).cache.entries)
    (hold : e.entryId ≤ (CacheRun.after config before).cache.issued) :
    e ∈ (CacheRun.after config before).cache.entries := by
  induction later using List.reverseRecOn with
  | nil => simpa using he
  | append_singleton later op ih =>
    have hle := CacheRun.issued_le_after config (before ++ later) [op]
    have hbefore := CacheRun.issued_le_after config before later
    rw [← List.append_assoc] at he hlt
    have hinv : (CacheRun.after config (before ++ later)).Inv := CacheRun.inv_after config (by omega)
    rw [CacheRun.after_snoc] at he hlt hle
    rcases hinv.mem_step hlt he with ⟨hmem, -⟩ | ⟨_, _, _, _, -, -, hnew⟩ | ⟨_, _, _, _, -, -, hnew⟩
    · exact ih (by omega) hmem
    · omega
    · omega

theorem snapshotEntry_iff {config : ResponseCacheConfig} {ops : List CacheOp} {earlier : ℕ}
    {p : CacheRequest × CacheLookup}
    (hlookup : (CacheRun.after config ops).lookups[earlier]? = some p)
    (hlt : (CacheRun.after config ops).cache.issued < 2 ^ 64) {e : CachedResponse}
    (he : e ∈ (CacheRun.after config ops).cache.entries) :
    SnapshotEntry config ops earlier e ↔ e.entryId ∈ p.2.mergeIds := by
  constructor
  · rintro ⟨before, request, now, later, rfl, hlength, -, hid⟩
    obtain ⟨rest, hrest⟩ := CacheRun.lookups_prefix config (before ++ [.lookup request now]) later
    rw [CacheRun.after_snoc, List.append_assoc] at hrest
    change (CacheRun.after config before).lookups ++ [_] ++ rest =
      (CacheRun.after config (before ++ .lookup request now :: later)).lookups at hrest
    rw [← hrest, ← hlength, List.append_assoc, List.getElem?_append_right le_rfl,
      Nat.sub_self] at hlookup
    obtain rfl := Option.some.inj hlookup
    exact hid
  · intro hid
    obtain ⟨before, now, later, rfl, hlength, hp⟩ := CacheRun.exists_lookup hlookup
    rw [hp] at hid
    have hle := CacheRun.issued_le_after config before (.lookup p.1 now :: later)
    have hinv : (CacheRun.after config before).Inv := CacheRun.inv_after config (by omega)
    have hold := (matches_of_mem_mergeIds hinv.numbered hid).1
    exact ⟨before, p.1, now, later, rfl, hlength, CacheRun.mem_of_old hlt he hold, hid⟩

/-- In every run that has handed out fewer than 2^64 entry ids, the merge of a
304 for an earlier lookup has the effect described. -/
theorem after_mergeEffect (config : ResponseCacheConfig) (ops : List CacheOp) (earlier : ℕ)
    (v : Validation) {request : CacheRequest} {l : CacheLookup} {stored : CachedResponse}
    (hlookup : (CacheRun.after config ops).lookups[earlier]? = some (request, l))
    (hstored : l.response = some stored)
    (hlt : (CacheRun.after config (ops ++ [.merge304 earlier v])).cache.issued < 2 ^ 64) :
    MergeEffect config v
      (Updates v stored (SnapshotEntry config ops earlier) l.mergeIds
        (CacheRun.after config ops).cache.entries)
      (CacheRun.after config ops).cache
      ((CacheRun.after config ops).cache.merge304 config stored request v
        l.validationCandidateIds) := by
  have hle := CacheRun.issued_le_after config ops [.merge304 earlier v]
  have hinv : (CacheRun.after config ops).Inv := CacheRun.inv_after config (by omega)
  have hids : l.mergeIds =
      if l.validationCandidateIds = [] then [stored.entryId] else l.validationCandidateIds := by
    rw [CacheLookup.mergeIds, hstored]
  refine mergeEffect_merge304 hinv.numbered (CacheRun.undercounted_after config ops) hids
    (fun e he => snapshotEntry_iff hlookup (by omega) he) (fun e he hid => ?_) ?_
  · exact ((hinv.lookups _ (List.mem_of_getElem? hlookup) e.entryId hid).2 e he rfl).1
  · obtain ⟨state, response, ids⟩ := l
    obtain rfl : response = some stored := hstored
    rw [CacheRun.after_snoc] at hlt
    simp only [CacheRun.step, hlookup] at hlt
    exact hlt

/-- Two variants of one representation that a request with both fields matches. -/
def bothFields : CacheRequest :=
  { requestFor "a".toList with
    headers := [⟨"accept-language".toList, "en".toList⟩, ⟨"accept-encoding".toList, "br".toList⟩] }

def variantBy (name : Str) : Response :=
  { taggedResponse "A".toList with
    headers := (taggedResponse []).headers ++ [⟨"vary".toList, name⟩] }

/-- Both variants are stored and looked up, the one by language first. -/
def variantOps : List CacheOp :=
  [.store bothFields (variantBy "accept-encoding".toList) none wrapClock,
    .store bothFields (variantBy "accept-language".toList) none ⟨some 2, 1⟩,
    .lookup bothFields wrapClock]

/-- The same behind the response for another URL. -/
def mergeOps : List CacheOp := storeFor "b".toList "B".toList :: variantOps

/-- The 304 renews both variants, and the other entry stays. -/
theorem after_mergeEffect_variants :
    ∃ (l : CacheLookup) (stored : CachedResponse),
      (CacheRun.after wrapConfig mergeOps).lookups[0]? = some (bothFields, l) ∧
      l.response = some stored ∧ l.validationCandidateIds = [3, 2] ∧
      ((CacheRun.after wrapConfig mergeOps).cache.merge304 wrapConfig stored bothFields
        wrapValidation l.validationCandidateIds).2.isSome = true ∧
      ((CacheRun.after wrapConfig mergeOps).cache.merge304 wrapConfig stored bothFields
          wrapValidation l.validationCandidateIds).1.entries.map CachedResponse.entryId =
        [5, 4, 1] ∧
      MergeEffect wrapConfig wrapValidation
        (Updates wrapValidation stored (SnapshotEntry wrapConfig mergeOps 0) l.mergeIds
          (CacheRun.after wrapConfig mergeOps).cache.entries)
        (CacheRun.after wrapConfig mergeOps).cache
        ((CacheRun.after wrapConfig mergeOps).cache.merge304 wrapConfig stored bothFields
          wrapValidation l.validationCandidateIds) :=
  ⟨_, _, rfl, rfl, by decide +kernel, by decide +kernel, by decide +kernel,
    after_mergeEffect wrapConfig mergeOps 0 wrapValidation rfl rfl (by decide +kernel)⟩

/-! ### When the id counter wraps -/

/-- The operations up to the one that uses the first id again. -/
def wrapStores : List CacheOp :=
  wrapBefore ++ List.replicate (2 ^ 64 - 3) (storeFor "b".toList "B".toList) ++
    [storeFor "b".toList "B".toList]

theorem after_wrapStores : CacheRun.after wrapConfig wrapStores = wrapState 1 2 (2 ^ 64) := by
  have hfold := foldl_wrapState (2 ^ 64 - 3) 2 (by norm_num)
  rw [wrapStores, CacheRun.after_append, CacheRun.after_append, after_wrapBefore]
  rw [show wrapState 2 3 2 = wrapState 2 ((2 + 1) % 2 ^ 64) 2 from rfl, hfold, List.foldl_cons,
    step_wrapState]
  rfl

/-- The only lookup was made with the response for `a` in the cache. -/
theorem url_of_snapshotEntry_wrapStores {e : CachedResponse}
    (h : SnapshotEntry wrapConfig wrapStores 0 e) : e.url = "a".toList := by
  obtain ⟨before, request, now, later, hops, -, hmem, -⟩ := h
  have hbefore : before = [storeFor "a".toList "A".toList] := by
    unfold wrapStores wrapBefore at hops
    simp only [List.cons_append, List.nil_append] at hops
    cases before with
    | nil =>
      rw [List.nil_append, List.cons.injEq] at hops
      cases hops.1
    | cons first before =>
      rw [List.cons_append, List.cons.injEq] at hops
      obtain ⟨rfl, hops⟩ := hops
      cases before with
      | nil => rfl
      | cons second before =>
        rw [List.cons_append, List.cons.injEq] at hops
        have hlast : CacheOp.lookup request now ∈ before ++ .lookup request now :: later := by simp
        rw [← hops.2] at hlast
        simp only [storeFor, List.mem_cons, List.mem_append, List.mem_replicate, List.not_mem_nil,
          reduceCtorEq, and_false, or_false] at hlast
  rw [hbefore] at hmem
  have hurls : ∀ e ∈ (CacheRun.after wrapConfig [storeFor "a".toList "A".toList]).cache.entries,
      e.url = "a".toList := by
    decide +kernel
  exact hurls e hmem

/-- With 2^64 insertions a 304 for `a` removes and renews the entry of `b`. -/
theorem mergeEffect_after_wrap :
    ∃ l stored, (CacheRun.after wrapConfig wrapStores).lookups[0]? = some (requestFor "a".toList, l) ∧
      l.response = some stored ∧
      ¬ MergeEffect wrapConfig wrapValidation
        (Updates wrapValidation stored (SnapshotEntry wrapConfig wrapStores 0) l.mergeIds
          (CacheRun.after wrapConfig wrapStores).cache.entries)
        (CacheRun.after wrapConfig wrapStores).cache
        ((CacheRun.after wrapConfig wrapStores).cache.merge304 wrapConfig stored
          (requestFor "a".toList) wrapValidation l.validationCandidateIds) := by
  have hsome : (wrapLookups[0]?.map fun p => (p.1 == requestFor "a".toList) &&
      p.2.response.any fun stored =>
        (((wrapState 1 2 (2 ^ 64)).cache.merge304 wrapConfig stored (requestFor "a".toList)
            wrapValidation p.2.validationCandidateIds).2.isSome &&
          ((wrapState 1 2 (2 ^ 64)).cache.merge304 wrapConfig stored (requestFor "a".toList)
            wrapValidation p.2.validationCandidateIds).1.entries.any (·.entryId == 2))) =
        some true := by
    decide +kernel
  obtain ⟨⟨request, l⟩, hlookup, hp⟩ := Option.map_eq_some_iff.mp hsome
  rw [Bool.and_eq_true, beq_iff_eq, Option.any_eq_true] at hp
  obtain ⟨rfl, stored, hstored, hmerge⟩ := hp
  rw [Bool.and_eq_true] at hmerge
  obtain ⟨e, he, hid⟩ := List.any_eq_true.mp hmerge.2
  rw [after_wrapStores]
  refine ⟨l, stored, hlookup, hstored, fun heffect => ?_⟩
  have hnone : ∀ old ∈ (wrapState 1 2 (2 ^ 64)).cache.entries,
      ¬ Updates wrapValidation stored (SnapshotEntry wrapConfig wrapStores 0) l.mergeIds
        (wrapState 1 2 (2 ^ 64)).cache.entries old := by
    intro old hold hupdates
    obtain rfl : old = entryB.withId 1 := List.mem_singleton.mp hold
    have hsnapshot : SnapshotEntry wrapConfig wrapStores 0 (entryB.withId 1) := by
      rcases hupdates with ⟨-, -, -, hc, -⟩ | ⟨-, hnewest⟩ | ⟨-, -, -, hc, -⟩
      · exact hc
      · exact hnewest.holds.1
      · exact hc
    exact absurd (url_of_snapshotEntry_wrapStores hsnapshot) (by decide)
  obtain ⟨kept, fresh, hsub, -, hfresh, hevicted⟩ :=
    heffect.updated (Option.isSome_iff_ne_none.mp hmerge.1)
  rcases List.mem_append.mp (hevicted.isPrefix.subset he) with hmem | hmem
  · obtain ⟨-, old, hold, hupdates, -⟩ := hfresh e hmem
    exact hnone old hold hupdates
  · obtain rfl : e = entryB.withId 1 := List.mem_singleton.mp (hsub.subset hmem)
    cases hid

end KatHttp3
