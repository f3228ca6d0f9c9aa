import KatHttp3.Cache.DirectiveMeaning

/-!
# The order of the directives

The same directives in another order, spread over the fields in any way, mean
the same unless several well-formed stale-if-error directives disagree, which
no flag of the result reports.
-/

namespace KatHttp3

open Str

/-! ### Permutations -/

theorem occurs_perm {ds ds' : List ParsedDirective} (h : ds'.Perm ds) (name : Str) :
    occurs name ds' = occurs name ds := by
  rw [Bool.eq_iff_iff, occurs, occurs, List.any_eq_true, List.any_eq_true]
  simp only [h.mem_iff]

theorem withName_perm {ds ds' : List ParsedDirective} (h : ds'.Perm ds) (name : Str) :
    (withName name ds').Perm (withName name ds) :=
  h.filter _

theorem numbers_perm {ds ds' : List ParsedDirective} (h : ds'.Perm ds) (name : Str) :
    (numbers name ds').Perm (numbers name ds) :=
  (withName_perm h name).filterMap _

theorem malformed_perm {ds ds' : List ParsedDirective} (h : ds'.Perm ds) (name : Str) :
    malformed name ds' = malformed name ds := by
  rw [Bool.eq_iff_iff, malformed, malformed, List.any_eq_true, List.any_eq_true]
  simp only [(withName_perm h name).mem_iff]

theorem disagree_perm {values values' : List ℕ} (h : values'.Perm values) :
    disagree values' = disagree values := by
  rw [Bool.eq_iff_iff, disagree_eq_true_iff, disagree_eq_true_iff]
  simp only [h.mem_iff]

/-- Values that agree have the same first one in every order. -/
theorem head?_perm {values values' : List ℕ} (h : values'.Perm values)
    (hagree : disagree values = false) : values'.head? = values.head? := by
  cases values with
  | nil => rw [h.eq_nil]
  | cons first rest =>
    cases values' with
    | nil => cases h.symm.eq_nil
    | cons first' rest' =>
      by_contra hne
      have hmem : first' ∈ first :: rest := h.mem_iff.mp List.mem_cons_self
      have : disagree (first :: rest) = true :=
        disagree_eq_true_iff.mpr ⟨first', hmem, first, List.mem_cons_self, by simpa using hne⟩
      rw [hagree] at this
      cases this

/-! ### Each piece as a field of its own -/

/-- A piece that the scan cuts out is scanned in one piece. -/
theorem splitQuoted_piece {quoted escaped : Bool} {current field : Str}
    (hescaped : quoted = false → escaped = false)
    (hcurrent : ∀ rest, splitQuoted false false [] (current ++ rest) =
      splitQuoted quoted escaped current rest) :
    ∀ piece ∈ splitQuoted quoted escaped current field, splitDirectives piece = [piece] := by
  induction field generalizing quoted escaped current with
  | nil =>
    intro piece hpiece
    rw [splitQuoted] at hpiece
    obtain rfl := List.mem_singleton.mp hpiece
    have := hcurrent []
    rwa [List.append_nil, splitQuoted] at this
  | cons ch rest ih =>
    have hnext : ∀ rest', splitQuoted false false [] (current ++ [ch] ++ rest') =
        splitQuoted quoted escaped current (ch :: rest') := by
      intro rest'
      rw [List.append_assoc]
      exact hcurrent _
    cases quoted with
    | true =>
      cases escaped with
      | true =>
        rw [splitQuoted]
        exact ih (by simp) fun rest' => by rw [hnext, splitQuoted]
      | false =>
        rw [splitQuoted]
        apply ih
        · intro hclose
          have : ch = '"' := by simpa using hclose
          rw [this]
          rfl
        · intro rest'
          rw [hnext, splitQuoted]
    | false =>
      obtain rfl := hescaped rfl
      rw [splitQuoted]
      split_ifs with hquote hcomma
      · exact ih (by simp) fun rest' => by rw [hnext, splitQuoted, if_pos hquote]
      · intro piece hpiece
        rcases List.mem_cons.mp hpiece with rfl | hlater
        · have := hcurrent []
          rwa [List.append_nil, splitQuoted] at this
        · exact ih (fun _ => rfl) (fun rest' => rfl) piece hlater
      · exact ih (fun _ => rfl) fun rest' => by
          rw [hnext, splitQuoted, if_neg hquote, if_neg hcomma]

theorem splitDirectives_piece {field piece : Str} (h : piece ∈ splitDirectives field) :
    splitDirectives piece = [piece] :=
  splitQuoted_piece (fun _ => rfl) (fun _ => rfl) piece h

/-- The texts between the commas of all Cache-Control fields, in order. -/
def directivePieces (headers : HeaderList) : List Str :=
  (headers.getAll "cache-control".toList).flatMap splitDirectives

def onePerField (pieces : List Str) : HeaderList :=
  pieces.map fun piece => ⟨"cache-control".toList, piece⟩

theorem getAll_onePerField (pieces : List Str) :
    (onePerField pieces).getAll "cache-control".toList = pieces := by
  have hname : asciiIequals "cache-control".toList "cache-control".toList = true := by decide
  have hall : (onePerField pieces).filter
      (fun h => asciiIequals h.name "cache-control".toList) = onePerField pieces := by
    rw [List.filter_eq_self]
    intro header hheader
    obtain ⟨piece, -, rfl⟩ := List.mem_map.mp hheader
    exact hname
  rw [HeaderList.getAll, hall, onePerField, List.map_map]
  exact List.map_id pieces

theorem cacheDirectives_onePerField {headers : HeaderList} {pieces : List Str}
    (h : pieces.Perm (directivePieces headers)) :
    cacheDirectives (onePerField pieces) = pieces.map parseDirective := by
  unfold cacheDirectives
  rw [getAll_onePerField, List.flatMap_congr (g := fun piece => [piece])]
  · simp
  · intro piece hpiece
    obtain ⟨field, -, hfield⟩ := List.mem_flatMap.mp (h.mem_iff.mp hpiece)
    exact splitDirectives_piece hfield

/-- Any directive can be brought to the front. -/
theorem exists_front {headers : HeaderList} {d : ParsedDirective}
    (h : d ∈ cacheDirectives headers) :
    ∃ headers' rest, (cacheDirectives headers').Perm (cacheDirectives headers) ∧
      cacheDirectives headers' = d :: rest := by
  obtain ⟨piece, hpiece, rfl⟩ := List.mem_map.mp h
  have hperm : (piece :: (directivePieces headers).erase piece).Perm (directivePieces headers) :=
    (List.perm_cons_erase hpiece).symm
  refine ⟨onePerField (piece :: (directivePieces headers).erase piece), _, ?_,
    cacheDirectives_onePerField hperm⟩
  rw [cacheDirectives_onePerField hperm]
  exact hperm.map _

/-! ### What the order decides -/

/-- A numeric directive without a number of seconds. -/
def HasMalformed (directives : List ParsedDirective) : Prop :=
  ∃ d ∈ directives, (asciiIequals d.name "max-age".toList = true ∨
    asciiIequals d.name "stale-if-error".toList = true) ∧ d.seconds = none

/-- Two well-formed directives of the name give different numbers. -/
def Disagreeing (name : Str) (directives : List ParsedDirective) : Prop :=
  ∃ a ∈ numbers name directives, ∃ b ∈ numbers name directives, a ≠ b

/-- The result does not depend on the order of the directives, and two different
numbers of one directive are reported. -/
structure OrderIndependent (headers : HeaderList) : Prop where
  flags : ∀ headers', (cacheDirectives headers').Perm (cacheDirectives headers) →
    (parseCacheControl headers').noStore = (parseCacheControl headers).noStore ∧
      (parseCacheControl headers').noCache = (parseCacheControl headers).noCache ∧
      (parseCacheControl headers').mustRevalidate = (parseCacheControl headers).mustRevalidate ∧
      (parseCacheControl headers').isPrivate = (parseCacheControl headers).isPrivate ∧
      (parseCacheControl headers').invalid = (parseCacheControl headers).invalid ∧
      (parseCacheControl headers').conflictingMaxAge =
        (parseCacheControl headers).conflictingMaxAge
  values : ∀ headers', (cacheDirectives headers').Perm (cacheDirectives headers) →
    (parseCacheControl headers).invalid = false →
    (parseCacheControl headers).conflictingMaxAge = false →
    (parseCacheControl headers').maxAge = (parseCacheControl headers).maxAge ∧
      (parseCacheControl headers').staleIfError = (parseCacheControl headers).staleIfError
  reported : ∀ name ∈ ["max-age".toList, "stale-if-error".toList],
    Disagreeing name (cacheDirectives headers) →
    (parseCacheControl headers).invalid = true ∨
      (parseCacheControl headers).conflictingMaxAge = true

theorem malformed_iff {name : Str} {directives : List ParsedDirective} :
    malformed name directives = true ↔
      ∃ d ∈ directives, asciiIequals d.name name = true ∧ d.seconds = none := by
  simp [malformed, withName]

theorem invalid_iff (headers : HeaderList) :
    (parseCacheControl headers).invalid = true ↔ HasMalformed (cacheDirectives headers) := by
  rw [parseCacheControl_eq_meaning]
  change (malformed _ _ || malformed _ _) = true ↔ _
  rw [Bool.or_eq_true, malformed_iff, malformed_iff]
  constructor
  · rintro (⟨d, hd, hname, hnone⟩ | ⟨d, hd, hname, hnone⟩)
    · exact ⟨d, hd, Or.inl hname, hnone⟩
    · exact ⟨d, hd, Or.inr hname, hnone⟩
  · rintro ⟨d, hd, hname | hname, hnone⟩
    · exact Or.inl ⟨d, hd, hname, hnone⟩
    · exact Or.inr ⟨d, hd, hname, hnone⟩

theorem conflictingMaxAge_iff (headers : HeaderList) :
    (parseCacheControl headers).conflictingMaxAge = true ↔
      Disagreeing "max-age".toList (cacheDirectives headers) := by
  rw [parseCacheControl_eq_meaning]
  exact disagree_eq_true_iff

theorem not_disagreeing_iff {name : Str} {directives : List ParsedDirective} :
    ¬ Disagreeing name directives ↔ disagree (numbers name directives) = false := by
  rw [← Bool.not_eq_true, disagree_eq_true_iff]
  rfl

/-- A well-formed directive at the front decides the number. -/
theorem exists_staleIfError {headers : HeaderList} {n : ℕ}
    (h : n ∈ numbers "stale-if-error".toList (cacheDirectives headers)) :
    ∃ headers', (cacheDirectives headers').Perm (cacheDirectives headers) ∧
      (parseCacheControl headers').staleIfError = some n := by
  obtain ⟨d, hd, hseconds⟩ := List.mem_filterMap.mp h
  obtain ⟨hmem, hname⟩ := List.mem_filter.mp hd
  obtain ⟨headers', rest, hperm, hfront⟩ := exists_front hmem
  refine ⟨headers', hperm, ?_⟩
  rw [parseCacheControl_eq_meaning, hfront]
  change ((withName _ (d :: rest)).filterMap _).head? = some n
  rw [withName, List.filter_cons_of_pos (by exact hname), List.filterMap_cons_some hseconds]
  rfl

theorem orderIndependent_iff (headers : HeaderList) :
    OrderIndependent headers ↔
      HasMalformed (cacheDirectives headers) ∨
        Disagreeing "max-age".toList (cacheDirectives headers) ∨
        ¬ Disagreeing "stale-if-error".toList (cacheDirectives headers) := by
  constructor
  · intro h
    by_contra hcond
    simp only [not_or, not_not] at hcond
    obtain ⟨hformed, hmax, a, ha, b, hb, hne⟩ := hcond
    rw [← invalid_iff, Bool.not_eq_true] at hformed
    rw [← conflictingMaxAge_iff, Bool.not_eq_true] at hmax
    obtain ⟨headersA, hpermA, hstaleA⟩ := exists_staleIfError ha
    obtain ⟨headersB, hpermB, hstaleB⟩ := exists_staleIfError hb
    have hsameA := (h.values headersA hpermA hformed hmax).2
    have hsameB := (h.values headersB hpermB hformed hmax).2
    rw [← hsameB, hstaleA, hstaleB] at hsameA
    exact hne (Option.some.inj hsameA)
  · intro hcond
    refine ⟨fun headers' hperm => ?_, fun headers' hperm hinvalid hconflict => ?_,
      fun name hname hdisagree => ?_⟩
    · rw [parseCacheControl_eq_meaning, parseCacheControl_eq_meaning]
      refine ⟨occurs_perm hperm _, occurs_perm hperm _, occurs_perm hperm _,
        occurs_perm hperm _, ?_, disagree_perm (numbers_perm hperm _)⟩
      exact congrArg₂ or (malformed_perm hperm _) (malformed_perm hperm _)
    · have hmax : ¬ Disagreeing "max-age".toList (cacheDirectives headers) := by
        rw [← conflictingMaxAge_iff, hconflict]
        exact Bool.false_ne_true
      have hstale : ¬ Disagreeing "stale-if-error".toList (cacheDirectives headers) := by
        rcases hcond with hformed | hother | hstale
        · rw [← invalid_iff, hinvalid] at hformed
          cases hformed
        · exact absurd hother hmax
        · exact hstale
      rw [parseCacheControl_eq_meaning, parseCacheControl_eq_meaning]
      exact ⟨head?_perm (numbers_perm hperm _) (not_disagreeing_iff.mp hmax),
        head?_perm (numbers_perm hperm _) (not_disagreeing_iff.mp hstale)⟩
    · rw [invalid_iff, conflictingMaxAge_iff]
      rcases hcond with hformed | hmax | hstale
      · exact Or.inl hformed
      · exact Or.inr hmax
      · rcases List.mem_pair.mp hname with rfl | rfl
        · exact Or.inr hdisagree
        · exact absurd hdisagree hstale

/-- Two different numbers of seconds for which a stale response may be used. -/
def staleTwice : HeaderList :=
  [⟨"cache-control".toList, "stale-if-error=1, stale-if-error=2".toList⟩]

/-- The one that stands first counts, and nothing is reported. -/
theorem not_orderIndependent_staleTwice :
    (parseCacheControl staleTwice).staleIfError = some 1 ∧
      (parseCacheControl
        [⟨"cache-control".toList, "stale-if-error=2, stale-if-error=1".toList⟩]).staleIfError =
        some 2 ∧
      (parseCacheControl staleTwice).invalid = false ∧
      (parseCacheControl staleTwice).conflictingMaxAge = false ∧
      ¬ OrderIndependent staleTwice := by
  have hinvalid : (parseCacheControl staleTwice).invalid = false := by decide
  have hconflict : (parseCacheControl staleTwice).conflictingMaxAge = false := by decide
  refine ⟨by decide, by decide, hinvalid, hconflict, fun h => ?_⟩
  have hdisagree : Disagreeing "stale-if-error".toList (cacheDirectives staleTwice) :=
    ⟨1, by decide, 2, by decide, by decide⟩
  rcases h.reported _ (by decide) hdisagree with hreported | hreported
  · rw [hinvalid] at hreported
    cases hreported
  · rw [hconflict] at hreported
    cases hreported

end KatHttp3
