import KatHttp3.Url.Components
import KatHttp3.Url.DotSegments

/-!
# Redirect targets and RFC 3986

The target of a followed redirect is printed and parsed again before the
request is sent. It is compared here with the target RFC 3986 gives the
Location value.
-/

namespace KatHttp3

open Str Rfc3986

variable {net : InetPton}

theorem Url.WellFormed.notMem {u : Url} (h : u.WellFormed net) :
    '?' ∉ u.path ∧ '#' ∉ u.path ∧ '#' ∉ u.query :=
  ⟨notMem_of_valid h.path (by decide), notMem_of_valid h.path (by decide),
    notMem_of_valid h.query (by decide)⟩

/-- A well-formed URL survives printing, up to default port and empty path. -/
theorem Url.WellFormed.parse_toString {u : Url} (h : u.WellFormed net) :
    parseUrl net u.toString = some u.normalized := by
  obtain ⟨hq, hf, hfq⟩ := h.notMem
  rw [Url.parseUrl_toString h.scheme h.host h.port h.path_head hq hf hfq h.query_absent, h.path,
    h.query]
  rfl

/-! ### What the resolution computes -/

/-- The Location value without its fragment. -/
def withoutFragment (location : Str) : Str := upTo location (find location '#')

theorem withoutFragment_eq (location : Str) : withoutFragment location = before ['#'] location :=
  upTo_find location '#'

theorem hash_notMem_withoutFragment (location : Str) : '#' ∉ withoutFragment location := by
  rw [withoutFragment_eq]
  exact notMem_before (by simp)

theorem split_withoutFragment (location : Str) : split (withoutFragment location) = split location := by
  rw [withoutFragment_eq, split_fragment]

/-- A target taken over from a reference with scheme or authority. -/
structure NamedTarget (net : InetPton) (base : Url) (r : Reference) (target : Url) : Prop where
  named : r.scheme.isSome = true ∨ r.authority.isSome = true
  wellFormed : target.WellFormed net
  path : r.path = target.path
  resolved : ∃ scheme auth, httpsScheme scheme = true ∧
    parseAuthority net auth = some (target.host, target.port) ∧
    resolve base.toReference r =
      ⟨some scheme, some auth, removeDots target.path, target.queryComponent⟩

/-- A target computed from a reference that has neither. -/
structure RelativeTarget (base : Url) (r : Reference) (target : Url) : Prop where
  scheme : r.scheme = none
  authority : r.authority = none
  computed : ∃ ref, '#' ∉ ref ∧ r.path = before ['?'] ref ∧ r.query = queryOf ref ∧
    target = resolveRelative base ref

theorem namedTarget_absolute {base target : Url} {ref : Str}
    (h : parseUrl net ref = some target) : NamedTarget net base (split ref) target := by
  obtain ⟨scheme, auth, hsplit, hs, ha⟩ := split_of_parseUrl h
  refine ⟨?_, Url.parseUrl_wellFormed h, ?_, scheme, auth, hs, ha, ?_⟩
  · rw [hsplit]
    exact Or.inl rfl
  · rw [hsplit]
  · rw [hsplit]
    rfl

theorem namedTarget_network {base target : Url} {tail : Str} (hbase : base.WellFormed net)
    (hf : '#' ∉ tail)
    (h : parseUrl net (base.scheme ++ ":".toList ++ '/' :: '/' :: tail) = some target) :
    NamedTarget net base (split ('/' :: '/' :: tail)) target := by
  have hscheme : httpsScheme base.scheme = true := by
    rw [hbase.scheme]
    decide
  obtain ⟨hne, hnot⟩ := httpsScheme_notMem hscheme
  have htext : base.scheme ++ ":".toList ++ '/' :: '/' :: tail =
      base.scheme ++ ':' :: '/' :: '/' :: tail := by simp
  rw [htext] at h
  obtain ⟨scheme, auth, hsplit, hs, ha⟩ := split_of_parseUrl h
  rw [split_absolute hne hnot hf, splitPath] at hsplit
  rw [split_network hf, splitPath]
  simp only [Reference.mk.injEq, Option.some.injEq] at hsplit
  obtain ⟨rfl, rfl, hpath, hquery⟩ := hsplit
  refine ⟨Or.inr rfl, Url.parseUrl_wellFormed h, hpath, _, _, hs, ha, ?_⟩
  rw [← hpath, ← hquery]
  rfl

theorem splitAuthority_of_not_network {ref : Str} (h : startsWith ref "//".toList = false) :
    splitAuthority {} ref = ⟨none, none, before ['?'] ref, queryOf ref⟩ := by
  unfold splitAuthority
  split
  · rename_i tail
    cases h
  · rfl

theorem resolveReference_cases {base target : Url} {location : Str} (hbase : base.WellFormed net)
    (h : resolveReference net base location = some target) :
    NamedTarget net base (split location) target ∨ RelativeTarget base (split location) target := by
  have hf := hash_notMem_withoutFragment location
  rw [← split_withoutFragment]
  have hreference : upTo location (find location '#') = withoutFragment location := rfl
  unfold resolveReference at h
  dsimp only at h
  rw [hreference] at h
  cases hscheme : hasValidScheme (withoutFragment location) with
  | none => simp [hscheme] at h
  | some absolute =>
    cases absolute with
    | true =>
      simp only [hscheme] at h
      exact Or.inl (namedTarget_absolute h)
    | false =>
      simp only [hscheme] at h
      by_cases hnet : startsWith (withoutFragment location) "//".toList = true
      · rw [if_pos hnet] at h
        obtain ⟨tail, htail⟩ := List.isPrefixOf_iff_prefix.mp hnet
        have htail' : withoutFragment location = '/' :: '/' :: tail := htail.symm
        rw [htail'] at h hf ⊢
        exact Or.inl (namedTarget_network hbase (by simpa using hf) h)
      · rw [if_neg hnet] at h
        have hsplit := hasValidScheme_false hscheme hf
        rw [splitAuthority_of_not_network (Bool.eq_false_iff.mpr hnet)] at hsplit
        split_ifs at h
        cases h
        rw [hsplit]
        exact Or.inr ⟨rfl, rfl, _, hf, rfl, rfl, rfl⟩

/-! ### Relative references -/

/-- A relative path put after a base URL without any path. -/
def Bare (base : Url) (r : Reference) : Prop :=
  base.path = [] ∧ r.path ≠ [] ∧ r.path.head? ≠ some '/'

theorem resolveRelative_origin (base : Url) (ref : Str) :
    (resolveRelative base ref).scheme = base.scheme ∧ (resolveRelative base ref).host = base.host ∧
      (resolveRelative base ref).port = base.port := by
  unfold resolveRelative
  simp only
  split_ifs <;> exact ⟨rfl, rfl, rfl⟩

theorem queryOf_eq (ref : Str) :
    (if (find ref '?').isSome then some (startingAt ref ((find ref '?').map (· + 1))) else none) =
      queryOf ref := by
  have hsome := find_isSome_iff ref '?'
  rw [startingAt_find_succ]
  unfold queryOf
  cases hs : since ['?'] ref with
  | nil =>
    rw [hs] at hsome
    simp [hsome]
  | cons c t =>
    rw [hs] at hsome
    have : (find ref '?').isSome = true := hsome.mpr (by simp)
    simp [this]

theorem pathPrefix_eq (path : Str) :
    (match rfind path '/' with
      | none => []
      | some slash => path.take (slash + 1)) = directory path := by
  cases h : rfind path '/' with
  | none =>
    have hnot := rfind_eq_none.mp h
    refine (List.rdropWhile_eq_nil_iff.mpr fun c hc => ?_).symm
    have : c ≠ '/' := fun hc' => hnot (hc' ▸ hc)
    simpa using this
  | some i =>
    obtain ⟨hpath, hnot⟩ := rfind_eq_some h
    have hall : ∀ c ∈ (path.drop (i + 1)).reverse, (c != '/') = true := by
      intro c hc
      have : c ≠ '/' := fun hc' => hnot (hc' ▸ List.mem_reverse.mp hc)
      simpa using this
    have htake : path.take (i + 1) = path.take i ++ ['/'] := by
      have hlen : (path.take i).length = i := by
        have := congrArg List.length hpath
        simp only [List.length_append, List.length_take, List.length_cons, List.length_drop] at this
        rw [List.length_take]
        omega
      conv_lhs => rw [hpath]
      rw [List.take_append, hlen]
      simp [List.take_take]
    conv_rhs => rw [hpath]
    rw [directory, List.rdropWhile, List.reverse_append, List.reverse_cons, List.append_assoc,
      List.dropWhile_append_of_pos hall]
    simp [htake]

theorem resolveRelative_path (base : Url) (ref : Str) :
    (resolveRelative base ref).path =
      if before ['?'] ref = [] then base.path
      else if (before ['?'] ref).head? = some '/' then removeDotSegments (before ['?'] ref)
      else removeDotSegments (directory base.path ++ before ['?'] ref) := by
  rw [← pathPrefix_eq, ← upTo_find]
  unfold resolveRelative
  simp only
  split_ifs <;> rfl

theorem resolveRelative_query (base : Url) (ref : Str) :
    (resolveRelative base ref).queryComponent =
      if before ['?'] ref = [] ∧ queryOf ref = none then base.queryComponent
      else queryOf ref := by
  rw [← queryOf_eq, ← upTo_find]
  unfold resolveRelative Url.queryComponent
  simp only
  split_ifs <;> simp_all

section

variable {base target : Url} {r : Reference}

theorem RelativeTarget.resolve_eq (h : RelativeTarget base r target) :
    resolve base.toReference r =
      { scheme := some base.scheme
        authority := some base.authority
        path :=
          if r.path = [] then base.path
          else if r.path.head? = some '/' then removeDots r.path
          else removeDots (merge base.toReference r.path)
        query := if r.path = [] ∧ r.query = none then base.queryComponent else r.query } := by
  rw [resolve, h.scheme, h.authority]
  rfl

theorem RelativeTarget.query_eq (h : RelativeTarget base r target) :
    target.queryComponent = (resolve base.toReference r).query := by
  obtain ⟨ref, -, hpath, hquery, rfl⟩ := h.computed
  rw [h.resolve_eq, resolveRelative_query, hpath, hquery]

theorem directory_rooted (t : Str) : ∃ t', directory ('/' :: t) = '/' :: t' := by
  have hstarts : directory ('/' :: t) <+: '/' :: t := List.rdropWhile_prefix _ _
  cases hd : directory ('/' :: t) with
  | nil =>
    have := List.rdropWhile_eq_nil_iff.mp hd '/' List.mem_cons_self
    simp at this
  | cons c t' =>
    rw [hd] at hstarts
    obtain ⟨rfl, -⟩ := List.cons_prefix_cons.mp hstarts
    exact ⟨t', rfl⟩

theorem RelativeTarget.resolved_rooted (hbase : base.WellFormed net)
    (h : RelativeTarget base r target) :
    (resolve base.toReference r).path = [] ∨
      ∃ t, (resolve base.toReference r).path = '/' :: t := by
  rw [h.resolve_eq]
  simp only
  split_ifs with hnil hroot
  · exact hbase.path_head
  · obtain ⟨t, ht⟩ := List.head?_eq_some_iff.mp hroot
    rw [ht]
    exact Or.inr (removeDots_rooted_head t)
  · have hmerge : ∃ t, merge base.toReference r.path = '/' :: t := by
      rcases hbase.path_head with hbare | ⟨t, ht⟩
      · exact ⟨r.path, by simp [merge, Url.toReference, hbare]⟩
      · obtain ⟨t', ht'⟩ := directory_rooted t
        exact ⟨t' ++ r.path, by simp [merge, Url.toReference, ht, ht']⟩
    obtain ⟨t, ht⟩ := hmerge
    rw [ht]
    exact Or.inr (removeDots_rooted_head t)

/-- Outside the one bad case the printed path is the one RFC 3986 gives. -/
theorem RelativeTarget.path_eq (hbase : base.WellFormed net) (h : RelativeTarget base r target)
    (hgood : Bare base r → popsFirst (segments r.path) = true) :
    (resolve base.toReference r).path = target.path ∨
      target.path = [] ∧ (resolve base.toReference r).path = ['/'] := by
  obtain ⟨ref, -, hpath, hquery, rfl⟩ := h.computed
  rw [h.resolve_eq, resolveRelative_path, ← hpath]
  simp only
  by_cases hnil : r.path = []
  · simp [hnil]
  · rw [if_neg hnil, if_neg hnil]
    by_cases hroot : r.path.head? = some '/'
    · obtain ⟨t, ht⟩ := List.head?_eq_some_iff.mp hroot
      rw [if_pos hroot, if_pos hroot, ht, removeDotSegments_rooted]
      exact Or.inl rfl
    · rw [if_neg hroot, if_neg hroot]
      rcases hbase.path_head with hbare | ⟨t, ht⟩
      · have hiff := (removeDotSegments_rootless_iff r.path).mpr (hgood ⟨hbare, hnil, hroot⟩)
        have hmerge : merge base.toReference r.path = '/' :: r.path := by
          simp [merge, Url.toReference, hbare]
        rw [hmerge, hbare, ← hiff]
        simp only [directory, List.rdropWhile_nil, List.nil_append]
        split_ifs with hx
        · exact Or.inr ⟨hx, rfl⟩
        · exact Or.inl rfl
      · have hmerge : merge base.toReference r.path = directory base.path ++ r.path := by
          simp [merge, Url.toReference, ht]
        obtain ⟨t', ht'⟩ := directory_rooted t
        rw [hmerge, ht, ht', List.cons_append, removeDotSegments_rooted]
        exact Or.inl rfl

/-- In the bad case it lacks its leading slash. -/
theorem RelativeTarget.path_bad (h : RelativeTarget base r target) (hbare : Bare base r)
    (hbad : popsFirst (segments r.path) = false) :
    (resolve base.toReference r).path = '/' :: target.path ∧ target.path ≠ [] := by
  obtain ⟨ref, -, hpath, hquery, rfl⟩ := h.computed
  obtain ⟨hbase, hnil, hroot⟩ := hbare
  have hmerge : merge base.toReference r.path = '/' :: r.path := by
    simp [merge, Url.toReference, hbase]
  rw [h.resolve_eq, resolveRelative_path, ← hpath]
  simp only
  rw [if_neg hnil, if_neg hnil, if_neg hroot, if_neg hroot, hmerge, hbase]
  have hrel := removeDotSegments_rootless r.path
  rw [if_neg (by simp [hbad])] at hrel
  simpa [directory] using hrel

theorem mem_directory {path : Text} {c : Char} (h : c ∈ directory path) : c ∈ path :=
  List.IsPrefix.mem h ( List.rdropWhile_prefix _ _)

/-- The resolved path brings in no `?` and no `#`. -/
theorem RelativeTarget.notMem_resolved (hbase : base.WellFormed net)
    (h : RelativeTarget base r target) {c : Char} (hc : c = '?' ∨ c = '#') :
    c ∉ (resolve base.toReference r).path := by
  obtain ⟨ref, hf, hpath, -, -⟩ := h.computed
  obtain ⟨hq', hf', -⟩ := hbase.notMem
  have hslash : c ≠ '/' := by rcases hc with rfl | rfl <;> decide
  have hb : c ∉ base.path := by rcases hc with rfl | rfl <;> assumption
  have hr : c ∉ r.path := by
    rw [hpath]
    rcases hc with rfl | rfl
    · exact notMem_before (by simp)
    · exact fun hc => hf (mem_of_mem_before hc)
  have hm : c ∉ merge base.toReference r.path := by
    unfold merge
    split_ifs
    · simp [hslash, hr]
    · rw [List.mem_append, not_or]
      exact ⟨fun hc => hb (mem_directory hc), hr⟩
  rw [h.resolve_eq]
  simp only
  split_ifs
  · exact hb
  · exact fun hc => (mem_removeDots hc).elim hslash hr
  · exact fun hc => (mem_removeDots hc).elim hslash hm

theorem RelativeTarget.notMem_path (hbase : base.WellFormed net)
    (h : RelativeTarget base r target) {c : Char} (hc : c = '?' ∨ c = '#') :
    c ∉ target.path := by
  have hres := h.notMem_resolved hbase hc
  by_cases hgood : Bare base r → popsFirst (segments r.path) = true
  · rcases h.path_eq hbase hgood with heq | ⟨hnil, -⟩
    · rwa [← heq]
    · simp [hnil]
  · rw [Classical.not_imp, Bool.not_eq_true] at hgood
    rw [(h.path_bad hgood.1 hgood.2).1, List.mem_cons, not_or] at hres
    exact hres.2

theorem RelativeTarget.hash_notMem_query (hbase : base.WellFormed net)
    (h : RelativeTarget base r target) : '#' ∉ target.query := by
  obtain ⟨ref, hf, -, -, rfl⟩ := h.computed
  unfold resolveRelative
  simp only [startingAt_find_succ]
  have hq : '#' ∉ (since ['?'] ref).tail := fun hc =>
    hf (mem_of_mem_since (List.mem_of_mem_tail hc))
  split_ifs
  · exact hq
  · exact hbase.notMem.2.2
  · exact hq
  · exact hq

theorem RelativeTarget.query_absent (hbase : base.WellFormed net)
    (h : RelativeTarget base r target) (habsent : target.queryPresent = false) :
    target.query = [] := by
  obtain ⟨ref, -, -, -, rfl⟩ := h.computed
  have hstart : (find ref '?').isSome = false → startingAt ref ((find ref '?').map (· + 1)) = [] := by
    intro hnone
    rw [Option.isSome_eq_false_iff, Option.isNone_iff_eq_none] at hnone
    rw [hnone]
    rfl
  revert habsent
  unfold resolveRelative
  simp only
  split_ifs
  · intro h
    cases h
  · exact hbase.query_absent
  · exact hstart
  · exact hstart

theorem RelativeTarget.wellFormedHost (hbase : base.WellFormed net)
    (h : RelativeTarget base r target) :
    target.scheme = "https".toList ∧ HostAccepted net target.host ∧ target.port ≤ 65535 := by
  obtain ⟨ref, -, -, -, rfl⟩ := h.computed
  obtain ⟨hs, hh, hp⟩ := resolveRelative_origin base ref
  rw [hs, hh, hp]
  exact ⟨hbase.scheme, hbase.host, hbase.port⟩

/-- Characters of a resolved target that the splitter accepts. -/
def UriTarget (t : Reference) : Prop :=
  validUriComponent ":@/".toList t.path = true ∧
    validUriComponent ":@/?".toList (t.query.getD []) = true

theorem Url.query_eq_getD {u : Url} (h : u.queryPresent = false → u.query = []) :
    u.query = u.queryComponent.getD [] := by
  unfold Url.queryComponent
  cases hp : u.queryPresent with
  | false => simpa using h hp
  | true => rfl

/-- Printing and parsing a relative target that has a rooted or empty path. -/
theorem RelativeTarget.parse_rooted (hbase : base.WellFormed net)
    (h : RelativeTarget base r target) (hroot : target.path = [] ∨ ∃ t, target.path = '/' :: t) :
    parseUrl net target.toString =
      if validUriComponent ":@/".toList target.path &&
          validUriComponent ":@/?".toList target.query then
        some target.normalized
      else none := by
  obtain ⟨hs, hh, hp⟩ := h.wellFormedHost hbase
  exact Url.parseUrl_toString hs hh hp hroot (h.notMem_path hbase (Or.inl rfl))
    (h.notMem_path hbase (Or.inr rfl)) (h.hash_notMem_query hbase) (h.query_absent hbase)

/-- Outside the bad case the target has a rooted or empty path. -/
theorem RelativeTarget.rooted (hbase : base.WellFormed net) (h : RelativeTarget base r target)
    (hgood : Bare base r → popsFirst (segments r.path) = true) :
    target.path = [] ∨ ∃ t, target.path = '/' :: t := by
  rcases h.path_eq hbase hgood with heq | ⟨hnil, -⟩
  · rw [← heq]
    exact h.resolved_rooted hbase
  · exact Or.inl hnil

/-- Printing and parsing a relative target outside the bad case. -/
theorem RelativeTarget.parse_toString (hbase : base.WellFormed net)
    (h : RelativeTarget base r target) (hgood : Bare base r → popsFirst (segments r.path) = true) :
    (UriTarget (resolve base.toReference r) → parseUrl net target.toString = some target.normalized) ∧
      ((parseUrl net target.toString).isSome → UriTarget (resolve base.toReference r)) := by
  have hpath := h.path_eq hbase hgood
  have hvalid : validUriComponent ":@/".toList (resolve base.toReference r).path =
      validUriComponent ":@/".toList target.path := by
    rcases hpath with heq | ⟨hnil, hroot⟩
    · rw [heq]
    · rw [hnil, hroot]
      decide
  have hquery : ((resolve base.toReference r).query.getD []) = target.query := by
    rw [← h.query_eq, ← Url.query_eq_getD (h.query_absent hbase)]
  unfold UriTarget
  rw [hvalid, hquery, h.parse_rooted hbase (h.rooted hbase hgood), ← Bool.and_eq_true]
  constructor
  · exact fun hv => if_pos hv
  · intro hsome
    by_contra hv
    rw [if_neg hv] at hsome
    cases hsome

theorem length_before_printedQuery (path query : Str) (present : Bool) :
    (before ['?'] (path ++ printedQuery query present)).length ≤ path.length := by
  induction path with
  | nil => cases present <;> simp [printedQuery, before]
  | cons c path ih =>
    unfold before at *
    rw [List.cons_append, List.takeWhile_cons]
    split_ifs
    · simpa using ih
    · simp

theorem length_path_printedQuery (path query : Str) (present : Bool) :
    (before ['?'] (since ['/', '?'] (path ++ printedQuery query present))).length ≤
      path.length := by
  induction path with
  | nil => cases present <;> simp [printedQuery, before, since]
  | cons c path ih =>
    by_cases hc : c ∈ ['/', '?']
    · rw [List.cons_append, show since ['/', '?'] (c :: (path ++ printedQuery query present)) =
        (c :: path) ++ printedQuery query present from
        List.dropWhile_cons_of_neg (by simp at hc ⊢; tauto)]
      exact length_before_printedQuery _ _ _
    · rw [List.cons_append, show since ['/', '?'] (c :: (path ++ printedQuery query present)) =
        since ['/', '?'] (path ++ printedQuery query present) from
        List.dropWhile_cons_of_pos (by simpa using hc)]
      simp only [List.length_cons]
      omega

/-- However the printed text parses, the path cannot have grown. -/
theorem RelativeTarget.length_path_le (hbase : base.WellFormed net)
    (h : RelativeTarget base r target) (hne : target.path ≠ []) {u : Url}
    (hu : parseUrl net target.toString = some u) : u.path.length ≤ target.path.length := by
  obtain ⟨hs, hh, hp⟩ := h.wellFormedHost hbase
  have hauth {c : Char} (hc : c ∈ "/?#".toList) : c ∉ target.authority :=
    Url.authority_notMem hh hc
  have htail : '#' ∉ target.authority ++ (target.path ++ printedQuery target.query target.queryPresent) := by
    have h1 := hauth (c := '#') (by decide)
    have h2 := h.notMem_path hbase (Or.inr rfl)
    have h3 := h.hash_notMem_query hbase
    cases hq : target.queryPresent <;> simp [printedQuery, h1, h2, h3]
  have htext : target.toString = "https".toList ++
      ':' :: '/' :: '/' :: (target.authority ++ (target.path ++ printedQuery target.query target.queryPresent)) := by
    rw [Url.toString, hs, Url.requestTarget_eq, Url.normalized_path, if_neg hne]
    simp only [List.append_assoc]
    rfl
  have hscheme := httpsScheme_notMem (show httpsScheme "https".toList = true by decide)
  obtain ⟨scheme, auth, hsplit, -, -⟩ := split_of_parseUrl hu
  rw [htext, split_absolute hscheme.1 hscheme.2 htail] at hsplit
  have hpath := congrArg Reference.path hsplit
  have hsince : since ['/', '?']
      (target.authority ++ (target.path ++ printedQuery target.query target.queryPresent)) =
      since ['/', '?'] (target.path ++ printedQuery target.query target.queryPresent) :=
    List.dropWhile_append_of_pos fun c hc => by
      have h1 : c ≠ '/' := fun h' => hauth (c := '/') (by decide) (h' ▸ hc)
      have h2 : c ≠ '?' := fun h' => hauth (c := '?') (by decide) (h' ▸ hc)
      simp [h1, h2]
  simp only [splitPath, hsince] at hpath
  rw [← hpath]
  exact length_path_printedQuery _ _ _

end

/-! ### Followed redirects -/

/-- Scheme, host and port a connection is made to. -/
def Url.origin (u : Url) : Str × Str × ℕ := (u.scheme, u.host, u.effectivePort)

/-- A URL whose parts are those of a resolved reference: the scheme up to letter
case, the authority by the host and port it names, an empty path as the root. -/
structure Denotes (net : InetPton) (u : Url) (t : Reference) : Prop where
  scheme : ∃ scheme, t.scheme = some scheme ∧ asciiIequals scheme u.scheme = true
  authority : ∃ auth port, t.authority = some auth ∧
    parseAuthority net auth = some (u.host, port) ∧
    ({ u with port := port } : Url).effectivePort = u.effectivePort
  path : u.path = if t.path = [] then ['/'] else t.path
  query : u.queryComponent = t.query

/-- `newUrl` parses to the target RFC 3986 gives the reference, and `crossOrigin`
compares the origins of that URL and the base. -/
structure ResolvesTo (net : InetPton) (base : Url) (r : Reference) (newUrl : Str)
    (crossOrigin : Bool) (u : Url) : Prop where
  parses : parseUrl net newUrl = some u
  denotes : Denotes net u (resolve base.toReference r)
  stays : r.scheme = none → r.authority = none →
    u.host = base.host ∧ u.effectivePort = base.effectivePort
  cross_origin : crossOrigin = true ↔ u.origin ≠ base.origin

/-- The references that are followed as RFC 3986 says: with scheme or authority,
those without dot segments; the others, where the target consists of URI
characters and no rootless path meets a base without path. -/
def FollowedToTheLetter (base : Url) (r : Reference) : Prop :=
  if r.scheme.isSome = true ∨ r.authority.isSome = true then
    ∀ s ∈ segments r.path.tail, ¬ IsDots s
  else
    UriTarget (resolve base.toReference r) ∧
      (Bare base r → popsFirst (segments r.path) = true)

theorem origin_ne_iff (base target : Url) :
    (base.scheme ≠ target.scheme ∨ base.host ≠ target.host ∨
      base.effectivePort ≠ target.effectivePort) ↔ target.origin ≠ base.origin := by
  unfold Url.origin
  rw [ne_eq, ne_eq, ne_eq, ne_eq, Prod.mk.injEq, Prod.mk.injEq, eq_comm (a := target.scheme),
    eq_comm (a := target.host), eq_comm (a := target.effectivePort)]
  tauto

theorem evaluate_follow {method : Str} {base : Url} {resp : Response} {auto : Bool}
    {remaining : ℕ} (h : (evaluate net method base resp auto remaining).follow = true) :
    ∃ target, resolveReference net base (resp.headers.get "location".toList) = some target ∧
      (evaluate net method base resp auto remaining).newUrl = target.toString ∧
      ((evaluate net method base resp auto remaining).crossOrigin = true ↔
        target.origin ≠ base.origin) := by
  unfold evaluate at h ⊢
  simp only at h ⊢
  by_cases h1 : auto = false
  · simp [h1] at h
  by_cases h2 : isRedirectStatus resp.statusCode = false
  · simp [h1, h2] at h
  by_cases h3 : remaining = 0
  · simp [h1, h2, h3] at h
  by_cases h4 : resp.headers.get "location".toList = []
  · simp only [if_neg h1, if_neg h2, if_neg h3, if_pos h4] at h
    cases h
  simp only [if_neg h1, if_neg h2, if_neg h3, if_neg h4] at h ⊢
  cases hr : resolveReference net base (resp.headers.get "location".toList) with
  | none =>
    simp only [hr] at h
    cases h
  | some target =>
    simp only [hr] at h ⊢
    by_cases h5 : target.scheme ≠ "https".toList
    · simp only [if_pos h5] at h
      cases h
    by_cases h6 : target.valid = false
    · simp only [if_neg h5, if_pos h6] at h
      cases h
    simp only [if_neg h5, if_neg h6]
    exact ⟨target, rfl, rfl, by rw [decide_eq_true_iff, origin_ne_iff]⟩

theorem Url.normalized_origin (u : Url) : u.normalized.origin = u.origin := by
  rw [Url.origin, Url.origin, Url.normalized_effectivePort]
  rfl

theorem Url.normalized_normalized (u : Url) : u.normalized.normalized = u.normalized := by
  have hport : u.normalized.normalized.port = u.normalized.port := by
    change (if u.normalized.effectivePort = defaultPort u.scheme then 0 else u.normalized.port) = _
    rw [Url.normalized_effectivePort]
    unfold Url.normalized
    split_ifs <;> rfl
  have hpath : u.normalized.normalized.path = u.normalized.path := by
    rw [Url.normalized_path, Url.normalized_path]
    split_ifs with hempty hslash
    · cases hslash
    · rfl
    · rfl
  have hrest : u.normalized.normalized =
      { u.normalized with
        port := u.normalized.normalized.port, path := u.normalized.normalized.path } := rfl
  rw [hrest, hport, hpath]

theorem Url.normalized_queryComponent (u : Url) :
    u.normalized.queryComponent = u.queryComponent := rfl

section

variable {base target : Url} {r : Reference}

/-- Reparsing a target with its own scheme or authority. -/
theorem NamedTarget.denotes (h : NamedTarget net base r target)
    (hdots : ∀ s ∈ segments r.path.tail, ¬ IsDots s) :
    Denotes net target.normalized (resolve base.toReference r) := by
  obtain ⟨scheme, auth, hscheme, hauth, hres⟩ := h.resolved
  have hpath : removeDots target.path = target.path := by
    rcases h.wellFormed.path_head with hnil | ⟨t, ht⟩
    · rw [hnil, removeDots_nil]
    · rw [h.path, ht] at hdots
      rw [ht, removeDots_eq_self_iff]
      exact hdots
  rw [hres, hpath]
  refine ⟨⟨scheme, rfl, ?_⟩, ⟨auth, target.port, rfl, hauth, ?_⟩, rfl, rfl⟩
  · rw [show target.normalized.scheme = "https".toList from h.wellFormed.scheme]
    exact hscheme
  · rw [Url.normalized_effectivePort]
    rfl

theorem NamedTarget.dots_of_denotes (h : NamedTarget net base r target)
    (hd : Denotes net target.normalized (resolve base.toReference r)) :
    ∀ s ∈ segments r.path.tail, ¬ IsDots s := by
  obtain ⟨scheme, auth, -, -, hres⟩ := h.resolved
  have hpath := hd.path
  rw [hres] at hpath
  rw [h.path]
  rcases h.wellFormed.path_head with hnil | ⟨t, ht⟩
  · rw [hnil]
    decide +kernel
  · obtain ⟨t', ht'⟩ := removeDots_rooted_head t
    rw [Url.normalized_path, ht, ht', if_neg (by simp), if_neg (by simp), ← ht'] at hpath
    rw [ht]
    exact (removeDots_eq_self_iff t).mp hpath.symm

theorem NamedTarget.resolvesTo_iff (h : NamedTarget net base r target) {crossOrigin : Bool}
    (hcross : crossOrigin = true ↔ target.origin ≠ base.origin) :
    (∃ u, ResolvesTo net base r target.toString crossOrigin u) ↔
      ∀ s ∈ segments r.path.tail, ¬ IsDots s := by
  have hparse := h.wellFormed.parse_toString
  constructor
  · rintro ⟨u, hu⟩
    obtain rfl : target.normalized = u := Option.some.inj (hparse.symm.trans hu.parses)
    exact h.dots_of_denotes hu.denotes
  · intro hdots
    refine ⟨target.normalized, hparse, h.denotes hdots, ?_, ?_⟩
    · intro hs ha
      rcases h.named with hn | hn
      · simp [hs] at hn
      · simp [ha] at hn
    · rw [Url.normalized_origin, hcross]

theorem RelativeTarget.denotes (hbase : base.WellFormed net) (h : RelativeTarget base r target)
    (hgood : Bare base r → popsFirst (segments r.path) = true) :
    Denotes net target.normalized (resolve base.toReference r) := by
  have hpath := h.path_eq hbase hgood
  have hquery := h.query_eq
  obtain ⟨ref, -, -, -, htarget⟩ := h.computed
  obtain ⟨hs, hh, hp⟩ := resolveRelative_origin base ref
  rw [← htarget] at hs hh hp
  have hauthority := Url.parseAuthority_authority hbase.host hbase.port
  have heff : target.effectivePort = base.effectivePort := by
    rw [Url.effectivePort, Url.effectivePort, hp, hs]
  refine ⟨⟨base.scheme, ?_, ?_⟩, ⟨base.authority, base.normalized.port, ?_, ?_, ?_⟩, ?_, ?_⟩
  · rw [h.resolve_eq]
  · rw [show target.normalized.scheme = base.scheme from hs, hbase.scheme]
    decide
  · rw [h.resolve_eq]
  · rw [hauthority, show target.normalized.host = base.host from hh]
  · rw [Url.normalized_effectivePort, heff, ← Url.normalized_effectivePort base]
    unfold Url.effectivePort
    rw [show target.normalized.scheme = base.scheme from hs]
    rfl
  · rw [Url.normalized_path]
    rcases hpath with heq | ⟨hnil, hroot⟩
    · rw [heq]
    · rw [hnil, hroot]
      rfl
  · rw [Url.normalized_queryComponent, hquery]

/-- What the printed target parses to is the resolved one exactly for these references. -/
theorem RelativeTarget.denotes_iff (hbase : base.WellFormed net) (h : RelativeTarget base r target)
    {u : Url} (hu : parseUrl net target.toString = some u) :
    Denotes net u.normalized (resolve base.toReference r) ↔
      UriTarget (resolve base.toReference r) ∧
        (Bare base r → popsFirst (segments r.path) = true) := by
  by_cases hgood : Bare base r → popsFirst (segments r.path) = true
  · have huri : UriTarget (resolve base.toReference r) :=
      (h.parse_toString hbase hgood).2 (by rw [hu]; rfl)
    obtain rfl : target.normalized = u :=
      Option.some.inj (((h.parse_toString hbase hgood).1 huri).symm.trans hu)
    rw [Url.normalized_normalized]
    exact ⟨fun _ => ⟨huri, hgood⟩, fun _ => h.denotes hbase hgood⟩
  · refine ⟨fun hdenotes => ?_, fun hletter => absurd hletter.2 hgood⟩
    -- the reparsed path is too short to be the resolved one
    rw [Classical.not_imp, Bool.not_eq_true] at hgood
    obtain ⟨hpath, hne⟩ := h.path_bad hgood.1 hgood.2
    have hlen := h.length_path_le hbase hne hu
    have hpos := List.length_pos_of_ne_nil hne
    have hresolved := congrArg List.length hdenotes.path
    rw [hpath, if_neg (by simp), Url.normalized_path, List.length_cons] at hresolved
    split_ifs at hresolved
    · rw [List.length_singleton] at hresolved
      omega
    · omega

theorem RelativeTarget.origin_eq (h : RelativeTarget base r target) :
    target.origin = base.origin := by
  obtain ⟨ref, -, -, -, rfl⟩ := h.computed
  obtain ⟨hs, hh, hp⟩ := resolveRelative_origin base ref
  rw [Url.origin, Url.origin, Url.effectivePort, Url.effectivePort, hs, hh, hp]

theorem RelativeTarget.resolvesTo_iff (hbase : base.WellFormed net)
    (h : RelativeTarget base r target) {crossOrigin : Bool}
    (hcross : crossOrigin = true ↔ target.origin ≠ base.origin) :
    (∃ u, ResolvesTo net base r target.toString crossOrigin u) ↔
      UriTarget (resolve base.toReference r) ∧
        (Bare base r → popsFirst (segments r.path) = true) := by
  constructor
  · rintro ⟨u, hu⟩
    by_cases hgood : Bare base r → popsFirst (segments r.path) = true
    · exact ⟨(h.parse_toString hbase hgood).2 (by rw [hu.parses]; rfl), hgood⟩
    · -- the reparsed path is too short to be the resolved one
      rw [Classical.not_imp, Bool.not_eq_true] at hgood
      obtain ⟨hpath, hne⟩ := h.path_bad hgood.1 hgood.2
      have hlen := h.length_path_le hbase hne hu.parses
      have hu' := hu.denotes.path
      rw [hpath, if_neg (by simp)] at hu'
      rw [hu'] at hlen
      simp only [List.length_cons] at hlen
      omega
  · rintro ⟨huri, hgood⟩
    have horigin := h.origin_eq
    refine ⟨target.normalized, (h.parse_toString hbase hgood).1 huri, h.denotes hbase hgood, ?_, ?_⟩
    · intro _ _
      rw [← Url.normalized_origin target] at horigin
      simp only [Url.origin, Prod.mk.injEq] at horigin
      exact horigin.2
    · rw [Url.normalized_origin, hcross]

end

/-- A followed redirect leads where RFC 3986 says exactly when the reference is
one of those `FollowedToTheLetter` describes. -/
theorem evaluate_resolvesTo_iff (net : InetPton) {raw : Str} {base : Url}
    (hbase : parseUrl net raw = some base) (method : Str) (resp : Response) (auto : Bool)
    (remaining : ℕ) (hfollow : (evaluate net method base resp auto remaining).follow = true) :
    (∃ u, ResolvesTo net base (split (resp.headers.get "location".toList))
        (evaluate net method base resp auto remaining).newUrl
        (evaluate net method base resp auto remaining).crossOrigin u) ↔
      FollowedToTheLetter base (split (resp.headers.get "location".toList)) := by
  have hwf := Url.parseUrl_wellFormed hbase
  obtain ⟨target, hres, hurl, hcross⟩ := evaluate_follow hfollow
  rw [hurl]
  rcases resolveReference_cases hwf hres with h | h
  · rw [h.resolvesTo_iff hcross, FollowedToTheLetter, if_pos h.named]
  · rw [h.resolvesTo_iff hwf hcross, FollowedToTheLetter, if_neg]
    rw [h.scheme, h.authority]
    simp

/-- A platform that accepts no IPv6 literal. -/
def noLiterals : InetPton := ⟨fun _ => false, fun _ => false, by simp⟩

def foundAt (location : Str) : Response :=
  { statusCode := 302, headers := [⟨"location".toList, location⟩] }

/-- `https://a.test` with the given path. -/
def urlAt (path : Str) : Url := ⟨"https".toList, "a.test".toList, 0, path, [], false⟩

theorem evaluate_resolvesTo_sibling :
    ∃ u, ResolvesTo noLiterals (urlAt "/x/y".toList) (split "../z?q".toList)
      (evaluate noLiterals "GET".toList (urlAt "/x/y".toList) (foundAt "../z?q".toList) true 5).newUrl
      (evaluate noLiterals "GET".toList (urlAt "/x/y".toList) (foundAt "../z?q".toList) true
        5).crossOrigin u :=
  (evaluate_resolvesTo_iff noLiterals
    (show parseUrl noLiterals "https://a.test/x/y".toList = some (urlAt "/x/y".toList) by
      decide +kernel)
    "GET".toList (foundAt "../z?q".toList) true 5 (by decide +kernel)).mpr
    ⟨⟨by decide +kernel, by decide +kernel⟩, fun h => absurd h.1 (by decide)⟩

/-- From `https://a.test`, the reference `foo` leads to the host `a.testfoo`. -/
theorem evaluate_bare_base :
    parseUrl noLiterals "https://a.test".toList = some (urlAt []) ∧
      (evaluate noLiterals "GET".toList (urlAt []) (foundAt "foo".toList) true 5).follow = true ∧
      ¬ ∃ u, ResolvesTo noLiterals (urlAt []) (split "foo".toList)
        (evaluate noLiterals "GET".toList (urlAt []) (foundAt "foo".toList) true 5).newUrl
        (evaluate noLiterals "GET".toList (urlAt []) (foundAt "foo".toList) true 5).crossOrigin
        u := by
  refine ⟨by decide +kernel, by decide +kernel, ?_⟩
  rintro ⟨u, hu⟩
  have hparse : parseUrl noLiterals
      (evaluate noLiterals "GET".toList (urlAt []) (foundAt "foo".toList) true 5).newUrl =
      some ⟨"https".toList, "a.testfoo".toList, 0, [], [], false⟩ := by decide +kernel
  obtain rfl := Option.some.inj (hparse.symm.trans hu.parses)
  have hhost := (hu.stays (by decide +kernel) (by decide +kernel)).1
  revert hhost
  decide

end KatHttp3
