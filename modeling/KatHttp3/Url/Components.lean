import KatHttp3.Library.Rfc3986
import KatHttp3.Url.Redirect
import KatHttp3.Url.RoundTrip

/-!
# The components of an accepted URL

The scans of `parse_url` cut a URL where RFC 3986 does, so the fields of the
result are the components of the text.
-/

namespace KatHttp3

open Str Rfc3986

theorem upTo_findIdx (p : Char → Bool) (s : Str) :
    upTo s (s.findIdx? p) = s.takeWhile (! p ·) := by
  induction s with
  | nil => rfl
  | cons c s ih =>
    rw [List.findIdx?_cons, List.takeWhile_cons]
    cases hp : p c with
    | true => rfl
    | false =>
      cases hf : s.findIdx? p with
      | none => simpa [hf, upTo] using ih
      | some i => simpa [hf, upTo] using ih

theorem startingAt_findIdx (p : Char → Bool) (s : Str) :
    startingAt s (s.findIdx? p) = s.dropWhile (! p ·) := by
  induction s with
  | nil => rfl
  | cons c s ih =>
    rw [List.findIdx?_cons, List.dropWhile_cons]
    cases hp : p c with
    | true => rfl
    | false =>
      cases hf : s.findIdx? p with
      | none => simpa [hf, startingAt] using ih
      | some i => simpa [hf, startingAt] using ih

theorem upTo_findFirstOf_eq (s set : Str) : upTo s (findFirstOf s set) = before set s :=
  upTo_findIdx _ s

theorem startingAt_findFirstOf_eq (s set : Str) : startingAt s (findFirstOf s set) = since set s :=
  startingAt_findIdx _ s

theorem find_eq_findFirstOf (s : Str) (c : Char) : find s c = findFirstOf s [c] := by
  simp only [find, findFirstOf, List.contains_cons, List.contains_nil, Bool.or_false]

theorem upTo_find (s : Str) (c : Char) : upTo s (find s c) = before [c] s := by
  rw [find_eq_findFirstOf, upTo_findFirstOf_eq]

theorem startingAt_find_succ (s : Str) (c : Char) :
    startingAt s ((find s c).map (· + 1)) = (since [c] s).tail := by
  rw [find_eq_findFirstOf, ← startingAt_findFirstOf_eq]
  cases findFirstOf s [c] with
  | none => rfl
  | some i =>
    change s.drop (i + 1) = (s.drop i).tail
    rw [List.tail_drop]

theorem find_isSome_iff (s : Str) (c : Char) : (find s c).isSome = true ↔ since [c] s ≠ [] := by
  rw [find_eq_findFirstOf, ← startingAt_findFirstOf_eq]
  cases h : findFirstOf s [c] with
  | none => simp [startingAt]
  | some i =>
    obtain ⟨hi, -⟩ := List.findIdx?_eq_some_iff_getElem.mp h
    simp only [Option.isSome_some, startingAt, ne_eq, List.drop_eq_nil_iff, true_iff]
    omega

namespace Url

def queryComponent (u : Url) : Option Str := if u.queryPresent then some u.query else none

def toReference (u : Url) : Reference where
  scheme := some u.scheme
  authority := some u.authority
  path := u.path
  query := u.queryComponent

end Url

theorem httpsScheme_notMem {scheme : Str} (h : httpsScheme scheme = true) :
    scheme ≠ [] ∧ ∀ c ∈ scheme, c ∉ [':', '/', '?', '#'] := by
  unfold httpsScheme asciiIequals at h
  rw [beq_iff_eq] at h
  constructor
  · rintro rfl
    exact absurd h (by decide)
  · intro c hc hmem
    have hlower : c.toLower ∈ asciiLower "https".toList := by
      rw [← h]
      exact List.mem_map_of_mem hc
    have hcases : c = ':' ∨ c = '/' ∨ c = '?' ∨ c = '#' := by simpa using hmem
    rcases hcases with rfl | rfl | rfl | rfl <;> revert hlower <;> decide

theorem parseRest_components {rest path query : Str} {present : Bool}
    (h : parseRest rest = some (path, query, present)) :
    path = before ['?'] (before ['#'] rest) ∧
      (if present then some query else none) = queryOf (before ['#'] rest) := by
  obtain ⟨-, -, -, hpath, hquery, hpresent⟩ := Url.parseRest_eq_some h
  rw [upTo_find rest '#'] at hpath hquery hpresent
  refine ⟨by rw [hpath, upTo_find], ?_⟩
  rw [startingAt_find_succ] at hquery
  have hsome := find_isSome_iff (before ['#'] rest) '?'
  unfold queryOf
  cases hs : since ['?'] (before ['#'] rest) with
  | nil =>
    rw [hs] at hsome
    simp [hpresent, hsome]
  | cons c t =>
    rw [hs] at hsome hquery
    have : (find (before ['#'] rest) '?').isSome = true := hsome.mpr (by simp)
    simp [hpresent, this, hquery]

/-- The fields of an accepted URL are the components of its text. -/
theorem split_of_parseUrl {net : InetPton} {raw : Str} {u : Url} (h : parseUrl net raw = some u) :
    ∃ scheme auth, split raw = ⟨some scheme, some auth, u.path, u.queryComponent⟩ ∧
      httpsScheme scheme = true ∧ parseAuthority net auth = some (u.host, u.port) := by
  obtain ⟨scheme, tail, hraw, -, hs, -, ha, hr⟩ := Url.parseUrl_eq_some h
  obtain ⟨hne, hnot⟩ := httpsScheme_notMem hs
  have hkept : before ['#'] raw = scheme ++ ':' :: '/' :: '/' :: before ['#'] tail := by
    rw [hraw, before, List.takeWhile_append_of_pos]
    · rfl
    · intro c hc
      have hhash : c ≠ '#' := fun heq => hnot c hc (by simp [heq])
      simp [hhash]
  obtain ⟨hbefore, hsince⟩ := before_before ['/', '?'] ['#'] tail
  have hset : ['/', '?'] ++ ['#'] = "/?#".toList := rfl
  rw [hset] at hbefore hsince
  rw [upTo_findFirstOf_eq, ← hbefore] at ha
  rw [startingAt_findFirstOf_eq] at hr
  obtain ⟨hpath, hquery⟩ := parseRest_components hr
  rw [← hsince] at hpath hquery
  refine ⟨scheme, before ['/', '?'] (before ['#'] tail), ?_, hs, ha⟩
  rw [← split_fragment, hkept, split_absolute hne hnot (notMem_before (by simp)), splitPath, ← hpath,
    ← hquery]
  rfl

/-- A reference without scheme and authority keeps its text as path and query. -/
theorem hasValidScheme_false {ref : Str} (h : hasValidScheme ref = some false) (hf : '#' ∉ ref) :
    split ref = splitAuthority {} ref := by
  rw [split_eq hf]
  split
  · rename_i c scheme tail hbefore hsince
    have href : ref = (c :: scheme) ++ ':' :: tail := by
      rw [← hbefore, ← hsince, before_append_since]
    have hstops {x : Char} (hx : x ∈ [':', '/', '?']) : x ∉ c :: scheme := by
      rw [← hbefore]
      exact notMem_before hx
    have hcolon : find ref ':' = some (c :: scheme).length := by
      rw [href]
      exact find_append_cons (hstops (by simp))
    have hlater : (findFirstOf ref "/?#".toList).any (· < (c :: scheme).length) = false := by
      rw [Bool.eq_false_iff]
      intro hany
      obtain ⟨d, hd, hlt⟩ := (Option.any_eq_true _ _).mp hany
      obtain ⟨x, hx, hmem⟩ := findFirstOf_before hd (of_decide_eq_true hlt)
      have hpre : ref.take (c :: scheme).length = c :: scheme := by rw [href, List.take_left]
      rw [hpre] at hx
      have hcases : x = '/' ∨ x = '?' ∨ x = '#' := by simpa using hmem
      rcases hcases with rfl | rfl | rfl
      · exact hstops (by simp) hx
      · exact hstops (by simp) hx
      · exact hf (by rw [href]; exact List.mem_append_left _ hx)
    unfold hasValidScheme at h
    simp only [hcolon, hlater, Bool.false_eq_true, if_false] at h
    split_ifs at h <;> cases h
  · rfl

end KatHttp3
