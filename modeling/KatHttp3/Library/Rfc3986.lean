import Mathlib.Data.List.DropRight
import Mathlib.Tactic

/-!
# URI references

Splitting a reference into its components (RFC 3986, appendix B), resolving it
against a base (section 5.2), and removing dot segments. Removal is stated on
the list of segments of a path, with a stack, rather than on a text buffer.
-/

namespace Rfc3986

abbrev Text := List Char

/-! ### Segments of a rooted path -/

def dot : Text := ['.']

def dotDot : Text := ['.', '.']

@[simp] theorem dotDot_ne_dot : dotDot ≠ dot := by decide

def IsDots (s : Text) : Prop := s = dot ∨ s = dotDot

instance (s : Text) : Decidable (IsDots s) := inferInstanceAs (Decidable (_ ∨ _))

/-- The segments of a rooted path, given what follows its first slash. -/
def segments (path : Text) : List Text := path.splitOn '/'

/-- The rooted path with these segments. -/
def join (segs : List Text) : Text := segs.flatMap fun s => '/' :: s

@[simp] theorem join_nil : join [] = [] := rfl

@[simp] theorem join_cons (s : Text) (segs : List Text) : join (s :: segs) = '/' :: s ++ join segs := rfl

@[simp] theorem join_append (xs ys : List Text) : join (xs ++ ys) = join xs ++ join ys :=
  List.flatMap_append

theorem segments_ne_nil (path : Text) : segments path ≠ [] := List.splitOn_ne_nil _ _

theorem slash_notMem_of_mem_segments {path s : Text} (h : s ∈ segments path) : '/' ∉ s := by
  induction path generalizing s with
  | nil =>
    simp only [segments, List.splitOn_nil, List.mem_singleton] at h
    simp [h]
  | cons c path ih =>
    rw [segments, List.splitOn_cons_eq_if_modifyHead] at h
    split_ifs at h with hc
    · rcases List.mem_cons.mp h with rfl | h
      · simp
      · exact ih h
    · obtain ⟨head, tail, hht⟩ := List.exists_cons_of_ne_nil (List.splitOn_ne_nil '/' path)
      rw [hht, List.modifyHead_cons] at h
      have hmem : ∀ x ∈ head :: tail, '/' ∉ x := fun x hx => ih (by rw [segments, hht]; exact hx)
      rcases List.mem_cons.mp h with rfl | h
      · have := hmem head List.mem_cons_self
        simp only [List.mem_cons, not_or]
        exact ⟨fun hs => hc (by rw [← hs]; rfl), this⟩
      · exact hmem s (List.mem_cons_of_mem _ h)

theorem join_segments (path : Text) : join (segments path) = '/' :: path := by
  induction path with
  | nil => rfl
  | cons c path ih =>
    rw [segments, List.splitOn_cons_eq_if_modifyHead]
    split_ifs with hc
    · obtain rfl : c = '/' := by simpa using hc
      change '/' :: [] ++ join (segments path) = _
      rw [ih]
      rfl
    · obtain ⟨head, tail, hht⟩ := List.exists_cons_of_ne_nil (segments_ne_nil path)
      rw [hht] at ih
      change join (List.modifyHead (c :: ·) (segments path)) = _
      rw [hht, List.modifyHead_cons, join_cons]
      simpa using ih

theorem mem_segments_rooted {path s : Text} (h : s ∈ segments ('/' :: path)) :
    s = [] ∨ s ∈ segments path := by
  rw [segments, List.splitOn_cons_eq_if_modifyHead, if_pos (beq_self_eq_true _)] at h
  exact List.mem_cons.mp h

theorem segments_join {s : Text} {segs : List Text} (h : ∀ x ∈ s :: segs, '/' ∉ x) :
    segments (s ++ join segs) = s :: segs := by
  induction segs generalizing s with
  | nil =>
    rw [join_nil, List.append_nil]
    exact List.splitOn_eq_singleton (h s List.mem_cons_self)
  | cons t segs ih =>
    rw [join_cons, List.cons_append, segments,
      List.splitOn_append_cons_self_of_not_mem (h s List.mem_cons_self)]
    congr 1
    exact ih fun x hx => h x (List.mem_cons_of_mem _ hx)

/-! ### Removing dot segments -/

/-- Segments kept on a stack: `.` is dropped, `..` pops, and either of them at
the end leaves an empty last segment. -/
def stackSegments : List Text → List Text → List Text
  | stack, [] => stack
  | stack, [s] =>
    if s = dot then stack ++ [[]]
    else if s = dotDot then stack.dropLast ++ [[]]
    else stack ++ [s]
  | stack, s :: t :: rest =>
    if s = dot then stackSegments stack (t :: rest)
    else if s = dotDot then stackSegments stack.dropLast (t :: rest)
    else stackSegments (stack ++ [s]) (t :: rest)

/-- Removal of the dot segments of a path that is empty or rooted. -/
def removeDots (path : Text) : Text :=
  if path = [] then [] else join (stackSegments [] (segments path.tail))

@[simp] theorem removeDots_nil : removeDots [] = [] := rfl

theorem removeDots_rooted (path : Text) :
    removeDots ('/' :: path) = join (stackSegments [] (segments path)) := rfl

theorem stackSegments_of_forall {segs : List Text} (stack : List Text)
    (h : ∀ s ∈ segs, ¬ IsDots s) : stackSegments stack segs = stack ++ segs := by
  induction segs generalizing stack with
  | nil => simp [stackSegments]
  | cons s segs ih =>
    have hs := not_or.mp (h s List.mem_cons_self)
    cases segs with
    | nil => simp [stackSegments, hs.1, hs.2]
    | cons t rest =>
      have := ih (stack ++ [s]) fun x hx => h x (List.mem_cons_of_mem _ hx)
      simp only [stackSegments, if_neg hs.1, if_neg hs.2, this, List.append_assoc]
      rfl

theorem stackSegments_ne_nil {segs : List Text} (stack : List Text) (h : segs ≠ []) :
    stackSegments stack segs ≠ [] := by
  induction segs generalizing stack with
  | nil => exact absurd rfl h
  | cons s segs ih =>
    cases segs with
    | nil =>
      unfold stackSegments
      split_ifs <;> simp
    | cons t rest =>
      unfold stackSegments
      split_ifs <;> exact ih _ (by simp)

/-- Every segment that stays comes from the stack or the input, or is the empty
one that a final dot segment leaves. -/
theorem mem_stackSegments {segs stack : List Text} {s : Text} (h : s ∈ stackSegments stack segs) :
    s ∈ stack ∨ s = [] ∨ (s ∈ segs ∧ ¬ IsDots s) := by
  induction segs generalizing stack with
  | nil => exact Or.inl h
  | cons a segs ih =>
    cases segs with
    | nil =>
      unfold stackSegments at h
      split_ifs at h with h1 h2
      · simp only [List.mem_append, List.mem_singleton] at h
        tauto
      · simp only [List.mem_append, List.mem_singleton] at h
        exact h.imp List.mem_of_mem_dropLast Or.inl
      · simp only [List.mem_append, List.mem_singleton] at h
        rcases h with h | rfl
        · exact Or.inl h
        · exact Or.inr (Or.inr ⟨by simp, not_or.mpr ⟨h1, h2⟩⟩)
    | cons b rest =>
      have hrest {stack' : List Text} (h : s ∈ stackSegments stack' (b :: rest)) :
          s ∈ stack' ∨ s = [] ∨ (s ∈ a :: b :: rest ∧ ¬ IsDots s) :=
        (ih h).imp id (Or.imp id (And.imp (List.mem_cons_of_mem _) id))
      unfold stackSegments at h
      split_ifs at h with h1 h2
      · exact hrest h
      · exact (hrest h).imp List.mem_of_mem_dropLast id
      · rcases hrest h with h | h
        · simp only [List.mem_append, List.mem_singleton] at h
          rcases h with h | rfl
          · exact Or.inl h
          · exact Or.inr (Or.inr ⟨by simp, not_or.mpr ⟨h1, h2⟩⟩)
        · exact Or.inr h

/-- No dot segment is left. -/
theorem not_isDots_of_mem_stackSegments {segs : List Text} {s : Text}
    (h : s ∈ stackSegments [] segs) : ¬ IsDots s := by
  rcases mem_stackSegments h with h | rfl | h
  · cases h
  · simp [IsDots, dot, dotDot]
  · exact h.2

theorem mem_join {segs : List Text} {c : Char} (h : c ∈ join segs) :
    c = '/' ∨ ∃ s ∈ segs, c ∈ s := by
  obtain ⟨s, hs, hc⟩ := List.mem_flatMap.mp h
  exact (List.mem_cons.mp hc).imp id fun hc => ⟨s, hs, hc⟩

theorem mem_of_mem_segments {path s : Text} {c : Char} (hs : s ∈ segments path) (hc : c ∈ s) :
    c ∈ path := by
  have hjoin : c ∈ join (segments path) :=
    List.mem_flatMap.mpr ⟨s, hs, List.mem_cons_of_mem _ hc⟩
  rw [join_segments] at hjoin
  rcases List.mem_cons.mp hjoin with rfl | hmem
  · exact absurd hc (slash_notMem_of_mem_segments hs)
  · exact hmem

/-- Removal brings in no new character but the slash. -/
theorem mem_removeDots {path : Text} {c : Char} (h : c ∈ removeDots path) :
    c = '/' ∨ c ∈ path := by
  cases path with
  | nil => cases h
  | cons d path =>
    rcases mem_join h with rfl | ⟨s, hs, hc⟩
    · exact Or.inl rfl
    · rcases mem_stackSegments hs with hs | rfl | hs
      · cases hs
      · cases hc
      · exact Or.inr (List.mem_cons_of_mem _ (mem_of_mem_segments hs.1 hc))

theorem removeDots_rooted_head (path : Text) : ∃ t, removeDots ('/' :: path) = '/' :: t := by
  obtain ⟨s, segs, h⟩ :=
    List.exists_cons_of_ne_nil (stackSegments_ne_nil [] (segments_ne_nil path))
  exact ⟨s ++ join segs, by rw [removeDots_rooted, h]; rfl⟩

/-- What is left has the segments that are left on the stack. -/
theorem segments_of_removeDots {path rest : Text} (h : removeDots ('/' :: path) = '/' :: rest) :
    segments rest = stackSegments [] (segments path) := by
  obtain ⟨a, segs, hst⟩ :=
    List.exists_cons_of_ne_nil (stackSegments_ne_nil [] (segments_ne_nil path))
  have hno : ∀ s ∈ a :: segs, '/' ∉ s := by
    intro s hs
    rw [← hst] at hs
    rcases mem_stackSegments hs with hs | rfl | hs
    · cases hs
    · simp
    · exact slash_notMem_of_mem_segments hs.1
  rw [removeDots_rooted, hst, join_cons] at h
  have hrest : a ++ join segs = rest := by simpa using h
  rw [← hrest, segments_join hno, hst]

theorem not_isDots_of_removeDots {path rest s : Text} (h : removeDots ('/' :: path) = '/' :: rest)
    (hs : s ∈ segments rest) : ¬ IsDots s := by
  rw [segments_of_removeDots h] at hs
  exact not_isDots_of_mem_stackSegments hs

/-- A rooted path is unchanged exactly when it has no dot segment. -/
theorem removeDots_eq_self_iff (path : Text) :
    removeDots ('/' :: path) = '/' :: path ↔ ∀ s ∈ segments path, ¬ IsDots s := by
  constructor
  · intro h s hs
    exact not_isDots_of_removeDots h hs
  · intro h
    rw [removeDots_rooted, stackSegments_of_forall [] h, List.nil_append, join_segments]

/-! ### References -/

/-- The components of a reference; the fragment is not kept. -/
structure Reference where
  scheme : Option Text := none
  authority : Option Text := none
  path : Text := []
  query : Option Text := none
  deriving DecidableEq

/-- Everything before the first character of `stops`. -/
def before (stops s : Text) : Text := s.takeWhile (! stops.contains ·)

/-- Everything from the first character of `stops` on. -/
def since (stops s : Text) : Text := s.dropWhile (! stops.contains ·)

theorem notMem_before {set s : Text} {c : Char} (h : c ∈ set) : c ∉ before set s := by
  intro hmem
  have := List.mem_takeWhile_imp hmem
  simp [h] at this

theorem before_of_forall {set s : Text} (h : ∀ c ∈ s, c ∉ set) : before set s = s := by
  rw [before, List.takeWhile_eq_self_iff]
  intro c hc
  simpa using h c hc

theorem before_append_cons {set a t : Text} {c : Char} (ha : ∀ x ∈ a, x ∉ set) (hc : c ∈ set) :
    before set (a ++ c :: t) = a := by
  rw [before, List.takeWhile_append_of_pos (by intro x hx; simpa using ha x hx),
    List.takeWhile_cons_of_neg (by simpa using hc), List.append_nil]

theorem since_append_cons {set a t : Text} {c : Char} (ha : ∀ x ∈ a, x ∉ set) (hc : c ∈ set) :
    since set (a ++ c :: t) = c :: t := by
  rw [since, List.dropWhile_append_of_pos (by intro x hx; simpa using ha x hx),
    List.dropWhile_cons_of_neg (by simpa using hc)]

theorem before_append_since (set s : Text) : before set s ++ since set s = s :=
  List.takeWhile_append_dropWhile

theorem mem_of_mem_since {set s : Text} {c : Char} (h : c ∈ since set s) : c ∈ s :=
  (List.dropWhile_sublist _).mem h

theorem mem_of_mem_before {set s : Text} {c : Char} (h : c ∈ before set s) : c ∈ s :=
  (List.takeWhile_sublist _).mem h

/-- Stopping in what comes before other stops. -/
theorem before_before (set stops s : Text) :
    before set (before stops s) = before (set ++ stops) s ∧
      since set (before stops s) = before stops (since (set ++ stops) s) := by
  induction s with
  | nil => exact ⟨rfl, rfl⟩
  | cons x s ih =>
    obtain ⟨hbefore, hsince⟩ := ih
    unfold before since at *
    by_cases hstops : stops.contains x = true
    · have hboth : (set ++ stops).contains x = true := by simp_all
      simp only [List.takeWhile_cons, List.dropWhile_cons, hstops, hboth, Bool.not_true,
        Bool.false_eq_true, if_false, List.takeWhile_nil, List.dropWhile_nil, and_self]
    · rw [Bool.not_eq_true] at hstops
      have hboth : (set ++ stops).contains x = set.contains x := by simp_all
      cases hset : set.contains x with
      | true =>
        simp only [List.takeWhile_cons, List.dropWhile_cons, hstops, hboth, hset, Bool.not_true,
          Bool.not_false, Bool.false_eq_true, if_false, if_true, and_self]
      | false =>
        simp only [List.takeWhile_cons, List.dropWhile_cons, hstops, hboth, hset, Bool.not_false,
          if_true, hbefore, hsince, and_self]

/-- The query of a text free of `#`, if it has one. -/
def queryOf (s : Text) : Option Text :=
  match since ['?'] s with
  | [] => none
  | _ :: query => some query

/-- Path and query, the text being free of `#`. -/
def splitPath (r : Reference) (s : Text) : Reference :=
  { r with path := before ['?'] s, query := queryOf s }

/-- Authority, path and query. -/
def splitAuthority (r : Reference) (s : Text) : Reference :=
  match s with
  | '/' :: '/' :: tail =>
    splitPath { r with authority := some (before ['/', '?'] tail) } (since ['/', '?'] tail)
  | _ => splitPath r s

/-- The components of a reference. -/
def split (s : Text) : Reference :=
  let s := before ['#'] s
  match before [':', '/', '?'] s, since [':', '/', '?'] s with
  | c :: scheme, ':' :: tail => splitAuthority { scheme := some (c :: scheme) } tail
  | _, _ => splitAuthority {} s

theorem split_eq {s : Text} (hf : '#' ∉ s) :
    split s =
      match before [':', '/', '?'] s, since [':', '/', '?'] s with
      | c :: scheme, ':' :: tail => splitAuthority { scheme := some (c :: scheme) } tail
      | _, _ => splitAuthority {} s := by
  have h : before ['#'] s = s :=
    before_of_forall fun c hc hmem => hf (List.mem_singleton.mp hmem ▸ hc)
  rw [split, h]

theorem split_absolute {scheme tail : Text} (hne : scheme ≠ [])
    (hs : ∀ c ∈ scheme, c ∉ [':', '/', '?', '#']) (hf : '#' ∉ tail) :
    split (scheme ++ ':' :: '/' :: '/' :: tail) =
      splitPath { scheme := some scheme, authority := some (before ['/', '?'] tail) }
        (since ['/', '?'] tail) := by
  have hstops : ∀ c ∈ scheme, c ∉ [':', '/', '?'] := by
    intro c hc hmem
    refine hs c hc ?_
    simp only [List.mem_cons] at hmem ⊢
    tauto
  have hhash : '#' ∉ scheme ++ ':' :: '/' :: '/' :: tail := by
    have : '#' ∉ scheme := fun hc => hs '#' hc (by simp)
    simp [this, hf]
  rw [split_eq hhash, before_append_cons hstops (by simp), since_append_cons hstops (by simp)]
  obtain ⟨c, scheme', rfl⟩ := List.exists_cons_of_ne_nil hne
  rfl

theorem split_network {tail : Text} (hf : '#' ∉ tail) :
    split ('/' :: '/' :: tail) =
      splitPath { authority := some (before ['/', '?'] tail) } (since ['/', '?'] tail) := by
  rw [split_eq (by simp [hf])]
  rfl

theorem split_fragment (s : Text) : split (before ['#'] s) = split s := by
  have h : '#' ∉ before ['#'] s := notMem_before (by simp)
  rw [split_eq h]
  rfl

/-- What precedes the last segment of a path, its slash included. -/
def directory (path : Text) : Text := path.rdropWhile (· != '/')

/-- A relative path put after the directory of the base. -/
def merge (base : Reference) (path : Text) : Text :=
  if base.authority.isSome ∧ base.path = [] then '/' :: path else directory base.path ++ path

/-- The target of a reference. -/
def resolve (base r : Reference) : Reference :=
  if r.scheme.isSome then { r with path := removeDots r.path }
  else if r.authority.isSome then { r with scheme := base.scheme, path := removeDots r.path }
  else
    { scheme := base.scheme
      authority := base.authority
      path :=
        if r.path = [] then base.path
        else if r.path.head? = some '/' then removeDots r.path
        else removeDots (merge base r.path)
      query := if r.path = [] ∧ r.query = none then base.query else r.query }

end Rfc3986
