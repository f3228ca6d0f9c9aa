import KatHttp3.Library.Rfc3986
import KatHttp3.Library.WhileLoop
import KatHttp3.Url.Redirect

/-!
# The dot-segment loop and the segment stack

On rooted paths the loop of `remove_dot_segments` computes what the segment
stack of RFC 3986 does. On a path without its leading slash it loses the slash
of the result, unless the first segment it keeps is popped again.
-/

namespace KatHttp3

open Str Rfc3986

theorem segmentEnd_ne_zero {input : Str} {i : ℕ} (h : segmentEnd input = some i) : i ≠ 0 := by
  unfold segmentEnd at h
  split_ifs at h with hhead
  · obtain ⟨j, -, rfl⟩ := Option.map_eq_some_iff.mp h
    omega
  · rintro rfl
    obtain ⟨hsplit, -⟩ := find_eq_some h
    rw [hsplit] at hhead
    simp at hhead

theorem dotSegmentTurn_shortens {input : Str} (output : Str) (h : input ≠ []) :
    (dotSegmentTurn input output).1.length < input.length := by
  have hpos := List.length_pos_iff.mpr h
  have hdrop {n : ℕ} (hn : n ≠ 0) : (input.drop n).length < input.length := by
    rw [List.length_drop]
    omega
  unfold dotSegmentTurn
  split_ifs with h1 h2 h3 h4 h5 h6 h7
  · exact hdrop (by omega)
  · exact hdrop (by omega)
  · exact hdrop (by omega)
  · simp [h4]
  · exact hdrop (by omega)
  · simp [h6]
  · exact hpos
  · cases hend : segmentEnd input with
    | none => exact hpos
    | some i => exact hdrop (segmentEnd_ne_zero hend)

theorem removeDotSegmentsLoop_succ (turns : ℕ) {input : Str} (output : Str) (h : input ≠ []) :
    removeDotSegmentsLoop (turns + 1) input output =
      removeDotSegmentsLoop turns (dotSegmentTurn input output).1
        (dotSegmentTurn input output).2 := by
  rw [removeDotSegmentsLoop, if_neg h]

theorem removeDotSegmentsLoop_nil (turns : ℕ) (output : Str) :
    removeDotSegmentsLoop turns [] output = output := by
  cases turns <;> simp [removeDotSegmentsLoop]

/-- The number of turns allowed does not matter once it covers the input. -/
theorem removeDotSegmentsLoop_turns {turns : ℕ} {input : Str} (output : Str)
    (h : input.length ≤ turns) :
    removeDotSegmentsLoop turns input output =
      removeDotSegmentsLoop input.length input output := by
  induction turns using Nat.strong_induction_on generalizing input output with
  | _ turns ih =>
    by_cases hnil : input = []
    · rw [hnil, removeDotSegmentsLoop_nil, removeDotSegmentsLoop_nil]
    · have hshort := dotSegmentTurn_shortens output hnil
      obtain ⟨n, hn⟩ := Nat.exists_eq_succ_of_ne_zero (List.length_pos_iff.mpr hnil).ne'
      obtain ⟨m, rfl⟩ := Nat.exists_eq_add_of_le' (show 1 ≤ turns by omega)
      rw [hn, Nat.succ_eq_add_one, removeDotSegmentsLoop_succ m output hnil,
        removeDotSegmentsLoop_succ n output hnil, ih m (by omega) _ (by omega)]
      by_cases hmn : n < m + 1
      · rw [ih n hmn _ (by omega)]
      · rw [show n = m by omega, ih m (by omega) _ (by omega)]

/-- The loop run to its end. -/
def dotLoop (input output : Str) : Str := removeDotSegmentsLoop input.length input output

theorem dotLoop_nil (output : Str) : dotLoop [] output = output := rfl

theorem dotLoop_turn {input : Str} (output : Str) (h : input ≠ []) :
    dotLoop input output =
      dotLoop (dotSegmentTurn input output).1 (dotSegmentTurn input output).2 := by
  have hshort := dotSegmentTurn_shortens output h
  obtain ⟨n, hn⟩ := Nat.exists_eq_succ_of_ne_zero (List.length_pos_iff.mpr h).ne'
  rw [dotLoop, hn, Nat.succ_eq_add_one, removeDotSegmentsLoop_succ n output h,
    removeDotSegmentsLoop_turns _ (by omega), dotLoop]

theorem removeLastSegment_append_cons {a s : Str} (h : '/' ∉ s) :
    removeLastSegment (a ++ '/' :: s) = a := by
  simp [removeLastSegment, rfind_append_cons h]

theorem removeLastSegment_notMem {s : Str} (h : '/' ∉ s) : removeLastSegment s = [] := by
  simp [removeLastSegment, rfind_eq_none.mpr h]

/-- Dropping the last of the slash-separated pieces after `first`. -/
theorem removeLastSegment_join (first : Str) {stack : List Str} (hne : stack ≠ [])
    (h : ∀ s ∈ stack, '/' ∉ s) :
    removeLastSegment (first ++ join stack) = first ++ join stack.dropLast := by
  obtain ⟨init, last, rfl⟩ := (List.eq_nil_or_concat' stack).resolve_left hne
  have hlast : join [last] = '/' :: last := by simp
  rw [join_append, hlast, ← List.append_assoc, removeLastSegment_append_cons (h last (by simp)),
    List.dropLast_concat]

theorem eq_of_append_join {w s t : Str} {segs : List Str} (hw : '/' ∉ w) (hs : '/' ∉ s)
    (h : w ++ '/' :: t = s ++ join segs) : w = s := by
  cases segs with
  | nil =>
    rw [join_nil, List.append_nil] at h
    exact absurd (by rw [← h]; simp) hs
  | cons a segs =>
    have hlen := congrArg (find · '/') h
    simp only [join_cons, List.cons_append, find_append_cons hw, find_append_cons hs,
      Option.some.injEq] at hlen
    exact (List.append_inj h hlen).1

theorem startsWith_slash {w s : Str} {segs : List Str} (hw : '/' ∉ w) (hs : '/' ∉ s)
    (hne : w ≠ s) : startsWith (s ++ join segs) (w ++ ['/']) = false := by
  rw [Bool.eq_false_iff]
  intro h
  obtain ⟨t, ht⟩ := List.isPrefixOf_iff_prefix.mp h
  rw [List.append_assoc] at ht
  exact hne (eq_of_append_join hw hs ht)

theorem append_join_ne {w s : Str} {segs : List Str} (hw : '/' ∉ w) (hne : w ≠ s) :
    s ++ join segs ≠ w := by
  rintro rfl
  cases segs with
  | nil => simp at hne
  | cons a segs => simp at hw

/-! ### One turn on a path given by its segments -/

theorem dotSegmentTurn_dot (output : Str) (segs : List Str) :
    dotSegmentTurn (join (dot :: segs)) output =
      (if segs = [] then ['/'] else join segs, output) := by
  cases segs <;> rfl

theorem dotSegmentTurn_dotDot (output : Str) (segs : List Str) :
    dotSegmentTurn (join (dotDot :: segs)) output =
      (if segs = [] then ['/'] else join segs, removeLastSegment output) := by
  cases segs <;> rfl

theorem segmentEnd_join {s : Str} (hs : '/' ∉ s) (segs : List Str) :
    segmentEnd ('/' :: s ++ join segs) = if segs = [] then none else some (s.length + 1) := by
  cases segs with
  | nil => simp [segmentEnd, find_eq_none.mpr hs]
  | cons a segs => simp [segmentEnd, find_append_cons hs]

/-- An ordinary segment of a rooted path moves to the output. -/
theorem dotSegmentTurn_ordinary {s : Str} (hs : '/' ∉ s) (hdots : ¬ IsDots s) (output : Str)
    (segs : List Str) :
    dotSegmentTurn (join (s :: segs)) output = (join segs, output ++ '/' :: s) := by
  have h1 : s ≠ dot := fun h => hdots (Or.inl h)
  have h2 : s ≠ dotDot := fun h => hdots (Or.inr h)
  have hone : startsWith (join (s :: segs)) "/./".toList = false :=
    startsWith_slash (w := dot) (by decide) hs h1.symm
  have htwo : startsWith (join (s :: segs)) "/../".toList = false :=
    startsWith_slash (w := dotDot) (by decide) hs h2.symm
  have hone' : join (s :: segs) ≠ "/.".toList := fun h =>
    append_join_ne (w := dot) (by decide) h1.symm (List.cons.inj h).2
  have htwo' : join (s :: segs) ≠ "/..".toList := fun h =>
    append_join_ne (w := dotDot) (by decide) h2.symm (List.cons.inj h).2
  have hrel : startsWith (join (s :: segs)) "../".toList = false := rfl
  have hrel' : startsWith (join (s :: segs)) "./".toList = false := rfl
  have hdot : ¬ (join (s :: segs) = ".".toList ∨ join (s :: segs) = "..".toList) := by
    rw [join_cons]
    simp
  rw [dotSegmentTurn, hrel, hrel', hone, htwo, if_neg (by simp), if_neg (by simp),
    if_neg (by simp), if_neg hone', if_neg (by simp), if_neg htwo', if_neg hdot, join_cons,
    segmentEnd_join hs]
  cases segs <;> simp

/-- Ordinary first piece of a path without leading slash. -/
theorem dotSegmentTurn_first {s : Str} (hs : '/' ∉ s) (hdots : ¬ IsDots s) (hne : s ≠ [])
    (segs : List Str) : dotSegmentTurn (s ++ join segs) [] = (join segs, s) := by
  have h1 : s ≠ dot := fun h => hdots (Or.inl h)
  have h2 : s ≠ dotDot := fun h => hdots (Or.inr h)
  have hhead : ∀ t, s ++ join segs ≠ '/' :: t := by
    intro t h
    obtain ⟨c, s', rfl⟩ := List.exists_cons_of_ne_nil hne
    obtain ⟨rfl, -⟩ := List.cons.inj h
    simp at hs
  have hrooted (t : Str) : startsWith (s ++ join segs) ('/' :: t) = false := by
    rw [Bool.eq_false_iff]
    intro h
    obtain ⟨u, hu⟩ := List.isPrefixOf_iff_prefix.mp h
    exact hhead (t ++ u) hu.symm
  have hrel : startsWith (s ++ join segs) "../".toList = false :=
    startsWith_slash (w := dotDot) (by decide) hs h2.symm
  have hrel' : startsWith (s ++ join segs) "./".toList = false :=
    startsWith_slash (w := dot) (by decide) hs h1.symm
  have hdot : ¬ (s ++ join segs = ".".toList ∨ s ++ join segs = "..".toList) :=
    not_or.mpr ⟨append_join_ne (w := dot) (by decide) h1.symm,
      append_join_ne (w := dotDot) (by decide) h2.symm⟩
  have hend : segmentEnd (s ++ join segs) = if segs = [] then none else some s.length := by
    rw [segmentEnd, if_neg]
    · cases segs with
      | nil => simp [find_eq_none.mpr hs]
      | cons a segs => simp [find_append_cons hs]
    · intro h
      obtain ⟨t, ht⟩ := List.head?_eq_some_iff.mp h
      exact hhead t ht
  have hone : startsWith (s ++ join segs) "/./".toList = false := hrooted _
  have htwo : startsWith (s ++ join segs) "/../".toList = false := hrooted _
  have hone' : s ++ join segs ≠ "/.".toList := hhead _
  have htwo' : s ++ join segs ≠ "/..".toList := hhead _
  rw [dotSegmentTurn, hrel, hrel', hone, htwo, if_neg (by simp), if_neg (by simp),
    if_neg (by simp), if_neg hone', if_neg (by simp), if_neg htwo', if_neg hdot, hend]
  cases segs <;> simp

/-! ### Whole runs -/

theorem dotLoop_slash (output : Str) : dotLoop ['/'] output = output ++ ['/'] := by
  rw [dotLoop_turn output (by simp)]
  exact dotLoop_nil _

theorem dotLoop_dots {s : Str} (h : IsDots s) (output : Str) (segs : List Str) :
    dotLoop (join (s :: segs)) output =
      let output := if s = dot then output else removeLastSegment output
      if segs = [] then output ++ ['/'] else dotLoop (join segs) output := by
  rw [dotLoop_turn output (by simp)]
  rcases h with rfl | rfl
  · rw [dotSegmentTurn_dot]
    cases segs <;> simp [dotLoop_slash]
  · rw [dotSegmentTurn_dotDot]
    cases segs <;> simp [dotLoop_slash, dot, dotDot]

theorem dotLoop_ordinary {s : Str} (hs : '/' ∉ s) (h : ¬ IsDots s) (output : Str)
    (segs : List Str) :
    dotLoop (join (s :: segs)) output = dotLoop (join segs) (output ++ '/' :: s) := by
  rw [dotLoop_turn output (by simp), dotSegmentTurn_ordinary hs h]

/-- Whether these segments pop the one that lies under a stack of the given height. -/
def popsBelow : ℕ → List Str → Bool
  | _, [] => false
  | height, s :: rest =>
    if s = dot then popsBelow height rest
    else if s = dotDot then
      match height with
      | 0 => true
      | height + 1 => popsBelow height rest
    else popsBelow (height + 1) rest

/-- Whether the first ordinary segment, if there is one, is popped again. A final
empty segment counts as none. -/
def popsFirst : List Str → Bool
  | [] => true
  | s :: rest =>
    if IsDots s then popsFirst rest
    else if s = [] ∧ rest = [] then true
    else popsBelow 0 rest

theorem join_concat (stack : List Str) (s : Str) : join (stack ++ [s]) = join stack ++ '/' :: s := by
  simp

theorem notMem_concat {stack : List Str} {s : Str} (hst : ∀ x ∈ stack, '/' ∉ x) (hs : '/' ∉ s) :
    ∀ x ∈ stack ++ [s], '/' ∉ x := by
  intro x hx
  rcases List.mem_append.mp hx with hx | hx
  · exact hst x hx
  · obtain rfl := List.mem_singleton.mp hx
    exact hs

/-- The loop on a rooted rest, its output being a stack of segments. -/
theorem dotLoop_join {segs : List Str} (stack : List Str) (hsegs : ∀ s ∈ segs, '/' ∉ s)
    (hst : ∀ s ∈ stack, '/' ∉ s) :
    dotLoop (join segs) (join stack) = join (stackSegments stack segs) := by
  induction segs generalizing stack with
  | nil => rfl
  | cons s segs ih =>
    have hs := hsegs s List.mem_cons_self
    have hrest : ∀ x ∈ segs, '/' ∉ x := fun x hx => hsegs x (List.mem_cons_of_mem _ hx)
    have hpop : removeLastSegment (join stack) = join stack.dropLast := by
      by_cases hnil : stack = []
      · rw [hnil]
        rfl
      · exact removeLastSegment_join [] hnil hst
    by_cases hdots : IsDots s
    · rw [dotLoop_dots hdots]
      have hout : (if s = dot then join stack else removeLastSegment (join stack)) =
          join (if s = dot then stack else stack.dropLast) := by
        split_ifs
        · rfl
        · exact hpop
      have hst' : ∀ x ∈ (if s = dot then stack else stack.dropLast), '/' ∉ x := by
        split_ifs
        · exact hst
        · exact fun x hx => hst x (List.mem_of_mem_dropLast hx)
      simp only [hout]
      cases segs with
      | nil =>
        rcases hdots with rfl | rfl <;> simp [stackSegments, dot, dotDot]
      | cons t rest =>
        rw [if_neg (by simp), ih _ hrest hst']
        rcases hdots with rfl | rfl <;> simp [stackSegments, dot, dotDot]
    · rw [dotLoop_ordinary hs hdots, ← join_concat, ih _ hrest (notMem_concat hst hs)]
      obtain ⟨h1, h2⟩ := not_or.mp hdots
      cases segs <;> simp [stackSegments, h1, h2]

/-- On rooted paths the loop is the segment stack. -/
theorem removeDotSegments_rooted (path : Str) :
    removeDotSegments ('/' :: path) = removeDots ('/' :: path) := by
  have hno : ∀ s ∈ segments path, '/' ∉ s := fun s hs => slash_notMem_of_mem_segments hs
  have h := dotLoop_join [] hno (by simp)
  rw [join_segments, join_nil] at h
  rw [removeDots_rooted, ← h]
  rfl

/-- The loop below a first piece without slash, as long as that piece stays. -/
theorem dotLoop_kept (first : Str) {segs : List Str} (stack : List Str) (hsegs : ∀ s ∈ segs, '/' ∉ s)
    (hst : ∀ s ∈ stack, '/' ∉ s) (hpop : popsBelow stack.length segs = false) :
    dotLoop (join segs) (first ++ join stack) = first ++ join (stackSegments stack segs) ∧
      stackSegments (first :: stack) segs = first :: stackSegments stack segs := by
  induction segs generalizing stack with
  | nil => exact ⟨rfl, rfl⟩
  | cons s segs ih =>
    have hs := hsegs s List.mem_cons_self
    have hrest : ∀ x ∈ segs, '/' ∉ x := fun x hx => hsegs x (List.mem_cons_of_mem _ hx)
    unfold popsBelow at hpop
    split_ifs at hpop with h1 h2
    · obtain ⟨hloop, hstack⟩ := ih _ hrest hst hpop
      rw [dotLoop_dots (Or.inl h1)]
      cases segs with
      | nil => simp [stackSegments, h1]
      | cons t rest => simpa [stackSegments, h1] using ⟨hloop, hstack⟩
    · cases hlen : stack.length with
      | zero => simp [hlen] at hpop
      | succ height =>
        have hne : stack ≠ [] := by
          rintro rfl
          simp at hlen
        have hdrop : stack.dropLast.length = height := by
          rw [List.length_dropLast, hlen]
          rfl
        simp only [hlen] at hpop
        obtain ⟨hloop, hstack⟩ := ih _ hrest (fun x hx => hst x (List.mem_of_mem_dropLast hx))
          (by rwa [hdrop])
        rw [dotLoop_dots (Or.inr h2)]
        have hd : (first :: stack).dropLast = first :: stack.dropLast :=
          List.dropLast_cons_of_ne_nil hne
        simp only [if_neg h1, removeLastSegment_join first hne hst]
        cases segs with
        | nil => simp [stackSegments, h2, hd]
        | cons t rest =>
          rw [if_neg (by simp), hloop]
          simpa [stackSegments, h2, hd] using hstack
    · obtain ⟨hloop, hstack⟩ := ih _ hrest (notMem_concat hst hs) (by simpa using hpop)
      rw [dotLoop_ordinary hs (not_or.mpr ⟨h1, h2⟩), List.append_assoc, ← join_concat, hloop]
      cases segs with
      | nil => simp [stackSegments, h1, h2]
      | cons t rest => simpa [stackSegments, h1, h2] using hstack

/-- Once the first piece is popped, its missing slash no longer shows. -/
theorem dotLoop_popped {first : Str} {segs : List Str} (stack : List Str) (hsegs : ∀ s ∈ segs, '/' ∉ s)
    (hfirst : '/' ∉ first) (hst : ∀ s ∈ stack, '/' ∉ s)
    (hpop : popsBelow stack.length segs = true) :
    dotLoop (join segs) (first ++ join stack) = join (stackSegments (first :: stack) segs) := by
  induction segs generalizing stack with
  | nil => simp [popsBelow] at hpop
  | cons s segs ih =>
    have hs := hsegs s List.mem_cons_self
    have hrest : ∀ x ∈ segs, '/' ∉ x := fun x hx => hsegs x (List.mem_cons_of_mem _ hx)
    unfold popsBelow at hpop
    split_ifs at hpop with h1 h2
    · rw [dotLoop_dots (Or.inl h1)]
      cases segs with
      | nil => simp [popsBelow] at hpop
      | cons t rest => simpa [stackSegments, h1] using ih _ hrest hst hpop
    · rw [dotLoop_dots (Or.inr h2)]
      cases hlen : stack.length with
      | zero =>
        obtain rfl := List.length_eq_zero_iff.mp hlen
        simp only [if_neg h1, join_nil, List.append_nil, removeLastSegment_notMem hfirst]
        cases segs with
        | nil => simp [stackSegments, h2]
        | cons t rest =>
          have := dotLoop_join [] hrest (by simp)
          simpa [stackSegments, h2] using this
      | succ height =>
        have hne : stack ≠ [] := by
          rintro rfl
          simp at hlen
        have hdrop : stack.dropLast.length = height := by
          rw [List.length_dropLast, hlen]
          rfl
        simp only [hlen] at hpop
        have hd : (first :: stack).dropLast = first :: stack.dropLast :=
          List.dropLast_cons_of_ne_nil hne
        have hloop := ih _ hrest (fun x hx => hst x (List.mem_of_mem_dropLast hx)) (by rwa [hdrop])
        simp only [if_neg h1, removeLastSegment_join first hne hst]
        cases segs with
        | nil => simp [popsBelow] at hpop
        | cons t rest =>
          rw [if_neg (by simp), hloop]
          simp [stackSegments, h2, hd]
    · have hloop := ih _ hrest (notMem_concat hst hs) (by simpa using hpop)
      rw [dotLoop_ordinary hs (not_or.mpr ⟨h1, h2⟩), List.append_assoc, ← join_concat, hloop]
      cases segs with
      | nil => simp [popsBelow] at hpop
      | cons t rest => simp [stackSegments, h1, h2]

theorem join_ne_nil {segs : List Str} (h : segs ≠ []) : join segs ≠ [] := by
  cases segs with
  | nil => exact absurd rfl h
  | cons s segs => simp

theorem dotLoop_first {s : Str} (hs : '/' ∉ s) (hdots : ¬ IsDots s) (segs : List Str) :
    dotLoop (s ++ join segs) [] = dotLoop (join segs) s := by
  by_cases hne : s = []
  · rw [hne, List.nil_append]
  · rw [dotLoop_turn [] (by simp [hne]), dotSegmentTurn_first hs hdots hne]

theorem dotLoop_rootless {s : Str} {segs : List Str} (hsegs : ∀ x ∈ s :: segs, '/' ∉ x) :
    if popsFirst (s :: segs) then
      join (stackSegments [] (s :: segs)) =
        if dotLoop (s ++ join segs) [] = [] then ['/'] else dotLoop (s ++ join segs) []
    else
      join (stackSegments [] (s :: segs)) = '/' :: dotLoop (s ++ join segs) [] ∧
        dotLoop (s ++ join segs) [] ≠ [] := by
  induction segs generalizing s with
  | nil =>
    by_cases hdots : IsDots s
    · rcases hdots with rfl | rfl <;> decide +kernel
    · obtain ⟨h1, h2⟩ := not_or.mp hdots
      rw [dotLoop_first (hsegs s List.mem_cons_self) hdots, join_nil, dotLoop_nil]
      by_cases hnil : s = []
      · simp [popsFirst, hnil, stackSegments, dot, dotDot, IsDots]
      · simp [popsFirst, hdots, hnil, stackSegments, h1, h2, popsBelow]
  | cons t rest ih =>
    have hs := hsegs s List.mem_cons_self
    have hrest : ∀ x ∈ t :: rest, '/' ∉ x := fun x hx => hsegs x (List.mem_cons_of_mem _ hx)
    by_cases hdots : IsDots s
    · have hloop : dotLoop (s ++ join (t :: rest)) [] = dotLoop (t ++ join rest) [] := by
        rcases hdots with rfl | rfl <;> exact dotLoop_turn [] (by simp [dot, dotDot])
      have hstack : stackSegments [] (s :: t :: rest) = stackSegments [] (t :: rest) := by
        rcases hdots with rfl | rfl <;> simp [stackSegments]
      rw [hloop, hstack, popsFirst, if_pos hdots]
      exact ih hrest
    · obtain ⟨h1, h2⟩ := not_or.mp hdots
      have hstack : stackSegments [] (s :: t :: rest) = stackSegments [s] (t :: rest) := by
        simp [stackSegments, h1, h2]
      have hpops : popsFirst (s :: t :: rest) = popsBelow 0 (t :: rest) := by
        rw [popsFirst, if_neg hdots, if_neg (by simp)]
      have hjoin : s ++ join [] = s := by simp
      rw [hstack, hpops, dotLoop_first hs hdots]
      by_cases hp : popsBelow 0 (t :: rest) = true
      · have h := dotLoop_popped [] hrest hs (by simp) hp
        rw [hjoin] at h
        rw [if_pos hp, h, if_neg (join_ne_nil (stackSegments_ne_nil _ (by simp)))]
      · obtain ⟨h, h'⟩ := dotLoop_kept s [] hrest (by simp) (by simpa using hp)
        rw [hjoin] at h
        rw [if_neg hp, h, h']
        exact ⟨rfl, by simp [join_ne_nil (stackSegments_ne_nil [] (List.cons_ne_nil t rest))]⟩

/-- On a path without leading slash the loop gives the same as with it, or the
same without the leading slash. -/
theorem removeDotSegments_rootless (path : Str) :
    if popsFirst (segments path) then
      removeDots ('/' :: path) =
        if removeDotSegments path = [] then ['/'] else removeDotSegments path
    else
      removeDots ('/' :: path) = '/' :: removeDotSegments path ∧ removeDotSegments path ≠ [] := by
  obtain ⟨s, segs, h⟩ := List.exists_cons_of_ne_nil (segments_ne_nil path)
  have hpath : path = s ++ join segs := by
    have := join_segments path
    rw [h, join_cons] at this
    exact (List.cons.inj this).2.symm
  have hno : ∀ x ∈ s :: segs, '/' ∉ x := by
    rw [← h]
    exact fun x hx => slash_notMem_of_mem_segments hx
  have hloop := dotLoop_rootless hno
  rw [← hpath, ← h] at hloop
  exact hloop

/-- The two results differ, an empty path counting as the root, unless the first
ordinary segment is popped. -/
theorem removeDotSegments_rootless_iff (path : Str) :
    (if removeDotSegments path = [] then ['/'] else removeDotSegments path) =
      removeDots ('/' :: path) ↔ popsFirst (segments path) = true := by
  have h := removeDotSegments_rootless path
  by_cases hp : popsFirst (segments path) = true
  · rw [if_pos hp] at h
    exact iff_of_true h.symm hp
  · rw [if_neg hp] at h
    rw [h.1, if_neg h.2]
    exact iff_of_false List.ne_cons_self hp

/-! ### The loop as a whole -/

/-- The loop of `remove_dot_segments`, from one pair of input and output to another. -/
def LoopEnds : Str × Str → Str × Str → Prop :=
  WhileLoop.Ends (fun texts => texts.1 ≠ []) fun texts => dotSegmentTurn texts.1 texts.2

theorem dotLoop_ends (input output : Str) : LoopEnds (input, output) ([], dotLoop input output) := by
  refine WhileLoop.ends_of_measure (fun texts => texts.1.length)
    (fun texts => ([], dotLoop texts.1 texts.2)) ?_ ?_ ?_ (input, output)
  · intro texts hne
    exact dotSegmentTurn_shortens texts.2 hne
  · rintro ⟨input, output⟩ hnil
    obtain rfl : input = [] := not_not.mp hnil
    rw [dotLoop_nil]
  · intro texts hne
    rw [dotLoop_turn texts.2 hne]

theorem not_isDots_of_removeDotSegments {path s : Str}
    (hs : s ∈ segments (removeDotSegments path)) : ¬ IsDots s := by
  have hroot := removeDotSegments_rootless path
  split_ifs at hroot with hpops hnil
  · rw [hnil] at hs
    have hslash : removeDots ('/' :: path) = '/' :: [] := hroot
    exact not_isDots_of_removeDots hslash hs
  · obtain ⟨rest, hrest⟩ := removeDots_rooted_head path
    rw [← hroot, hrest] at hs
    rcases mem_segments_rooted hs with rfl | hmem
    · decide
    · exact not_isDots_of_removeDots hrest hmem
  · exact not_isDots_of_removeDots hroot.1 hs

/-- The loop ends for every path, and what it gives has no dot segment. On a rooted path
that is what the segment stack gives, it is rooted, and the loop leaves it as it is. -/
theorem removeDotSegments_normalizes :
    (∀ input : Str, LoopEnds (input, []) ([], removeDotSegments input) ∧
      ∀ s ∈ segments (removeDotSegments input), ¬ IsDots s) ∧
    ∀ path : Str, (∃ rest, removeDotSegments ('/' :: path) = '/' :: rest) ∧
      removeDotSegments ('/' :: path) = join (stackSegments [] (segments path)) ∧
      removeDotSegments (removeDotSegments ('/' :: path)) = removeDotSegments ('/' :: path) := by
  constructor
  · intro input
    exact ⟨dotLoop_ends input [], fun s hs => not_isDots_of_removeDotSegments hs⟩
  · intro path
    obtain ⟨rest, hrest⟩ := removeDots_rooted_head path
    have hagain : removeDots ('/' :: rest) = '/' :: rest := by
      rw [removeDots_eq_self_iff]
      exact fun s hs => not_isDots_of_removeDots hrest hs
    refine ⟨⟨rest, ?_⟩, removeDotSegments_rooted path, ?_⟩
    · rw [removeDotSegments_rooted, hrest]
    · rw [removeDotSegments_rooted, hrest, removeDotSegments_rooted, hagain]

end KatHttp3
