import KatHttp3.Url.Parse

/-!
# Printing and parsing again

The pool, the cache and the redirect code hand URLs on as printed strings and
parse them again. These lemmas say what the second parse sees.
-/

namespace KatHttp3

open Str

/-- Characters that may occur in a component accepted by `validUriComponent`. -/
def uriChar (extra : Str) (c : Char) : Bool :=
  c == '%' || unreserved c || subDelimiter c || extra.contains c

theorem unreserved_of_hexDigit {c : Char} (h : hexDigit c = true) : unreserved c = true := by
  unfold hexDigit at h
  unfold unreserved asciiAlpha Char.isAlpha Char.isUpper Char.isLower
  simp only [Bool.or_eq_true, Bool.and_eq_true, decide_eq_true_eq, Char.le_def, beq_iff_eq,
    ge_iff_le] at h ⊢
  rcases h with (h | ⟨h1, h2⟩) | ⟨h1, h2⟩
  · tauto
  · have h3 : c.val ≤ 90 := UInt32.le_trans h2 (by decide)
    have h4 : (65 : UInt32) ≤ c.val := h1
    tauto
  · have h3 : c.val ≤ 122 := UInt32.le_trans h2 (by decide)
    have h4 : (97 : UInt32) ≤ c.val := h1
    tauto

theorem validUriComponent_cons {extra rest : Str} {c : Char} (hc : c ≠ '%') :
    validUriComponent extra (c :: rest) =
      ((unreserved c || subDelimiter c || extra.contains c) && validUriComponent extra rest) := by
  rw [validUriComponent.eq_def]
  simp only [if_neg hc]

theorem uriChar_of_mem {extra s : Str} (h : validUriComponent extra s = true) :
    ∀ c ∈ s, uriChar extra c = true := by
  induction s using validUriComponent.induct with
  | case1 => simp
  | case2 a b rest ih =>
    simp only [validUriComponent, if_true, Bool.and_eq_true] at h
    intro c hc
    simp only [List.mem_cons] at hc
    rcases hc with rfl | rfl | rfl | hc
    · rfl
    · simp [uriChar, unreserved_of_hexDigit h.1.1]
    · simp [uriChar, unreserved_of_hexDigit h.1.2]
    · exact ih h.2 c hc
  | case3 rest hrest =>
    unfold validUriComponent at h
    split at h
    · split at h
      · exact absurd rfl (hrest _ _ _)
      · cases h
    · contradiction
  | case4 c rest hc ih =>
    rw [validUriComponent_cons hc, Bool.and_eq_true] at h
    intro d hd
    rcases List.mem_cons.mp hd with rfl | hd
    · simp only [uriChar, Bool.or_eq_true] at h ⊢
      tauto
    · exact ih h.2 d hd

theorem notMem_of_valid {extra s : Str} {c : Char} (h : validUriComponent extra s = true)
    (hc : uriChar extra c = false) : c ∉ s := by
  intro hmem
  rw [uriChar_of_mem h c hmem] at hc
  cases hc

@[simp] theorem validUriComponent_nil (extra : Str) : validUriComponent extra [] = true := rfl

/-- The end of an authority: nothing, or a path, query or fragment. -/
def EndsAuthority (rest : Str) : Prop :=
  rest = [] ∨ ∃ c ∈ "/?#".toList, ∃ t, rest = c :: t

theorem upTo_findFirstOf {a rest set : Str} (ha : ∀ c ∈ a, c ∉ set)
    (hr : rest = [] ∨ ∃ c ∈ set, ∃ t, rest = c :: t) :
    upTo (a ++ rest) (findFirstOf (a ++ rest) set) = a ∧
      startingAt (a ++ rest) (findFirstOf (a ++ rest) set) = rest := by
  rcases hr with rfl | ⟨c, hc, t, rfl⟩
  · have hn : findFirstOf a set = none := findFirstOf_eq_none.mpr ha
    simp [hn, upTo, startingAt]
  · simp [findFirstOf_append_cons ha hc, upTo, startingAt]

variable (net : InetPton)

/-- Parsing a printed URL is parsing its authority and what follows separately. -/
theorem parseUrl_https {a rest : Str} (ha : ∀ c ∈ a, c ∉ "/?#".toList)
    (hr : EndsAuthority rest) :
    parseUrl net ("https".toList ++ "://".toList ++ a ++ rest) =
      match parseAuthority net a, parseRest rest with
      | some (host, port), some (path, query, queryPresent) =>
        some ⟨"https".toList, host, port, path, query, queryPresent⟩
      | _, _ => none := by
  have hcolon : find ("https".toList ++ "://".toList ++ a ++ rest) ':' = some 5 :=
    find_append_cons (s := "https".toList) (t := "//".toList ++ (a ++ rest)) (by decide)
  obtain ⟨hup, hfrom⟩ := upTo_findFirstOf ha hr
  have hscheme : httpsScheme "https".toList = true := by decide
  unfold parseUrl
  rw [hcolon]
  simp only [List.append_assoc]
  change (if httpsScheme "https".toList = false then none
    else if "//".toList ≠ "//".toList then none
    else _) = _
  rw [hscheme, if_neg (by decide), if_neg (not_not_intro rfl)]
  change (match parseAuthority net (upTo (a ++ rest) (findFirstOf (a ++ rest) "/?#".toList)),
    parseRest (startingAt (a ++ rest) (findFirstOf (a ++ rest) "/?#".toList)) with
    | some (host, port), some (path, query, queryPresent) =>
      some (⟨"https".toList, host, port, path, query, queryPresent⟩ : Url)
    | _, _ => none) = _
  rw [hup, hfrom]

theorem parsePort_ofNat {port : ℕ} (h0 : port ≠ 0) (h : port ≤ 65535) :
    parsePort (ofNat port) = some port := by
  rw [parsePort, fromChars_ofNat (by omega), Option.filter_some]
  simp [h0, h]

theorem parsePort_bounds {ps : Str} {port : ℕ} (h : parsePort ps = some port) :
    port ≠ 0 ∧ port ≤ 65535 := by
  have := (Option.filter_eq_some_iff.mp h).2
  simpa using this

/-- Hosts the splitter accepts: bracketed literals and registered names. -/
def HostAccepted (host : Str) : Prop :=
  host ≠ [] ∧ if ':' ∈ host then net.afInet6 host = true else validUriComponent [] host = true

variable {net}

theorem HostAccepted.literal {host : Str} (h : HostAccepted net host) (hc : ':' ∈ host) :
    net.afInet6 host = true := by
  have := h.2
  rwa [if_pos hc] at this

theorem HostAccepted.name {host : Str} (h : HostAccepted net host) (hc : ':' ∉ host) :
    validUriComponent [] host = true := by
  have := h.2
  rwa [if_neg hc] at this

theorem HostAccepted.notMem {host : Str} (h : HostAccepted net host) {c : Char}
    (hc : c ∈ "@[]/?#".toList) : c ∉ host := by
  have hcases : c = '@' ∨ c = '[' ∨ c = ']' ∨ c = '/' ∨ c = '?' ∨ c = '#' := by simpa using hc
  by_cases hcolon : ':' ∈ host
  · intro hmem
    have := net.afInet6_chars host (h.literal hcolon) c hmem
    rcases hcases with rfl | rfl | rfl | rfl | rfl | rfl <;> revert this <;> decide
  · refine notMem_of_valid (h.name hcolon) ?_
    rcases hcases with rfl | rfl | rfl | rfl | rfl | rfl <;> decide

/-- The bracketed or plain host at the front of a printed authority. -/
def printedHost (host : Str) : Str :=
  if find host ':' = none then host else '[' :: host ++ [']']

theorem printedHost_name {host : Str} (hc : ':' ∉ host) : printedHost host = host := by
  rw [printedHost, if_pos (find_eq_none.mpr hc)]

theorem printedHost_literal {host : Str} (hc : ':' ∈ host) :
    printedHost host = '[' :: host ++ [']'] := by
  rw [printedHost, if_neg (fun h => find_eq_none.mp h hc)]

/-- After a bracketed literal, the rest of the authority decides. -/
theorem parseAuthority_literal {host : Str} (h : HostAccepted net host) (hc : ':' ∈ host)
    (rest : Str) (hat : '@' ∉ rest) :
    parseAuthority net ('[' :: host ++ ']' :: rest) =
      match rest with
      | [] => some (host, 0)
      | c :: ps => if c = ':' then (parsePort ps).map fun port => (host, port) else none := by
  have ha : find ('[' :: host ++ ']' :: rest) '@' = none :=
    find_eq_none.mpr (by simp [h.notMem (c := '@') (by decide), hat])
  have hclose : find ('[' :: host ++ ']' :: rest) ']' = some (host.length + 1) :=
    find_append_cons (s := '[' :: host) (by simp [h.notMem (c := ']') (by decide)])
  have htake : (('[' :: host ++ ']' :: rest).drop 1).take (host.length + 1 - 1) = host := by simp
  have hdrop : ('[' :: host ++ ']' :: rest).drop (host.length + 1 + 1) = rest := by simp
  have hlen : 2 ≤ ('[' :: host ++ ']' :: rest).length := by
    simp only [List.cons_append, List.length_cons, List.length_append]
    omega
  rw [parseAuthority, if_neg (by simp), ha, if_neg (by simp), if_pos ⟨hlen, rfl⟩,
    parseLiteralAuthority, hclose]
  simp only [htake, hdrop, h.literal hc, h.1, Bool.true_eq_false, or_self, if_false]
  cases rest <;> rfl

theorem parseAuthority_name {host : Str} (h : HostAccepted net host) (rest : Str)
    (hat : '@' ∉ rest) :
    parseAuthority net (host ++ rest) = parseNamedAuthority (host ++ rest) := by
  have ha : find (host ++ rest) '@' = none :=
    find_eq_none.mpr (by simp [h.notMem (c := '@') (by decide), hat])
  have hbracket : (host ++ rest).head? ≠ some '[' := by
    intro hh
    rw [List.head?_append_of_ne_nil _ h.1] at hh
    exact h.notMem (c := '[') (by decide) (List.mem_of_mem_head? hh)
  rw [parseAuthority, if_neg (by simp [h.1]), ha, if_neg (by simp),
    if_neg (fun hb => hbracket hb.2)]

theorem parseAuthority_host {host : Str} (h : HostAccepted net host) :
    parseAuthority net (printedHost host) = some (host, 0) := by
  by_cases hc : ':' ∈ host
  · rw [printedHost_literal hc]
    exact parseAuthority_literal h hc [] (by simp)
  · have hp := parseAuthority_name h [] (by simp)
    rw [List.append_nil] at hp
    rw [printedHost_name hc, hp, parseNamedAuthority, rfind_eq_none.mpr hc]
    simp [h.name hc]

theorem parseAuthority_port {host ps : Str} (h : HostAccepted net host)
    (hat : '@' ∉ ps) (hcolon : ':' ∉ ps) :
    parseAuthority net (printedHost host ++ ':' :: ps) =
      (parsePort ps).map fun port => (host, port) := by
  by_cases hc : ':' ∈ host
  · rw [printedHost_literal hc, List.append_assoc]
    exact parseAuthority_literal h hc (':' :: ps) (by simp [hat])
  · rw [printedHost_name hc, parseAuthority_name h _ (by simp [hat]), parseNamedAuthority,
      rfind_append_cons hcolon]
    simp [find_eq_none.mpr hc, h.1, h.name hc]

def printedQuery (query : Str) (present : Bool) : Str := if present then '?' :: query else []

theorem parseRest_print {path query : Str} {present : Bool} (hq : '?' ∉ path) (hf : '#' ∉ path)
    (hfq : '#' ∉ query) (habsent : present = false → query = []) :
    parseRest (path ++ printedQuery query present) =
      if validUriComponent ":@/".toList path && validUriComponent ":@/?".toList query then
        some (path, query, present)
      else none := by
  have hfrag : find (path ++ printedQuery query present) '#' = none := by
    refine find_eq_none.mpr ?_
    cases present <;> simp [printedQuery, hf, hfq]
  have hstart : startingAt (path ++ printedQuery query present) (Option.map (· + 1) none) = [] :=
    rfl
  unfold parseRest
  simp only [hfrag, hstart, validUriComponent_nil, Bool.true_eq_false, if_false, upTo]
  cases present with
  | false =>
    obtain rfl := habsent rfl
    simp [printedQuery, find_eq_none.mpr hq]
  | true => simp [printedQuery, find_append_cons hq]

namespace Url

/-- What `parse_url` guarantees of the URLs it accepts. -/
structure WellFormed (net : InetPton) (u : Url) : Prop where
  scheme : u.scheme = "https".toList
  host : HostAccepted net u.host
  port : u.port ≤ 65535
  path_head : u.path = [] ∨ ∃ t, u.path = '/' :: t
  path : validUriComponent ":@/".toList u.path = true
  query : validUriComponent ":@/?".toList u.query = true
  query_absent : u.queryPresent = false → u.query = []

/-- The URL a printed URL parses to: default port and empty path made explicit. -/
def normalized (u : Url) : Url :=
  { u with
    port := if u.effectivePort = defaultPort u.scheme then 0 else u.port
    path := if u.path = [] then ['/'] else u.path }

variable {u : Url}

theorem normalized_path (u : Url) :
    u.normalized.path = if u.path = [] then ['/'] else u.path := rfl

theorem effectivePort_of_ne (h : u.effectivePort ≠ defaultPort u.scheme) :
    u.port ≠ 0 ∧ u.effectivePort = u.port := by
  unfold effectivePort at h ⊢
  split_ifs at h ⊢ with hp
  · exact ⟨hp, rfl⟩
  · exact absurd rfl h

theorem normalized_effectivePort (u : Url) :
    u.normalized.effectivePort = u.effectivePort := by
  by_cases h : u.effectivePort = defaultPort u.scheme
  · rw [h]
    unfold effectivePort normalized
    simp [h]
  · have hp := effectivePort_of_ne h
    unfold effectivePort normalized
    simp [h, hp.1]

theorem authority_eq (u : Url) : u.authority =
    if u.effectivePort ≠ defaultPort u.scheme then
      printedHost u.host ++ ':' :: ofNat u.effectivePort
    else printedHost u.host := rfl

theorem notMem_ofNat {n : ℕ} {c : Char} (h : c.isDigit = false) : c ∉ ofNat n := by
  intro hc
  rw [isDigit_of_mem_ofNat hc] at h
  cases h

theorem authority_notMem (h : HostAccepted net u.host) {c : Char} (hc : c ∈ "/?#".toList) :
    c ∉ u.authority := by
  have hcases : c = '/' ∨ c = '?' ∨ c = '#' := by simpa using hc
  have hhost : c ∉ u.host := h.notMem (by rcases hcases with rfl | rfl | rfl <;> decide)
  have hdigits : c ∉ ofNat u.effectivePort :=
    notMem_ofNat (by rcases hcases with rfl | rfl | rfl <;> decide)
  have hbracket : c ≠ '[' ∧ c ≠ ']' ∧ c ≠ ':' := by
    rcases hcases with rfl | rfl | rfl <;> decide
  have hprinted : c ∉ printedHost u.host := by
    unfold printedHost
    split_ifs
    · exact hhost
    · simp [hhost, hbracket]
  rw [authority_eq]
  split_ifs
  · simp [hprinted, hdigits, hbracket]
  · exact hprinted

/-- The printed authority parses back to the host and the normalized port. -/
theorem parseAuthority_authority (h : HostAccepted net u.host) (hport : u.port ≤ 65535) :
    parseAuthority net u.authority = some (u.host, u.normalized.port) := by
  rw [authority_eq]
  by_cases hp : u.effectivePort = defaultPort u.scheme
  · rw [if_neg (not_not_intro hp), parseAuthority_host h]
    simp [normalized, hp]
  · obtain ⟨h0, heq⟩ := effectivePort_of_ne hp
    rw [if_pos hp, parseAuthority_port h (notMem_ofNat (by decide)) (notMem_ofNat (by decide)),
      heq, parsePort_ofNat h0 hport]
    simp [normalized, hp]

theorem requestTarget_eq (u : Url) :
    u.requestTarget = u.normalized.path ++ printedQuery u.query u.queryPresent := by
  unfold requestTarget normalized printedQuery
  cases u.queryPresent <;> simp

/-- Reparsing a printed URL whose path is absolute or empty. -/
theorem parseUrl_toString (hs : u.scheme = "https".toList) (hh : HostAccepted net u.host)
    (hp : u.port ≤ 65535) (hpath : u.path = [] ∨ ∃ t, u.path = '/' :: t)
    (hq : '?' ∉ u.path) (hf : '#' ∉ u.path) (hfq : '#' ∉ u.query)
    (habsent : u.queryPresent = false → u.query = []) :
    parseUrl net u.toString =
      if validUriComponent ":@/".toList u.path && validUriComponent ":@/?".toList u.query then
        some u.normalized
      else none := by
  obtain ⟨t, ht⟩ : ∃ t, u.normalized.path = '/' :: t := by
    rcases hpath with h | ⟨t, h⟩
    · exact ⟨[], by simp [normalized, h]⟩
    · exact ⟨t, by simp [normalized, h]⟩
  have hmem : ∀ c, c ≠ '/' → c ∉ u.path → c ∉ u.normalized.path := by
    intro c hne hc
    rw [normalized_path]
    split_ifs
    · simpa using hne
    · exact hc
  have hvalid : validUriComponent ":@/".toList u.normalized.path =
      validUriComponent ":@/".toList u.path := by
    rw [normalized_path]
    split_ifs with h
    · rw [h]
      decide
    · rfl
  have hends : EndsAuthority (u.normalized.path ++ printedQuery u.query u.queryPresent) :=
    Or.inr ⟨'/', by decide, t ++ printedQuery u.query u.queryPresent, by rw [ht]; rfl⟩
  rw [toString, hs, requestTarget_eq,
    parseUrl_https net (fun c hc hc' => authority_notMem hh hc' hc) hends,
    parseAuthority_authority hh hp,
    parseRest_print (hmem '?' (by decide) hq) (hmem '#' (by decide) hf) hfq habsent, hvalid]
  split_ifs with hv
  · simp [normalized, hs]
  · rfl

/-- What a successful parse says about the text. -/
theorem parseUrl_eq_some {raw : Str} (h : parseUrl net raw = some u) :
    ∃ scheme tail, raw = scheme ++ ':' :: '/' :: '/' :: tail ∧ ':' ∉ scheme ∧
      httpsScheme scheme = true ∧ u.scheme = "https".toList ∧
      parseAuthority net (upTo tail (findFirstOf tail "/?#".toList)) = some (u.host, u.port) ∧
      parseRest (startingAt tail (findFirstOf tail "/?#".toList)) =
        some (u.path, u.query, u.queryPresent) := by
  unfold parseUrl at h
  cases hcolon : find raw ':' with
  | none => simp [hcolon] at h
  | some colon =>
    obtain ⟨hraw, hnot⟩ := find_eq_some hcolon
    simp only [hcolon] at h
    split_ifs at h with h1 h2
    cases ha : parseAuthority net (upTo (raw.drop (colon + 3))
        (findFirstOf (raw.drop (colon + 3)) "/?#".toList)) with
    | none => simp only [ha] at h; cases h
    | some authority =>
      cases hr : parseRest (startingAt (raw.drop (colon + 3))
          (findFirstOf (raw.drop (colon + 3)) "/?#".toList)) with
      | none => simp only [ha, hr] at h; cases h
      | some rest =>
        obtain ⟨host, port⟩ := authority
        obtain ⟨path, query, present⟩ := rest
        simp only [ha, hr, Option.some.injEq] at h
        subst h
        refine ⟨raw.take colon, raw.drop (colon + 3), ?_, hnot, by simpa using h1, rfl, ha, hr⟩
        have hslashes : raw.drop (colon + 1) = '/' :: '/' :: raw.drop (colon + 3) := by
          rw [← List.take_append_drop 2 (raw.drop (colon + 1)), not_not.mp h2, List.drop_drop]
          rfl
        rw [← hslashes]
        exact hraw

theorem validUriComponent_of_forall {extra s : Str}
    (h : ∀ c ∈ s, c ≠ '%' ∧ (unreserved c || subDelimiter c || extra.contains c) = true) :
    validUriComponent extra s = true := by
  induction s with
  | nil => rfl
  | cons c s ih =>
    obtain ⟨hc, hok⟩ := h c List.mem_cons_self
    rw [validUriComponent_cons hc, hok, Bool.true_and]
    exact ih fun d hd => h d (List.mem_cons_of_mem _ hd)

/-- Without a colon, a host taken for a literal would also do as a name. -/
theorem validUriComponent_literal {host : Str} (h : net.afInet6 host = true) (hc : ':' ∉ host) :
    validUriComponent [] host = true := by
  refine validUriComponent_of_forall fun c hmem => ?_
  rcases net.afInet6_chars host h c hmem with hhex | rfl | rfl
  · have := unreserved_of_hexDigit hhex
    refine ⟨?_, by simp [this]⟩
    rintro rfl
    revert hhex
    decide
  · exact absurd hmem hc
  · decide

theorem parseAuthority_accepted {auth host : Str} {port : ℕ}
    (h : parseAuthority net auth = some (host, port)) :
    HostAccepted net host ∧ port ≤ 65535 := by
  unfold parseAuthority at h
  split_ifs at h with h1 h2 h3
  · unfold parseLiteralAuthority at h
    cases hclose : find auth ']' with
    | none => simp [hclose] at h
    | some close =>
      simp only [hclose] at h
      split_ifs at h with hbad
      obtain ⟨hin, hne⟩ := not_or.mp hbad
      have hin6 := Bool.eq_true_of_not_eq_false hin
      have haccepted : HostAccepted net ((auth.drop 1).take (close - 1)) := by
        refine ⟨hne, ?_⟩
        split_ifs with hc
        · exact hin6
        · exact validUriComponent_literal hin6 hc
      cases hrest : auth.drop (close + 1) with
      | nil =>
        simp only [hrest, Option.some.injEq, Prod.mk.injEq] at h
        obtain ⟨rfl, rfl⟩ := h
        exact ⟨haccepted, by omega⟩
      | cons c ps =>
        simp only [hrest] at h
        split_ifs at h
        obtain ⟨p, hp, heq⟩ := Option.map_eq_some_iff.mp h
        cases heq
        exact ⟨haccepted, (parsePort_bounds hp).2⟩
  · unfold parseNamedAuthority at h
    cases hcolon : rfind auth ':' with
    | none =>
      simp only [hcolon] at h
      split_ifs at h with hv
      cases h
      refine ⟨⟨h1, ?_⟩, by omega⟩
      rwa [if_neg (rfind_eq_none.mp hcolon)]
    | some pcolon =>
      simp only [hcolon] at h
      split_ifs at h with hbad
      simp only [not_or, not_not, Bool.not_eq_false] at hbad
      obtain ⟨hno, hne, hv⟩ := hbad
      obtain ⟨p, hp, heq⟩ := Option.map_eq_some_iff.mp h
      cases heq
      refine ⟨⟨hne, ?_⟩, (parsePort_bounds hp).2⟩
      rwa [if_neg (find_eq_none.mp hno)]

theorem parseRest_eq_some {rest path query : Str} {present : Bool}
    (h : parseRest rest = some (path, query, present)) :
    validUriComponent ":@/".toList path = true ∧ validUriComponent ":@/?".toList query = true ∧
      (present = false → query = []) ∧
      path = upTo (upTo rest (find rest '#')) (find (upTo rest (find rest '#')) '?') ∧
      query = startingAt (upTo rest (find rest '#'))
        ((find (upTo rest (find rest '#')) '?').map (· + 1)) ∧
      present = (find (upTo rest (find rest '#')) '?').isSome := by
  unfold parseRest at h
  by_cases hfrag : validUriComponent ":@/?".toList
      (startingAt rest ((find rest '#').map (· + 1))) = false
  · simp only [if_pos hfrag] at h
    cases h
  simp only [if_neg hfrag] at h
  cases hq : find (upTo rest (find rest '#')) '?' with
  | none =>
    simp only [hq] at h
    split_ifs at h with hv
    cases h
    exact ⟨hv, rfl, fun _ => rfl, rfl, rfl, rfl⟩
  | some q =>
    simp only [hq] at h
    split_ifs at h with hv
    rw [Bool.and_eq_true] at hv
    cases h
    exact ⟨hv.1, hv.2, nofun, rfl, rfl, rfl⟩

/-- Every URL the splitter accepts is well formed. -/
theorem parseUrl_wellFormed {raw : Str} (h : parseUrl net raw = some u) : u.WellFormed net := by
  obtain ⟨scheme, tail, -, -, -, hs, ha, hr⟩ := parseUrl_eq_some h
  obtain ⟨hhost, hport⟩ := parseAuthority_accepted ha
  obtain ⟨hpath, hquery, habsent, heq, -, -⟩ := parseRest_eq_some hr
  refine ⟨hs, hhost, hport, ?_, hpath, hquery, habsent⟩
  have hstarts : u.path <+: startingAt tail (findFirstOf tail "/?#".toList) := by
    rw [heq]
    exact (upTo_isPrefix _ _).trans (upTo_isPrefix _ _)
  cases hp : u.path with
  | nil => exact Or.inl rfl
  | cons d t =>
    rw [hp] at hstarts hpath
    rcases startingAt_findFirstOf tail "/?#".toList with hnil | ⟨c, hc, s, hs'⟩
    · rw [hnil] at hstarts
      simp at hstarts
    · rw [hs'] at hstarts
      obtain ⟨rfl, -⟩ := List.cons_prefix_cons.mp hstarts
      have hquestion : d ≠ '?' := fun h =>
        notMem_of_valid hpath (c := '?') (by decide) (by simp [h])
      have hhash : d ≠ '#' := fun h => notMem_of_valid hpath (c := '#') (by decide) (by simp [h])
      have hcases : d = '/' ∨ d = '?' ∨ d = '#' := by simpa using hc
      exact Or.inr ⟨t, by rw [hcases.resolve_right (not_or.mpr ⟨hquestion, hhash⟩)]⟩

end Url

end KatHttp3
