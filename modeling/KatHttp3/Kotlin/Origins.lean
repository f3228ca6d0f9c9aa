import KatHttp3.Engine.Callbacks
import KatHttp3.Engine.Execute
import KatHttp3.Url.Resolution

/-!
# The origins of a request

Four places compare the origins of two requests: the redirect policy, the
invalidation of the cache, the pool of connections and the scheduler of the
Kotlin client. They agree unless two hosts differ in letter case only or the
default port is written out in one of two URLs.
-/

namespace KatHttp3

open Str

/-! ### java.net.URI -/

/-- What `originOf` reads of a `java.net.URI`: the port is absent when undefined. -/
structure JavaUri where
  scheme : Str
  host : Str
  port : Option ℕ
  deriving DecidableEq

/-- Where the host of an authority ends: behind a bracketed literal, before a port. -/
def hostLength (authority : Str) : ℕ :=
  if authority.head? = some '[' then ((find authority ']').map (· + 1)).getD authority.length
  else (find authority ':').getD authority.length

/-- The URI of a text with a server-based authority without user information;
`isHost` says which hosts are well formed. Whatever `parse_url` lets through in
the path, the query and the fragment is legal there. -/
def javaUri (isHost : Str → Bool) (text : Str) : Option JavaUri :=
  match find text ':' with
  | none => none
  | some colon =>
    let tail := text.drop (colon + 3)
    let authority := upTo tail (findFirstOf tail "/?#".toList)
    let host := authority.take (hostLength authority)
    if (text.drop (colon + 1)).take 2 ≠ "//".toList ∨ isHost host = false then none
    else
      match authority.drop (hostLength authority) with
      | [] => some ⟨text.take colon, host, none⟩
      | c :: digits =>
        if c ≠ ':' then none
        else if digits = [] then some ⟨text.take colon, host, none⟩
        else (fromChars (2 ^ 31 - 1) digits).map fun port => ⟨text.take colon, host, some port⟩

/-- `OriginRequestScheduler.originOf` of a parsed URI. -/
def JavaUri.origin (uri : JavaUri) : Str :=
  let scheme := asciiLower uri.scheme
  let port := match uri.port with
    | some port => ofNat port
    | none => if scheme = "https".toList then ofNat 443 else "-1".toList
  scheme ++ "://".toList ++ asciiLower uri.host ++ ":".toList ++ port

/-- The text is one of a URL whose host is a name or an IPv4 address that
`java.net.URI` accepts. -/
def NamedUri (isHost : Str → Bool) (text : Str) (uri : JavaUri) : Prop :=
  javaUri isHost text = some uri ∧ uri.host.head? ≠ some '['

variable {net : InetPton} {isHost : Str → Bool}

/-- Both parsers find the same host and port. -/
theorem parseNamedAuthority_eq_some {authority host : Str} {port : ℕ}
    (h : parseNamedAuthority authority = some (host, port)) :
    (find authority ':' = none ∧ host = authority ∧ port = 0) ∨
      ∃ digits, authority = host ++ ':' :: digits ∧ ':' ∉ host ∧ parsePort digits = some port := by
  unfold parseNamedAuthority at h
  cases hcolon : rfind authority ':' with
  | none =>
    rw [hcolon] at h
    dsimp only at h
    split_ifs at h with hvalid
    cases h
    exact Or.inl ⟨find_eq_none.mpr (rfind_eq_none.mp hcolon), rfl, rfl⟩
  | some pcolon =>
    rw [hcolon] at h
    dsimp only at h
    split_ifs at h with hbad
    simp only [not_or, not_not] at hbad
    obtain ⟨p, hp, heq⟩ := Option.map_eq_some_iff.mp h
    cases heq
    exact Or.inr ⟨_, (rfind_eq_some hcolon).1, find_eq_none.mp hbad.1, hp⟩

theorem fromChars_of_parsePort {digits : Str} {port : ℕ} (h : parsePort digits = some port) :
    digits ≠ [] ∧ fromChars (2 ^ 31 - 1) digits = some port := by
  have hbound := (parsePort_bounds h).2
  obtain ⟨hread, -⟩ := Option.filter_eq_some_iff.mp h
  unfold fromChars at hread ⊢
  split_ifs at hread with hdigits
  rw [Option.some.inj hread] at hdigits ⊢
  exact ⟨hdigits.1, if_pos ⟨hdigits.1, hdigits.2.1, by omega⟩⟩

/-- The host that is found in a literal begins with the bracket. -/
theorem head?_take_hostLength {authority : Str} (h : authority.head? = some '[') :
    (authority.take (hostLength authority)).head? = some '[' := by
  have hne : authority ≠ [] := by
    rintro rfl
    cases h
  have hpos : hostLength authority ≠ 0 := by
    rw [hostLength, if_pos h]
    cases find authority ']' with
    | none => simpa using hne
    | some close => simp
  rw [List.head?_take, if_neg hpos, h]

theorem hostLength_named {authority : Str} (h : authority.head? ≠ some '[') :
    hostLength authority = (find authority ':').getD authority.length := by
  rw [hostLength, if_neg h]

/-- What the URI of an accepted URL has in common with it. -/
theorem NamedUri.agrees {text : Str} {u : Url} {uri : JavaUri} (hu : parseUrl net text = some u)
    (huri : NamedUri isHost text uri) :
    asciiLower uri.scheme = "https".toList ∧ uri.host = u.host ∧
      uri.port.getD 443 = u.effectivePort := by
  obtain ⟨huri, hname⟩ := huri
  obtain ⟨scheme, tail, htext, hnot, hhttps, hs, ha, -⟩ := Url.parseUrl_eq_some hu
  have hfind : find text ':' = some scheme.length := by
    rw [htext]
    exact find_append_cons hnot
  have htake : text.take scheme.length = scheme := by rw [htext, List.take_left]
  have hdrop : text.drop (scheme.length + 3) = tail := by
    rw [htext, ← List.drop_drop, List.drop_left]
    rfl
  unfold javaUri at huri
  rw [hfind] at huri
  dsimp only at huri
  rw [htake, hdrop] at huri
  generalize upTo tail (findFirstOf tail "/?#".toList) = authority at ha huri
  split_ifs at huri with hbad
  have hscheme : asciiLower scheme = "https".toList := by
    rw [asciiIequals_iff.mp hhttps]
    decide
  have hhost : uri.host = authority.take (hostLength authority) := by
    cases hrest : authority.drop (hostLength authority) with
    | nil =>
      rw [hrest] at huri
      cases huri
      rfl
    | cons c digits =>
      rw [hrest] at huri
      dsimp only at huri
      split_ifs at huri
      · cases huri
        rfl
      · obtain ⟨port, -, rfl⟩ := Option.map_eq_some_iff.mp huri
        rfl
  have hhead : authority.head? ≠ some '[' := by
    intro hbracket
    apply hname
    rw [hhost, head?_take_hostLength hbracket]
  have hlength := hostLength_named hhead
  have hnamed : parseNamedAuthority authority = some (u.host, u.port) := by
    unfold parseAuthority at ha
    split_ifs at ha with hempty huser hliteral
    · exact absurd hliteral.2 hhead
    · exact ha
  rcases parseNamedAuthority_eq_some hnamed with ⟨hcolon, hall, hport⟩ | ⟨digits, hall, hcolon, hp⟩
  · rw [hcolon, Option.getD_none] at hlength
    rw [hlength, List.drop_length, List.take_length] at huri
    cases huri
    refine ⟨hscheme, hall.symm, ?_⟩
    rw [Url.effectivePort, hport, hs]
    rfl
  · rw [hall, find_append_cons hcolon, Option.getD_some] at hlength
    obtain ⟨hdigits, hread⟩ := fromChars_of_parsePort hp
    rw [hall, hlength, List.drop_left, List.take_left] at huri
    dsimp only at huri
    rw [if_neg (by simp), if_neg hdigits, hread] at huri
    cases huri
    refine ⟨hscheme, rfl, ?_⟩
    rw [Url.effectivePort, if_pos (parsePort_bounds hp).1]
    rfl

/-! ### Text behind the last colon -/

theorem append_colon_inj {s s' t t' : Str} (ht : ':' ∉ t) (ht' : ':' ∉ t')
    (h : s ++ ':' :: t = s' ++ ':' :: t') : s = s' ∧ t = t' := by
  have hlength : s.length = s'.length := by
    have hlast := rfind_append_cons (s := s) ht
    rw [h, rfind_append_cons ht'] at hlast
    exact (Option.some.inj hlast).symm
  obtain ⟨hs, hcons⟩ := List.append_inj h hlength
  exact ⟨hs, (List.cons_inj_right ':').mp hcons⟩

theorem ofNat_inj {m n : ℕ} (h : ofNat m = ofNat n) : m = n := by
  have hm : decimal (ofNat m) = m := Nat.ofDigitChars_ten_toDigits
  rw [h] at hm
  exact hm.symm.trans Nat.ofDigitChars_ten_toDigits

/-- A printed port at the end is read off with what stands before it. -/
theorem append_port_inj {s s' : Str} {m n : ℕ} :
    s ++ ":".toList ++ ofNat m = s' ++ ":".toList ++ ofNat n ↔ s = s' ∧ m = n := by
  constructor
  · intro h
    have hcolon : ":".toList = [':'] := rfl
    rw [hcolon, List.append_assoc, List.append_assoc, List.singleton_append,
      List.singleton_append] at h
    obtain ⟨hs, hport⟩ := append_colon_inj (Url.notMem_ofNat (by decide))
      (Url.notMem_ofNat (by decide)) h
    exact ⟨hs, ofNat_inj hport⟩
  · rintro ⟨rfl, rfl⟩
    rfl

/-! ### The four comparisons -/

/-- No redirect from one URL to the other is taken for a cross-origin one. -/
def StaysInOrigin (net : InetPton) (u v : Url) : Prop :=
  ∀ (method : Str) (resp : Response) (auto : Bool) (remaining : ℕ),
    resolveReference net u (resp.headers.get "location".toList) = some v →
    (evaluate net method u resp auto remaining).follow = true →
    (evaluate net method u resp auto remaining).crossOrigin = false

/-- The authority with the port as it was accepted. -/
def exactAuthority (v : Url) : Str :=
  if v.port = 0 then printedHost v.host else printedHost v.host ++ ':' :: ofNat v.port

/-- The URL as it was accepted, without its fragment. -/
def exactText (v : Url) : Str :=
  "https".toList ++ "://".toList ++ exactAuthority v ++
    (v.path ++ printedQuery v.query v.queryPresent)

theorem exactText_eq (v : Url) : exactText v =
    "https".toList ++ "://".toList ++ exactAuthority v ++
      (v.path ++ printedQuery v.query v.queryPresent) := rfl

theorem exactAuthority_notMem {v : Url} (h : v.WellFormed net) {c : Char}
    (hc : c ∈ "/?#".toList) : c ∉ exactAuthority v := by
  have hcases : c = '/' ∨ c = '?' ∨ c = '#' := by simpa using hc
  have hhost : c ∉ v.host := h.host.notMem (by rcases hcases with rfl | rfl | rfl <;> decide)
  have hdigits : c ∉ ofNat v.port :=
    Url.notMem_ofNat (by rcases hcases with rfl | rfl | rfl <;> decide)
  have hother : c ≠ '[' ∧ c ≠ ']' ∧ c ≠ ':' := by
    rcases hcases with rfl | rfl | rfl <;> decide
  have hprinted : c ∉ printedHost v.host := by
    unfold printedHost
    split_ifs
    · exact hhost
    · simp [hhost, hother]
  unfold exactAuthority
  split_ifs
  · exact hprinted
  · simp [hprinted, hdigits, hother]

theorem parseUrl_exactText {v : Url} (h : v.WellFormed net) :
    parseUrl net (exactText v) = some v := by
  have hauthority : parseAuthority net (exactAuthority v) = some (v.host, v.port) := by
    unfold exactAuthority
    split_ifs with hport
    · rw [parseAuthority_host h.host, hport]
    · rw [parseAuthority_port h.host (Url.notMem_ofNat (by decide))
        (Url.notMem_ofNat (by decide)), parsePort_ofNat hport h.port]
      rfl
  have hends : EndsAuthority (v.path ++ printedQuery v.query v.queryPresent) := by
    rcases h.path_head with hpath | ⟨t, hpath⟩
    · cases hpresent : v.queryPresent with
      | false => exact Or.inl (by simp [hpath, printedQuery])
      | true => exact Or.inr ⟨'?', by decide, v.query, by simp [hpath, printedQuery]⟩
    · exact Or.inr ⟨'/', by decide, _, by rw [hpath]; rfl⟩
  obtain ⟨hq, hf, hfq⟩ := h.notMem
  have hrest : parseRest (v.path ++ printedQuery v.query v.queryPresent) =
      some (v.path, v.query, v.queryPresent) := by
    rw [parseRest_print hq hf hfq h.query_absent, h.path, h.query]
    rfl
  have hparse := parseUrl_https net (fun c hc hc' => exactAuthority_notMem h hc' hc) hends
  rw [hauthority, hrest] at hparse
  dsimp only at hparse
  rw [exactText_eq, hparse, ← h.scheme]

theorem resolveReference_exactText {u v : Url} (h : v.WellFormed net) :
    resolveReference net u (exactText v) = some v := by
  obtain ⟨-, hpath, hquery⟩ := h.notMem
  have hhash : find (exactText v) '#' = none := by
    have hauthority : '#' ∉ exactAuthority v := exactAuthority_notMem h (by decide)
    rw [find_eq_none, exactText_eq, printedQuery]
    cases v.queryPresent <;> simp [hauthority, hpath, hquery]
  have hcolon : find (exactText v) ':' = some 5 :=
    find_append_cons (s := "https".toList) (by decide)
  have hlater : findFirstOf (exactText v) "/?#".toList = some 6 :=
    findFirstOf_append_cons (s := "https:".toList) (by simp) (by decide)
  have hscheme : hasValidScheme (exactText v) = some true := by
    unfold hasValidScheme
    rw [hcolon, hlater]
    rfl
  have hwhole : upTo (exactText v) none = exactText v := rfl
  unfold resolveReference
  dsimp only
  rw [hhash, hwhole, hscheme]
  exact parseUrl_exactText h

/-- A redirect with a usable target is followed. -/
theorem evaluate_follow_of_resolve {method : Str} {u v : Url} {resp : Response} {remaining : ℕ}
    (hstatus : isRedirectStatus resp.statusCode = true) (hremaining : remaining ≠ 0)
    (hlocation : resp.headers.get "location".toList ≠ [])
    (hresolve : resolveReference net u (resp.headers.get "location".toList) = some v)
    (hscheme : v.scheme = "https".toList) (hvalid : v.valid = true) :
    (evaluate net method u resp true remaining).follow = true := by
  unfold evaluate
  dsimp only
  rw [if_neg Bool.true_eq_false.mp, if_neg (by simp [hstatus]), if_neg hremaining,
    if_neg hlocation, hresolve]
  dsimp only
  rw [if_neg (not_not_intro hscheme), if_neg (by simp [hvalid])]

theorem location_foundAt (text : Str) :
    (foundAt text).headers.get "location".toList = text := rfl

theorem staysInOrigin_iff {u v : Url} (hv : v.WellFormed net) :
    StaysInOrigin net u v ↔ v.origin = u.origin := by
  constructor
  · intro h
    have hresolve : resolveReference net u (exactText v) = some v :=
      resolveReference_exactText hv
    have hvalid : v.valid = true := by
      rw [Url.valid, hv.scheme]
      simpa using hv.host.1
    have hnonempty : exactText v ≠ [] := by simp [exactText_eq]
    rw [← location_foundAt (exactText v)] at hresolve hnonempty
    have hfollow : (evaluate net "GET".toList u (foundAt (exactText v)) true 1).follow = true :=
      evaluate_follow_of_resolve rfl one_ne_zero hnonempty hresolve hv.scheme hvalid
    have hstays := h "GET".toList (foundAt (exactText v)) true 1 hresolve hfollow
    obtain ⟨target, htarget, -, hcross⟩ := evaluate_follow hfollow
    rw [hresolve] at htarget
    cases htarget
    rwa [← Bool.not_eq_true, hcross, not_not] at hstays
  · intro horigin method resp auto remaining hresolve hfollow
    obtain ⟨target, htarget, -, hcross⟩ := evaluate_follow hfollow
    rw [hresolve] at htarget
    cases htarget
    rw [← Bool.not_eq_true, hcross, not_not]
    exact horigin

theorem sameOrigin_iff {u v : Url} (hu : u.WellFormed net) (hv : v.WellFormed net) :
    sameOrigin u v = true ↔
      asciiIequals v.host u.host = true ∧ v.effectivePort = u.effectivePort := by
  have hscheme : asciiIequals v.scheme u.scheme = true := by
    rw [hu.scheme, hv.scheme]
    decide
  rw [sameOrigin, hscheme, Bool.true_and, Bool.and_eq_true, beq_iff_eq]

theorem poolKey_eq_iff {u v : Url} (hu : u.WellFormed net) (hv : v.WellFormed net)
    (admission : AdmissionConfig) :
    Execution.poolKey admission v = Execution.poolKey admission u ↔
      v.host = u.host ∧ v.port = u.port := by
  rw [Execution.poolKey, Execution.poolKey, append_port_inj, hu.scheme, hv.scheme, List.append_right_inj]

/-- The scheduler's text for a URL that both parsers accept. -/
theorem NamedUri.origin_eq {text : Str} {u : Url} {uri : JavaUri}
    (hu : parseUrl net text = some u) (huri : NamedUri isHost text uri) :
    uri.origin = "https".toList ++ "://".toList ++ asciiLower u.host ++ ":".toList ++
      ofNat u.effectivePort := by
  obtain ⟨hscheme, hhost, hport⟩ := huri.agrees hu
  unfold JavaUri.origin
  dsimp only
  rw [hscheme, hhost, ← hport]
  cases uri.port with
  | none =>
    dsimp only
    rw [if_pos rfl]
    rfl
  | some port => rfl

theorem NamedUri.origin_eq_iff {text text' : Str} {u v : Url} {uri uri' : JavaUri}
    (hu : parseUrl net text = some u) (huri : NamedUri isHost text uri)
    (hv : parseUrl net text' = some v) (huri' : NamedUri isHost text' uri') :
    uri'.origin = uri.origin ↔
      asciiIequals v.host u.host = true ∧ v.effectivePort = u.effectivePort := by
  rw [huri.origin_eq hu, huri'.origin_eq hv, append_port_inj, List.append_right_inj,
    asciiIequals_iff]

/-- The four comparisons of two requests agree. -/
structure OneOrigin (net : InetPton) (admission : AdmissionConfig) (u v : Url)
    (uri uri' : JavaUri) : Prop where
  redirect : StaysInOrigin net u v ↔ sameOrigin u v = true
  pool : Execution.poolKey admission v = Execution.poolKey admission u ↔ sameOrigin u v = true
  scheduler : uri'.origin = uri.origin ↔ sameOrigin u v = true

theorem oneOrigin_iff {text text' : Str} {u v : Url} {uri uri' : JavaUri}
    (hu : parseUrl net text = some u) (huri : NamedUri isHost text uri)
    (hv : parseUrl net text' = some v) (huri' : NamedUri isHost text' uri')
    (admission : AdmissionConfig) :
    OneOrigin net admission u v uri uri' ↔
      asciiIequals v.host u.host = false ∨ v.effectivePort ≠ u.effectivePort ∨
        v.host = u.host ∧ v.port = u.port := by
  have hwu := Url.parseUrl_wellFormed hu
  have hwv := Url.parseUrl_wellFormed hv
  have hscheme : v.scheme = u.scheme := hwv.scheme.trans hwu.scheme.symm
  have hsame := sameOrigin_iff hwu hwv
  have hpool := poolKey_eq_iff hwu hwv admission
  constructor
  · intro h
    by_contra hcond
    simp only [not_or, Bool.not_eq_false, not_not] at hcond
    obtain ⟨hhost, hport, hdiffer⟩ := hcond
    exact hdiffer (hpool.mp (h.pool.mpr (hsame.mpr ⟨hhost, hport⟩)))
  · intro hcond
    -- the four agree when the invalidation's comparison implies the pool's
    have hexact : sameOrigin u v = true → v.host = u.host ∧ v.port = u.port := by
      intro htrue
      obtain ⟨hhost, hport⟩ := hsame.mp htrue
      rcases hcond with hother | hother | hequal
      · rw [hhost] at hother
        cases hother
      · exact absurd hport hother
      · exact hequal
    have hrefines : v.host = u.host → asciiIequals v.host u.host = true := by
      intro hhost
      rw [asciiIequals_iff, hhost]
    have heffective : v.port = u.port → v.effectivePort = u.effectivePort := by
      intro hport
      rw [Url.effectivePort, Url.effectivePort, hport, hscheme]
    refine ⟨?_, ?_, ?_⟩
    · rw [staysInOrigin_iff hwv, Url.origin, Url.origin, Prod.mk.injEq, Prod.mk.injEq]
      constructor
      · rintro ⟨-, hhost, hport⟩
        exact hsame.mpr ⟨hrefines hhost, hport⟩
      · intro htrue
        exact ⟨hscheme, (hexact htrue).1, (hsame.mp htrue).2⟩
    · rw [hpool]
      constructor
      · rintro ⟨hhost, hport⟩
        exact hsame.mpr ⟨hrefines hhost, heffective hport⟩
      · exact hexact
    · rw [huri.origin_eq_iff hu hv huri', hsame]

/-- The root of a host; the port is 0 when it is left out. -/
def rootUrl (host : Str) (port : ℕ) : Url := ⟨"https".toList, host, port, "/".toList, [], false⟩

def rootUri (host : Str) (port : Option ℕ) : JavaUri := ⟨"https".toList, host, port⟩

theorem oneOrigin_iff_otherPort :
    OneOrigin noLiterals {} (rootUrl "a.test".toList 0) (rootUrl "a.test".toList 8443)
        (rootUri "a.test".toList none) (rootUri "a.test".toList (some 8443)) ↔
      asciiIequals (rootUrl "a.test".toList 8443).host (rootUrl "a.test".toList 0).host = false ∨
        (rootUrl "a.test".toList 8443).effectivePort ≠ (rootUrl "a.test".toList 0).effectivePort ∨
        (rootUrl "a.test".toList 8443).host = (rootUrl "a.test".toList 0).host ∧
          (rootUrl "a.test".toList 8443).port = (rootUrl "a.test".toList 0).port :=
  oneOrigin_iff (show parseUrl noLiterals "https://a.test/".toList = _ by decide +kernel)
    (show NamedUri (fun _ => true) "https://a.test/".toList _ from
      ⟨by decide +kernel, by decide⟩)
    (show parseUrl noLiterals "https://a.test:8443/".toList = _ by decide +kernel)
    (show NamedUri (fun _ => true) "https://a.test:8443/".toList _ from
      ⟨by decide +kernel, by decide⟩) {}

/-- The port 443 written out, and a host in capitals: the pool keeps the requests
apart, the scheduler does not. -/
theorem not_oneOrigin :
    (parseUrl noLiterals "https://a.test:443/".toList = some (rootUrl "a.test".toList 443) ∧
      NamedUri (fun _ => true) "https://a.test:443/".toList (rootUri "a.test".toList (some 443)) ∧
      ¬ OneOrigin noLiterals {} (rootUrl "a.test".toList 0) (rootUrl "a.test".toList 443)
        (rootUri "a.test".toList none) (rootUri "a.test".toList (some 443))) ∧
    (parseUrl noLiterals "https://A.test/".toList = some (rootUrl "A.test".toList 0) ∧
      NamedUri (fun _ => true) "https://A.test/".toList (rootUri "A.test".toList none) ∧
      ¬ OneOrigin noLiterals {} (rootUrl "a.test".toList 0) (rootUrl "A.test".toList 0)
        (rootUri "a.test".toList none) (rootUri "A.test".toList none)) := by
  refine ⟨⟨by decide +kernel, ⟨by decide +kernel, by decide⟩, fun h => ?_⟩,
    ⟨by decide +kernel, ⟨by decide +kernel, by decide⟩, fun h => ?_⟩⟩
  · have hsame : sameOrigin (rootUrl "a.test".toList 0) (rootUrl "a.test".toList 443) = true := by
      decide
    exact absurd (h.pool.mpr hsame) (by decide +kernel)
  · have hsame : sameOrigin (rootUrl "a.test".toList 0) (rootUrl "A.test".toList 0) = true := by
      decide
    exact absurd (h.pool.mpr hsame) (by decide +kernel)

end KatHttp3
