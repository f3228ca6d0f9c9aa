import KatHttp3.Cookies.Confinement
import KatHttp3.Library.Transition
import KatHttp3.Text.LetterCase

/-!
# One cookie of a kind

A jar finds the cookie that a new one replaces by comparing domains letter by
letter. As long as a domain is always spelled alike, no two of its cookies are
the same but for letter case.
-/

namespace KatHttp3

open Str

/-! ### What a store does to a jar -/

namespace Cookies

/-- How a jar changes when a cookie is put in it. -/
inductive Inserted (c : Cookie) (cookies : Cookies) : Cookies → Prop where
  | replaced {before behind : Cookies} {old : Cookie} (hjar : cookies = before ++ old :: behind)
      (hold : old.identity = c.identity) (hfirst : ∀ x ∈ before, x.identity ≠ c.identity) :
      Inserted c cookies (before ++ c :: behind)
  | refused (hnew : ∀ x ∈ cookies, x.identity ≠ c.identity)
      (hfull : 50 ≤ cookies.countP (·.domain == c.domain)) : Inserted c cookies cookies
  | evicted (hnew : ∀ x ∈ cookies, x.identity ≠ c.identity)
      (hroom : cookies.countP (·.domain == c.domain) < 50) (hfull : 300 ≤ cookies.length) :
      Inserted c cookies (cookies.drop 1 ++ [c])
  | added (hnew : ∀ x ∈ cookies, x.identity ≠ c.identity)
      (hroom : cookies.countP (·.domain == c.domain) < 50) (hshort : cookies.length < 300) :
      Inserted c cookies (cookies ++ [c])

theorem insert_inserted (c : Cookie) (cookies : Cookies) :
    Inserted c cookies (cookies.insert c) := by
  unfold insert
  cases hfind : cookies.findIdx? c.sameIdentity with
  | some i =>
    obtain ⟨hi, hsame, hbefore⟩ := List.findIdx?_eq_some_iff_getElem.mp hfind
    dsimp only
    rw [List.set_eq_take_append_cons_drop, if_pos hi]
    have hjar : cookies = cookies.take i ++ cookies[i] :: cookies.drop (i + 1) := by
      rw [← List.drop_eq_getElem_cons hi, List.take_append_drop]
    apply Inserted.replaced hjar
    · exact Cookie.sameIdentity_iff.mp hsame
    · intro x hx heq
      obtain ⟨j, hj, rfl⟩ := List.mem_take_iff_getElem.mp hx
      have hji : j < i := by omega
      exact hbefore j hji (Cookie.sameIdentity_iff.mpr heq)
  | none =>
    have hnew : ∀ x ∈ cookies, x.identity ≠ c.identity := by
      intro x hx heq
      have hno := List.findIdx?_eq_none_iff.mp hfind x hx
      rw [Cookie.sameIdentity_iff.mpr heq] at hno
      cases hno
    dsimp only
    split_ifs with hfull hlong
    · exact Inserted.refused hnew hfull
    · exact Inserted.evicted hnew (not_le.mp hfull) hlong
    · exact Inserted.added hnew (not_le.mp hfull) (not_le.mp hlong)

end Cookies

/-! ### Cookies that differ in letter case -/

/-- The same name and path, and the same domain up to letter case. -/
def Cookie.SameAs (x y : Cookie) : Prop :=
  x.name = y.name ∧ x.path = y.path ∧ asciiIequals x.domain y.domain = true

instance (x y : Cookie) : Decidable (x.SameAs y) := inferInstanceAs (Decidable (_ ∧ _ ∧ _))

theorem Cookie.SameAs.symm {x y : Cookie} (h : x.SameAs y) : y.SameAs x := by
  obtain ⟨hname, hpath, hdomain⟩ := h
  exact ⟨hname.symm, hpath.symm, asciiIequals_iff.mpr (asciiIequals_iff.mp hdomain).symm⟩

namespace Cookies

def domainCount (cookies : Cookies) (domain : Str) : ℕ :=
  cookies.countP fun x => asciiIequals x.domain domain

/-- No two cookies are the same, and there are not too many of them. -/
structure Unique (cookies : Cookies) : Prop where
  distinct : cookies.Pairwise fun x y => ¬ x.SameAs y
  length_le : cookies.length ≤ 300
  domainCount_le : ∀ domain, cookies.domainCount domain ≤ 50

theorem unique_nil : Unique [] :=
  ⟨List.Pairwise.nil, Nat.zero_le _, fun _ => Nat.zero_le _⟩

theorem Unique.eq {cookies : Cookies} (h : cookies.Unique) {x y : Cookie} (hx : x ∈ cookies)
    (hy : y ∈ cookies) (hsame : x.SameAs y) : x = y := by
  have : Std.Symm fun x y : Cookie => ¬ x.SameAs y := ⟨fun x y hxy hyx => hxy hyx.symm⟩
  by_contra hne
  exact h.distinct.forall hx hy hne hsame

/-- Another value of a cookie changes nothing. -/
theorem Unique.replace {before behind : Cookies} {old c : Cookie}
    (h : Unique (before ++ old :: behind)) (hid : old.identity = c.identity) :
    Unique (before ++ c :: behind) := by
  obtain ⟨hdistinct, hlength, hcount⟩ := h
  have hsame : ∀ x : Cookie, x.SameAs c → x.SameAs old := by
    intro x hx
    simp only [Cookie.identity, Prod.mk.injEq] at hid
    obtain ⟨hname, hdomain, hpath⟩ := hid
    unfold Cookie.SameAs
    rwa [hname, hdomain, hpath]
  constructor
  · rw [List.pairwise_append, List.pairwise_cons] at hdistinct ⊢
    obtain ⟨hbefore, ⟨hold, hbehind⟩, hacross⟩ := hdistinct
    refine ⟨hbefore, ⟨fun x hx hxc => hold x hx (hsame x hxc.symm).symm, hbehind⟩, ?_⟩
    intro a ha b hb
    rcases List.mem_cons.mp hb with rfl | hb
    · exact fun hab => hacross a ha old List.mem_cons_self (hsame a hab)
    · exact hacross a ha b (List.mem_cons_of_mem old hb)
  · rw [List.length_append, List.length_cons] at hlength ⊢
    exact hlength
  · intro domain
    have hdomain : old.domain = c.domain := congrArg (·.2.1) hid
    have := hcount domain
    unfold domainCount at this ⊢
    rw [List.countP_append, List.countP_cons, hdomain] at this
    rw [List.countP_append, List.countP_cons]
    exact this

theorem Unique.sublist {cookies kept : Cookies} (h : cookies.Unique) (hkept : kept.Sublist cookies) :
    kept.Unique :=
  ⟨h.distinct.sublist hkept, hkept.length_le.trans h.length_le,
    fun domain => hkept.countP_le.trans (h.domainCount_le domain)⟩

end Cookies

/-- No cookie in the jar is missed for the letter case of its domain, neither as the one to
replace nor where the cookies of the domain are counted. -/
structure Cookie.SpelledAlike (c : Cookie) (cookies : Cookies) : Prop where
  replace : ∀ x ∈ cookies, x.SameAs c → x.domain = c.domain
  count : (∃ x ∈ cookies, x.identity = c.identity) ∨ cookies.domainCount c.domain < 50 ∨
    ∀ x ∈ cookies, asciiIequals x.domain c.domain = true → x.domain = c.domain

instance (c : Cookie) (cookies : Cookies) : Decidable (c.SpelledAlike cookies) :=
  decidable_of_iff
    ((∀ x ∈ cookies, x.SameAs c → x.domain = c.domain) ∧
      ((∃ x ∈ cookies, x.identity = c.identity) ∨ cookies.domainCount c.domain < 50 ∨
        ∀ x ∈ cookies, asciiIequals x.domain c.domain = true → x.domain = c.domain))
    ⟨fun h => ⟨h.1, h.2⟩, fun h => ⟨h.replace, h.count⟩⟩

namespace Cookies

variable {c : Cookie} {cookies : Cookies}

/-- A cookie that the jar does not have is not the same as any it has. -/
theorem not_sameAs_of_spelledAlike (h : c.SpelledAlike cookies)
    (hnew : ∀ x ∈ cookies, x.identity ≠ c.identity) : ∀ x ∈ cookies, ¬ x.SameAs c := by
  intro x hx hsame
  have hdomain := h.replace x hx hsame
  apply hnew x hx
  unfold Cookie.identity
  rw [hsame.1, hdomain, hsame.2.1]

theorem domainCount_of_spelledAlike (h : c.SpelledAlike cookies)
    (hnew : ∀ x ∈ cookies, x.identity ≠ c.identity)
    (hroom : cookies.countP (·.domain == c.domain) < 50) : cookies.domainCount c.domain < 50 := by
  rcases h.count with ⟨x, hx, hid⟩ | hcount | hspelled
  · exact absurd hid (hnew x hx)
  · exact hcount
  · apply lt_of_le_of_lt _ hroom
    apply List.countP_mono_left
    intro x hx hsame
    exact beq_iff_eq.mpr (hspelled x hx hsame)

/-- A new cookie at the end. -/
theorem Unique.append {kept : Cookies} (h : kept.Unique) (hlength : kept.length < 300)
    (hnew : ∀ x ∈ kept, ¬ x.SameAs c) (hcount : kept.domainCount c.domain < 50) :
    Unique (kept ++ [c]) := by
  constructor
  · apply List.pairwise_append.mpr
    refine ⟨h.distinct, List.pairwise_singleton _ _, ?_⟩
    intro x hx y hy
    rw [List.mem_singleton.mp hy]
    exact hnew x hx
  · rw [List.length_append, List.length_singleton]
    exact hlength
  · intro domain
    unfold domainCount
    rw [List.countP_append, List.countP_singleton]
    split_ifs with hdomain
    · have hsame : ∀ x : Cookie, asciiIequals x.domain domain = asciiIequals x.domain c.domain := by
        intro x
        unfold asciiIequals
        rw [asciiIequals_iff.mp hdomain]
      simp only [hsame]
      exact hcount
    · exact h.domainCount_le domain

theorem Unique.inserted {result : Cookies} (h : cookies.Unique) (hc : c.SpelledAlike cookies)
    (hresult : Inserted c cookies result) : result.Unique := by
  cases hresult with
  | replaced hjar hold hfirst =>
    rw [hjar] at h
    exact h.replace hold
  | refused hnew hfull => exact h
  | evicted hnew hroom hfull =>
    have hkept := List.drop_sublist 1 cookies
    apply (h.sublist hkept).append
    · have := h.length_le
      rw [List.length_drop]
      omega
    · intro x hx
      exact not_sameAs_of_spelledAlike hc hnew x (hkept.subset hx)
    · exact hkept.countP_le.trans_lt (domainCount_of_spelledAlike hc hnew hroom)
  | added hnew hroom hshort =>
    exact h.append hshort (not_sameAs_of_spelledAlike hc hnew)
      (domainCount_of_spelledAlike hc hnew hroom)

/-- A cookie that is in the jar is replaced, and nothing that is the same is left. -/
structure Replaces (c : Cookie) (result : Cookies) : Prop where
  mem : c ∈ result
  only : ∀ x ∈ result, x.SameAs c → x = c

theorem Unique.replaces {result : Cookies} (h : cookies.Unique) (hc : c.SpelledAlike cookies)
    (hresult : Inserted c cookies result) {x : Cookie} (hx : x ∈ cookies) (hsame : x.SameAs c) :
    Replaces c result := by
  have hmem : c ∈ result := by
    have hno : ¬ ∀ y ∈ cookies, y.identity ≠ c.identity := fun hnew =>
      not_sameAs_of_spelledAlike hc hnew x hx hsame
    cases hresult with
    | replaced hjar hold hfirst => simp
    | refused hnew hfull => exact absurd hnew hno
    | evicted hnew hroom hfull => simp
    | added hnew hroom hshort => simp
  exact ⟨hmem, fun y hy hyc => (h.inserted hc hresult).eq hy hmem hyc⟩

/-! ### Histories -/

variable {net : InetPton}

/-- A new cookie is spelled like those in the jar. -/
def Spelled (net : InetPton) (cookies : Cookies) : CookieOp → Prop
  | .setCookie url field now => ∀ c ∈ readSetCookie net url now.wall field, c.SpelledAlike cookies
  | .cookieHeader _ _ => True
  | .clear => True

instance (net : InetPton) (cookies : Cookies) (op : CookieOp) :
    Decidable (Spelled net cookies op) :=
  match op with
  | .setCookie url field now => inferInstanceAs
      (Decidable (∀ c ∈ readSetCookie net url now.wall field, c.SpelledAlike cookies))
  | .cookieHeader _ _ => inferInstanceAs (Decidable True)
  | .clear => inferInstanceAs (Decidable True)

def step (net : InetPton) (cookies : Cookies) (op : CookieOp) : Option Cookies :=
  some (apply net cookies op)

theorem run_step (ops : List CookieOp) (cookies : Cookies) :
    Transition.run (step net) cookies ops = some (ops.foldl (apply net) cookies) := by
  induction ops generalizing cookies with
  | nil => rfl
  | cons op ops ih => exact ih (apply net cookies op)

theorem Unique.apply {op : CookieOp} (h : cookies.Unique) (hop : Spelled net cookies op) :
    (cookies.apply net op).Unique := by
  cases op with
  | setCookie url field now =>
    unfold Cookies.apply storeField
    dsimp only
    cases hread : readSetCookie net url now.wall field with
    | none => exact h
    | some c => exact h.inserted (hop c hread) (insert_inserted c cookies)
  | cookieHeader url now => exact h.sublist List.filter_sublist
  | clear => exact unique_nil

/-- The domain of a cookie is that of its Domain attribute, else the host that sets it. -/
theorem readSetCookie_domain {url : Url} {field : Str} {now : Option ℕ}
    (hread : readSetCookie net url now field = some c) :
    c.domain = (lastDomain (attributeTexts field)).getD url.host := by
  have hfrom := readSetCookie_readFrom hread
  cases hlast : lastDomain (attributeTexts field) with
  | none => exact (hfrom.hostOnly hlast).2
  | some domain => exact (hfrom.domain domain hlast).2

/-- In every history that spells domains alike no two cookies are the same, the limits
hold, and a further cookie replaces the one that is the same. -/
theorem after_unique {ops : List CookieOp}
    (hops : Transition.Meets (step net) (Spelled net) [] ops) :
    (after net ops).Unique ∧
      ∀ (url : Url) (field : Str) (now : ClockReading) (c : Cookie),
        readSetCookie net url now.wall field = some c →
        c.domain = (lastDomain (attributeTexts field)).getD url.host ∧
        (c.SpelledAlike (after net ops) → (∃ x ∈ after net ops, x.SameAs c) →
          Replaces c ((after net ops).apply net (.setCookie url field now))) := by
  have hunique : (after net ops).Unique := by
    have hstep : ∀ cookies op result, Unique cookies → Spelled net cookies op →
        step net cookies op = some result → Unique result := by
      intro cookies op result hunique hop hresult
      cases hresult
      exact hunique.apply hop
    exact Transition.run_invariant hstep (run_step ops []) hops unique_nil
  refine ⟨hunique, ?_⟩
  intro url field now c hread
  refine ⟨readSetCookie_domain hread, ?_⟩
  rintro hc ⟨x, hx, hsame⟩
  unfold apply storeField
  dsimp only
  rw [hread]
  exact hunique.replaces hc (insert_inserted c _) hx hsame

/-- A session cookie and a field that is to delete it. -/
def logout (domain domain' : Str) : List CookieOp :=
  [.setCookie (urlOf "example.com".toList "/".toList) ("sid=1; Domain=".toList ++ domain) ⟨some 5, 5⟩,
    .setCookie (urlOf "example.com".toList "/".toList)
      ("sid=; Max-Age=0; Domain=".toList ++ domain') ⟨some 6, 6⟩]

theorem after_unique_logout :
    ∃ c, readSetCookie noLiterals (urlOf "example.com".toList "/".toList) (some 6)
        "sid=; Max-Age=0; Domain=Example.com".toList = some c ∧
      (after noLiterals ((logout "Example.com".toList "Example.com".toList).take 1)).Unique ∧
      Replaces c (after noLiterals (logout "Example.com".toList "Example.com".toList)) := by
  obtain ⟨c, hread, hc, hsame⟩ : ∃ c,
      readSetCookie noLiterals (urlOf "example.com".toList "/".toList) (some 6)
        "sid=; Max-Age=0; Domain=Example.com".toList = some c ∧
      c.SpelledAlike (after noLiterals ((logout "Example.com".toList "Example.com".toList).take 1)) ∧
      ∃ x ∈ after noLiterals ((logout "Example.com".toList "Example.com".toList).take 1),
        x.SameAs c := by
    refine ⟨_, rfl, ?_, ?_⟩
    · decide +kernel
    · decide +kernel
  have hmeets : Transition.Meets (step noLiterals) (Spelled noLiterals) []
      ((logout "Example.com".toList "Example.com".toList).take 1) := by decide +kernel
  obtain ⟨hunique, hreplaces⟩ := after_unique hmeets
  exact ⟨c, hread, hunique, (hreplaces _ _ ⟨some 6, 6⟩ c hread).2 hc hsame⟩

/-- With the domain in another letter case the session stays. -/
theorem not_unique_logout :
    ((after noLiterals (logout "Example.com".toList "example.com".toList)).cookieHeader
      (urlOf "example.com".toList "/".toList) ⟨some 7, 7⟩).2 = "sid=1".toList ∧
    ¬ (after noLiterals (logout "Example.com".toList "example.com".toList)).Unique := by
  refine ⟨by decide +kernel, fun h => ?_⟩
  have hboth : ¬ (after noLiterals (logout "Example.com".toList "example.com".toList)).Pairwise
      fun x y => ¬ x.SameAs y := by decide +kernel
  exact hboth h.distinct

end Cookies

end KatHttp3
