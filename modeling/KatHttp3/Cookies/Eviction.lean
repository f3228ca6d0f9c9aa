import KatHttp3.Cookies.Identity

/-!
# What expired cookies cost

An expired cookie stays in the jar until a header is built, and it counts where
the jar is full. The exact states in which a store costs no live cookie.
-/

namespace KatHttp3.Cookies

open Str

variable {net : InetPton} {now : Option ℕ} {c : Cookie} {cookies result : Cookies}

def live (now : Option ℕ) (cookies : Cookies) : Cookies := cookies.filter (!·.expired now)

theorem mem_live {x : Cookie} : x ∈ cookies.live now ↔ x ∈ cookies ∧ x.expired now = false := by
  rw [live, List.mem_filter, Bool.not_eq_true']

theorem live_append (a b : Cookies) : live now (a ++ b) = live now a ++ live now b :=
  List.filter_append _ _

theorem live_cons_of_expired (h : c.expired now = true) (cookies : Cookies) :
    live now (c :: cookies) = live now cookies := by
  apply List.filter_cons_of_neg
  simp [h]

/-- An expired cookie only removes the live one of its identity, and a live one takes the
place of an expired one if there is any. -/
structure CostsNoLive (now : Option ℕ) (c : Cookie) (cookies result : Cookies) : Prop where
  expired : c.expired now = true →
    result.live now = (cookies.live now).filter (·.identity ≠ c.identity)
  kept : c.expired now = false → (∃ e ∈ cookies, e.expired now = true) →
    ∀ x ∈ cookies.live now, x.identity ≠ c.identity → x ∈ result
  stored : c.expired now = false →
    (∃ e ∈ cookies, e.domain = c.domain ∧ e.expired now = true) → c ∈ result

/-- The jar has the identity, or no limit is met by an expired cookie. -/
def Room (now : Option ℕ) (c : Cookie) (cookies : Cookies) : Prop :=
  (∃ x ∈ cookies, x.identity = c.identity) ∨
    if 50 ≤ cookies.countP (·.domain == c.domain) then
      c.expired now = true ∨ ∀ e ∈ cookies, e.domain = c.domain → e.expired now = false
    else
      cookies.length < 300 ∨ (∃ x ∈ cookies.head?, x.expired now = true) ∨
        c.expired now = false ∧ ∀ e ∈ cookies, e.expired now = false

/-- Without a cookie of the identity there is none to remove. -/
theorem filter_identity_of_new (hnew : ∀ x ∈ cookies, x.identity ≠ c.identity) :
    cookies.filter (·.identity ≠ c.identity) = cookies := by
  apply List.filter_eq_self.mpr
  intro x hx
  simpa using hnew x hx

theorem filter_live_of_new (hnew : ∀ x ∈ cookies, x.identity ≠ c.identity) :
    (cookies.live now).filter (·.identity ≠ c.identity) = cookies.live now :=
  filter_identity_of_new fun x hx => hnew x (mem_live.mp hx).1

theorem room_of_new (hnew : ∀ x ∈ cookies, x.identity ≠ c.identity) :
    Room now c cookies ↔
      if 50 ≤ cookies.countP (·.domain == c.domain) then
        c.expired now = true ∨ ∀ e ∈ cookies, e.domain = c.domain → e.expired now = false
      else
        cookies.length < 300 ∨ (∃ x ∈ cookies.head?, x.expired now = true) ∨
          c.expired now = false ∧ ∀ e ∈ cookies, e.expired now = false := by
  unfold Room
  apply or_iff_right
  rintro ⟨x, hx, hid⟩
  exact hnew x hx hid

/-! ### The four outcomes -/

theorem costsNoLive_replaced {before behind : Cookies} {old : Cookie}
    (hdistinct : (before ++ old :: behind).Pairwise (·.identity ≠ ·.identity))
    (hold : old.identity = c.identity) :
    CostsNoLive now c (before ++ old :: behind) (before ++ c :: behind) := by
  rw [List.pairwise_append, List.pairwise_cons] at hdistinct
  obtain ⟨-, ⟨hbehind, -⟩, hacross⟩ := hdistinct
  have hbefore : ∀ x ∈ before, x.identity ≠ c.identity := by
    intro x hx
    rw [← hold]
    exact hacross x hx old List.mem_cons_self
  have hbehind : ∀ x ∈ behind, x.identity ≠ c.identity := by
    intro x hx
    rw [← hold]
    exact (hbehind x hx).symm
  constructor
  · intro hexpired
    have hsplit : (before ++ old :: behind).filter (·.identity ≠ c.identity) =
        before ++ behind := by
      rw [List.filter_append, filter_identity_of_new hbefore,
        List.filter_cons_of_neg (by simpa using hold), filter_identity_of_new hbehind]
    calc
      live now (before ++ c :: behind) = live now (before ++ behind) := by
        rw [live_append, live_append, live_cons_of_expired hexpired]
      _ = _ := by
        rw [← hsplit]
        exact List.filter_comm _ _ _
  · intro _ _ x hx hne
    have hx := (mem_live.mp hx).1
    rcases List.mem_append.mp hx with hx | hx
    · exact List.mem_append_left _ hx
    · rcases List.mem_cons.mp hx with rfl | hx
      · exact absurd hold hne
      · exact List.mem_append_right _ (List.mem_cons_of_mem _ hx)
  · intro _ _
    simp

theorem costsNoLive_refused_iff (hnew : ∀ x ∈ cookies, x.identity ≠ c.identity)
    (hfull : 50 ≤ cookies.countP (·.domain == c.domain)) :
    CostsNoLive now c cookies cookies ↔ Room now c cookies := by
  rw [room_of_new hnew, if_pos hfull]
  constructor
  · intro h
    cases hc : c.expired now with
    | true => exact Or.inl rfl
    | false =>
      right
      intro e he hdomain
      by_contra hexpired
      exact hnew c (h.stored hc ⟨e, he, hdomain, by simpa using hexpired⟩) rfl
  · intro hroom
    refine ⟨fun _ => (filter_live_of_new hnew).symm, fun _ _ x hx _ => (mem_live.mp hx).1, ?_⟩
    rintro hc ⟨e, he, hdomain, hexpired⟩
    rcases hroom with hgone | hnone
    · exact absurd (hc.symm.trans hgone) Bool.false_ne_true
    · exact absurd ((hnone e he hdomain).symm.trans hexpired) Bool.false_ne_true

theorem costsNoLive_evicted_iff (hdistinct : cookies.Pairwise (·.identity ≠ ·.identity))
    (hnew : ∀ x ∈ cookies, x.identity ≠ c.identity)
    (hroom : cookies.countP (·.domain == c.domain) < 50) (hfull : 300 ≤ cookies.length) :
    CostsNoLive now c cookies (cookies.drop 1 ++ [c]) ↔ Room now c cookies := by
  rw [room_of_new hnew, if_neg (not_le.mpr hroom)]
  cases cookies with
  | nil => exact absurd hfull (by decide)
  | cons oldest others =>
    have hlong : ¬ (oldest :: others).length < 300 := not_lt.mpr hfull
    have holdest : oldest ∉ others ++ [c] := by
      intro hmem
      rcases List.mem_append.mp hmem with hmem | hmem
      · exact (List.pairwise_cons.mp hdistinct).1 oldest hmem rfl
      · exact hnew oldest List.mem_cons_self (congrArg Cookie.identity (List.mem_singleton.mp hmem))
    rw [List.drop_one, List.tail_cons]
    constructor
    · intro h
      right
      cases hhead : oldest.expired now with
      | true => exact Or.inl ⟨oldest, rfl, hhead⟩
      | false =>
        right
        have hlive : oldest ∈ live now (oldest :: others) :=
          mem_live.mpr ⟨List.mem_cons_self, hhead⟩
        have hc : c.expired now = false := by
          by_contra hc
          have hgone := h.expired (by simpa using hc)
          rw [filter_live_of_new hnew] at hgone
          rw [← hgone] at hlive
          exact holdest (mem_live.mp hlive).1
        refine ⟨hc, fun e he => ?_⟩
        by_contra hexpired
        exact holdest (h.kept hc ⟨e, he, by simpa using hexpired⟩ oldest hlive
          (hnew oldest List.mem_cons_self))
    · intro hroom
      refine ⟨fun hc => ?_, fun hc hexpired x hx _ => ?_, fun _ _ => by simp⟩
      · rw [filter_live_of_new hnew]
        have hhead : oldest.expired now = true := by
          rcases hroom with hshort | ⟨x, hx, hhead⟩ | ⟨hlive, -⟩
          · exact absurd hshort hlong
          · cases hx
            exact hhead
          · exact absurd (hlive.symm.trans hc) Bool.false_ne_true
        rw [live_append, live_cons_of_expired hhead, live_cons_of_expired hc]
        exact List.append_nil _
      · obtain ⟨hx, hlive⟩ := mem_live.mp hx
        rcases List.mem_cons.mp hx with rfl | hx
        · rcases hroom with hshort | ⟨y, hy, hhead⟩ | ⟨-, hnone⟩
          · exact absurd hshort hlong
          · cases hy
            exact absurd (hlive.symm.trans hhead) Bool.false_ne_true
          · obtain ⟨e, he, hexpired⟩ := hexpired
            exact absurd ((hnone e he).symm.trans hexpired) Bool.false_ne_true
        · exact List.mem_append_left _ hx

theorem costsNoLive_added (hnew : ∀ x ∈ cookies, x.identity ≠ c.identity) :
    CostsNoLive now c cookies (cookies ++ [c]) := by
  refine ⟨fun hc => ?_, fun _ _ x hx _ => ?_, fun _ _ => by simp⟩
  · rw [filter_live_of_new hnew]
    rw [live_append, live_cons_of_expired hc]
    exact List.append_nil _
  · exact List.mem_append_left _ (mem_live.mp hx).1

theorem costsNoLive_inserted_iff (hdistinct : cookies.Pairwise (·.identity ≠ ·.identity))
    (h : Inserted c cookies result) : CostsNoLive now c cookies result ↔ Room now c cookies := by
  cases h with
  | replaced hjar hold hfirst =>
    subst hjar
    exact iff_of_true (costsNoLive_replaced hdistinct hold) (Or.inl ⟨_, by simp, hold⟩)
  | refused hnew hfull => exact costsNoLive_refused_iff hnew hfull
  | evicted hnew hroom hfull => exact costsNoLive_evicted_iff hdistinct hnew hroom hfull
  | added hnew hroom hshort =>
    apply iff_of_true (costsNoLive_added hnew)
    rw [room_of_new hnew, if_neg (not_le.mpr hroom)]
    exact Or.inl hshort

/-! ### The jars there are -/

theorem after_identities (ops : List CookieOp) :
    (after net ops).Pairwise (·.identity ≠ ·.identity) := by
  rw [← Placed.map_after, List.pairwise_map]
  exact (Placed.after_sound ops).identities

/-- In every jar, a store costs no live cookie exactly if there is room for it. -/
theorem costsNoLive_iff (ops : List CookieOp) {url : Url} {field : Str}
    (hread : readSetCookie net url now field = some c) :
    CostsNoLive now c (after net ops) ((after net ops).storeField net url now field) ↔
      Room now c (after net ops) := by
  unfold storeField
  rw [hread]
  exact costsNoLive_inserted_iff (after_identities ops) (insert_inserted c _)

/-- 50 cookies of one host, the first of which is gone after a second. -/
def fullHost : List CookieOp :=
  .setCookie (urlOf "a.test".toList "/".toList) "x=; Max-Age=1".toList ⟨some 5, 5⟩ ::
    (List.range 49).map fun i => .setCookie (urlOf "a.test".toList "/".toList)
      (List.replicate (i + 1) 'a' ++ "=".toList) ⟨some 5, 5⟩

def lateCookie : Cookie :=
  { name := "b".toList, value := "1".toList, domain := "a.test".toList }

/-- An expired cookie and a live one. -/
def mixedJar : List CookieOp :=
  [.setCookie (urlOf "a.test".toList "/".toList) "x=; Max-Age=1".toList ⟨some 5, 5⟩,
    .setCookie (urlOf "a.test".toList "/".toList) "y=2".toList ⟨some 5, 5⟩]

theorem costsNoLive_iff_mixedJar :
    CostsNoLive (some 10) lateCookie (after noLiterals mixedJar)
        ((after noLiterals mixedJar).storeField noLiterals (urlOf "a.test".toList "/".toList)
          (some 10) "b=1".toList) ∧
      (after noLiterals mixedJar).map (fun x => (x.name, x.expired (some 10))) =
        [("x".toList, true), ("y".toList, false)] ∧
      Room (some 10) lateCookie (after noLiterals mixedJar) := by
  have hread : readSetCookie noLiterals (urlOf "a.test".toList "/".toList) (some 10)
      "b=1".toList = some lateCookie := by decide +kernel
  have hroom : Room (some 10) lateCookie (after noLiterals mixedJar) := by
    refine Or.inr ?_
    rw [if_neg (by decide +kernel)]
    exact Or.inl (by decide +kernel)
  exact ⟨(costsNoLive_iff mixedJar hread).mpr hroom, by decide +kernel, hroom⟩

/-- A live cookie is refused, and an expired one stays. -/
theorem not_costsNoLive_fullHost :
    readSetCookie noLiterals (urlOf "a.test".toList "/".toList) (some 10) "b=1".toList =
        some lateCookie ∧
      ¬ CostsNoLive (some 10) lateCookie (after noLiterals fullHost)
        ((after noLiterals fullHost).storeField noLiterals (urlOf "a.test".toList "/".toList)
          (some 10) "b=1".toList) := by
  refine ⟨by decide +kernel, fun h => ?_⟩
  have hexpired : ∃ e ∈ after noLiterals fullHost,
      e.domain = lateCookie.domain ∧ e.expired (some 10) = true := by decide +kernel
  have hrefused : lateCookie ∉ (after noLiterals fullHost).storeField noLiterals
      (urlOf "a.test".toList "/".toList) (some 10) "b=1".toList := by decide +kernel
  exact hrefused (h.stored (by decide) hexpired)

end KatHttp3.Cookies
