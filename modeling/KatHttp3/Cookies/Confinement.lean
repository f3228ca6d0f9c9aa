import KatHttp3.Cookies.CookieJar
import KatHttp3.Url.Resolution
import Mathlib.Data.List.Induction

/-!
# Where cookies go

What a jar gives for a URL after any history of Set-Cookie fields, requests and
clearings: which field each cookie stems from, which hosts and paths it is
confined to, and the order of the pairs.
-/

namespace KatHttp3

open Str

/-! ### The matches of RFC 6265 -/

/-- The domain without a leading dot. -/
def withoutDot (domain : Str) : Str := if domain.head? = some '.' then domain.drop 1 else domain

/-- The host is the domain or lies below it, whatever the letter case. -/
def InDomain (domain host : Str) : Prop :=
  asciiLower host = asciiLower domain ∨ '.' :: asciiLower domain <:+ asciiLower host

instance (domain host : Str) : Decidable (InDomain domain host) :=
  inferInstanceAs (Decidable (_ ∨ _))

/-- The path match of section 5.1.4. -/
def PathMatch (cookiePath requestPath : Str) : Prop :=
  requestPath = cookiePath ∨
    cookiePath <+: requestPath ∧
      (cookiePath.getLast? = some '/' ∨ requestPath[cookiePath.length]? = some '/')

theorem toLower_eq_dot {c : Char} (h : c.toLower = '.') : c = '.' := by
  by_cases hupper : c.val ≥ 'A'.val ∧ c.val ≤ 'Z'.val
  · have hval := toLower_of_upper hupper
    rw [h] at hval
    have hnat := congrArg UInt32.toNat hval
    simp only [ge_iff_le, UInt32.le_iff_toNat_le, UInt32.toNat_add, UInt32.toNat_sub,
      UInt32.reduceToNat, Char.reduceVal] at hupper hnat
    omega
  · rwa [toLower_of_not_upper hupper] at h

theorem head?_asciiLower_ne_dot {domain : Str} (h : domain.head? ≠ some '.') :
    (asciiLower domain).head? ≠ some '.' := by
  intro hhead
  rw [asciiLower, List.head?_map, Option.map_eq_some_iff] at hhead
  obtain ⟨c, hc, hdot⟩ := hhead
  rw [toLower_eq_dot hdot] at hc
  exact h hc

theorem domainMatches_hostOnly {domain host : Str} (h : domainMatches domain true host = true) :
    asciiIequals domain host = true := by
  unfold domainMatches at h
  dsimp only at h
  split at h
  · cases h
  · rw [if_pos rfl, beq_iff_eq] at h
    exact asciiIequals_iff.mpr h.symm

/-- A cookie with a domain that begins with no dot goes to that domain only. -/
theorem domainMatches_inDomain {domain host : Str} (hdot : domain.head? ≠ some '.')
    (h : domainMatches domain false host = true) : InDomain domain host := by
  unfold domainMatches at h
  dsimp only at h
  rw [if_neg (head?_asciiLower_ne_dot hdot)] at h
  split at h
  · cases h
  · simp only [Bool.false_eq_true, if_false, Bool.or_eq_true, beq_iff_eq, Bool.and_eq_true,
      decide_eq_true_eq] at h
    rcases h with heq | ⟨⟨hlength, hdot⟩, htail⟩
    · exact Or.inl heq
    · right
      have hindex : (asciiLower host).length - (asciiLower domain).length - 1 + 1 =
          (asciiLower host).length - (asciiLower domain).length := by omega
      obtain ⟨hbound, hget⟩ := List.getElem?_eq_some_iff.mp hdot
      have hdrop := List.drop_eq_getElem_cons hbound
      rw [hget, hindex, htail] at hdrop
      rw [← hdrop]
      exact List.drop_suffix _ _

theorem pathMatches_pathMatch {cookiePath requestPath : Str} (hpath : cookiePath ≠ [])
    (h : pathMatches cookiePath requestPath = true) : PathMatch cookiePath requestPath := by
  simp only [pathMatches, startsWith, Bool.or_eq_true, beq_iff_eq, Bool.and_eq_true] at h
  rcases h with hempty | ⟨hstarts, hends⟩
  · exact absurd hempty hpath
  · have hstarts := List.isPrefixOf_iff_prefix.mp hstarts
    rcases hends with (hslash | hlength) | hnext
    · exact Or.inr ⟨hstarts, Or.inl hslash⟩
    · exact Or.inl (hstarts.eq_of_length hlength.symm).symm
    · exact Or.inr ⟨hstarts, Or.inr hnext⟩

/-! ### What a Set-Cookie field asks for -/

/-- The attributes of a Set-Cookie field. -/
def attributeTexts (setCookie : Str) : List Str :=
  (startingAt setCookie ((find setCookie ';').map (· + 1))).splitOn ';'

def attributeName (text : Str) : Str :=
  asciiLower (trimOws (upTo (trimOws text) (find (trimOws text) '=')))

def attributeValue (text : Str) : Str :=
  trimOws (startingAt (trimOws text) ((find (trimOws text) '=').map (· + 1)))

/-- The value of the last Domain attribute, its leading dot not counting. -/
def lastDomain (texts : List Str) : Option Str :=
  ((texts.filter fun text => attributeName text = "domain".toList).getLast?).map fun text =>
    withoutDot (attributeValue text)

variable {net : InetPton} {url : Url}

/-- What an attribute does to the cookie. -/
structure Reads (text : Str) (c c' : Cookie) : Prop where
  domain : attributeName text = "domain".toList →
    c'.domain = withoutDot (attributeValue text) ∧ c'.domain ≠ [] ∧ c'.hostOnly = false
  other : attributeName text ≠ "domain".toList →
    c'.domain = c.domain ∧ c'.hostOnly = c.hostOnly
  path : c.path.head? = some '/' → c'.path.head? = some '/'
  expiry : (c.persistent = true → c.expiry ≠ 0) → c'.persistent = true → c'.expiry ≠ 0

theorem head?_defaultPath (url : Url) : (defaultPath url).head? = some '/' := by
  unfold defaultPath
  split_ifs with hroot
  · rfl
  · rw [ne_eq, not_not] at hroot
    split
    · rfl
    · rfl
    · rename_i slash hne _
      have hpos : slash ≠ 0 := fun hzero => hne (by rw [hzero])
      rw [List.head?_take, if_neg hpos, hroot]

theorem maxAgeExpiry_ne_zero {now seconds : ℕ} (h : 0 < seconds) : maxAgeExpiry now seconds ≠ 0 := by
  unfold maxAgeExpiry
  split_ifs
  · omega
  · omega

theorem readAttribute_reads {now : Option ℕ} {c c' : Cookie × Bool} {text : Str}
    (h : readAttribute net url now c text = some c') : Reads text c.1 c'.1 := by
  unfold readAttribute at h
  dsimp only at h
  split at h
  case isTrue hname =>
    have hname : attributeName text = "domain".toList := hname
    split_ifs at h with hdot hnone hnone
    · cases h
      have hvalue : withoutDot (attributeValue text) = (attributeValue text).drop 1 := if_pos hdot
      exact ⟨fun _ => ⟨hvalue.symm, fun hempty => hnone (Or.inl hempty), rfl⟩,
        fun hother => absurd hname hother, id, id⟩
    · cases h
      have hvalue : withoutDot (attributeValue text) = attributeValue text := if_neg hdot
      exact ⟨fun _ => ⟨hvalue.symm, fun hempty => hnone (Or.inl hempty), rfl⟩,
        fun hother => absurd hname hother, id, id⟩
  case isFalse hname =>
    have hname : attributeName text ≠ "domain".toList := hname
    suffices hsame : c'.1.domain = c.1.domain ∧ c'.1.hostOnly = c.1.hostOnly ∧
        (c.1.path.head? = some '/' → c'.1.path.head? = some '/') ∧
        ((c.1.persistent = true → c.1.expiry ≠ 0) → c'.1.persistent = true → c'.1.expiry ≠ 0) from
      ⟨fun hdomain => absurd hdomain hname, fun _ => ⟨hsame.1, hsame.2.1⟩, hsame.2.2.1,
        hsame.2.2.2⟩
    split at h
    · cases h
      refine ⟨rfl, rfl, fun _ => ?_, id⟩
      dsimp only
      split_ifs with hroot
      · exact hroot
      · exact head?_defaultPath url
    split at h
    · cases h
      exact ⟨rfl, rfl, id, id⟩
    split at h
    · cases h
      exact ⟨rfl, rfl, id, id⟩
    split at h
    · split at h
      · cases h
        exact ⟨rfl, rfl, id, id⟩
      · split_ifs at h with hpast
        · cases h
          exact ⟨rfl, rfl, id, fun _ _ => one_ne_zero⟩
        · obtain ⟨seconds, -, rfl⟩ := Option.map_eq_some_iff.mp h
          exact ⟨rfl, rfl, id, fun _ _ => maxAgeExpiry_ne_zero (by omega)⟩
    split at h
    · split_ifs at h
      · cases h
        exact ⟨rfl, rfl, id, id⟩
      · split at h
        · cases h
          exact ⟨rfl, rfl, id, id⟩
        · rename_i expiry hexpiry
          cases h
          refine ⟨rfl, rfl, id, fun _ _ => ?_⟩
          obtain ⟨seconds, -, hone | hlater⟩ := parseCookieExpiry_cases hexpiry
          · rw [hone]
            exact one_ne_zero
          · exact Nat.ne_of_gt (Nat.lt_of_le_of_lt (Nat.zero_le _) hlater)
    · cases h
      exact ⟨rfl, rfl, id, id⟩

theorem lastDomain_cons_of_ne {text : Str} {texts : List Str}
    (h : attributeName text ≠ "domain".toList) : lastDomain (text :: texts) = lastDomain texts := by
  unfold lastDomain
  rw [List.filter_cons_of_neg (by simpa only [decide_eq_true_eq] using h)]

/-- A Domain attribute counts if no other one follows it. -/
theorem lastDomain_cons_of_eq {text : Str} {texts : List Str}
    (h : attributeName text = "domain".toList) :
    lastDomain (text :: texts) =
      some ((lastDomain texts).getD (withoutDot (attributeValue text))) := by
  unfold lastDomain
  rw [List.filter_cons_of_pos (by simpa only [decide_eq_true_eq] using h), List.getLast?_cons]
  cases (texts.filter fun text => attributeName text = "domain".toList).getLast? with
  | none => rfl
  | some last => rfl

/-- The domain and the scope of a cookie before the host of its URL is filled in. -/
theorem readAttributes_domain {now : Option ℕ} {c c' : Cookie × Bool} {texts : List Str}
    (h : texts.foldlM (readAttribute net url now) c = some c') :
    match lastDomain texts with
    | none => c'.1.domain = c.1.domain ∧ c'.1.hostOnly = c.1.hostOnly
    | some domain => c'.1.domain = domain ∧ domain ≠ [] ∧ c'.1.hostOnly = false := by
  induction texts generalizing c with
  | nil =>
    cases h
    exact ⟨rfl, rfl⟩
  | cons text texts ih =>
    rw [List.foldlM_cons] at h
    obtain ⟨c₁, hread, hrest⟩ := Option.bind_eq_some_iff.mp h
    have hreads := readAttribute_reads hread
    have hlast := ih hrest
    by_cases hname : attributeName text = "domain".toList
    · obtain ⟨hdomain, hne, hscope⟩ := hreads.domain hname
      rw [lastDomain_cons_of_eq hname]
      cases hlater : lastDomain texts with
      | none =>
        rw [hlater] at hlast
        exact ⟨hlast.1.trans hdomain, hdomain ▸ hne, hlast.2.trans hscope⟩
      | some domain =>
        rw [hlater] at hlast
        exact hlast
    · obtain ⟨hdomain, hscope⟩ := hreads.other hname
      rw [lastDomain_cons_of_ne hname, ← hdomain, ← hscope]
      exact hlast

theorem readAttributes_path {now : Option ℕ} {c c' : Cookie × Bool} {texts : List Str}
    (h : texts.foldlM (readAttribute net url now) c = some c')
    (hpath : c.1.path.head? = some '/') : c'.1.path.head? = some '/' :=
  readAttributes_induction (P := fun x => x.1.path.head? = some '/') h
    (fun hread => (readAttribute_reads hread).path) hpath

theorem readAttributes_expiry {now : Option ℕ} {c c' : Cookie × Bool} {texts : List Str}
    (h : texts.foldlM (readAttribute net url now) c = some c')
    (hexpiry : c.1.persistent = true → c.1.expiry ≠ 0) :
    c'.1.persistent = true → c'.1.expiry ≠ 0 :=
  readAttributes_induction (P := fun x => x.1.persistent = true → x.1.expiry ≠ 0) h
    (fun hread => (readAttribute_reads hread).expiry) hexpiry

theorem readPair_eq {first : Str} {c : Cookie} (h : readPair url first = some c) :
    c.domain = [] ∧ c.hostOnly = true ∧ c.path = defaultPath url ∧ c.persistent = false := by
  unfold readPair at h
  split at h
  · cases h
  · dsimp only at h
    split_ifs at h
    cases h
    exact ⟨rfl, rfl, rfl, rfl⟩

/-- What a Set-Cookie field says of the cookie that it becomes. -/
structure ReadFrom (url : Url) (setCookie : Str) (c : Cookie) : Prop where
  hostOnly : lastDomain (attributeTexts setCookie) = none →
    c.hostOnly = true ∧ c.domain = url.host
  domain : ∀ domain, lastDomain (attributeTexts setCookie) = some domain →
    c.hostOnly = false ∧ c.domain = domain
  matched : domainMatches c.domain c.hostOnly url.host = true
  path : c.path ≠ []
  expiry : c.persistent = true → c.expiry ≠ 0

theorem readSetCookie_readFrom {now : Option ℕ} {setCookie : Str} {c : Cookie}
    (h : readSetCookie net url now setCookie = some c) : ReadFrom url setCookie c := by
  obtain ⟨first, parsed, seen, hfirst, hparsed, hc, hmatched⟩ := readSetCookie_eq_some h
  have hparsed : (attributeTexts setCookie).foldlM (readAttribute net url now) (first, false) =
    some (parsed, seen) := hparsed
  obtain ⟨hnone, hscope, hroot, hsession⟩ := readPair_eq hfirst
  have hdomain := readAttributes_domain hparsed
  have hpath := readAttributes_path hparsed (hroot ▸ head?_defaultPath url)
  have hexpiry := readAttributes_expiry hparsed fun hpersistent =>
    absurd (hsession.symm.trans hpersistent) Bool.false_ne_true
  have hne : parsed.path ≠ [] := by
    intro hempty
    rw [hempty] at hpath
    cases hpath
  cases hlast : lastDomain (attributeTexts setCookie) with
  | none =>
    rw [hlast] at hdomain
    have hempty : parsed.domain = [] := hdomain.1.trans hnone
    rw [if_pos hempty] at hc
    cases hc
    refine ⟨fun _ => ⟨rfl, rfl⟩, ?_, hmatched, hne, hexpiry⟩
    intro domain hsome
    cases hlast.symm.trans hsome
  | some domain =>
    rw [hlast] at hdomain
    obtain ⟨heq, hgiven, hwide⟩ := hdomain
    have hgiven : parsed.domain ≠ [] := fun hempty => hgiven (heq.symm.trans hempty)
    rw [if_neg hgiven] at hc
    cases hc
    refine ⟨?_, ?_, hmatched, hne, hexpiry⟩
    · intro hno
      cases hlast.symm.trans hno
    · intro domain' hdomain'
      exact ⟨hwide, heq.trans (Option.some.inj (hlast.symm.trans hdomain'))⟩

/-! ### Histories of a jar -/

inductive CookieOp where
  | setCookie (url : Url) (field : Str) (now : ClockReading)
  | cookieHeader (url : Url) (now : ClockReading)
  | clear

namespace Cookies

def apply (net : InetPton) (cookies : Cookies) : CookieOp → Cookies
  | .setCookie url field now => cookies.storeField net url now.wall field
  | .cookieHeader url now => (cookies.cookieHeader url now).1
  | .clear => []

/-- The jar after a history, which starts with the empty jar. -/
def after (net : InetPton) (ops : List CookieOp) : Cookies := ops.foldl (apply net) []

end Cookies

/-- A cookie in the jar. The operations are numbered: `created` made the place of
the cookie, and `set` is the last one that put a cookie there. -/
structure Placed where
  cookie : Cookie
  created : ℕ
  set : ℕ

/-- Two cookies of one identity replace each other. -/
def Cookie.identity (c : Cookie) : Str × Str × Str := (c.name, c.domain, c.path)

theorem Cookie.sameIdentity_iff {c existing : Cookie} :
    c.sameIdentity existing = true ↔ existing.identity = c.identity := by
  simp [sameIdentity, identity, and_assoc]

namespace Placed

def replace (c : Cookie) (i : ℕ) (p : Placed) : Placed :=
  if c.sameIdentity p.cookie then { p with cookie := c, set := i } else p

def insert (places : List Placed) (c : Cookie) (i : ℕ) : List Placed :=
  if places.any (c.sameIdentity ·.cookie) then places.map (replace c i)
  else if 50 ≤ places.countP (·.cookie.domain == c.domain) then places
  else if 300 ≤ places.length then places.drop 1 ++ [⟨c, i, i⟩]
  else places ++ [⟨c, i, i⟩]

def apply (net : InetPton) (places : List Placed) : CookieOp × ℕ → List Placed
  | (.setCookie url field now, i) =>
    match readSetCookie net url now.wall field with
    | none => places
    | some c => insert places c i
  | (.cookieHeader _ now, _) => places.filter (!·.cookie.expired now.wall)
  | (.clear, _) => []

def after (net : InetPton) (ops : List CookieOp) : List Placed :=
  ops.zipIdx.foldl (apply net) []

theorem after_append (ops : List CookieOp) (op : CookieOp) :
    after net (ops ++ [op]) = apply net (after net ops) (op, ops.length) := by
  unfold after
  rw [List.zipIdx_append, List.foldl_append]
  simp

@[simp] theorem replace_created (c : Cookie) (i : ℕ) (p : Placed) :
    (p.replace c i).created = p.created := by
  unfold replace
  split_ifs <;> rfl

@[simp] theorem replace_identity (c : Cookie) (i : ℕ) (p : Placed) :
    (p.replace c i).cookie.identity = p.cookie.identity := by
  unfold replace
  split_ifs with hsame
  · exact (Cookie.sameIdentity_iff.mp hsame).symm
  · rfl

/-- Operation number `i` is a Set-Cookie field that becomes the cookie `c`. -/
def SetBy (net : InetPton) (ops : List CookieOp) (i : ℕ) (c : Cookie) : Prop :=
  ∃ setter field now, ops[i]? = some (.setCookie setter field now) ∧
    readSetCookie net setter now.wall field = some c

variable {ops : List CookieOp} {op : CookieOp} {p : Placed}

theorem SetBy.lt {i : ℕ} {c : Cookie} (h : SetBy net ops i c) : i < ops.length := by
  obtain ⟨_, _, _, hop, _⟩ := h
  exact (List.getElem?_eq_some_iff.mp hop).1

theorem SetBy.append {i : ℕ} {c : Cookie} (h : SetBy net ops i c) (op : CookieOp) :
    SetBy net (ops ++ [op]) i c := by
  have hi := h.lt
  obtain ⟨setter, field, now, hop, hread⟩ := h
  refine ⟨setter, field, now, ?_, hread⟩
  rwa [List.getElem?_append_left hi]

theorem setBy_append {i : ℕ} {c : Cookie} (h : SetBy net (ops ++ [op]) i c) :
    SetBy net ops i c ∨ i = ops.length ∧
      ∃ setter field now, op = .setCookie setter field now ∧
        readSetCookie net setter now.wall field = some c := by
  have hbound := h.lt
  obtain ⟨setter, field, now, hop, hread⟩ := h
  by_cases hi : i < ops.length
  · rw [List.getElem?_append_left hi] at hop
    exact Or.inl ⟨setter, field, now, hop, hread⟩
  · have hi : i = ops.length := by
      rw [List.length_append, List.length_singleton] at hbound
      omega
    subst hi
    rw [List.getElem?_concat_length] at hop
    exact Or.inr ⟨rfl, setter, field, now, Option.some.inj hop, hread⟩

theorem setBy_last {setter : Url} {field : Str} {now : ClockReading} {c : Cookie}
    (hread : readSetCookie net setter now.wall field = some c) :
    SetBy net (ops ++ [.setCookie setter field now]) ops.length c :=
  ⟨setter, field, now, List.getElem?_concat_length, hread⟩

/-- The field of `set` is where the cookie comes from, and none after it has its identity. -/
structure Stems (net : InetPton) (ops : List CookieOp) (p : Placed) : Prop where
  created : p.created ≤ p.set
  first : ∃ c, SetBy net ops p.created c ∧ c.identity = p.cookie.identity
  origin : SetBy net ops p.set p.cookie
  latest : ∀ i c, p.set < i → SetBy net ops i c → c.identity ≠ p.cookie.identity

/-- One more operation, unless it sets a cookie of this identity. -/
theorem Stems.append (h : Stems net ops p)
    (hop : ∀ setter field now c, op = .setCookie setter field now →
      readSetCookie net setter now.wall field = some c → c.identity ≠ p.cookie.identity) :
    Stems net (ops ++ [op]) p := by
  obtain ⟨c, hfirst, hid⟩ := h.first
  refine ⟨h.created, ⟨c, hfirst.append op, hid⟩, h.origin.append op, ?_⟩
  intro i c' hlater hset
  rcases setBy_append hset with hold | ⟨-, setter, field, now, heq, hread⟩
  · exact h.latest i c' hlater hold
  · exact hop setter field now c' heq hread

theorem setBy_last_le {setter : Url} {field : Str} {now : ClockReading} {i : ℕ} {c : Cookie}
    (h : SetBy net (ops ++ [.setCookie setter field now]) i c) : i ≤ ops.length := by
  have hbound := h.lt
  rw [List.length_append, List.length_singleton] at hbound
  exact Nat.le_of_lt_succ hbound

/-- The places of a jar: in the order of creation, and no two with one identity. -/
structure Sound (net : InetPton) (ops : List CookieOp) (places : List Placed) : Prop where
  stems : ∀ p ∈ places, Stems net ops p
  order : places.Pairwise (·.created < ·.created)
  identities : places.Pairwise (·.cookie.identity ≠ ·.cookie.identity)

variable {places : List Placed}

theorem Sound.sublist {kept : List Placed} (h : Sound net ops places) (hsub : kept.Sublist places) :
    Sound net ops kept :=
  ⟨fun p hp => h.stems p (hsub.subset hp), h.order.sublist hsub, h.identities.sublist hsub⟩

theorem Sound.append (h : Sound net ops places)
    (hop : ∀ setter field now c, op = .setCookie setter field now →
      readSetCookie net setter now.wall field = some c →
      ∀ p ∈ places, c.identity ≠ p.cookie.identity) :
    Sound net (ops ++ [op]) places := by
  refine ⟨fun p hp => ?_, h.order, h.identities⟩
  exact (h.stems p hp).append fun setter field now c heq hread => hop setter field now c heq hread p hp

theorem Sound.push {setter : Url} {field : Str} {now : ClockReading} {c : Cookie}
    (h : Sound net ops places) (hread : readSetCookie net setter now.wall field = some c)
    (hnew : ∀ p ∈ places, c.identity ≠ p.cookie.identity) :
    Sound net (ops ++ [.setCookie setter field now]) (places ++ [⟨c, ops.length, ops.length⟩]) := by
  have hold : Sound net (ops ++ [.setCookie setter field now]) places := by
    apply h.append
    intro _ _ _ c' heq hread'
    cases heq
    cases hread.symm.trans hread'
    exact hnew
  refine ⟨?_, ?_, ?_⟩
  · intro p hp
    rcases List.mem_append.mp hp with hp | hp
    · exact hold.stems p hp
    · obtain rfl := List.mem_singleton.mp hp
      have hset : SetBy net (ops ++ [.setCookie setter field now]) ops.length c :=
        setBy_last hread
      exact ⟨le_rfl, ⟨c, hset, rfl⟩, hset, fun i c' hlater hset' =>
        absurd (setBy_last_le hset') (Nat.not_le.mpr hlater)⟩
  · apply List.pairwise_append.mpr
    refine ⟨h.order, List.pairwise_singleton _ _, ?_⟩
    intro p hp q hq
    obtain rfl := List.mem_singleton.mp hq
    exact Nat.lt_of_le_of_lt (h.stems p hp).created (h.stems p hp).origin.lt
  · apply List.pairwise_append.mpr
    refine ⟨h.identities, List.pairwise_singleton _ _, ?_⟩
    intro p hp q hq
    obtain rfl := List.mem_singleton.mp hq
    exact (hnew p hp).symm

theorem Sound.replace {setter : Url} {field : Str} {now : ClockReading} {c : Cookie}
    (h : Sound net ops places) (hread : readSetCookie net setter now.wall field = some c) :
    Sound net (ops ++ [.setCookie setter field now])
      (places.map (Placed.replace c ops.length)) := by
  refine ⟨?_, ?_, ?_⟩
  · intro p hp
    obtain ⟨old, hold, rfl⟩ := List.mem_map.mp hp
    have hstems := h.stems old hold
    unfold Placed.replace
    split_ifs with hsame
    · obtain ⟨first, hfirst, hid⟩ := hstems.first
      have hid' := hid.trans (Cookie.sameIdentity_iff.mp hsame)
      have hcreated := Nat.lt_of_le_of_lt hstems.created hstems.origin.lt
      exact ⟨Nat.le_of_lt hcreated, ⟨first, hfirst.append _, hid'⟩, setBy_last hread,
        fun i c' hlater hset => absurd (setBy_last_le hset) (Nat.not_le.mpr hlater)⟩
    · apply hstems.append
      intro _ _ _ c' heq hread'
      cases heq
      cases hread.symm.trans hread'
      exact fun heq => hsame (Cookie.sameIdentity_iff.mpr heq.symm)
  · apply List.pairwise_map.mpr
    simpa only [replace_created] using h.order
  · apply List.pairwise_map.mpr
    simpa only [replace_identity] using h.identities

theorem Sound.insert {setter : Url} {field : Str} {now : ClockReading} {c : Cookie}
    (h : Sound net ops places) (hread : readSetCookie net setter now.wall field = some c) :
    Sound net (ops ++ [.setCookie setter field now]) (insert places c ops.length) := by
  unfold Placed.insert
  split_ifs with hany hmany hfull
  · exact h.replace hread
  all_goals
    have hnew : ∀ p ∈ places, c.identity ≠ p.cookie.identity := by
      intro p hp hsame
      exact hany (List.any_eq_true.mpr ⟨p, hp, Cookie.sameIdentity_iff.mpr hsame.symm⟩)
  · apply h.append
    intro _ _ _ c' heq hread'
    cases heq
    cases hread.symm.trans hread'
    exact hnew
  · apply (h.sublist (List.drop_sublist 1 places)).push hread
    exact fun p hp => hnew p (List.mem_of_mem_drop hp)
  · exact h.push hread hnew

theorem Sound.apply (h : Sound net ops places) (op : CookieOp) :
    Sound net (ops ++ [op]) (apply net places (op, ops.length)) := by
  cases op with
  | setCookie setter field now =>
    unfold Placed.apply
    dsimp only
    cases hread : readSetCookie net setter now.wall field with
    | none =>
      apply h.append
      intro _ _ _ c heq hread'
      cases heq
      cases hread.symm.trans hread'
    | some c => exact h.insert hread
  | cookieHeader url now =>
    apply (h.append fun _ _ _ _ heq => ?_).sublist List.filter_sublist
    cases heq
  | clear => exact ⟨nofun, List.Pairwise.nil, List.Pairwise.nil⟩

theorem after_sound (ops : List CookieOp) : Sound net ops (after net ops) := by
  induction ops using List.reverseRecOn with
  | nil => exact ⟨nofun, List.Pairwise.nil, List.Pairwise.nil⟩
  | append_singleton ops op ih =>
    rw [after_append]
    exact ih.apply op

end Placed

/-! ### The places stand for the cookies -/

theorem Cookie.map_replace_of_not_mem {cookies : Cookies} {c : Cookie}
    (h : ∀ e ∈ cookies, e.identity ≠ c.identity) :
    (cookies.map fun e => if c.sameIdentity e then c else e) = cookies := by
  have hid : cookies.map id = cookies := List.map_id cookies
  rw [← hid, List.map_map]
  apply List.map_congr_left
  intro e he
  simp [Cookie.sameIdentity_iff, h e he]

/-- The first cookie of the identity is the only one. -/
theorem Cookie.set_findIdx? {cookies : Cookies} {c : Cookie} {i : ℕ}
    (hfind : cookies.findIdx? c.sameIdentity = some i)
    (h : cookies.Pairwise (·.identity ≠ ·.identity)) :
    cookies.set i c = cookies.map fun e => if c.sameIdentity e then c else e := by
  induction cookies generalizing i with
  | nil => cases hfind
  | cons e cookies ih =>
    rw [List.pairwise_cons] at h
    rw [List.findIdx?_cons] at hfind
    rw [List.map_cons]
    split_ifs at hfind with hsame
    · cases hfind
      have hid := Cookie.sameIdentity_iff.mp hsame
      rw [List.set_cons_zero, if_pos hsame, Cookie.map_replace_of_not_mem]
      exact fun e' he' heq => h.1 e' he' (hid.trans heq.symm)
    · obtain ⟨j, hj, rfl⟩ := Option.map_eq_some_iff.mp hfind
      rw [List.set_cons_succ, if_neg hsame, ih hj h.2]

namespace Placed

variable {ops : List CookieOp} {places : List Placed}

theorem map_insert (c : Cookie) (i : ℕ)
    (h : places.Pairwise (·.cookie.identity ≠ ·.cookie.identity)) :
    (insert places c i).map cookie = Cookies.insert (places.map cookie) c := by
  have hidentities : (places.map cookie).Pairwise (·.identity ≠ ·.identity) :=
    List.pairwise_map.mpr h
  unfold insert Cookies.insert
  cases hfind : (places.map cookie).findIdx? c.sameIdentity with
  | none =>
    have hnone : places.any (c.sameIdentity ·.cookie) = false := by
      rw [List.findIdx?_eq_none_iff] at hfind
      apply List.any_eq_false.mpr
      intro p hp
      simpa only [Bool.not_eq_true] using hfind p.cookie (List.mem_map_of_mem hp)
    have hcount : (places.map cookie).countP (·.domain == c.domain) =
        places.countP (·.cookie.domain == c.domain) := List.countP_map
    rw [if_neg (by rw [hnone]; exact Bool.false_ne_true)]
    dsimp only
    rw [hcount, List.length_map]
    split_ifs
    · rfl
    · rw [List.map_append, List.map_drop, List.map_singleton]
    · rw [List.map_append, List.map_singleton]
  | some k =>
    have hsome : places.any (c.sameIdentity ·.cookie) = true := by
      have hisSome := congrArg Option.isSome hfind
      rw [List.findIdx?_isSome, List.any_map] at hisSome
      exact hisSome
    rw [if_pos hsome]
    dsimp only
    rw [Cookie.set_findIdx? hfind hidentities, List.map_map, List.map_map]
    apply List.map_congr_left
    intro p hp
    unfold Placed.replace
    simp only [Function.comp_apply]
    split_ifs <;> rfl

theorem map_after (ops : List CookieOp) : (after net ops).map cookie = Cookies.after net ops := by
  induction ops using List.reverseRecOn with
  | nil => rfl
  | append_singleton ops op ih =>
    rw [after_append, Cookies.after, List.foldl_append, List.foldl_cons, List.foldl_nil,
      ← Cookies.after, ← ih]
    cases op with
    | setCookie setter field now =>
      unfold apply Cookies.apply Cookies.storeField
      dsimp only
      cases readSetCookie net setter now.wall field with
      | none => rfl
      | some c => exact map_insert c ops.length (after_sound ops).identities
    | cookieHeader url now =>
      unfold apply Cookies.apply Cookies.cookieHeader
      dsimp only
      rw [List.filter_map]
      rfl
    | clear => rfl

end Placed

/-! ### The order of the pairs -/

section StableSort

variable {α : Type*} {r s : α → α → Prop} [DecidableRel r]

/-- An element goes before those that follow it in the order `s`, unless `r` says otherwise. -/
theorem pairwise_orderedInsert_stable (htotal : ∀ a b, r a b ∨ r b a)
    (htrans : ∀ a b c, r a b → r b c → r a c) {a : α} {l : List α} (ha : ∀ b ∈ l, s a b)
    (h : l.Pairwise fun a b => r a b ∧ (r b a → s a b)) :
    (l.orderedInsert r a).Pairwise fun a b => r a b ∧ (r b a → s a b) := by
  induction l with
  | nil => exact List.pairwise_singleton _ _
  | cons b l ih =>
    by_cases hab : r a b
    · rw [List.orderedInsert_cons_of_le r l hab]
      refine List.pairwise_cons.mpr ⟨?_, h⟩
      intro x hx
      refine ⟨?_, fun _ => ha x hx⟩
      rcases List.mem_cons.mp hx with rfl | hx
      · exact hab
      · exact htrans a b x hab ((List.pairwise_cons.mp h).1 x hx).1
    · rw [List.orderedInsert_of_not_le r l hab]
      obtain ⟨hb, hl⟩ := List.pairwise_cons.mp h
      refine List.pairwise_cons.mpr ⟨?_, ih (fun x hx => ha x (List.mem_cons_of_mem b hx)) hl⟩
      intro x hx
      rcases (List.mem_orderedInsert r).mp hx with rfl | hx
      · exact ⟨(htotal x b).resolve_left hab, fun hxb => absurd hxb hab⟩
      · exact hb x hx

/-- Insertion sort is stable. -/
theorem pairwise_insertionSort_stable (htotal : ∀ a b, r a b ∨ r b a)
    (htrans : ∀ a b c, r a b → r b c → r a c) {l : List α} (h : l.Pairwise s) :
    (l.insertionSort r).Pairwise fun a b => r a b ∧ (r b a → s a b) := by
  induction l with
  | nil => exact List.Pairwise.nil
  | cons a l ih =>
    obtain ⟨ha, hl⟩ := List.pairwise_cons.mp h
    rw [List.insertionSort_cons]
    apply pairwise_orderedInsert_stable htotal htrans
    · intro b hb
      exact ha b ((List.mem_insertionSort r).mp hb)
    · exact ih hl

end StableSort

namespace Placed

/-- The places whose cookies go with a request, in the order of the pairs. -/
def selection (places : List Placed) (url : Url) (now : Option ℕ) : List Placed :=
  ((places.filter (!·.cookie.expired now)).filter (·.cookie.selectedFor url now)).insertionSort
    fun lhs rhs => rhs.cookie.path.length ≤ lhs.cookie.path.length

theorem mem_selection {places : List Placed} {url : Url} {now : Option ℕ} {p : Placed}
    (h : p ∈ selection places url now) :
    p ∈ places ∧ p.cookie.expired now = false ∧ p.cookie.selectedFor url now = true := by
  rw [selection, List.mem_insertionSort, List.mem_filter, List.mem_filter, Bool.not_eq_true'] at h
  exact ⟨h.1.1, h.1.2, h.2⟩

theorem map_selection (places : List Placed) (url : Url) (now : Option ℕ) :
    (selection places url now).map cookie =
      Cookies.selection ((places.map cookie).filter (!·.expired now)) url now := by
  unfold selection Cookies.selection
  rw [List.map_insertionSort _ fun lhs rhs : Cookie => rhs.path.length ≤ lhs.path.length,
    List.filter_map, List.filter_map]
  · rfl
  · exact fun a _ b _ => Iff.rfl

theorem selection_order {places : List Placed} (h : places.Pairwise (·.created < ·.created))
    (url : Url) (now : Option ℕ) :
    (selection places url now).Pairwise fun p q =>
      q.cookie.path.length < p.cookie.path.length ∨
        p.cookie.path.length = q.cookie.path.length ∧ p.created < q.created := by
  have hkept := (h.filter (!·.cookie.expired now)).filter (·.cookie.selectedFor url now)
  have hsorted := pairwise_insertionSort_stable
    (fun a b : Placed => Nat.le_total b.cookie.path.length a.cookie.path.length)
    (fun a b c hab hbc => Nat.le_trans hbc hab) hkept
  refine hsorted.imp ?_
  rintro p q ⟨hle, hstable⟩
  rcases Nat.lt_or_eq_of_le hle with hlt | heq
  · exact Or.inl hlt
  · exact Or.inr ⟨heq.symm, hstable (Nat.le_of_eq heq.symm)⟩

end Placed

/-! ### Confinement -/

/-- No domain with a second leading dot is taken from the host. -/
def CookieOp.SingleDot : CookieOp → Prop
  | .setCookie url field _ =>
    ∀ domain ∈ lastDomain (attributeTexts field), domain.head? = some '.' →
      domainMatches domain false url.host = false
  | .cookieHeader _ _ => True
  | .clear => True

instance (op : CookieOp) : Decidable op.SingleDot :=
  match op with
  | .setCookie url field _ => inferInstanceAs (Decidable (∀ domain ∈ lastDomain
      (attributeTexts field), domain.head? = some '.' → domainMatches domain false url.host = false))
  | .cookieHeader _ _ => inferInstanceAs (Decidable True)
  | .clear => inferInstanceAs (Decidable True)

/-- The cookie of a place may go with a request for the URL at the time `now`. -/
structure Placed.Confined (net : InetPton) (ops : List CookieOp) (url : Url) (now : ClockReading)
    (p : Placed) : Prop where
  origin : ∃ setter field time, ops[p.set]? = some (.setCookie setter field time) ∧
    readSetCookie net setter time.wall field = some p.cookie ∧
    match lastDomain (attributeTexts field) with
    | none => asciiIequals setter.host url.host = true
    | some domain => InDomain domain setter.host ∧ InDomain domain url.host
  path : PathMatch p.cookie.path (if url.path = [] then "/".toList else url.path)
  secure : p.cookie.secure = true → url.scheme = "https".toList
  expiry : p.cookie.persistent = true → ∃ seconds, now.wall = some seconds ∧ seconds < p.cookie.expiry
  latest : ∀ i c, p.set < i → Placed.SetBy net ops i c → c.identity ≠ p.cookie.identity

theorem Cookie.selectedFor_iff {url : Url} {now : Option ℕ} {c : Cookie} :
    c.selectedFor url now = true ↔
      (c.persistent = true → now ≠ none) ∧ (c.secure = true → url.scheme = "https".toList) ∧
      domainMatches c.domain c.hostOnly url.host = true ∧
      pathMatches c.path (if url.path = [] then "/".toList else url.path) = true := by
  unfold selectedFor
  cases c.persistent <;> cases c.secure <;> cases now <;> simp [and_assoc]

/-- A persistent cookie that is selected has not expired. -/
theorem Cookie.lt_expiry {now : Option ℕ} {c : Cookie} (hexpired : c.expired now = false)
    (hexpiry : c.expiry ≠ 0) (hpersistent : c.persistent = true) (hnow : now ≠ none) :
    ∃ seconds, now = some seconds ∧ seconds < c.expiry := by
  obtain ⟨seconds, rfl⟩ := Option.ne_none_iff_exists'.mp hnow
  refine ⟨seconds, rfl, ?_⟩
  simpa [expired, hpersistent, hexpiry] using hexpired

theorem Placed.confined {ops : List CookieOp} {url : Url} {now : ClockReading} {p : Placed}
    (hdots : ∀ op ∈ ops, op.SingleDot) (hstems : Stems net ops p)
    (hexpired : p.cookie.expired now.wall = false)
    (hselected : p.cookie.selectedFor url now.wall = true) : p.Confined net ops url now := by
  obtain ⟨hclock, hsecure, hdomain, hpath⟩ := Cookie.selectedFor_iff.mp hselected
  obtain ⟨setter, field, time, hop, hread⟩ := hstems.origin
  have hfrom := readSetCookie_readFrom hread
  refine ⟨⟨setter, field, time, hop, hread, ?_⟩, pathMatches_pathMatch hfrom.path hpath, hsecure,
    ?_, hstems.latest⟩
  · cases hlast : lastDomain (attributeTexts field) with
    | none =>
      obtain ⟨hscope, hhost⟩ := hfrom.hostOnly hlast
      rw [hscope, hhost] at hdomain
      exact domainMatches_hostOnly hdomain
    | some domain =>
      obtain ⟨hscope, rfl⟩ := hfrom.domain domain hlast
      have hmatched := hfrom.matched
      rw [hscope] at hdomain hmatched
      have hdot : p.cookie.domain.head? ≠ some '.' := by
        intro hdot
        have hsingle := hdots _ (List.mem_of_getElem? hop) _ hlast hdot
        exact Bool.false_ne_true (hsingle.symm.trans hmatched)
      exact ⟨domainMatches_inDomain hdot hmatched, domainMatches_inDomain hdot hdomain⟩
  · intro hpersistent
    exact Cookie.lt_expiry hexpired (hfrom.expiry hpersistent) hpersistent (hclock hpersistent)

/-- In every history, each pair of the Cookie field is that of a cookie which is confined to
the URL, and the pairs are ordered by the length of the path, then by creation. -/
theorem Cookies.after_cookieHeader_confined (ops : List CookieOp) (url : Url) (now : ClockReading)
    (hdots : ∀ op ∈ ops, op.SingleDot) :
    ∃ sent : List Placed, sent ⊆ Placed.after net ops ∧
      ((Cookies.after net ops).cookieHeader url now).2 =
        List.intercalate "; ".toList (sent.map (·.cookie.pair)) ∧
      (∀ p ∈ sent, p.Stems net ops ∧ p.Confined net ops url now) ∧
      sent.Pairwise fun p q =>
        q.cookie.path.length < p.cookie.path.length ∨
          p.cookie.path.length = q.cookie.path.length ∧ p.created < q.created := by
  have hsound : Placed.Sound net ops (Placed.after net ops) := Placed.after_sound ops
  refine ⟨Placed.selection (Placed.after net ops) url now.wall,
    fun p hp => (Placed.mem_selection hp).1, ?_, ?_,
    Placed.selection_order hsound.order url now.wall⟩
  · unfold Cookies.cookieHeader
    dsimp only
    rw [← Placed.map_after, ← Placed.map_selection, List.map_map]
    rfl
  · intro p hp
    obtain ⟨hplace, hexpired, hselected⟩ := Placed.mem_selection hp
    have hstems := hsound.stems p hplace
    exact ⟨hstems, Placed.confined hdots hstems hexpired hselected⟩

def urlOf (host path : Str) : Url := ⟨"https".toList, host, 0, path, [], false⟩

def twoPaths : List CookieOp :=
  [.setCookie (urlOf "www.a.test".toList "/".toList) "a=1; Domain=.a.test".toList ⟨some 5, 5⟩,
    .setCookie (urlOf "a.test".toList "/x/y".toList) "b=2; Max-Age=9".toList ⟨some 6, 6⟩]

theorem Cookies.after_cookieHeader_confined_twoPaths :
    ((Cookies.after noLiterals twoPaths).cookieHeader (urlOf "a.test".toList "/x".toList)
      ⟨some 7, 7⟩).2 = "b=2; a=1".toList ∧
    ∃ sent : List Placed, sent ⊆ Placed.after noLiterals twoPaths ∧
      ((Cookies.after noLiterals twoPaths).cookieHeader (urlOf "a.test".toList "/x".toList)
        ⟨some 7, 7⟩).2 = List.intercalate "; ".toList (sent.map (·.cookie.pair)) ∧
      (∀ p ∈ sent, p.Stems noLiterals twoPaths ∧
        p.Confined noLiterals twoPaths (urlOf "a.test".toList "/x".toList) ⟨some 7, 7⟩) ∧
      sent.Pairwise fun p q =>
        q.cookie.path.length < p.cookie.path.length ∨
          p.cookie.path.length = q.cookie.path.length ∧ p.created < q.created :=
  ⟨by decide +kernel, Cookies.after_cookieHeader_confined twoPaths
    (urlOf "a.test".toList "/x".toList) ⟨some 7, 7⟩ (by decide +kernel)⟩

def secondDot : List CookieOp :=
  [.setCookie (urlOf "evil.".toList "/".toList) "a=1; Domain=..".toList ⟨none, 5⟩]

/-- Without the second dot, nothing is left of the domain that a host has to end in. -/
theorem Cookies.after_cookieHeader_secondDot :
    parseUrl noLiterals "https://evil./".toList = some (urlOf "evil.".toList "/".toList) ∧
    parseUrl noLiterals "https://bank./".toList = some (urlOf "bank.".toList "/".toList) ∧
    ¬ ∃ sent : List Placed, sent ⊆ Placed.after noLiterals secondDot ∧
      ((Cookies.after noLiterals secondDot).cookieHeader (urlOf "bank.".toList "/".toList)
        ⟨none, 6⟩).2 = List.intercalate "; ".toList (sent.map (·.cookie.pair)) ∧
      (∀ p ∈ sent, p.Stems noLiterals secondDot ∧
        p.Confined noLiterals secondDot (urlOf "bank.".toList "/".toList) ⟨none, 6⟩) ∧
      sent.Pairwise fun p q =>
        q.cookie.path.length < p.cookie.path.length ∨
          p.cookie.path.length = q.cookie.path.length ∧ p.created < q.created := by
  refine ⟨by decide +kernel, by decide +kernel, ?_⟩
  rintro ⟨sent, -, hheader, hconfined, -⟩
  have hsent : ((Cookies.after noLiterals secondDot).cookieHeader
      (urlOf "bank.".toList "/".toList) ⟨none, 6⟩).2 = "a=1".toList := by decide +kernel
  cases sent with
  | nil => exact absurd (hsent.symm.trans hheader) (by decide)
  | cons p sent =>
    obtain ⟨setter, field, time, hop, -, hdomain⟩ := (hconfined p List.mem_cons_self).2.origin
    have hzero : p.set = 0 := by
      have hbound := (List.getElem?_eq_some_iff.mp hop).1
      exact Nat.lt_one_iff.mp hbound
    rw [hzero] at hop
    cases hop
    have hlast : lastDomain (attributeTexts "a=1; Domain=..".toList) = some ".".toList := by
      decide +kernel
    rw [hlast] at hdomain
    exact absurd hdomain.1 (by decide +kernel)

end KatHttp3
