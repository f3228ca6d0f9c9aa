import KatHttp3.Engine.Events

/-!
# Credentials along redirects

The fields of a hop's request are those that stem from the application, cut down
at every redirect, followed by those the engine added. A credential among the
former survives only redirects within one origin, unless a redirect leads from a
URL without any path to a rootless path.
-/

namespace KatHttp3

open Str Rfc3986

/-- The fields that must not reach another origin. -/
def credential (name : Str) : Bool :=
  asciiIequals name "authorization".toList || asciiIequals name "proxy-authorization".toList ||
    asciiIequals name "cookie".toList

theorem sensitive_of_credential {name : Str} (h : credential name = true) :
    sensitive name = true := by
  unfold sensitive
  unfold credential at h
  rw [h, Bool.true_or]

instance (base : Url) (r : Reference) : Decidable (Bare base r) :=
  inferInstanceAs (Decidable (_ ∧ _ ∧ _))

/-- The references whose target is printed with its slash: those with a scheme or
an authority, and those that put no rootless path after a base without path, or
one that its own dot segments pop again. -/
def slashKept (base : Url) (r : Reference) : Bool :=
  r.scheme.isSome || r.authority.isSome || !decide (Bare base r) || popsFirst (segments r.path)

variable {net : InetPton}

/-- Printing and reparsing such a target keeps its origin. -/
theorem reparsed_origin {base target url : Url} {location : Str} (hbase : base.WellFormed net)
    (hkept : slashKept base (split location) = true)
    (htarget : resolveReference net base location = some target)
    (hurl : parseUrl net target.toString = some url) : url.origin = target.origin := by
  rcases resolveReference_cases hbase htarget with h | h
  · rw [h.wellFormed.parse_toString] at hurl
    cases hurl
    exact target.normalized_origin
  · have hgood : Bare base (split location) → popsFirst (segments (split location).path) = true := by
      intro hbare
      simpa [slashKept, h.scheme, h.authority, hbare] using hkept
    rw [h.parse_rooted hbase (h.rooted hbase hgood)] at hurl
    split_ifs at hurl
    cases hurl
    exact target.normalized_origin

theorem redirectTarget_cases {job : Job} {status : ℕ} {headers : HeaderList}
    {dec : RedirectDecision} {url : Url}
    (h : redirectTarget net job status headers = some (dec, url)) :
    dec = evaluate net job.request.method job.url { statusCode := status, headers := headers } true
        (kDefaultMaxRedirects - job.redirectCount) ∧
      dec.follow = true ∧ parseUrl net dec.newUrl = some url := by
  unfold redirectTarget at h
  by_cases hstatus : status / 100 = 3 ∧ status ≠ 304 ∧ job.request.followRedirects = true
  · rw [if_pos hstatus] at h
    dsimp only at h
    split at h
    · rename_i hfollow
      split at h
      · rename_i url' hparse
        split at h
        · cases h
          simp only [Bool.and_eq_true] at hfollow
          exact ⟨rfl, hfollow.1.1, hparse⟩
        · cases h
      · cases h
    · cases h
  · rw [if_neg hstatus] at h
    cases h

/-- The origin of the URL a redirect is sent to is the one the decision compared. -/
theorem redirectTarget_origin {job : Job} {status : ℕ} {headers : HeaderList}
    {dec : RedirectDecision} {url : Url} (hbase : job.url.WellFormed net)
    (hkept : slashKept job.url (split (headers.get "location".toList)) = true)
    (h : redirectTarget net job status headers = some (dec, url)) :
    dec.crossOrigin = true ↔ url.origin ≠ job.url.origin := by
  obtain ⟨rfl, hfollow, hparse⟩ := redirectTarget_cases h
  obtain ⟨target, htarget, hurl, hcross⟩ := evaluate_follow hfollow
  rw [hurl] at hparse
  rw [hcross, reparsed_origin hbase hkept htarget hparse]

/-! ### The fields of a hop -/

variable {J : Type}

/-- A field the engine added: a Cookie field of the jar or a validator of the cache. -/
def EngineConfig.AddedField (engine : EngineConfig J) (header : Header) : Prop :=
  header.name = "cookie".toList ∧ engine.JarCookie header.value ∨
    header.name = "if-none-match".toList ∨ header.name = "if-modified-since".toList

/-- Fields that stem from the application, followed by fields the engine added. -/
def EngineConfig.Extended (engine : EngineConfig J) (application headers : HeaderList) : Prop :=
  ∃ added, headers = application ++ added ∧ ∀ header ∈ added, engine.AddedField header

variable {engine : EngineConfig J}

theorem extended_filter {application headers : HeaderList} (p : Header → Bool)
    (h : engine.Extended application headers) :
    engine.Extended (application.filter p) (headers.filter p) := by
  obtain ⟨added, rfl, hadded⟩ := h
  exact ⟨added.filter p, List.filter_append .., fun header hh => hadded header (List.mem_filter.mp hh).1⟩

theorem extended_append {application headers added : HeaderList}
    (h : engine.Extended application headers) (hadded : ∀ header ∈ added, engine.AddedField header) :
    engine.Extended application (headers ++ added) := by
  obtain ⟨before, rfl, hbefore⟩ := h
  refine ⟨before ++ added, List.append_assoc .., fun header hh => ?_⟩
  exact (List.mem_append.mp hh).elim (hbefore header) (hadded header)

theorem extended_addCookie {application : HeaderList} {request : Request} {cookie : Str}
    (h : engine.Extended application request.headers)
    (hcookie : cookie = [] ∨ engine.JarCookie cookie) :
    engine.Extended application (addCookieHeader request cookie).headers := by
  unfold addCookieHeader
  by_cases hnil : cookie = []
  · rw [if_pos hnil]
    exact h
  · rw [if_neg hnil]
    split_ifs
    · exact h
    · refine extended_append h fun header hh => ?_
      rw [List.mem_singleton.mp hh]
      exact Or.inl ⟨rfl, hcookie.resolve_left hnil⟩

theorem extended_validators {application headers added : HeaderList}
    (h : engine.Extended application headers)
    (hadded : ∀ header ∈ added,
      header.name = "if-none-match".toList ∨ header.name = "if-modified-since".toList) :
    engine.Extended application (headers ++ added) :=
  extended_append h fun header hh => Or.inr (hadded header hh)

/-- The requests of a hop: as it was sent, and as a redirect of it starts from. -/
structure Hop.Fields (engine : EngineConfig J) (hop : Hop) : Prop where
  wellFormed : hop.job.url.WellFormed engine.net
  request : engine.Extended hop.application hop.job.request.headers
  original : engine.Extended hop.application hop.job.originalCacheRequestHeaders

/-- The redirect a hop has still to follow. -/
structure Hop.Redirects (engine : EngineConfig J) (hop : Hop) (dec : RedirectDecision)
    (request : Request) (url : Url) : Prop where
  wellFormed : url.WellFormed engine.net
  request : engine.Extended (hop.application.filter (carriedOver dec)) request.headers
  origin : dec.crossOrigin = false → url.origin = hop.job.url.origin

theorem Hop.Fields.extends {hop hop' : Hop} (h : hop.Fields engine) (hgrows : hop.Extends hop') :
    hop'.Fields engine := by
  refine ⟨?_, ?_, ?_⟩
  · rw [hgrows.request.url]
    exact h.wellFormed
  · rw [hgrows.application, hgrows.request.request]
    exact h.request
  · rw [hgrows.application, Job.originalCacheRequestHeaders, hgrows.request.request,
      hgrows.request.cacheRequestHeaders]
    exact h.original

theorem Hop.Fields.redirects {hop hop' : Hop} {status : ℕ} {headers : HeaderList}
    (h : hop.Fields engine) (hgrows : hop.Extends hop')
    (hfollows : Follows engine hop hop' status headers)
    (hkept : slashKept hop.job.url (split (headers.get "location".toList)) = true)
    {dec : RedirectDecision} {request : Request} {url : Url}
    (hfollowing : hop'.following = some (dec, request, url)) : hop'.Redirects engine dec request url := by
  obtain ⟨dec', url', cookie, htarget, hcookie, hfollowing'⟩ := hfollows
  rw [hfollowing'] at hfollowing
  cases hfollowing
  obtain ⟨-, -, hparse⟩ := redirectTarget_cases htarget
  refine ⟨Url.parseUrl_wellFormed hparse, ?_, fun hsame => ?_⟩
  · rw [hgrows.application]
    exact extended_addCookie (extended_filter (carriedOver dec) h.original) hcookie
  · rw [hgrows.request.url]
    by_contra hne
    have := (redirectTarget_origin h.wellFormed hkept htarget).mpr hne
    rw [hsame] at this
    cases this

/-! ### The chain of hops -/

namespace Call

variable {c c' : Call J}

/-- A followed redirect is one whose target is printed with its slash. -/
def slashKeptStep (engine : EngineConfig J) (c : Call J) : CallStep J → Bool
  | .headers k status headers _ =>
    c.hops[k]?.all fun hop =>
      (redirectTarget engine.net hop.job status headers).isNone ||
        slashKept hop.job.url (split (headers.get "location".toList))
  | _ => true

/-- Credentials of the application do not leave the first origin, and what is
dropped stays away. -/
structure Confined (engine : EngineConfig J) (headers : HeaderList) (start : Url) (c : Call J) :
    Prop where
  fields : ∀ hop ∈ c.hops, hop.Fields engine
  following : ∀ hop ∈ c.hops, ∀ dec request url, hop.following = some (dec, request, url) →
    hop.Redirects engine dec request url
  first : ∀ hop : Hop, c.hops[0]? = some hop → hop.application = headers
  chain : ∀ (j k : ℕ) (hop hop' : Hop), j ≤ k → c.hops[j]? = some hop → c.hops[k]? = some hop' →
    hop'.application.Sublist hop.application ∧
      ((∃ header ∈ hop'.application, credential header.name = true) →
        hop.job.url.origin = start.origin)

/-- The hops keep their place, the URL and the fields of the application. -/
theorem sameHop_set {hops : List Hop} {j k : ℕ} {hop hop' x : Hop} (hk : hops[k]? = some hop)
    (hgrows : hop.Extends hop') (hj : (hops.set k hop')[j]? = some x) :
    ∃ y, hops[j]? = some y ∧ x.application = y.application ∧ x.job.url = y.job.url := by
  rcases CallStacks.getElem?_set_cases hj with ⟨rfl, rfl⟩ | ⟨-, hj⟩
  · exact ⟨hop, hk, hgrows.application, hgrows.request.url⟩
  · exact ⟨x, hj, rfl, rfl⟩

theorem getElem?_append_singleton {hops : List Hop} {j : ℕ} {next x : Hop}
    (h : (hops ++ [next])[j]? = some x) : hops[j]? = some x ∨ j = hops.length ∧ x = next := by
  rcases Nat.lt_or_ge j hops.length with hlt | hge
  · rw [List.getElem?_append_left hlt] at h
    exact Or.inl h
  · rw [List.getElem?_append_right hge] at h
    rw [List.getElem?_singleton] at h
    split_ifs at h with hzero
    exact Or.inr ⟨by omega, (Option.some.inj h).symm⟩

theorem Confined.set {headers : HeaderList} {start : Url} (h : c.Confined engine headers start)
    {k : ℕ} {hop hop' : Hop} {shared : Shared J} {live : Bool} {log : List AppEvent}
    (hk : c.hops[k]? = some hop) (hgrows : hop.Extends hop')
    (hfollowing : ∀ dec request url, hop'.following = some (dec, request, url) →
      hop'.Redirects engine dec request url) :
    Confined engine headers start
      { c with shared := shared, hops := c.hops.set k hop', live := live, log := log } := by
  have hmem : hop ∈ c.hops := List.mem_iff_getElem?.mpr ⟨k, hk⟩
  refine ⟨fun x hx => ?_, fun x hx => ?_, fun x hx => ?_, fun i j x x' hij hi hj => ?_⟩
  · rcases List.mem_or_eq_of_mem_set hx with hx | rfl
    · exact h.fields x hx
    · exact (h.fields hop hmem).extends hgrows
  · rcases List.mem_or_eq_of_mem_set hx with hx | rfl
    · exact h.following x hx
    · exact hfollowing
  · obtain ⟨y, hy, ha, -⟩ := sameHop_set hk hgrows hx
    rw [ha]
    exact h.first y hy
  · obtain ⟨y, hy, ha, hu⟩ := sameHop_set hk hgrows hi
    obtain ⟨y', hy', ha', -⟩ := sameHop_set hk hgrows hj
    rw [ha, ha', hu]
    exact h.chain i j y y' hij hy hy'

theorem Confined.step {headers : HeaderList} {start : Url} (hshape : c.Shape)
    (h : c.Confined engine headers start) {i : CallStep J} (hok : c.slashKeptStep engine i = true)
    (hstep : c.Steps engine i c') : c'.Confined engine headers start := by
  cases hstep with
  | interfered => exact ⟨h.fields, h.following, h.first, h.chain⟩
  | @moved k hop hop' shared chunked hk hidle hm _ hfollows _ =>
    refine h.set hk hm.grows fun dec request url hfollowing => ?_
    obtain ⟨status, fields, now, rfl, hf⟩ := hfollows (by simp [hfollowing])
    have hfields := h.fields hop (List.mem_iff_getElem?.mpr ⟨k, hk⟩)
    refine hfields.redirects hm.grows hf ?_ hfollowing
    obtain ⟨dec', url', -, htarget, -⟩ := hf
    simpa [slashKeptStep, hk, htarget] using hok
  | @delivered k hop event rest hk hpending =>
    refine h.set hk (Hop.extends_pending rest) fun dec request url hfollowing => ?_
    have hr := h.following hop (List.mem_iff_getElem?.mpr ⟨k, hk⟩) dec request url hfollowing
    exact ⟨hr.wellFormed, hr.request, hr.origin⟩
  | @followed k hop next shared now hk hnext =>
    have hmem : hop ∈ c.hops := List.mem_iff_getElem?.mpr ⟨k, hk⟩
    obtain ⟨dec, request, url, hfollowing, -, -, -, hurl, hnext', horiginal, added, hadded, hnames⟩ :=
      next_cases hnext
    have hredirects := h.following hop hmem dec request url hfollowing
    have hlast := hshape.last_of_following hk (by simp [hfollowing])
    have hparts : Confined engine headers start
        { c with shared := shared, hops := c.hops.set k { hop with following := none } } :=
      h.set hk
        ⟨.refl _, rfl, List.prefix_refl _, List.prefix_refl _, fun he => ⟨he, rfl⟩⟩
        (fun _ _ _ hf => by cases hf)
    have happlication : next.application = hop.application.filter (carriedOver dec) := by
      rw [hnext']
    have hnew : next.Fields engine := by
      refine ⟨by rw [hurl]; exact hredirects.wellFormed, ?_, ?_⟩
      · rw [happlication, hadded]
        exact extended_validators hredirects.request hnames
      · rw [happlication, horiginal]
        exact hredirects.request
    have hsub : next.application.Sublist hop.application := by
      rw [happlication]
      exact List.filter_sublist
    -- a credential that goes along is not sent to another origin
    have horigin : (∃ header ∈ next.application, credential header.name = true) →
        next.job.url.origin = start.origin := by
      rintro ⟨header, hheader, hcredential⟩
      rw [hurl, hredirects.origin, (h.chain k k hop hop le_rfl hk hk).2]
      · exact ⟨header, hsub.subset hheader, hcredential⟩
      · rw [happlication] at hheader
        have hcarried := (List.mem_filter.mp hheader).2
        simp only [carriedOver, sensitive_of_credential hcredential] at hcarried
        by_contra hcross
        simp [Bool.eq_true_of_not_eq_false hcross] at hcarried
    have hlength : (c.hops.set k { hop with following := none }).length = k + 1 := by
      rw [List.length_set, hlast]
    refine ⟨fun x hx => ?_, fun x hx => ?_, fun x hx => ?_, fun i j x x' hij hi hj => ?_⟩
    · rcases List.mem_append.mp hx with hx | hx
      · exact hparts.fields x hx
      · rw [List.mem_singleton.mp hx]
        exact hnew
    · rcases List.mem_append.mp hx with hx | hx
      · exact hparts.following x hx
      · rw [List.mem_singleton.mp hx, hnext']
        intro _ _ _ hf
        cases hf
    · rw [List.getElem?_append_left (by omega)] at hx
      exact hparts.first x hx
    · rcases getElem?_append_singleton hj with hj | ⟨hjk, rfl⟩
      · have hlt := (List.getElem?_eq_some_iff.mp hj).1
        rw [List.getElem?_append_left (by omega)] at hi
        exact hparts.chain i j x x' hij hi hj
      · rcases getElem?_append_singleton hi with hi | ⟨-, rfl⟩
        · have hlt := (List.getElem?_eq_some_iff.mp hi).1
          obtain ⟨y, hy, ha, hu⟩ := sameHop_set hk
            (⟨.refl _, rfl, List.prefix_refl _, List.prefix_refl _, fun he => ⟨he, rfl⟩⟩ :
              hop.Extends { hop with following := none }) hi
          have hchain := h.chain i k y hop (by omega) hy hk
          rw [ha, hu]
          refine ⟨hsub.trans hchain.1, fun hc => hchain.2 ?_⟩
          obtain ⟨header, hheader, hcredential⟩ := hc
          exact ⟨header, hsub.subset hheader, hcredential⟩
        · exact ⟨List.Sublist.refl _, horigin⟩
  | aborted => exact ⟨h.fields, h.following, h.first, h.chain⟩

theorem confined_execute {shared : Shared J} {id : ℤ} {request : Request} {now : ClockReading}
    (h : execute engine shared id request now = some c) :
    ∃ start, parseUrl engine.net request.url = some start ∧
      c.Confined engine request.headers start := by
  unfold execute at h
  split at h
  · cases h
  · rename_i start hparse
    obtain ⟨shared₁, cookie, hcookie, -, hjar⟩ := withCookies_cases engine shared request start now
    obtain ⟨shared₂, job, hstart, -, hurl, -, -, horiginal, added, hadded, hnames⟩ :=
      startJob_cases shared₁ id (addCookieHeader request cookie) start 0 now
    dsimp only at h
    rw [hcookie] at h
    dsimp only at h
    rw [hstart] at h
    cases h
    have hrequest : engine.Extended request.headers (addCookieHeader request cookie).headers :=
      extended_addCookie ⟨[], by simp, by simp⟩ hjar
    refine ⟨start, hparse, fun x hx => ?_, fun x hx => ?_, fun x hx => ?_,
      fun j k x x' _ hj hk => ?_⟩
    · rw [List.mem_singleton.mp hx]
      refine ⟨by rw [hurl]; exact Url.parseUrl_wellFormed hparse, ?_, by rw [horiginal]; exact hrequest⟩
      rw [hadded]
      exact extended_validators hrequest hnames
    · rw [List.mem_singleton.mp hx]
      intro _ _ _ hf
      cases hf
    · cases hx
      rfl
    · have hj := List.mem_singleton.mp (List.mem_iff_getElem?.mpr ⟨j, hj⟩)
      have hk := List.mem_singleton.mp (List.mem_iff_getElem?.mpr ⟨k, hk⟩)
      rw [hj, hk]
      exact ⟨List.Sublist.refl _, fun _ => by rw [hurl]⟩

/-- In every run that follows only redirects whose target is printed with its
slash, a hop carries a credential of the application only if every hop up to it
is sent to the first origin, and no field that was dropped comes back. -/
theorem run_confined {shared : Shared J} {id : ℤ} {request : Request} {now : ClockReading}
    {steps : List (CallStep J)} (hexecute : execute engine shared id request now = some c)
    (hrun : Transition.run (step engine) c steps = some c')
    (hok : Transition.Meets (step engine) (fun c i => c.slashKeptStep engine i = true) c steps) :
    ∃ start, parseUrl engine.net request.url = some start ∧
      ∀ (j k : ℕ) (hop hop' : Hop), j ≤ k → c'.hops[j]? = some hop → c'.hops[k]? = some hop' →
        engine.Extended hop'.application hop'.job.request.headers ∧
          hop'.application.Sublist hop.application ∧
          hop'.application.Sublist request.headers ∧
          ((∃ header ∈ hop'.application, credential header.name = true) →
            hop.job.url.origin = start.origin) := by
  obtain ⟨start, hparse, hconfined⟩ := confined_execute hexecute
  have hboth (c : Call J) (i : CallStep J) (c' : Call J)
      (h : Shape c ∧ Confined engine request.headers start c)
      (hok : c.slashKeptStep engine i = true) (hstep : c.step engine i = some c') :
      Shape c' ∧ Confined engine request.headers start c' := by
    have hsteps := step_cases h.1 hstep
    exact ⟨h.1.step hsteps, h.2.step h.1 hok hsteps⟩
  have hinv := Transition.run_invariant
    hboth hrun hok ⟨(inv_execute hexecute).toShape, hconfined⟩
  refine ⟨start, hparse, fun j k hop hop' hjk hj hk => ?_⟩
  obtain ⟨hsub, horigin⟩ := hinv.2.chain j k hop hop' hjk hj hk
  have hzero : ∃ first, c'.hops[0]? = some first := by
    cases hhops : c'.hops with
    | nil => exact absurd hhops hinv.1.nonempty
    | cons x xs => exact ⟨x, rfl⟩
  obtain ⟨first, hfirst⟩ := hzero
  have hall := (hinv.2.chain 0 k first hop' (Nat.zero_le k) hfirst hk).1
  rw [hinv.2.first first hfirst] at hall
  exact ⟨(hinv.2.fields hop' (List.mem_iff_getElem?.mpr ⟨k, hk⟩)).request, hsub, hall, horigin⟩

end Call

/-! ### Two runs -/

def authorization : Header := ⟨"authorization".toList, "secret".toList⟩

def authorizedGet (url : Str) : Request :=
  { method := "GET".toList, url := url, headers := [authorization] }

/-- The state after `execute`. -/
def authorizedStart (url : Str) (parsed : Url) : Call Unit :=
  { shared := ⟨none, ()⟩
    hops := [{
      job := {
        id := 7
        request := authorizedGet url
        url := parsed
        cacheRequestWallSeconds := some 0 }
      application := [authorization] }] }

/-- The redirect of hop `k` to a location, followed. -/
def redirectHop (k : ℕ) (location : Str) : List (CallStep Unit) :=
  [.route k true, .headers k 302 [⟨"location".toList, location⟩] plainNow, .hop k plainNow]

namespace Call

theorem execute_authorizedStart :
    execute plainEngine ⟨none, ()⟩ 7 (authorizedGet "https://a.test/x".toList) plainNow =
      some (authorizedStart "https://a.test/x".toList (urlAt "/x".toList)) := by decide +kernel

theorem run_confined_abroad :
    ∃ c, Transition.run (step plainEngine) (authorizedStart "https://a.test/x".toList (urlAt "/x".toList))
        (redirectHop 0 "y".toList ++ redirectHop 1 "https://b.test/".toList) = some c ∧
      c.hops.map Hop.application = [[authorization], [authorization], []] ∧
      ∃ start, parseUrl plainEngine.net (authorizedGet "https://a.test/x".toList).url = some start ∧
        ∀ (j k : ℕ) (hop hop' : Hop), j ≤ k → c.hops[j]? = some hop → c.hops[k]? = some hop' →
          plainEngine.Extended hop'.application hop'.job.request.headers ∧
            hop'.application.Sublist hop.application ∧
            hop'.application.Sublist (authorizedGet "https://a.test/x".toList).headers ∧
            ((∃ header ∈ hop'.application, credential header.name = true) →
              hop.job.url.origin = start.origin) := by
  obtain ⟨c, hrun, hhops⟩ := Option.map_eq_some_iff.mp
    (show (Transition.run (step plainEngine)
        (authorizedStart "https://a.test/x".toList (urlAt "/x".toList))
        (redirectHop 0 "y".toList ++ redirectHop 1 "https://b.test/".toList)).map
          (fun c => c.hops.map Hop.application) =
      some [[authorization], [authorization], []] by decide +kernel)
  have hkept : Transition.Meets (step plainEngine)
      (fun c i => c.slashKeptStep plainEngine i = true)
      (authorizedStart "https://a.test/x".toList (urlAt "/x".toList))
      (redirectHop 0 "y".toList ++ redirectHop 1 "https://b.test/".toList) := by decide +kernel
  exact ⟨c, hrun, hhops, run_confined execute_authorizedStart hrun hkept⟩

/-- The rootless path `foo` under `https://a.test` takes the credential to the host `a.testfoo`. -/
theorem run_credential_abroad :
    ∃ c hop, execute plainEngine ⟨none, ()⟩ 7 (authorizedGet "https://a.test".toList) plainNow =
        some (authorizedStart "https://a.test".toList (urlAt [])) ∧
      Transition.run (step plainEngine) (authorizedStart "https://a.test".toList (urlAt []))
        (redirectHop 0 "foo".toList) = some c ∧
      c.hops[1]? = some hop ∧ authorization ∈ hop.application ∧
      authorization ∈ hop.job.request.headers ∧ credential authorization.name = true ∧
      hop.job.url.host = "a.testfoo".toList ∧ hop.job.url.origin ≠ (urlAt []).origin := by
  obtain ⟨c, hrun, hhops⟩ := Option.map_eq_some_iff.mp
    (show (Transition.run (step plainEngine) (authorizedStart "https://a.test".toList (urlAt []))
        (redirectHop 0 "foo".toList)).map
          (fun c => c.hops[1]?.map fun hop => (hop.application, hop.job.request.headers, hop.job.url)) =
      some (some ([authorization], [authorization],
        ⟨"https".toList, "a.testfoo".toList, 0, [], [], false⟩)) by decide +kernel)
  obtain ⟨hop, hhop, hparts⟩ := Option.map_eq_some_iff.mp hhops
  simp only [Prod.mk.injEq] at hparts
  obtain ⟨happlication, hheaders, hurl⟩ := hparts
  refine ⟨c, hop, by decide +kernel, hrun, hhop, ?_, ?_, by decide +kernel, ?_, ?_⟩
  · rw [happlication]
    exact List.mem_singleton.mpr rfl
  · rw [hheaders]
    exact List.mem_singleton.mpr rfl
  · rw [hurl]
  · rw [hurl]
    decide +kernel

end Call

end KatHttp3
