import KatHttp3.Cookies.CookieJar
import KatHttp3.Engine.Credentials

/-!
# Cookies along redirects

The Cookie field of a hop is what the jar gives for its URL, unless the hop
before it had another one. A redirect within one origin carries that field over
like a field of the application, and the jar's own is then not added.
-/

namespace KatHttp3

open Str

/-- The jar of `cookie_jar.cc`. -/
def cookieJar (net : InetPton) : CookieJar Cookies where
  store := Cookies.store net
  cookieHeader := Cookies.cookieHeader

/-- The values of the Cookie fields. -/
def HeaderList.cookies (headers : HeaderList) : List Str := headers.getAll "cookie".toList

variable {J : Type}

/-- The Cookie fields for a URL: one with the value of the jar, none if that is empty. -/
def EngineConfig.cookiesFor (engine : EngineConfig J) (jar : J) (url : Url) (now : ClockReading) :
    List Str :=
  let cookie := (engine.jar.cookieHeader jar url now).2
  if cookie = [] then [] else [cookie]

/-! ### The Cookie fields of a prepared request -/

theorem any_cookie_iff {headers : HeaderList} :
    (headers.any fun header => asciiIequals header.name "cookie".toList) = true ↔
      headers.cookies ≠ [] := by
  rw [HeaderList.cookies, HeaderList.getAll, ne_eq, List.map_eq_nil_iff, List.filter_eq_nil_iff,
    List.any_eq_true]
  push Not
  rfl

/-- A Cookie field that the request has already is kept. -/
theorem cookies_addCookieHeader (request : Request) (cookie : Str) :
    (addCookieHeader request cookie).headers.cookies =
      if request.headers.cookies = [] then if cookie = [] then [] else [cookie]
      else request.headers.cookies := by
  unfold addCookieHeader
  by_cases hnone : request.headers.cookies = []
  · have hany : ¬(request.headers.any fun header => asciiIequals header.name "cookie".toList) = true :=
      fun h => any_cookie_iff.mp h hnone
    rw [if_neg hany, if_pos hnone]
    split_ifs
    · exact hnone
    · rw [HeaderList.cookies, HeaderList.add, HeaderList.getAll_append]
      rw [HeaderList.cookies] at hnone
      rw [hnone]
      rfl
  · rw [if_pos (any_cookie_iff.mpr hnone), if_neg hnone, ite_self]

theorem cookies_addFromJar (engine : EngineConfig J) (request : Request) (jar : J) (url : Url)
    (now : ClockReading) :
    (addCookieHeader request (engine.jar.cookieHeader jar url now).2).headers.cookies =
      if request.headers.cookies = [] then engine.cookiesFor jar url now
      else request.headers.cookies :=
  cookies_addCookieHeader request _

/-- A redirect to another origin drops the Cookie fields, any other one carries them over. -/
theorem cookies_carriedOver (headers : HeaderList) (dec : RedirectDecision) :
    HeaderList.cookies (headers.filter (carriedOver dec)) =
      if dec.crossOrigin then [] else headers.cookies := by
  unfold HeaderList.cookies HeaderList.getAll
  rw [List.filter_filter]
  have hname (header : Header) (h : asciiIequals header.name "cookie".toList = true) :
      carriedOver dec header = !dec.crossOrigin := by
    have hbody : bodyHeader header.name = false := by
      unfold bodyHeader
      rw [asciiIequals_congr h, asciiIequals_congr h, asciiIequals_congr h]
      decide
    have hsensitive : sensitive header.name = true :=
      sensitive_of_credential (by rw [credential, h, Bool.or_true])
    simp [carriedOver, hsensitive, hbody]
  cases hcross : dec.crossOrigin with
  | true =>
    rw [if_pos rfl, List.map_eq_nil_iff, List.filter_eq_nil_iff]
    intro header _ hboth
    rw [Bool.and_eq_true] at hboth
    rw [hname header hboth.1, hcross] at hboth
    cases hboth.2
  | false =>
    rw [if_neg Bool.false_ne_true]
    congr 1
    refine List.filter_congr fun header _ => ?_
    cases hcookie : asciiIequals header.name "cookie".toList with
    | true => rw [hname header hcookie, hcross]; rfl
    | false => rfl

theorem cookies_append_validators {headers added : HeaderList}
    (h : ∀ header ∈ added,
      header.name = "if-none-match".toList ∨ header.name = "if-modified-since".toList) :
    HeaderList.cookies (headers ++ added) = headers.cookies := by
  have hadded : HeaderList.getAll added "cookie".toList = [] := by
    rw [HeaderList.getAll, List.map_eq_nil_iff, List.filter_eq_nil_iff]
    intro header hheader
    rcases h header hheader with hname | hname
    · rw [hname]
      decide
    · rw [hname]
      decide
  rw [HeaderList.cookies, HeaderList.getAll_append, hadded, List.append_nil]
  rfl

variable {engine : EngineConfig J}

theorem cookies_redirectRequest {job : Job} (dec : RedirectDecision) (url : Url)
    (h : job.originalCacheRequestHeaders.cookies = job.request.headers.cookies) :
    (redirectRequest job dec url).headers.cookies =
      if dec.crossOrigin then [] else job.request.headers.cookies := by
  rw [← h]
  exact cookies_carriedOver _ dec

@[simp] theorem dropValidation_cookies (shared : Shared J) (job : Job) (status : ℕ) :
    (dropValidation shared job status).1.cookies = shared.cookies := by
  unfold dropValidation
  split
  · split_ifs <;> rfl
  · rfl

/-- The request that follows a redirect has the field of the jar as it is once
the Set-Cookie fields of the response are stored, unless it has one already. -/
theorem headers_following {hop hop' : Hop} {shared shared' : Shared J} {status : ℕ}
    {headers : HeaderList} {now : ClockReading} {dec : RedirectDecision} {request : Request} {url : Url}
    (henabled : engine.enableCookies = true)
    (h : Hop.headers engine hop shared status headers now = some (shared', hop'))
    (htarget : redirectTarget engine.net hop.job status headers = some (dec, url))
    (hfollowing : hop'.following = some (dec, request, url)) :
    request = addCookieHeader (redirectRequest hop.job dec url)
      (engine.jar.cookieHeader (engine.jar.store shared.cookies hop.job.url headers now) url now).2 := by
  unfold Hop.headers EngineConfig.onJobHeaders at h
  split_ifs at h
  dsimp only at h
  obtain ⟨shared₁, validation, hdrop, -⟩ := dropValidation_cases shared
    { hop.job with response := { statusCode := status, headers := headers } } status
  have hcookies : shared₁.cookies = shared.cookies := by
    have := dropValidation_cookies shared
      { hop.job with response := { statusCode := status, headers := headers } } status
    rwa [hdrop] at this
  rw [hdrop] at h
  dsimp only at h
  have htarget' : redirectTarget engine.net
      { hop.job with
        response := { statusCode := status, headers := headers }
        cacheValidation := validation } status headers = some (dec, url) := htarget
  rw [htarget'] at h
  simp only [EngineConfig.storeCookies, EngineConfig.withCookies, if_pos henabled, hcookies] at h
  cases h
  cases hfollowing
  rfl

/-! ### The chain of hops -/

namespace Call

variable {c₀ c c' : Call J}

/-- A redirect that is followed leads to another origin, or the redirected hop
had no Cookie field, or the one it had is what the jar gives for the new URL. -/
def carriesCurrent (engine : EngineConfig J) (c : Call J) : CallStep J → Bool
  | .headers k status headers now =>
    c.hops[k]?.all fun hop =>
      (redirectTarget engine.net hop.job status headers).all fun (dec, url) =>
        dec.crossOrigin || hop.job.request.headers.cookies == [] ||
          hop.job.request.headers.cookies ==
            engine.cookiesFor (engine.jar.store c.shared.cookies hop.job.url headers now) url now
  | _ => true

/-- The fields are those the jar gave for the URL `next` when the last hop, the
`k`-th, had been answered and the Set-Cookie fields of the answer were stored. -/
def FromJar (engine : EngineConfig J) (c₀ : Call J) (steps : List (CallStep J)) (k : ℕ)
    (url next : Url) (fields : List Str) : Prop :=
  ∃ c status headers now,
    Transition.Taken (step engine) c₀ steps c (.headers k status headers now) ∧
      c.hops.length = k + 1 ∧
      fields = engine.cookiesFor (engine.jar.store c.shared.cookies url headers now) next now

theorem FromJar.append {steps more : List (CallStep J)} {k : ℕ} {url next : Url}
    {fields : List Str} (h : FromJar engine c₀ steps k url next fields) :
    FromJar engine c₀ (steps ++ more) k url next fields := by
  obtain ⟨c, status, headers, now, htaken, hlast, hfields⟩ := h
  exact ⟨c, status, headers, now, htaken.append more, hlast, hfields⟩

/-- Every hop was sent with the cookies of the jar. -/
structure CookiesSent (engine : EngineConfig J) (c₀ : Call J) (first : Url → List Str)
    (steps : List (CallStep J)) (c : Call J) : Prop where
  original : ∀ hop ∈ c.hops,
    hop.job.originalCacheRequestHeaders.cookies = hop.job.request.headers.cookies
  first : ∀ hop : Hop, c.hops[0]? = some hop →
    hop.job.request.headers.cookies = first hop.job.url
  following : ∀ (k : ℕ) (hop : Hop) dec request url, c.hops[k]? = some hop →
    hop.following = some (dec, request, url) →
    FromJar engine c₀ steps k hop.job.url url request.headers.cookies
  later : ∀ (k : ℕ) (hop next : Hop), c.hops[k]? = some hop → c.hops[k + 1]? = some next →
    FromJar engine c₀ steps k hop.job.url next.job.url next.job.request.headers.cookies

/-- The hops keep their place and their requests. -/
theorem sameRequest_set {hops : List Hop} {j k : ℕ} {hop hop' x : Hop} (hk : hops[k]? = some hop)
    (hgrows : hop.Extends hop') (hj : (hops.set k hop')[j]? = some x) :
    ∃ y, hops[j]? = some y ∧ y.job.SameRequest x.job := by
  rcases CallStacks.getElem?_set_cases hj with ⟨rfl, rfl⟩ | ⟨-, hj⟩
  · exact ⟨hop, hk, hgrows.request⟩
  · exact ⟨x, hj, .refl _⟩

variable {first : Url → List Str} {steps : List (CallStep J)}

theorem CookiesSent.set (h : CookiesSent engine c₀ first steps c) {i : CallStep J} {k : ℕ}
    {hop hop' : Hop} {shared : Shared J} {live : Bool} {log : List AppEvent}
    (hk : c.hops[k]? = some hop) (hgrows : hop.Extends hop')
    (hfollowing : ∀ dec request url, hop'.following = some (dec, request, url) →
      FromJar engine c₀ (steps ++ [i]) k hop.job.url url request.headers.cookies) :
    CookiesSent engine c₀ first (steps ++ [i])
      { c with shared := shared, hops := c.hops.set k hop', live := live, log := log } := by
  refine ⟨fun x hx => ?_, fun x hx => ?_, fun j x dec request url hj hf => ?_,
    fun j x next hj hnext => ?_⟩
  · obtain ⟨j, hj⟩ := List.mem_iff_getElem?.mp hx
    obtain ⟨y, hy, hsame⟩ := sameRequest_set hk hgrows hj
    rw [Job.originalCacheRequestHeaders, hsame.request, hsame.cacheRequestHeaders]
    exact h.original y (List.mem_iff_getElem?.mpr ⟨j, hy⟩)
  · obtain ⟨y, hy, hsame⟩ := sameRequest_set hk hgrows hx
    rw [hsame.request, hsame.url]
    exact h.first y hy
  · rcases CallStacks.getElem?_set_cases hj with ⟨rfl, rfl⟩ | ⟨-, hj⟩
    · rw [hgrows.request.url]
      exact hfollowing dec request url hf
    · exact (h.following j x dec request url hj hf).append
  · obtain ⟨y, hy, hsame⟩ := sameRequest_set hk hgrows hj
    obtain ⟨y', hy', hsame'⟩ := sameRequest_set hk hgrows hnext
    rw [hsame.url, hsame'.url, hsame'.request]
    exact (h.later j y y' hy hy').append

/-- A headers callback of the last hop, which leaves it to follow a redirect. -/
theorem CookiesSent.answered (h : CookiesSent engine c₀ first steps c)
    (henabled : engine.enableCookies = true) (hrun : Transition.run (step engine) c₀ steps = some c)
    {k : ℕ} {hop hop' : Hop} {shared : Shared J} {status : ℕ} {headers : HeaderList}
    {now : ClockReading} {dec : RedirectDecision} {request : Request} {url : Url}
    (hk : c.hops[k]? = some hop) (hlast : c.hops.length = k + 1)
    (hok : c.carriesCurrent engine (.headers k status headers now) = true)
    (hcall : Hop.headers engine hop c.shared status headers now = some (shared, hop'))
    (htarget : redirectTarget engine.net hop.job status headers = some (dec, url))
    (hfollowing : hop'.following = some (dec, request, url)) :
    FromJar engine c₀ (steps ++ [.headers k status headers now]) k hop.job.url url
      request.headers.cookies := by
  refine ⟨c, status, headers, now, Transition.taken_last hrun _, hlast, ?_⟩
  rw [headers_following henabled hcall htarget hfollowing, cookies_addFromJar,
    cookies_redirectRequest dec url (h.original hop (List.mem_iff_getElem?.mpr ⟨k, hk⟩))]
  simp only [carriesCurrent, hk, htarget, Option.all_some, Bool.or_eq_true, beq_iff_eq] at hok
  rcases hok with (hcross | hnone) | hcurrent
  · rw [if_pos hcross, if_pos rfl]
  · rw [hnone, ite_self, if_pos rfl]
  · by_cases hcross : dec.crossOrigin = true
    · rw [if_pos hcross, if_pos rfl]
    · rw [if_neg hcross, hcurrent, ite_self]

theorem CookiesSent.step (h : CookiesSent engine c₀ first steps c) (hshape : c.Shape)
    (henabled : engine.enableCookies = true) (hrun : Transition.run (step engine) c₀ steps = some c)
    {i : CallStep J} (hok : c.carriesCurrent engine i = true) (hstep : c.step engine i = some c') :
    CookiesSent engine c₀ first (steps ++ [i]) c' := by
  have hsteps := step_cases hshape hstep
  have hshape' := hshape.step hsteps
  cases hsteps with
  | interfered =>
    exact ⟨h.original, h.first,
      fun k hop dec request url hk hf => (h.following k hop dec request url hk hf).append,
      fun k hop next hk hnext => (h.later k hop next hk hnext).append⟩
  | @moved k hop hop' shared chunked hk hidle hm _ hfollows _ =>
    refine h.set hk hm.grows fun dec request url hfollowing => ?_
    obtain ⟨status, headers, now, rfl, dec', url', cookie, htarget, -, hfollowing'⟩ :=
      hfollows (by simp [hfollowing])
    rw [hfollowing] at hfollowing'
    cases hfollowing'
    have hklt := (List.getElem?_eq_some_iff.mp hk).1
    have hset : (c.hops.set k hop')[k]? = some hop' := List.getElem?_set_self hklt
    have hlast := hshape'.last_of_following hset (by simp [hfollowing])
    obtain ⟨hop₁, shared₁, hop₁', hk₁, -, hcall, heq⟩ := callback_cases hstep
    obtain rfl : hop = hop₁ := Option.some.inj (hk.symm.trans hk₁)
    have hhops : c.hops.set k hop' = c.hops.set k hop₁' := congrArg Call.hops heq
    obtain rfl : hop' = hop₁' := by
      rw [hhops, List.getElem?_set_self hklt] at hset
      exact (Option.some.inj hset).symm
    exact h.answered henabled hrun hk (by simpa using hlast.symm) hok hcall htarget hfollowing
  | @delivered k hop event rest hk hpending =>
    refine h.set hk (Hop.extends_pending rest) fun dec request url hfollowing => ?_
    exact (h.following k hop dec request url hk hfollowing).append
  | @followed k hop next shared now hk hnext =>
    obtain ⟨dec, request, url, hfollowing, -, -, -, hurl, hnext', horiginal, added, hadded, hnames⟩ :=
      next_cases hnext
    have hparts : CookiesSent engine c₀ first (steps ++ [i])
        { c with shared := shared, hops := c.hops.set k { hop with following := none } } :=
      h.set hk
        ⟨.refl _, rfl, List.prefix_refl _, List.prefix_refl _, fun he => ⟨he, rfl⟩⟩
        (fun _ _ _ hf => by cases hf)
    have hlength : (c.hops.set k { hop with following := none }).length = k + 1 := by
      rw [List.length_set, hshape.last_of_following hk (by simp [hfollowing])]
    have hcookies : next.job.request.headers.cookies = request.headers.cookies := by
      rw [hadded, cookies_append_validators hnames]
    refine ⟨fun x hx => ?_, fun x hx => ?_, fun j x dec request url hj hf => ?_,
      fun j x y hj hnext => ?_⟩
    · rcases List.mem_append.mp hx with hx | hx
      · exact hparts.original x hx
      · rw [List.mem_singleton.mp hx, horiginal, hcookies]
    · rw [List.getElem?_append_left (by omega)] at hx
      exact hparts.first x hx
    · rcases getElem?_append_singleton hj with hj | ⟨-, rfl⟩
      · exact hparts.following j x dec request url hj hf
      · rw [hnext'] at hf
        cases hf
    · rcases getElem?_append_singleton hnext with hnext | ⟨hjk, rfl⟩
      · have hlt := (List.getElem?_eq_some_iff.mp hnext).1
        rw [List.getElem?_append_left (by omega)] at hj
        exact hparts.later j x y hj hnext
      · obtain rfl : j = k := by omega
        rw [List.getElem?_append_left (by omega),
          List.getElem?_set_self (List.getElem?_eq_some_iff.mp hk).1] at hj
        cases hj
        rw [hcookies, hurl]
        exact (h.following j hop dec request url hk hfollowing).append
  | aborted =>
    exact ⟨h.original, h.first,
      fun k hop dec request url hk hf => (h.following k hop dec request url hk hf).append,
      fun k hop next hk hnext => (h.later k hop next hk hnext).append⟩

theorem cookiesSent_execute {shared : Shared J} {id : ℤ} {request : Request} {now : ClockReading}
    (henabled : engine.enableCookies = true) (hnone : request.headers.cookies = [])
    (h : execute engine shared id request now = some c) :
    CookiesSent engine c (fun url => engine.cookiesFor shared.cookies url now) [] c := by
  unfold execute at h
  split at h
  · cases h
  · rename_i start _
    simp only [EngineConfig.withCookies, if_pos henabled] at h
    obtain ⟨shared₂, job, hstart, -, hurl, -, -, horiginal, added, hadded, hnames⟩ :=
      startJob_cases ⟨shared.cache, (engine.jar.cookieHeader shared.cookies start now).1⟩ id
        (addCookieHeader request (engine.jar.cookieHeader shared.cookies start now).2) start 0 now
    rw [hstart] at h
    cases h
    have hcookies : job.request.headers.cookies = job.originalCacheRequestHeaders.cookies := by
      rw [hadded, horiginal, cookies_append_validators hnames]
    refine ⟨fun x hx => ?_, fun x hx => ?_, fun k x dec request url hk hf => ?_,
      fun k x y _ hnext => ?_⟩
    · rw [List.mem_singleton.mp hx, hcookies]
    · cases hx
      rw [hcookies, horiginal, cookies_addFromJar, if_pos hnone, hurl]
    · rw [List.mem_singleton.mp (List.mem_iff_getElem?.mpr ⟨k, hk⟩)] at hf
      cases hf
    · cases hnext

/-- In every run whose redirects carry over no other Cookie field than that of
the jar, the Cookie field of the first hop is what the jar gave for its URL, and
the field of any later hop is what the jar gave for its URL once the Set-Cookie
fields of the answer to the hop before it were stored. -/
theorem run_cookies {shared : Shared J} {id : ℤ} {request : Request} {now : ClockReading}
    (henabled : engine.enableCookies = true) (hnone : request.headers.cookies = [])
    (hexecute : execute engine shared id request now = some c)
    (hrun : Transition.run (step engine) c steps = some c')
    (hok : Transition.Meets (step engine) (fun c i => c.carriesCurrent engine i = true) c steps) :
    (∀ hop : Hop, c'.hops[0]? = some hop →
      hop.job.request.headers.cookies = engine.cookiesFor shared.cookies hop.job.url now) ∧
      ∀ (k : ℕ) (hop next : Hop), c'.hops[k]? = some hop → c'.hops[k + 1]? = some next →
        FromJar engine c steps k hop.job.url next.job.url next.job.request.headers.cookies := by
  have hboth (is : List (CallStep J)) (t : Call J) (i : CallStep J) (t' : Call J)
      (hrun : Transition.run (Call.step engine) c is = some t)
      (h : Shape t ∧
        CookiesSent engine c (fun url => engine.cookiesFor shared.cookies url now) is t)
      (hok : t.carriesCurrent engine i = true) (hstep : t.step engine i = some t') :
      Shape t' ∧
        CookiesSent engine c (fun url => engine.cookiesFor shared.cookies url now) (is ++ [i]) t' :=
    ⟨h.1.step (step_cases h.1 hstep), h.2.step h.1 henabled hrun hok hstep⟩
  have hinv := Transition.run_invariant_history hboth hrun hok
    ⟨(inv_execute hexecute).toShape, cookiesSent_execute henabled hnone hexecute⟩
  exact ⟨hinv.2.first, hinv.2.later⟩

end Call

/-! ### Two runs -/

/-- An engine with cookies and without cache. -/
def cookieEngine : EngineConfig Cookies where
  net := noLiterals
  jar := cookieJar noLiterals
  enableCookies := true
  cacheConfig := { sizeMax := 2 ^ 64 - 1, sizeofCachedResponse := 256 }

def sessionCookie (value : Str) : Cookie :=
  { name := "a".toList, value := value, domain := "a.test".toList }

def loginHeaders : HeaderList :=
  [⟨"location".toList, "/y".toList⟩, ⟨"set-cookie".toList, "a=2; Path=/".toList⟩]

/-- The first hop is redirected to another path and gets a cookie. -/
def loginSteps : List (CallStep Cookies) :=
  [.route 0 true, .headers 0 302 loginHeaders plainNow, .hop 0 plainNow]

/-- The state after `execute`. -/
def loginStart (jar : Cookies) (headers : HeaderList) : Call Cookies :=
  { shared := ⟨none, jar⟩
    hops := [{
      job := {
        id := 7
        request := { plainGet with headers := headers }
        url := urlAt "/x".toList
        cacheRequestWallSeconds := some 0 }
      application := [] }] }

namespace Call

theorem run_cookies_login :
    ∃ c, Transition.run (step cookieEngine) (loginStart [] []) loginSteps = some c ∧
      c.hops.map (fun hop => hop.job.request.headers.cookies) = [[], ["a=2".toList]] ∧
      (∀ hop : Hop, c.hops[0]? = some hop →
        hop.job.request.headers.cookies = cookieEngine.cookiesFor [] hop.job.url plainNow) ∧
      ∀ (k : ℕ) (hop next : Hop), c.hops[k]? = some hop → c.hops[k + 1]? = some next →
        FromJar cookieEngine (loginStart [] []) loginSteps k hop.job.url next.job.url
          next.job.request.headers.cookies := by
  obtain ⟨c, hrun, hcookies⟩ := Option.map_eq_some_iff.mp
    (show (Transition.run (step cookieEngine) (loginStart [] []) loginSteps).map
        (fun c => c.hops.map fun hop => hop.job.request.headers.cookies) =
      some [[], ["a=2".toList]] by decide +kernel)
  have hexecute : execute cookieEngine ⟨none, []⟩ 7 plainGet plainNow = some (loginStart [] []) := by
    decide +kernel
  exact ⟨c, hrun, hcookies, run_cookies rfl rfl hexecute hrun (by decide +kernel)⟩

/-- The second hop is still sent with the cookie that the answer to the first one replaced. -/
theorem run_stale_cookie :
    cookieEngine.enableCookies = true ∧ plainGet.headers.cookies = [] ∧
      execute cookieEngine ⟨none, [sessionCookie "1".toList]⟩ 7 plainGet plainNow =
        some (loginStart [sessionCookie "1".toList] [⟨"cookie".toList, "a=1".toList⟩]) ∧
      ∃ c hop next,
        Transition.run (step cookieEngine)
          (loginStart [sessionCookie "1".toList] [⟨"cookie".toList, "a=1".toList⟩]) loginSteps =
            some c ∧
          c.hops[0]? = some hop ∧ c.hops[1]? = some next ∧
          next.job.request.headers.cookies = ["a=1".toList] ∧
          cookieEngine.cookiesFor
            (cookieEngine.jar.store [sessionCookie "1".toList] hop.job.url loginHeaders plainNow)
            next.job.url plainNow = ["a=2".toList] ∧
          ¬FromJar cookieEngine
            (loginStart [sessionCookie "1".toList] [⟨"cookie".toList, "a=1".toList⟩]) loginSteps 0
            hop.job.url next.job.url next.job.request.headers.cookies := by
  obtain ⟨c, hrun, hhops⟩ := Option.map_eq_some_iff.mp
    (show (Transition.run (step cookieEngine)
        (loginStart [sessionCookie "1".toList] [⟨"cookie".toList, "a=1".toList⟩]) loginSteps).map
        (fun c => c.hops.map fun hop => (hop.job.url, hop.job.request.headers.cookies)) =
      some [(urlAt "/x".toList, ["a=1".toList]), (urlAt "/y".toList, ["a=1".toList])] by
        decide +kernel)
  obtain ⟨hop, rest, hhop, hparts, hrest⟩ := List.map_eq_cons_iff.mp hhops
  obtain ⟨next, _, hnext, hparts', hnone⟩ := List.map_eq_cons_iff.mp hrest
  obtain rfl := List.map_eq_nil_iff.mp hnone
  subst hnext
  obtain ⟨hurl, -⟩ := Prod.mk.inj hparts
  obtain ⟨hurl', hsent'⟩ := Prod.mk.inj hparts'
  have hstored : cookieEngine.cookiesFor
      (cookieEngine.jar.store [sessionCookie "1".toList] (urlAt "/x".toList) loginHeaders plainNow)
      (urlAt "/y".toList) plainNow = ["a=2".toList] := by decide +kernel
  refine ⟨rfl, rfl, by decide +kernel, c, hop, next, hrun, by rw [hhop]; rfl, by rw [hhop]; rfl,
    hsent', by rw [hurl, hurl', hstored], ?_⟩
  rw [hurl, hurl', hsent']
  rintro ⟨t, status, headers, now, ⟨before, after, hsteps, htaken⟩, -, hfields⟩
  -- the answer to the first hop is the second step
  match before, hsteps, htaken with
  | [_], hsteps, htaken =>
    simp only [loginSteps, List.singleton_append, List.cons.injEq, CallStep.headers.injEq] at hsteps
    obtain ⟨rfl, ⟨-, -, rfl, rfl⟩, -⟩ := hsteps
    have hjar : (Transition.run (step cookieEngine)
        (loginStart [sessionCookie "1".toList] [⟨"cookie".toList, "a=1".toList⟩])
        [.route 0 true]).map (fun c => c.shared.cookies) = some [sessionCookie "1".toList] := by
      decide +kernel
    rw [htaken] at hjar
    have hcookies : t.shared.cookies = [sessionCookie "1".toList] := Option.some.inj hjar
    rw [hcookies, hstored] at hfields
    exact absurd hfields (by decide)
  | _ :: _ :: rest, hsteps, _ => cases rest <;> simp [loginSteps] at hsteps

end Call

end KatHttp3
