import KatHttp3.Engine.Events

/-!
# Where stored responses come from

A response that is told in place of one of the network was found in the cache when
the job of its hop was made, or it is what the merge of a 304 made of such a
response. The cache may have changed in between.
-/

namespace KatHttp3

open ResponseCache

/-- A lookup in one of the caches returns the response. -/
def Found (caches : ResponseCache → Prop) (response : CachedResponse) : Prop :=
  ∃ cache request now, caches cache ∧ (cache.lookup request now).2.response = some response

/-- A response that was found in one of the caches, or that one of them made of such a response
and a 304; it may have got its current age since. -/
inductive FromCache (config : ResponseCacheConfig) (caches : ResponseCache → Prop) :
    CachedResponse → Prop
  | found {response : CachedResponse} (found : Found caches response) :
      FromCache config caches response
  | merged {cache : ResponseCache} {stored : CachedResponse} {request : CacheRequest}
      {v : Validation} {snapshot : List ℕ} {result : RevalidationResult} (had : caches cache)
      (found : Found caches stored)
      (merges : (cache.merge304 config stored request v snapshot).2 = some result) :
      FromCache config caches result.delivery
  | aged {response : CachedResponse} (now : ℕ) (stored : FromCache config caches response) :
      FromCache config caches (responseWithCurrentAge response now)

section

variable {caches more : ResponseCache → Prop} {config : ResponseCacheConfig}
  {response : CachedResponse}

theorem Found.mono (hmore : ∀ cache, caches cache → more cache) (h : Found caches response) :
    Found more response := by
  obtain ⟨cache, request, now, hcache, hresponse⟩ := h
  exact ⟨cache, request, now, hmore cache hcache, hresponse⟩

theorem FromCache.mono (hmore : ∀ cache, caches cache → more cache)
    (h : FromCache config caches response) : FromCache config more response := by
  induction h with
  | found found => exact .found (found.mono hmore)
  | merged had found merges => exact .merged (hmore _ had) (found.mono hmore) merges
  | aged now _ ih => exact .aged now ih

/-- What is delivered of a response that comes from the cache. -/
theorem FromCache.of_deliverCached (h : FromCache config caches response)
    {cached : Option ResponseCache} {now : ClockReading} {told : CachedResponse}
    (htold : deliverCached cached response now = .stored told) : FromCache config caches told := by
  unfold deliverCached at htold
  split_ifs at htold
  · cases htold
    exact h.aged _
  · cases htold
    exact h

end

/-! ### The jobs -/

/-- The stored responses that a job holds were found in the caches. -/
structure Job.Backed (caches : ResponseCache → Prop) (job : Job) : Prop where
  cached : ∀ response, job.cachedResponse = some response → Found caches response
  validation : ∀ v, job.cacheValidation = some v → Found caches v.stored

/-- What a callback leaves and says comes from the caches if the job's responses do. -/
structure Answered (config : ResponseCacheConfig) (caches : ResponseCache → Prop) (job : Job)
    (reply : Option Reply) : Prop extends job.Backed caches where
  reply : ∀ response, reply = some (.stored response) → FromCache config caches response

variable {J : Type} {engine : EngineConfig J} {caches more : ResponseCache → Prop}
  {config : ResponseCacheConfig} {job job' : Job}

theorem Job.Backed.mono (hmore : ∀ cache, caches cache → more cache) (h : job.Backed caches) :
    job.Backed more :=
  ⟨fun response hcached => (h.cached response hcached).mono hmore,
    fun v hv => (h.validation v hv).mono hmore⟩

theorem Job.Backed.of_same (h : job.Backed caches)
    (hcached : job'.cachedResponse = job.cachedResponse)
    (hvalidation : ∀ v', job'.cacheValidation = some v' →
      ∃ v, job.cacheValidation = some v ∧ v'.stored = v.stored) : job'.Backed caches := by
  refine ⟨fun response hresponse => h.cached response (hcached ▸ hresponse), fun v' hv' => ?_⟩
  obtain ⟨v, hv, hstored⟩ := hvalidation v' hv'
  rw [hstored]
  exact h.validation v hv

theorem Job.Backed.sameHop (h : job.Backed caches) (hsame : job.SameHop job') :
    job'.Backed caches :=
  h.of_same hsame.cachedResponse fun v hv => ⟨v, hsame.cacheValidation ▸ hv, rfl⟩

theorem Job.Backed.silent (h : job.Backed caches) {reply : Option Reply}
    (hreply : ∀ response, reply ≠ some (.stored response)) : Answered config caches job reply :=
  ⟨h, fun response heq => absurd heq (hreply response)⟩

theorem answered_onJobError (h : job.Backed caches) (cached : Option ResponseCache)
    (code : ErrorCode) (now : ClockReading) :
    Answered config caches (onJobError cached job code now).1
      (onJobError cached job code now).2 := by
  have hcapture := h.sameHop (job.sameHop_withCapture
    (job.cacheCapture.map fun capture => { capture with enabled := false, body := [] }))
  unfold onJobError
  split_ifs
  · exact h.silent nofun
  · split
    · next v hv =>
      split_ifs
      · refine ⟨h, fun response heq => ?_⟩
        exact (FromCache.found (h.validation v hv)).of_deliverCached (Option.some.inj heq)
      · exact hcapture.silent nofun
    · exact hcapture.silent nofun

theorem answered_onJobBody (h : job.Backed caches) (chunk : Chunk) :
    Answered config caches (onJobBody job chunk).1 (onJobBody job chunk).2 := by
  obtain ⟨job', reply, hbody, hsame, hreply⟩ := onJobBody_cases job chunk
  rw [hbody]
  apply (h.sameHop hsame).silent
  rcases hreply with ⟨-, rfl⟩ | ⟨-, rfl⟩
  · nofun
  · nofun

theorem answered_onJobComplete (h : job.Backed caches) {shared : Shared J}
    (hhad : ∀ cache, shared.cache = some cache → caches cache) (now : ClockReading) :
    Answered engine.cacheConfig caches (engine.onJobComplete shared job now).2.1
      (engine.onJobComplete shared job now).2.2 := by
  have hcapture := h.sameHop (job.sameHop_withCapture
    (job.cacheCapture.map fun capture => { capture with enabled := false, body := [] }))
  unfold EngineConfig.onJobComplete
  by_cases hredirected : job.redirected = true
  · rw [if_pos hredirected]
    exact h.silent nofun
  rw [if_neg hredirected]
  split
  · next v hstale =>
    obtain ⟨hv, -⟩ := Option.filter_eq_some_iff.mp hstale
    refine ⟨h, fun response heq => ?_⟩
    exact (FromCache.found (h.validation v hv)).of_deliverCached (Option.some.inj heq)
  · split_ifs
    · exact hcapture.silent nofun
    · split
      · next v cache hmatch hcache =>
        obtain ⟨hv, -⟩ := Option.filter_eq_some_iff.mp hmatch
        refine ⟨h, fun response heq => ?_⟩
        have hreply := Option.some.inj heq
        unfold EngineConfig.completeValidation at hreply
        dsimp only at hreply
        split at hreply
        · next merged hmerged =>
          exact (FromCache.merged (hhad cache hcache) (h.validation v hv)
            hmerged).of_deliverCached hreply
        · cases hreply
      · obtain ⟨cached', job', hstore, hsame, -⟩ :=
          storeJobResponse_cases engine.cacheConfig shared.cache job now
        rw [hstore]
        exact (h.sameHop hsame).silent nofun

theorem answered_onResponseHeaders (h : job.Backed caches) (shared : Shared J) (status : ℕ)
    (headers : HeaderList) (now : ClockReading) :
    Answered config caches (engine.onResponseHeaders shared job status headers now).2.1
      (engine.onResponseHeaders shared job status headers now).2.2 := by
  unfold EngineConfig.onResponseHeaders
  split
  · exact answered_onJobError h shared.cache .body now
  · have hexposed (shared : Shared J) (length : ℤ) : Answered config caches
        (EngineConfig.onResponseHeaders.expose engine status headers shared
          { job with declaredContentLength := length }).2.1
        (EngineConfig.onResponseHeaders.expose engine status headers shared
          { job with declaredContentLength := length }).2.2 := by
      refine ⟨⟨h.cached, nofun⟩, nofun⟩
    dsimp only
    split
    · next v hv =>
      split_ifs
      · refine ⟨h.of_same rfl fun v' hv' => ⟨v, hv, ?_⟩, nofun⟩
        rw [← Option.some.inj hv']
      · refine ⟨h.of_same rfl fun v' hv' => ⟨v, hv, ?_⟩, nofun⟩
        rw [← Option.some.inj hv']
      · exact hexposed _ _
    · exact hexposed _ _

theorem answered_onJobHeaders (h : job.Backed caches) (shared : Shared J) (status : ℕ)
    (headers : HeaderList) (now : ClockReading) :
    Answered config caches (engine.onJobHeaders shared job status headers now).2.1
      (engine.onJobHeaders shared job status headers now).2.2 := by
  obtain ⟨shared', validation, hdrop, -, hvalidation⟩ := dropValidation_cases shared
    { job with response := { statusCode := status, headers := headers } } status
  have hkept : Job.Backed caches { job with
      response := { statusCode := status, headers := headers }
      cacheValidation := validation } := by
    refine h.of_same rfl fun v hv => ⟨v, ?_, rfl⟩
    rcases hvalidation with hsame | hnone
    · exact hsame.symm.trans hv
    · exact absurd (hnone.symm.trans hv) (by simp)
  unfold EngineConfig.onJobHeaders
  dsimp only
  rw [hdrop]
  dsimp only
  split
  · exact ⟨⟨hkept.cached, hkept.validation⟩, nofun⟩
  · exact answered_onResponseHeaders hkept shared' status headers now

/-- A new job holds what the lookup in the current cache returned. -/
theorem backed_startJob {shared : Shared J}
    (hhad : ∀ cache, shared.cache = some cache → caches cache) (id : ℤ) (request : Request)
    (url : Url) (redirectCount : ℕ) (now : ClockReading) :
    (startJob shared id request url redirectCount now).2.Backed caches := by
  unfold startJob prepareCache
  split
  · exact ⟨nofun, nofun⟩
  · next cache hcache =>
    dsimp only
    split
    · next response _ hresponse =>
      refine ⟨fun r hr => ?_, nofun⟩
      obtain rfl := Option.some.inj hr
      exact ⟨cache, _, now, hhad cache hcache, hresponse⟩
    · next response _ hresponse =>
      refine ⟨nofun, fun v hv => ?_⟩
      obtain rfl := Option.some.inj hv
      exact ⟨cache, _, now, hhad cache hcache, hresponse⟩
    · exact ⟨nofun, nofun⟩

/-! ### The hops of a run -/

/-- What a hop holds and has said of stored responses comes from the caches. -/
structure Hop.Backed (config : ResponseCacheConfig) (caches : ResponseCache → Prop) (hop : Hop) :
    Prop extends hop.job.Backed caches where
  said : ∀ response, .stored response ∈ hop.said → FromCache config caches response

variable {hop : Hop}

theorem Hop.Backed.mono (hmore : ∀ cache, caches cache → more cache)
    (h : hop.Backed config caches) : hop.Backed config more :=
  ⟨h.toBacked.mono hmore, fun response hsaid => (h.said response hsaid).mono hmore⟩

theorem Hop.Backed.saying (h : hop.Backed config caches) {reply : Option Reply}
    (hanswer : Answered config caches job reply) : (hop.saying job reply).Backed config caches := by
  refine ⟨⟨hanswer.cached, hanswer.validation⟩, fun response hsaid => ?_⟩
  rcases List.mem_append.mp hsaid with hold | hnew
  · exact h.said response hold
  · exact hanswer.reply response (Option.mem_toList.mp hnew)

namespace Call

variable {c c' : Call J} {i : CallStep J}

theorem backed_set {hops : List Hop} (h : ∀ hop ∈ hops, hop.Backed config caches) (k : ℕ)
    (hhop : hop.Backed config caches) : ∀ other ∈ hops.set k hop, other.Backed config caches := by
  intro other hother
  rcases List.mem_or_eq_of_mem_set hother with hold | rfl
  · exact h other hold
  · exact hhop

theorem backed_callback {k : ℕ} {f : Hop → Option (Shared J × Hop)}
    (h : ∀ hop ∈ c.hops, hop.Backed config caches)
    (hf : ∀ hop shared hop', hop.Backed config caches → f hop = some (shared, hop') →
      hop'.Backed config caches)
    (hstep : c.callback k f = some c') : ∀ hop ∈ c'.hops, hop.Backed config caches := by
  obtain ⟨hop, shared, hop', hk, -, hresult, rfl⟩ := callback_cases hstep
  exact backed_set h k (hf hop shared hop' (h hop (List.mem_of_getElem? hk)) hresult)

theorem backed_step (h : ∀ hop ∈ c.hops, hop.Backed engine.cacheConfig caches)
    (hhad : ∀ cache, c.shared.cache = some cache → caches cache)
    (hstep : c.step engine i = some c') :
    ∀ hop ∈ c'.hops, hop.Backed engine.cacheConfig caches := by
  cases i with
  | interfere shared =>
    dsimp only [step] at hstep
    split_ifs at hstep
    obtain rfl := Option.some.inj hstep
    exact h
  | route k admitted =>
    refine backed_callback h (fun hop shared hop' hbacked hroute => ?_) hstep
    obtain ⟨routed, hrouted, heq⟩ := Option.map_eq_some_iff.mp hroute
    obtain ⟨-, rfl⟩ := Prod.mk.inj heq
    unfold Hop.route at hrouted
    split_ifs at hrouted <;> obtain rfl := Option.some.inj hrouted
    · exact ⟨hbacked.toBacked, hbacked.said⟩
    · have hsaying := hbacked.saying (hbacked.toBacked.silent
        (nofun : ∀ response, some (Reply.error hop.refusal) ≠ some (.stored response)))
      exact ⟨hsaying.toBacked, hsaying.said⟩
  | dispatch k now =>
    refine backed_callback h (fun hop shared hop' hbacked hdispatch => ?_) hstep
    obtain ⟨dispatched, hdispatched, heq⟩ := Option.map_eq_some_iff.mp hdispatch
    obtain ⟨-, rfl⟩ := Prod.mk.inj heq
    unfold Hop.dispatch at hdispatched
    split at hdispatched
    · next response _ hresponse =>
      obtain rfl := Option.some.inj hdispatched
      have hsaying := @Hop.Backed.saying caches engine.cacheConfig hop.job hop hbacked
        (some (deliverCached c.shared.cache response now)) ⟨hbacked.toBacked, fun told heq => (FromCache.found
          (hbacked.cached response hresponse)).of_deliverCached (Option.some.inj heq)⟩
      exact ⟨hsaying.toBacked, hsaying.said⟩
    · cases hdispatched
  | headers k status headers now =>
    refine backed_callback h (fun hop shared hop' hbacked hheaders => ?_) hstep
    unfold Hop.headers at hheaders
    split_ifs at hheaders
    obtain ⟨-, rfl⟩ := Prod.mk.inj (Option.some.inj hheaders)
    have hsaying := hbacked.saying (@answered_onJobHeaders J engine caches engine.cacheConfig
      hop.job hbacked.toBacked c.shared status headers now)
    exact ⟨hsaying.toBacked, hsaying.said⟩
  | chunk k chunk =>
    refine backed_callback h (fun hop shared hop' hbacked hchunk => ?_) hstep
    obtain ⟨chunked, hchunked, heq⟩ := Option.map_eq_some_iff.mp hchunk
    obtain ⟨-, rfl⟩ := Prod.mk.inj heq
    unfold Hop.chunk at hchunked
    split_ifs at hchunked
    obtain rfl := Option.some.inj hchunked
    have hsaying := hbacked.saying (answered_onJobBody hbacked.toBacked chunk)
    exact ⟨hsaying.toBacked, hsaying.said⟩
  | finish k now =>
    refine backed_callback h (fun hop shared hop' hbacked hfinish => ?_) hstep
    unfold Hop.finish at hfinish
    split_ifs at hfinish
    obtain ⟨-, rfl⟩ := Prod.mk.inj (Option.some.inj hfinish)
    have hsaying := hbacked.saying (answered_onJobComplete hbacked.toBacked hhad now)
    exact ⟨hsaying.toBacked, hsaying.said⟩
  | fail k code now =>
    refine backed_callback h (fun hop shared hop' hbacked hfail => ?_) hstep
    obtain ⟨failed, hfailed, heq⟩ := Option.map_eq_some_iff.mp hfail
    obtain ⟨-, rfl⟩ := Prod.mk.inj heq
    unfold Hop.fail at hfailed
    split_ifs at hfailed
    obtain rfl := Option.some.inj hfailed
    exact hbacked.saying (answered_onJobError hbacked.toBacked c.shared.cache code now)
  | hop k now =>
    obtain ⟨hop, shared, next, hk, hnext, rfl⟩ := hop_cases hstep
    have hbacked := h hop (List.mem_of_getElem? hk)
    have hkept : Hop.Backed engine.cacheConfig caches { hop with following := none } :=
      ⟨hbacked.toBacked, hbacked.said⟩
    intro other hother
    rcases List.mem_append.mp hother with hold | hnew
    · exact backed_set h k hkept other hold
    · obtain rfl := List.mem_singleton.mp hnew
      obtain ⟨⟨dec, request, url⟩, -, heq⟩ := Option.map_eq_some_iff.mp hnext
      obtain ⟨-, rfl⟩ := Prod.mk.inj heq
      exact ⟨backed_startJob hhad _ request url _ now, nofun⟩
  | deliver k =>
    obtain ⟨hop, event, rest, hk, -, rfl⟩ := deliver_cases hstep
    have hbacked := h hop (List.mem_of_getElem? hk)
    have hkept : Hop.Backed engine.cacheConfig caches { hop with pending := rest } :=
      ⟨hbacked.toBacked, hbacked.said⟩
    exact backed_set h k hkept
  | abort code =>
    dsimp only [step] at hstep
    split_ifs at hstep
    obtain rfl := Option.some.inj hstep
    exact h

variable (engine) in
/-- The caches that a run has had: the one that `execute` found and those of its states. -/
def Had (shared : Shared J) (c : Call J) (steps : List (CallStep J)) (cache : ResponseCache) :
    Prop :=
  shared.cache = some cache ∨ ∃ before t, before <+: steps ∧
    Transition.run (step engine) c before = some t ∧ t.shared.cache = some cache

/-- The stored responses that the hops of a run have said come from caches that the run has had. -/
theorem run_backed {shared : Shared J} {id : ℤ} {request : Request} {now : ClockReading}
    {steps : List (CallStep J)} (hexecute : execute engine shared id request now = some c)
    (hrun : Transition.run (step engine) c steps = some c') :
    ∀ hop ∈ c'.hops, hop.Backed engine.cacheConfig (Had engine shared c steps) := by
  induction steps using List.reverseRecOn generalizing c' with
  | nil =>
    obtain rfl : c = c' := Option.some.inj hrun
    unfold execute at hexecute
    split at hexecute
    · cases hexecute
    · next url _ =>
      obtain ⟨shared', cookie, hcookies, hcache, -⟩ := withCookies_cases engine shared request url now
      dsimp only at hexecute
      rw [hcookies] at hexecute
      obtain rfl := Option.some.inj hexecute
      intro hop hhop
      obtain rfl := List.mem_singleton.mp hhop
      refine ⟨backed_startJob (fun cache hcached => Or.inl ?_) id _ url 0 now,
        fun response hsaid => by cases hsaid⟩
      exact hcache.symm.trans hcached
  | append_singleton steps i ih =>
    obtain ⟨t, ht, hlast⟩ := Transition.run_append.mp hrun
    obtain ⟨u, hstep, hlast⟩ := Transition.run_cons.mp hlast
    obtain rfl : u = c' := Option.some.inj hlast
    have hmore : ∀ cache, Had engine shared c steps cache →
        Had engine shared c (steps ++ [i]) cache := by
      rintro cache (hfirst | ⟨before, s, hbefore, hs, hcached⟩)
      · exact Or.inl hfirst
      · exact Or.inr ⟨before, s, hbefore.trans (List.prefix_append _ _), hs, hcached⟩
    refine backed_step (fun hop hhop => (ih ht hop hhop).mono hmore) (fun cache hcached => ?_) hstep
    exact Or.inr ⟨steps, t, List.prefix_append _ _, ht, hcached⟩

end Call

end KatHttp3
