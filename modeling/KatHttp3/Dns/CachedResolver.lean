import KatHttp3.Connection.Client
import KatHttp3.Dns.WorkerPool
import KatHttp3.Library.Transition

/-!
# Resolution across network changes

`DnsCache`, `CachedResolver::resolve` and `GetAddrInfoResolver::resolve` of
`dns.cc` against `Engine::network_changed` of `engine.cc`. A step is one access
to something shared. Every endpoint carries the number of the lookup that found
it, of which the code keeps no record.
-/

namespace KatHttp3

open Str Transition

structure FoundEndpoint extends ResolvedEndpoint where
  lookup : ℕ
  deriving DecidableEq

/-! ### The cache -/

structure DnsCacheKey where
  canonicalHost : Str
  port : ℕ
  networkGeneration : ℕ
  deriving DecidableEq

structure DnsEntry where
  key : DnsCacheKey
  expiresAtMs : ℕ
  negative : Bool
  endpoints : List FoundEndpoint
  deriving DecidableEq

structure DnsCacheConfig where
  maxEntries : ℕ := 128
  positiveTtlMs : ℕ := 5000
  negativeTtlMs : ℕ := 0

/-- The entries, the most recently used one first. -/
structure DnsCache where
  config : DnsCacheConfig
  entries : List DnsEntry := []

namespace DnsCache

variable (cache : DnsCache)

/-- The endpoints of a hit, none of them for a negative entry. -/
def lookup (key : DnsCacheKey) (now : ℕ) : DnsCache × Option (List FoundEndpoint) :=
  match cache.entries.find? (·.key = key) with
  | none => (cache, none)
  | some entry =>
    if entry.expiresAtMs ≤ now then ({ cache with entries := cache.entries.erase entry }, none)
    else
      ({ cache with entries := entry :: cache.entries.erase entry },
        some (if entry.negative then [] else entry.endpoints))

def put (entry : DnsEntry) : DnsCache :=
  { cache with
    entries := (entry :: cache.entries.filter (·.key ≠ entry.key)).take
      (max 1 cache.config.maxEntries) }

def putFailure (key : DnsCacheKey) (now : ℕ) : DnsCache :=
  if cache.config.negativeTtlMs = 0 then cache
  else cache.put ⟨key, (now + cache.config.negativeTtlMs) % 2 ^ 64, true, []⟩

def putSuccess (key : DnsCacheKey) (now : ℕ) (endpoints : List FoundEndpoint) : DnsCache :=
  if endpoints = [] then cache.putFailure key now
  else if cache.config.positiveTtlMs = 0 then cache
  else cache.put ⟨key, (now + cache.config.positiveTtlMs) % 2 ^ 64, false, endpoints⟩

def invalidateNetwork (networkGeneration : ℕ) : DnsCache :=
  { cache with
    entries := cache.entries.filter (·.key.networkGeneration = networkGeneration) }

variable {cache}

/-- A hit is an entry of the very key. -/
theorem lookup_hit {key : DnsCacheKey} {now : ℕ} {endpoints : List FoundEndpoint}
    (h : (cache.lookup key now).2 = some endpoints) :
    ∃ entry ∈ cache.entries, entry.key = key ∧
      endpoints = if entry.negative then [] else entry.endpoints := by
  unfold lookup at h
  split at h
  · cases h
  · rename_i entry hfind
    split at h
    · cases h
    · cases h
      have hkey := List.find?_some hfind
      exact ⟨entry, List.mem_of_find?_eq_some hfind, by simpa using hkey, rfl⟩

theorem lookup_entries (key : DnsCacheKey) (now : ℕ) :
    (cache.lookup key now).1.entries ⊆ cache.entries := by
  unfold lookup
  split
  · exact List.Subset.refl _
  · rename_i entry hfind
    split
    · exact List.erase_subset
    · intro e he
      rcases List.mem_cons.mp he with rfl | he
      · exact List.mem_of_find?_eq_some hfind
      · exact List.mem_of_mem_erase he

theorem mem_put {entry e : DnsEntry} (h : e ∈ (cache.put entry).entries) :
    e = entry ∨ e ∈ cache.entries := by
  rcases List.mem_cons.mp (List.mem_of_mem_take h) with rfl | he
  · exact Or.inl rfl
  · exact Or.inr (List.mem_of_mem_filter he)

theorem mem_putFailure {key : DnsCacheKey} {now : ℕ} {e : DnsEntry}
    (h : e ∈ (cache.putFailure key now).entries) : e.endpoints = [] ∨ e ∈ cache.entries := by
  unfold putFailure at h
  split_ifs at h
  · exact Or.inr h
  · rcases mem_put h with rfl | he
    · exact Or.inl rfl
    · exact Or.inr he

theorem mem_putSuccess {key : DnsCacheKey} {now : ℕ} {endpoints : List FoundEndpoint}
    {e : DnsEntry} (h : e ∈ (cache.putSuccess key now endpoints).entries) :
    e.endpoints = [] ∨ e.key = key ∧ e.endpoints = endpoints ∨ e ∈ cache.entries := by
  unfold putSuccess at h
  split_ifs at h
  · exact (mem_putFailure h).imp_right Or.inr
  · exact Or.inr (Or.inr h)
  · rcases mem_put h with rfl | he
    · exact Or.inr (Or.inl ⟨rfl, rfl⟩)
    · exact Or.inr (Or.inr he)

end DnsCache

/-! ### The resolvers -/

/-- Turn by turn from two lists. -/
def interleave {α : Type*} : List α → List α → List α
  | [], b => b
  | a, [] => a
  | x :: a, y :: b => x :: y :: interleave a b

theorem mem_interleave {α : Type*} {x : α} {a b : List α} (h : x ∈ interleave a b) :
    x ∈ a ∨ x ∈ b := by
  induction a, b using interleave.induct with
  | case1 b => exact Or.inr h
  | case2 a _ =>
    rw [interleave] at h
    · exact Or.inl h
    · assumption
  | case3 y a z b ih =>
    rw [interleave] at h
    rcases List.mem_cons.mp h with rfl | h
    · exact Or.inl List.mem_cons_self
    · rcases List.mem_cons.mp h with rfl | h
      · exact Or.inr List.mem_cons_self
      · exact (ih h).imp (List.mem_cons_of_mem y) (List.mem_cons_of_mem z)

/-- A call of `CachedResolver::resolve` that has loaded the generation. -/
structure ResolveCall where
  host : Str
  port : ℕ
  network : ℕ
  deriving DecidableEq

def ResolveCall.key (call : ResolveCall) : DnsCacheKey :=
  ⟨canonicalHost call.host, call.port, call.network⟩

/-- Where a call is: before the lookup in the cache, on its way to `getaddrinfo` for a family
and in it, after the first family, after both, before the insertion and done. -/
inductive ResolvePhase where
  | idle
  | loaded (call : ResolveCall)
  | starting (call : ResolveCall) (family : Family) (v6 : List FoundEndpoint)
  | reading (call : ResolveCall) (family : Family) (v6 : List FoundEndpoint) (published : List ℕ)
  | asking (call : ResolveCall) (family : Family) (v6 : List FoundEndpoint) (lookup : ℕ)
  | between (call : ResolveCall) (v6 : List FoundEndpoint)
  | found (call : ResolveCall) (endpoints : List FoundEndpoint)
  | inserting (call : ResolveCall) (endpoints : List FoundEndpoint)
  | returned (call : ResolveCall) (endpoints : List FoundEndpoint)

/-- Where `network_changed` is, which holds the mutex of the pool throughout. -/
inductive NetworkChange where
  | none
  | handle (generation handle : ℕ)
  | generation (generation : ℕ)
  | invalidate (generation : ℕ)

/-- A lookup by `getaddrinfo`: the handle of its network and the generations whose handles had
been published when it started. -/
structure Lookup where
  host : Str
  port : ℕ
  family : Family
  handle : ℕ
  published : List ℕ

structure ResolverState where
  networkGeneration : ℕ := 0
  androidNetworkHandle : ℕ := 0
  resolverNetworkGeneration : ℕ := 0
  change : NetworkChange := .none
  cache : DnsCache
  call : ℕ → ResolvePhase := fun _ => .idle
  published : List ℕ := [0]
  lookups : List Lookup := []

/-- A step of `network_changed` or of a call. The clock, the stop flag and the answers of
`getaddrinfo` come from outside. -/
inductive ResolverLabel where
  | change (generation handle : ℕ)
  | publishHandle
  | publishGeneration
  | invalidate
  | load (i : ℕ) (host : Str) (port : ℕ)
  | lookup (i now : ℕ)
  | start (i : ℕ) (stop : Bool)
  | read (i : ℕ)
  | answer (i : ℕ) (addresses : Option (List (Family × Str)))
  | next (i : ℕ) (stop : Bool)
  | finish (i : ℕ) (stop : Bool)
  | insert (i now : ℕ)

namespace ResolverState

def setCall (s : ResolverState) (i : ℕ) (phase : ResolvePhase) : ResolverState :=
  { s with call := Function.update s.call i phase }

/-- What follows the lookup of a family. -/
def afterFamily (call : ResolveCall) (v6 : List FoundEndpoint) :
    Family → List FoundEndpoint → ResolvePhase
  | .inet6, found => .between call found
  | .inet, found => .found call (interleave v6 found)

/-- The addresses of the family that was asked for. -/
def endpointsOf (call : ResolveCall) (family : Family) (lookup : ℕ)
    (addresses : Option (List (Family × Str))) : List FoundEndpoint :=
  ((addresses.getD []).filter (·.1 = family)).map fun address =>
    { ip := address.2, port := call.port, family := family, lookup := lookup }

def step (s : ResolverState) : ResolverLabel → Option ResolverState
  | .change generation handle =>
    match s.change with
    | .none =>
      if generation ≤ s.networkGeneration then some s
      else
        some { s with networkGeneration := generation, change := .handle generation handle }
    | _ => none
  | .publishHandle =>
    match s.change with
    | .handle generation handle =>
      some { s with
        androidNetworkHandle := handle
        change := .generation generation
        published := s.published ++ [generation] }
    | _ => none
  | .publishGeneration =>
    match s.change with
    | .generation generation =>
      some { s with resolverNetworkGeneration := generation, change := .invalidate generation }
    | _ => none
  | .invalidate =>
    match s.change with
    | .invalidate generation =>
      some { s with cache := s.cache.invalidateNetwork generation, change := .none }
    | _ => none
  | .load i host port =>
    match s.call i with
    | .idle => some (s.setCall i (.loaded ⟨host, port, s.resolverNetworkGeneration⟩))
    | _ => none
  | .lookup i now =>
    match s.call i with
    | .loaded call =>
      let found := s.cache.lookup call.key now
      some { s.setCall i (match found.2 with
          | some endpoints => .returned call endpoints
          | none => .starting call .inet6 []) with
        cache := found.1 }
    | _ => none
  | .start i stop =>
    match s.call i with
    | .starting call family v6 =>
      some (s.setCall i
        (if stop then afterFamily call v6 family [] else .reading call family v6 s.published))
    | _ => none
  | .read i =>
    match s.call i with
    | .reading call family v6 published =>
      some { s.setCall i (.asking call family v6 s.lookups.length) with
        lookups := s.lookups ++
          [⟨call.host, call.port, family, s.androidNetworkHandle, published⟩] }
    | _ => none
  | .answer i addresses =>
    match s.call i with
    | .asking call family v6 lookup =>
      some (s.setCall i (afterFamily call v6 family (endpointsOf call family lookup addresses)))
    | _ => none
  | .next i stop =>
    match s.call i with
    | .between call v6 =>
      some (s.setCall i (if stop then .found call v6 else .starting call .inet v6))
    | _ => none
  | .finish i stop =>
    match s.call i with
    | .found call endpoints =>
      some (s.setCall i (if stop then .returned call [] else .inserting call endpoints))
    | _ => none
  | .insert i now =>
    match s.call i with
    | .inserting call endpoints =>
      some { s.setCall i (.returned call endpoints) with
        cache :=
          if endpoints = [] then s.cache.putFailure call.key now
          else s.cache.putSuccess call.key now endpoints }
    | _ => none

/-! ### Where endpoints come from -/

/-- The lookup that found the endpoint started when the handle of the generation had been
published. -/
def Fresh (s : ResolverState) (generation : ℕ) (e : FoundEndpoint) : Prop :=
  ∃ l, s.lookups[e.lookup]? = some l ∧ generation ∈ l.published

/-- What a call has got so far is fresh for the generation that it loaded. -/
def Sound (s : ResolverState) : ResolvePhase → Prop
  | .idle => True
  | .loaded call => call.network ∈ s.published
  | .starting call _ v6 => call.network ∈ s.published ∧ ∀ e ∈ v6, s.Fresh call.network e
  | .reading call _ v6 published =>
    call.network ∈ s.published ∧ (∀ e ∈ v6, s.Fresh call.network e) ∧ call.network ∈ published
  | .asking call _ v6 lookup =>
    call.network ∈ s.published ∧ (∀ e ∈ v6, s.Fresh call.network e) ∧
      ∃ l, s.lookups[lookup]? = some l ∧ call.network ∈ l.published
  | .between call v6 => call.network ∈ s.published ∧ ∀ e ∈ v6, s.Fresh call.network e
  | .found call endpoints => ∀ e ∈ endpoints, s.Fresh call.network e
  | .inserting call endpoints => ∀ e ∈ endpoints, s.Fresh call.network e
  | .returned call endpoints => ∀ e ∈ endpoints, s.Fresh call.network e

structure Inv (s : ResolverState) : Prop where
  generation : s.resolverNetworkGeneration ∈ s.published
  change : ∀ generation, s.change = .generation generation → generation ∈ s.published
  call : ∀ i, s.Sound (s.call i)
  cache : ∀ entry ∈ s.cache.entries, ∀ e ∈ entry.endpoints, s.Fresh entry.key.networkGeneration e

/-- More has been published and looked up. -/
structure Extends (s s' : ResolverState) : Prop where
  published : s.published ⊆ s'.published
  lookups : s.lookups <+: s'.lookups

variable {s s' : ResolverState}

theorem Extends.lookup (h : s.Extends s') {i : ℕ} {l : Lookup} (hl : s.lookups[i]? = some l) :
    s'.lookups[i]? = some l := by
  obtain ⟨later, hlater⟩ := h.lookups
  rw [← hlater, List.getElem?_append_left (List.getElem?_eq_some_iff.mp hl).1]
  exact hl

theorem Fresh.mono {generation : ℕ} {e : FoundEndpoint} (h : s.Fresh generation e)
    (hmore : s.Extends s') : s'.Fresh generation e := by
  obtain ⟨l, hl, hin⟩ := h
  exact ⟨l, hmore.lookup hl, hin⟩

theorem Sound.mono {phase : ResolvePhase} (h : s.Sound phase) (hmore : s.Extends s') :
    s'.Sound phase := by
  have hfresh : ∀ {g : ℕ} {es : List FoundEndpoint}, (∀ e ∈ es, s.Fresh g e) →
      ∀ e ∈ es, s'.Fresh g e := fun hes e he => (hes e he).mono hmore
  cases phase with
  | idle => trivial
  | loaded call => exact hmore.published h
  | starting call family v6 => exact ⟨hmore.published h.1, hfresh h.2⟩
  | reading call family v6 published =>
    exact ⟨hmore.published h.1, hfresh h.2.1, h.2.2⟩
  | asking call family v6 lookup =>
    obtain ⟨l, hl, hin⟩ := h.2.2
    exact ⟨hmore.published h.1, hfresh h.2.1, l, hmore.lookup hl, hin⟩
  | between call v6 => exact ⟨hmore.published h.1, hfresh h.2⟩
  | found call endpoints => exact hfresh h
  | inserting call endpoints => exact hfresh h
  | returned call endpoints => exact hfresh h

theorem Inv.setCall (h : s.Inv) {i : ℕ} {p : ResolvePhase} (hp : s.Sound p) :
    (s.setCall i p).Inv := by
  have hmore : s.Extends (s.setCall i p) := ⟨List.Subset.refl _, List.prefix_rfl⟩
  refine ⟨h.generation, h.change, ?_, fun entry hentry e he => (h.cache entry hentry e he).mono
    hmore⟩
  intro j
  show (s.setCall i p).Sound (Function.update s.call i p j)
  by_cases hj : j = i
  · rw [hj, Function.update_self]
    exact hp.mono hmore
  · rw [Function.update_of_ne hj]
    exact (h.call j).mono hmore

theorem Inv.setCache (h : s.Inv) {cache : DnsCache}
    (hcache : ∀ entry ∈ cache.entries, entry ∈ s.cache.entries ∨
      ∀ e ∈ entry.endpoints, s.Fresh entry.key.networkGeneration e) :
    ({ s with cache := cache } : ResolverState).Inv := by
  have hmore : s.Extends { s with cache := cache } := ⟨List.Subset.refl _, List.prefix_rfl⟩
  refine ⟨h.generation, h.change, fun i => (h.call i).mono hmore, ?_⟩
  intro entry hentry e he
  rcases hcache entry hentry with hold | hfresh
  · exact (h.cache entry hold e he).mono hmore
  · exact (hfresh e he).mono hmore

theorem sound_afterFamily {call : ResolveCall} {v6 found : List FoundEndpoint} {family : Family}
    (hnetwork : call.network ∈ s.published) (hv6 : ∀ e ∈ v6, s.Fresh call.network e)
    (hfound : ∀ e ∈ found, s.Fresh call.network e) :
    s.Sound (afterFamily call v6 family found) := by
  cases family with
  | inet6 => exact ⟨hnetwork, hfound⟩
  | inet =>
    intro e he
    rcases mem_interleave he with he | he
    · exact hv6 e he
    · exact hfound e he

theorem mem_endpointsOf {call : ResolveCall} {family : Family} {lookup : ℕ}
    {addresses : Option (List (Family × Str))} {e : FoundEndpoint}
    (h : e ∈ endpointsOf call family lookup addresses) : e.lookup = lookup := by
  obtain ⟨address, -, rfl⟩ := List.mem_map.mp h
  rfl

/-! ### Steps and runs -/

theorem Inv.publishHandle (h : s.Inv) (generation handle : ℕ) :
    ({ s with
      androidNetworkHandle := handle
      change := .generation generation
      published := s.published ++ [generation] } : ResolverState).Inv := by
  have hmore : s.Extends { s with
      androidNetworkHandle := handle
      change := .generation generation
      published := s.published ++ [generation] } :=
    ⟨List.subset_append_left _ _, List.prefix_rfl⟩
  refine ⟨hmore.published h.generation, ?_, fun i => (h.call i).mono hmore,
    fun entry hentry e he => (h.cache entry hentry e he).mono hmore⟩
  rintro g ⟨⟩
  exact List.mem_append_right _ (List.mem_singleton_self _)

theorem Inv.read (h : s.Inv) {i : ℕ} {call : ResolveCall} {family : Family}
    {v6 : List FoundEndpoint} {published : List ℕ}
    (hcall : s.call i = .reading call family v6 published) :
    ({ s.setCall i (.asking call family v6 s.lookups.length) with
      lookups := s.lookups ++
        [⟨call.host, call.port, family, s.androidNetworkHandle, published⟩] } :
      ResolverState).Inv := by
  have hsound := h.call i
  rw [hcall] at hsound
  obtain ⟨hnetwork, hv6, hpublished⟩ := hsound
  have hmore : s.Extends { s with lookups := s.lookups ++
      [⟨call.host, call.port, family, s.androidNetworkHandle, published⟩] } :=
    ⟨List.Subset.refl _, List.prefix_append _ _⟩
  have hlonger : ({ s with lookups := s.lookups ++
      [⟨call.host, call.port, family, s.androidNetworkHandle, published⟩] } :
      ResolverState).Inv :=
    ⟨h.generation, h.change, fun j => (h.call j).mono hmore,
      fun entry hentry e he => (h.cache entry hentry e he).mono hmore⟩
  refine hlonger.setCall (p := .asking call family v6 s.lookups.length)
    ⟨hnetwork, fun e he => (hv6 e he).mono hmore, _, List.getElem?_concat_length, hpublished⟩

theorem Inv.step (h : s.Inv) {label : ResolverLabel} (hstep : s.step label = some s') : s'.Inv := by
  cases label with
  | change generation handle =>
    dsimp only [ResolverState.step] at hstep
    split at hstep
    · split_ifs at hstep
      · cases hstep
        exact h
      · cases hstep
        exact ⟨h.generation, nofun, h.call, h.cache⟩
    · cases hstep
  | publishHandle =>
    dsimp only [ResolverState.step] at hstep
    split at hstep
    · rename_i generation handle _
      cases hstep
      exact h.publishHandle generation handle
    · cases hstep
  | publishGeneration =>
    dsimp only [ResolverState.step] at hstep
    split at hstep
    · rename_i generation hchange
      cases hstep
      exact ⟨h.change generation hchange, nofun, h.call, h.cache⟩
    · cases hstep
  | invalidate =>
    dsimp only [ResolverState.step] at hstep
    split at hstep
    · cases hstep
      refine ⟨h.generation, nofun, h.call, ?_⟩
      exact fun entry hentry => h.cache entry (List.mem_of_mem_filter hentry)
    · cases hstep
  | load i host port =>
    dsimp only [ResolverState.step] at hstep
    split at hstep
    · cases hstep
      exact h.setCall (p := .loaded ⟨host, port, s.resolverNetworkGeneration⟩) h.generation
    · cases hstep
  | lookup i now =>
    dsimp only [ResolverState.step] at hstep
    split at hstep
    · rename_i call hcall
      have hsound := h.call i
      rw [hcall] at hsound
      cases hstep
      have hcache : ({ s with cache := (s.cache.lookup call.key now).1 } : ResolverState).Inv :=
        h.setCache fun entry hentry => Or.inl (DnsCache.lookup_entries _ _ hentry)
      apply hcache.setCall
      split
      · rename_i endpoints hhit
        obtain ⟨entry, hentry, hkey, rfl⟩ := DnsCache.lookup_hit hhit
        intro e he
        split at he
        · cases he
        · have hfresh := h.cache entry hentry e he
          rw [hkey] at hfresh
          exact hfresh
      · exact ⟨hsound, nofun⟩
    · cases hstep
  | start i stop =>
    dsimp only [ResolverState.step] at hstep
    split at hstep
    · rename_i call family v6 hcall
      have hsound := h.call i
      rw [hcall] at hsound
      cases hstep
      apply h.setCall
      split
      · exact sound_afterFamily hsound.1 hsound.2 nofun
      · exact ⟨hsound.1, hsound.2, hsound.1⟩
    · cases hstep
  | read i =>
    dsimp only [ResolverState.step] at hstep
    split at hstep
    · rename_i hcall
      cases hstep
      exact h.read hcall
    · cases hstep
  | answer i addresses =>
    dsimp only [ResolverState.step] at hstep
    split at hstep
    · rename_i call family v6 lookup hcall
      have hsound := h.call i
      rw [hcall] at hsound
      cases hstep
      apply h.setCall
      apply sound_afterFamily hsound.1 hsound.2.1
      intro e he
      obtain ⟨l, hl, hin⟩ := hsound.2.2
      exact ⟨l, mem_endpointsOf he ▸ hl, hin⟩
    · cases hstep
  | next i stop =>
    dsimp only [ResolverState.step] at hstep
    split at hstep
    · rename_i call v6 hcall
      have hsound := h.call i
      rw [hcall] at hsound
      cases hstep
      apply h.setCall
      split
      · exact hsound.2
      · exact hsound
    · cases hstep
  | finish i stop =>
    dsimp only [ResolverState.step] at hstep
    split at hstep
    · rename_i call endpoints hcall
      have hsound := h.call i
      rw [hcall] at hsound
      cases hstep
      apply h.setCall
      split
      · exact nofun
      · exact hsound
    · cases hstep
  | insert i now =>
    dsimp only [ResolverState.step] at hstep
    split at hstep
    · rename_i call endpoints hcall
      have hsound := h.call i
      rw [hcall] at hsound
      cases hstep
      have hcache : ({ s with
          cache :=
            if endpoints = [] then s.cache.putFailure call.key now
            else s.cache.putSuccess call.key now endpoints } : ResolverState).Inv := ?_
      · exact hcache.setCall (p := .returned call endpoints) hsound
      apply h.setCache
      intro entry hentry
      split at hentry
      · rcases DnsCache.mem_putFailure hentry with hempty | hold
        · right
          rw [hempty]
          exact nofun
        · exact Or.inl hold
      · rcases DnsCache.mem_putSuccess hentry with hempty | ⟨hkey, hendpoints⟩ | hold
        · right
          rw [hempty]
          exact nofun
        · right
          rw [hkey, hendpoints]
          exact hsound
        · exact Or.inl hold
    · cases hstep

theorem inv_initial (config : DnsCacheConfig) : ({ cache := ⟨config, []⟩ } : ResolverState).Inv :=
  ⟨List.mem_singleton_self _, nofun, fun _ => trivial, nofun⟩

/-- Whatever the order of the steps, the endpoints that a call returns come from lookups that
started after the handle of the generation that it loaded had been published, and an entry
that the cache gives it is one of that generation. -/
theorem run_fresh {config : DnsCacheConfig} {labels : List ResolverLabel} {s : ResolverState}
    (hrun : run ResolverState.step { cache := ⟨config, []⟩ } labels = some s) :
    (∀ i call endpoints, s.call i = .returned call endpoints →
      ∀ e ∈ endpoints, ∃ l, s.lookups[e.lookup]? = some l ∧ call.network ∈ l.published) ∧
    ∀ i now call endpoints s', s.call i = .loaded call →
      s.step (.lookup i now) = some s' → s'.call i = .returned call endpoints →
      ∃ entry ∈ s.cache.entries, entry.key.networkGeneration = call.network ∧
        endpoints = if entry.negative then [] else entry.endpoints := by
  have h : s.Inv := run_invariant_of_step (fun _ _ _ hinv hstep => hinv.step hstep) hrun
    (inv_initial config)
  constructor
  · intro i call endpoints hcall
    have hsound := h.call i
    rw [hcall] at hsound
    exact hsound
  · intro i now call endpoints s' hcall hstep hreturned
    dsimp only [ResolverState.step] at hstep
    rw [hcall] at hstep
    cases hstep
    rw [show (s.setCall i _).call i = _ from Function.update_self ..] at hreturned
    split at hreturned
    · rename_i found hhit
      cases hreturned
      obtain ⟨entry, hentry, hkey, hendpoints⟩ := DnsCache.lookup_hit hhit
      exact ⟨entry, hentry, congrArg DnsCacheKey.networkGeneration hkey, hendpoints⟩
    · cases hreturned

/-- A call that straddles a change of the network, and a later one that asks for the same host. -/
def lateInsertion : List ResolverLabel :=
  [.load 0 "a.test".toList 443, .lookup 0 1, .start 0 false, .change 5 9, .publishHandle, .read 0,
    .answer 0 (some [(.inet6, "::1".toList)]), .next 0 true, .publishGeneration, .invalidate,
    .finish 0 false, .insert 0 7, .load 1 "a.test".toList 443, .lookup 1 8, .start 1 false, .read 1,
    .answer 1 none, .next 1 false, .start 1 false, .read 1,
    .answer 1 (some [(.inet, "1.2.3.4".toList)]), .finish 1 false, .insert 1 9,
    .load 2 "A.test".toList 443, .lookup 2 10]

theorem run_fresh_lateInsertion :
    ∃ s, run ResolverState.step { cache := ⟨{}, []⟩ } lateInsertion = some s ∧
      (∀ i call endpoints, s.call i = .returned call endpoints →
        ∀ e ∈ endpoints, ∃ l, s.lookups[e.lookup]? = some l ∧ call.network ∈ l.published) ∧
      ∀ i now call endpoints s', s.call i = .loaded call →
        s.step (.lookup i now) = some s' → s'.call i = .returned call endpoints →
        ∃ entry ∈ s.cache.entries, entry.key.networkGeneration = call.network ∧
          endpoints = if entry.negative then [] else entry.endpoints := by
  have hsome : (run ResolverState.step { cache := ⟨{}, []⟩ } lateInsertion).isSome = true := by
    decide +kernel
  obtain ⟨s, hs⟩ := Option.isSome_iff_exists.mp hsome
  exact ⟨s, hs, run_fresh hs⟩

end ResolverState

end KatHttp3
