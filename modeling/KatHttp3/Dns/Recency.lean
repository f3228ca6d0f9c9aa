import KatHttp3.Dns.CachedResolver
import KatHttp3.Library.RecencyList
import Mathlib.Data.List.Nodup

/-!
# What the DNS cache remembers

A hit is what was last inserted for the very key, before its time is over. An entry is
forgotten before that only if as many other keys as the cache has places have been used
since, or if the network has changed.
-/

namespace KatHttp3

open RecencyList

/-- A call of a function of the cache. -/
inductive DnsCacheOp
  | lookup (key : DnsCacheKey) (now : ℕ)
  | putSuccess (key : DnsCacheKey) (now : ℕ) (endpoints : List FoundEndpoint)
  | putFailure (key : DnsCacheKey) (now : ℕ)
  | invalidateNetwork (networkGeneration : ℕ)
  deriving DecidableEq

namespace DnsCacheOp

variable (config : DnsCacheConfig)

/-- The key that the call is for. -/
def key? : DnsCacheOp → Option DnsCacheKey
  | lookup key _ => some key
  | putSuccess key _ _ => some key
  | putFailure key _ => some key
  | invalidateNetwork _ => none

def failureEntry (key : DnsCacheKey) (now : ℕ) : Option DnsEntry :=
  if config.negativeTtlMs = 0 then none
  else some ⟨key, (now + config.negativeTtlMs) % 2 ^ 64, true, []⟩

/-- The entry that the call inserts. -/
def inserts : DnsCacheOp → Option DnsEntry
  | putSuccess key now endpoints =>
    if endpoints = [] then failureEntry config key now
    else if config.positiveTtlMs = 0 then none
    else some ⟨key, (now + config.positiveTtlMs) % 2 ^ 64, false, endpoints⟩
  | putFailure key now => failureEntry config key now
  | _ => none

/-- The call does not remove the entry in its own right. -/
def Spares (entry : DnsEntry) : DnsCacheOp → Prop
  | lookup key now => key = entry.key → now < entry.expiresAtMs
  | invalidateNetwork networkGeneration => entry.key.networkGeneration = networkGeneration
  | op => ∀ inserted ∈ inserts config op, inserted.key ≠ entry.key

instance (entry : DnsEntry) (op : DnsCacheOp) : Decidable (op.Spares config entry) := by
  cases op <;> unfold Spares <;> infer_instance

variable {config}

theorem key?_of_inserts {op : DnsCacheOp} {entry : DnsEntry} (h : op.inserts config = some entry) :
    op.key? = some entry.key := by
  have hfailure : ∀ key now, failureEntry config key now = some entry → key = entry.key := by
    intro key now hentry
    unfold failureEntry at hentry
    split_ifs at hentry
    cases hentry
    rfl
  cases op with
  | lookup key now => cases h
  | invalidateNetwork networkGeneration => cases h
  | putFailure key now => exact congrArg some (hfailure key now h)
  | putSuccess key now endpoints =>
    simp only [inserts] at h
    split_ifs at h
    · exact congrArg some (hfailure key now h)
    · cases h
      rfl

end DnsCacheOp

namespace DnsCache

variable (cache : DnsCache)

def apply : DnsCacheOp → DnsCache
  | .lookup key now => (cache.lookup key now).1
  | .putSuccess key now endpoints => cache.putSuccess key now endpoints
  | .putFailure key now => cache.putFailure key now
  | .invalidateNetwork networkGeneration => cache.invalidateNetwork networkGeneration

def after (ops : List DnsCacheOp) : DnsCache := ops.foldl apply cache

variable {cache}

/-! ### Keys -/

/-- No two entries have the same key, and there are no more than configured. -/
structure Keyed (cache : DnsCache) : Prop where
  nodup : (cache.entries.map DnsEntry.key).Nodup
  length : cache.entries.length ≤ max 1 cache.config.maxEntries

theorem apply_of_inserts {op : DnsCacheOp} {entry : DnsEntry}
    (h : op.inserts cache.config = some entry) : cache.apply op = cache.put entry := by
  have hfailure : ∀ key now, DnsCacheOp.failureEntry cache.config key now = some entry →
      cache.putFailure key now = cache.put entry := by
    intro key now hentry
    unfold DnsCacheOp.failureEntry at hentry
    unfold putFailure
    split_ifs at hentry ⊢
    cases hentry
    rfl
  cases op with
  | lookup key now => cases h
  | invalidateNetwork networkGeneration => cases h
  | putFailure key now => exact hfailure key now h
  | putSuccess key now endpoints =>
    simp only [DnsCacheOp.inserts] at h
    simp only [apply, putSuccess]
    split_ifs at h ⊢
    · exact hfailure key now h
    · cases h
      rfl

/-- A call that inserts nothing is a lookup, an invalidation or no change. -/
theorem apply_of_inserts_none {op : DnsCacheOp} (h : op.inserts cache.config = none) :
    (∃ key now, op = .lookup key now) ∨ (∃ generation, op = .invalidateNetwork generation) ∨
      cache.apply op = cache ∧ ∀ entry, op.Spares cache.config entry := by
  have hfailure : ∀ key now, DnsCacheOp.failureEntry cache.config key now = none →
      cache.putFailure key now = cache := by
    intro key now hentry
    unfold DnsCacheOp.failureEntry at hentry
    unfold putFailure
    split_ifs at hentry ⊢
    rfl
  cases op with
  | lookup key now => exact .inl ⟨key, now, rfl⟩
  | invalidateNetwork generation => exact .inr (.inl ⟨generation, rfl⟩)
  | putFailure key now =>
    right
    right
    exact ⟨hfailure key now h, fun entry inserted hinserted => by cases h.symm.trans hinserted⟩
  | putSuccess key now endpoints =>
    right
    right
    refine ⟨?_, fun entry inserted hinserted => by cases h.symm.trans hinserted⟩
    simp only [DnsCacheOp.inserts] at h
    simp only [apply, putSuccess]
    split_ifs at h ⊢
    · exact hfailure key now h
    · rfl

theorem mem_put_iff {entry e : DnsEntry} :
    e ∈ entry :: cache.entries.filter (·.key ≠ entry.key) ↔
      e = entry ∨ e ∈ cache.entries ∧ e.key ≠ entry.key := by
  simp [List.mem_cons, List.mem_filter]

theorem Keyed.nodup_put (h : cache.Keyed) (entry : DnsEntry) :
    ((entry :: cache.entries.filter (·.key ≠ entry.key)).map DnsEntry.key).Nodup := by
  rw [List.map_cons, List.nodup_cons]
  constructor
  · intro hmem
    obtain ⟨other, hother, hkey⟩ := List.mem_map.mp hmem
    simp only [List.mem_filter, decide_eq_true_eq] at hother
    exact hother.2 hkey
  · exact h.nodup.sublist (List.filter_sublist.map _)

theorem keyed_nil (config : DnsCacheConfig) : Keyed { config } := ⟨List.nodup_nil, Nat.zero_le _⟩

theorem Keyed.put (h : cache.Keyed) (entry : DnsEntry) : (cache.put entry).Keyed :=
  ⟨(h.nodup_put entry).sublist ((List.take_sublist _ _).map _), List.length_take_le _ _⟩

theorem Keyed.of_sublist (h : cache.Keyed) {entries : List DnsEntry}
    (hsub : entries.Sublist cache.entries) : Keyed { cache with entries := entries } :=
  ⟨h.nodup.sublist (hsub.map _), hsub.length_le.trans h.length⟩

/-- Two entries with one key are one entry. -/
theorem Keyed.eq_of_key (h : cache.Keyed) {e f : DnsEntry} (he : e ∈ cache.entries)
    (hf : f ∈ cache.entries) (hkey : e.key = f.key) : e = f :=
  List.inj_on_of_nodup_map h.nodup he hf hkey

/-- What a lookup finds and what it leaves. -/
theorem lookup_cases (cache : DnsCache) (key : DnsCacheKey) (now : ℕ) :
    (cache.lookup key now).1 = cache ∧ (cache.lookup key now).2 = none ∧
        (∀ entry ∈ cache.entries, entry.key ≠ key) ∨
      ∃ entry ∈ cache.entries, entry.key = key ∧
        (entry.expiresAtMs ≤ now ∧ cache.lookup key now =
            ({ cache with entries := cache.entries.erase entry }, none) ∨
          now < entry.expiresAtMs ∧ cache.lookup key now =
            ({ cache with entries := entry :: cache.entries.erase entry },
              some (if entry.negative then [] else entry.endpoints))) := by
  unfold lookup
  split
  · rename_i hfind
    left
    refine ⟨rfl, rfl, ?_⟩
    intro entry hentry
    have hnone := List.find?_eq_none.mp hfind entry hentry
    simpa using hnone
  · rename_i entry hfind
    right
    have hkey := List.find?_some hfind
    refine ⟨entry, List.mem_of_find?_eq_some hfind, by simpa using hkey, ?_⟩
    by_cases hexpired : entry.expiresAtMs ≤ now
    · rw [if_pos hexpired]
      exact .inl ⟨hexpired, rfl⟩
    · rw [if_neg hexpired]
      exact .inr ⟨Nat.lt_of_not_le hexpired, rfl⟩

theorem Keyed.lookup (h : cache.Keyed) (key : DnsCacheKey) (now : ℕ) :
    (cache.lookup key now).1.Keyed := by
  rcases lookup_cases cache key now with ⟨heq, -, -⟩ | ⟨entry, hentry, -, ⟨-, heq⟩ | ⟨-, heq⟩⟩
  · rwa [heq]
  · rw [heq]
    exact h.of_sublist List.erase_sublist
  · rw [heq]
    have hperm : (entry :: cache.entries.erase entry).Perm cache.entries :=
      (List.perm_cons_erase hentry).symm
    exact ⟨(hperm.map _).nodup_iff.mpr h.nodup, hperm.length_eq.trans_le h.length⟩

theorem Keyed.apply (h : cache.Keyed) (op : DnsCacheOp) : (cache.apply op).Keyed := by
  cases hinserts : op.inserts cache.config with
  | some entry =>
    rw [apply_of_inserts hinserts]
    exact h.put entry
  | none =>
    rcases apply_of_inserts_none hinserts with ⟨key, now, rfl⟩ | ⟨generation, rfl⟩ | ⟨heq, hall⟩
    · exact h.lookup key now
    · exact h.of_sublist List.filter_sublist
    · rwa [heq]

@[simp] theorem apply_config (cache : DnsCache) (op : DnsCacheOp) :
    (cache.apply op).config = cache.config := by
  cases hinserts : op.inserts cache.config with
  | some entry =>
    rw [apply_of_inserts hinserts]
    rfl
  | none =>
    rcases apply_of_inserts_none hinserts with ⟨key, now, rfl⟩ | ⟨generation, rfl⟩ | ⟨heq, hall⟩
    · rcases lookup_cases cache key now with ⟨heq, -, -⟩ | ⟨_, -, -, ⟨-, heq⟩ | ⟨-, heq⟩⟩ <;>
        simp only [DnsCache.apply, heq]
    · rfl
    · rw [heq]

@[simp] theorem after_config (cache : DnsCache) (ops : List DnsCacheOp) :
    (cache.after ops).config = cache.config := by
  induction ops generalizing cache with
  | nil => rfl
  | cons op ops ih => exact (ih (cache.apply op)).trans (apply_config cache op)

theorem Keyed.after (h : cache.Keyed) (ops : List DnsCacheOp) : (cache.after ops).Keyed := by
  induction ops generalizing cache with
  | nil => exact h
  | cons op ops ih => exact ih (h.apply op)

/-! ### What is remembered -/

/-- The keys that have been used, other than that of the entry. -/
def otherKeys (entry : DnsEntry) (ops : List DnsCacheOp) : Finset DnsCacheKey :=
  (ops.filterMap DnsCacheOp.key?).toFinset.erase entry.key

theorem mem_otherKeys {entry : DnsEntry} {ops : List DnsCacheOp} {op : DnsCacheOp}
    {key : DnsCacheKey} (hop : op ∈ ops) (hkey : op.key? = some key) (hne : key ≠ entry.key) :
    key ∈ otherKeys entry ops := by
  rw [otherKeys, Finset.mem_erase, List.mem_toFinset]
  exact ⟨hne, List.mem_filterMap.mpr ⟨op, hop, hkey⟩⟩

/-- The entry is in the cache, behind no others than those of the given keys. -/
def Remembers (cache : DnsCache) (keys : Finset DnsCacheKey) (entry : DnsEntry) : Prop :=
  Behind (fun other => other.key ∈ keys) entry cache.entries

theorem Remembers.lookup {keys : Finset DnsCacheKey} {entry : DnsEntry} {key : DnsCacheKey}
    {now : ℕ} (h : cache.Remembers keys entry) (hkeyed : cache.Keyed)
    (hspares : key = entry.key → now < entry.expiresAtMs) (hkey : key ≠ entry.key → key ∈ keys) :
    (cache.lookup key now).1.Remembers keys entry := by
  unfold Remembers at h ⊢
  rcases lookup_cases cache key now with
    ⟨heq, -, -⟩ | ⟨found, hfound, hsame, ⟨hexpired, heq⟩ | ⟨hfresh, heq⟩⟩
  · rwa [heq]
  · rw [heq]
    apply h.erase
    rintro rfl
    exact absurd hexpired (hspares hsame.symm).not_ge
  · rw [heq]
    by_cases hentry : found = entry
    · rw [hentry]
      exact behind_cons _ _ _
    · have hother : found.key ≠ entry.key := fun hk =>
        hentry (hkeyed.eq_of_key hfound h.mem hk)
      refine (h.erase hentry).cons ?_
      rw [hsame] at hother ⊢
      exact hkey hother

theorem Remembers.put {keys : Finset DnsCacheKey} {entry inserted : DnsEntry}
    (h : cache.Remembers keys entry) (hkeyed : cache.Keyed) (hne : inserted.key ≠ entry.key)
    (hkey : inserted.key ∈ keys) (hcard : keys.card < max 1 cache.config.maxEntries) :
    (cache.put inserted).Remembers keys entry := by
  have hfilter := Behind.filter (p := (·.key ≠ inserted.key)) h (by simpa using hne.symm)
  exact (hfilter.cons hkey).take_of_card (hkeyed.nodup_put inserted) hcard

theorem Remembers.apply {keys : Finset DnsCacheKey} {entry : DnsEntry} {op : DnsCacheOp}
    (h : cache.Remembers keys entry) (hkeyed : cache.Keyed)
    (hspares : op.Spares cache.config entry)
    (hkey : ∀ key, op.key? = some key → key ≠ entry.key → key ∈ keys)
    (hcard : keys.card < max 1 cache.config.maxEntries) :
    (cache.apply op).Remembers keys entry := by
  cases hinserts : op.inserts cache.config with
  | some inserted =>
    rw [apply_of_inserts hinserts]
    have hne : inserted.key ≠ entry.key := by
      cases op with
      | lookup key now => cases hinserts
      | invalidateNetwork generation => cases hinserts
      | putSuccess key now endpoints => exact hspares inserted hinserts
      | putFailure key now => exact hspares inserted hinserts
    exact h.put hkeyed hne (hkey _ (DnsCacheOp.key?_of_inserts hinserts) hne) hcard
  | none =>
    rcases apply_of_inserts_none hinserts with ⟨key, now, rfl⟩ | ⟨generation, rfl⟩ | ⟨heq, hall⟩
    · exact h.lookup hkeyed hspares fun hne => hkey key rfl hne
    · have hkept : entry.key.networkGeneration = generation := hspares
      exact Behind.filter h (by simpa using hkept)
    · rwa [heq]

theorem Remembers.after {keys : Finset DnsCacheKey} {entry : DnsEntry} {ops : List DnsCacheOp}
    (h : cache.Remembers keys entry) (hkeyed : cache.Keyed)
    (hspares : ∀ op ∈ ops, op.Spares cache.config entry)
    (hkey : ∀ op ∈ ops, ∀ key, op.key? = some key → key ≠ entry.key → key ∈ keys)
    (hcard : keys.card < max 1 cache.config.maxEntries) :
    (cache.after ops).Remembers keys entry := by
  induction ops generalizing cache with
  | nil => exact h
  | cons op ops ih =>
    have hnext := h.apply hkeyed (hspares op List.mem_cons_self) (hkey op List.mem_cons_self) hcard
    apply ih hnext (hkeyed.apply op)
    · intro later hlater
      rw [apply_config]
      exact hspares later (List.mem_cons_of_mem op hlater)
    · exact fun later hlater => hkey later (List.mem_cons_of_mem op hlater)
    · rwa [apply_config]

/-! ### Where entries come from -/

/-- The entry was inserted by one of the calls, and none after that has removed it. -/
def Inserted (config : DnsCacheConfig) (ops : List DnsCacheOp) (entry : DnsEntry) : Prop :=
  ∃ before op later, ops = before ++ op :: later ∧ op.inserts config = some entry ∧
    ∀ next ∈ later, next.Spares config entry

theorem Inserted.append {config : DnsCacheConfig} {ops : List DnsCacheOp} {entry : DnsEntry}
    {op : DnsCacheOp} (h : Inserted config ops entry) (hspares : op.Spares config entry) :
    Inserted config (ops ++ [op]) entry := by
  obtain ⟨before, first, later, rfl, hinserts, hlater⟩ := h
  refine ⟨before, first, later ++ [op], by simp, hinserts, ?_⟩
  intro next hnext
  rcases List.mem_append.mp hnext with hold | hlast
  · exact hlater next hold
  · rw [List.mem_singleton.mp hlast]
    exact hspares

/-- An entry after a call was inserted by it, or spared. -/
theorem mem_apply {op : DnsCacheOp} {entry : DnsEntry} (hkeyed : cache.Keyed)
    (h : entry ∈ (cache.apply op).entries) :
    op.inserts cache.config = some entry ∨
      entry ∈ cache.entries ∧ op.Spares cache.config entry := by
  cases hinserts : op.inserts cache.config with
  | some inserted =>
    rw [apply_of_inserts hinserts] at h
    rcases mem_put_iff.mp (List.mem_of_mem_take h) with rfl | ⟨hmem, hne⟩
    · exact .inl rfl
    · refine .inr ⟨hmem, ?_⟩
      cases op with
      | lookup key now => cases hinserts
      | invalidateNetwork generation => cases hinserts
      | putSuccess key now endpoints =>
        intro other hother
        obtain rfl := Option.some.inj (hinserts.symm.trans hother)
        exact hne.symm
      | putFailure key now =>
        intro other hother
        obtain rfl := Option.some.inj (hinserts.symm.trans hother)
        exact hne.symm
  | none =>
    right
    rcases apply_of_inserts_none hinserts with ⟨key, now, rfl⟩ | ⟨generation, rfl⟩ | ⟨heq, hall⟩
    · rcases lookup_cases cache key now with
        ⟨heq, -, hnone⟩ | ⟨found, hfound, hsame, ⟨hexpired, heq⟩ | ⟨hfresh, heq⟩⟩
      · simp only [DnsCache.apply, heq] at h
        exact ⟨h, fun hkey => absurd hkey.symm (hnone entry h)⟩
      · simp only [DnsCache.apply, heq] at h
        have hmem := List.mem_of_mem_erase h
        refine ⟨hmem, ?_⟩
        rintro rfl
        have hnodup : cache.entries.Nodup := hkeyed.nodup.of_map _
        have hgone : found ∉ cache.entries.erase found := hnodup.not_mem_erase
        exact absurd (hkeyed.eq_of_key hmem hfound hsame.symm ▸ h) hgone
      · simp only [DnsCache.apply, heq] at h
        have hmem : entry ∈ cache.entries :=
          (List.perm_cons_erase hfound).mem_iff.mpr h
        refine ⟨hmem, ?_⟩
        rintro rfl
        rwa [hkeyed.eq_of_key hmem hfound hsame.symm]
    · have hfiltered := List.mem_filter.mp h
      have hkept : entry.key.networkGeneration = generation := by simpa using hfiltered.2
      exact ⟨hfiltered.1, hkept⟩
    · rw [heq] at h
      exact ⟨h, hall entry⟩

theorem inserted_of_mem {config : DnsCacheConfig} {ops : List DnsCacheOp} {entry : DnsEntry}
    (h : entry ∈ (after { config } ops).entries) : Inserted config ops entry := by
  induction ops using List.reverseRecOn generalizing entry with
  | nil => cases h
  | append_singleton ops op ih =>
    have hkeyed : Keyed (after { config } ops) := (keyed_nil config).after ops
    rw [after, List.foldl_append] at h
    rcases mem_apply hkeyed h with hinserts | ⟨hmem, hspares⟩
    · rw [after_config] at hinserts
      exact ⟨ops, op, [], rfl, hinserts, nofun⟩
    · rw [after_config] at hspares
      exact (ih hmem).append hspares

/-! ### Lookups -/

/-- The endpoints that a hit of the entry gives. -/
def answer (entry : DnsEntry) : List FoundEndpoint := if entry.negative then [] else entry.endpoints

/-- In every sequence of calls, a lookup that hits gives what a call has inserted for the key,
not yet expired and neither replaced nor invalidated since. And it does hit if fewer other
keys have been used since than the cache has places. -/
theorem after_lookup {config : DnsCacheConfig} {ops : List DnsCacheOp} {key : DnsCacheKey}
    {now : ℕ} :
    (∀ endpoints, ((after { config } ops).lookup key now).2 = some endpoints →
      ∃ entry, Inserted config ops entry ∧ entry.key = key ∧ now < entry.expiresAtMs ∧
        endpoints = answer entry) ∧
    ∀ before op later entry, ops = before ++ op :: later → op.inserts config = some entry →
      (∀ next ∈ later, next.Spares config entry) → entry.key = key → now < entry.expiresAtMs →
        (otherKeys entry later).card < max 1 config.maxEntries →
          ((after { config } ops).lookup key now).2 = some (answer entry) := by
  constructor
  · intro endpoints hhit
    rcases lookup_cases (after { config } ops) key now with
      ⟨-, hmiss, -⟩ | ⟨entry, hentry, hkey, ⟨-, heq⟩ | ⟨hfresh, heq⟩⟩
    · rw [hmiss] at hhit
      cases hhit
    · rw [heq] at hhit
      cases hhit
    · rw [heq] at hhit
      exact ⟨entry, inserted_of_mem hentry, hkey, hfresh, (Option.some.inj hhit).symm⟩
  · rintro before op later entry rfl hinserts hspares rfl hfresh hcard
    have hkeyed : Keyed (after { config } before) := (keyed_nil config).after before
    have hconfig : (after { config } before).config = config := after_config _ before
    have hput : (after { config } before).apply op = (after { config } before).put entry :=
      apply_of_inserts (by rw [hconfig]; exact hinserts)
    have hput_config : ((after { config } before).put entry).config = config := hconfig
    have hnew : ((after { config } before).put entry).Remembers (otherKeys entry later) entry := by
      apply (behind_cons _ entry _).take
      intro front back hl hfront
      cases front with
      | nil => exact Nat.lt_of_lt_of_le Nat.zero_lt_one (le_max_left _ _)
      | cons first front =>
        obtain ⟨rfl, -⟩ := List.cons.inj hl
        have hmem := hfront _ List.mem_cons_self
        exact absurd hmem (Finset.notMem_erase _ _)
    have hremembers : ((after { config } (before ++ op :: later))).Remembers
        (otherKeys entry later) entry := by
      rw [after, List.foldl_append, List.foldl_cons]
      change Remembers (after ((after { config } before).apply op) later) _ _
      rw [hput]
      apply hnew.after (hkeyed.put entry)
      · rwa [hput_config]
      · exact fun next hnext k hk hne => mem_otherKeys hnext hk hne
      · rwa [hput_config]
    have hall := (keyed_nil config).after (before ++ op :: later)
    have hmem := hremembers.mem
    rcases lookup_cases (after { config } (before ++ op :: later)) entry.key now with
      ⟨-, -, hnone⟩ | ⟨found, hfound, hkey, ⟨hexpired, heq⟩ | ⟨-, heq⟩⟩
    · exact absurd rfl (hnone entry hmem)
    · obtain rfl := hall.eq_of_key hfound hmem hkey
      exact absurd hexpired hfresh.not_ge
    · obtain rfl := hall.eq_of_key hfound hmem hkey
      rw [heq]
      rfl

/-- An entry in a cache of two places is hit after another key was used. -/
theorem after_lookup_second :
    ((after { config := { maxEntries := 2 } }
        [.putSuccess ⟨"a".toList, 443, 0⟩ 10 [⟨⟨"::1".toList, 443, .inet6⟩, 0⟩],
          .putSuccess ⟨"b".toList, 443, 0⟩ 20 [⟨⟨"::2".toList, 443, .inet6⟩, 1⟩]]).lookup
      ⟨"a".toList, 443, 0⟩ 5009).2 = some [⟨⟨"::1".toList, 443, .inet6⟩, 0⟩] :=
  after_lookup.2 [] (.putSuccess ⟨"a".toList, 443, 0⟩ 10 [⟨⟨"::1".toList, 443, .inet6⟩, 0⟩]) _
    ⟨⟨"a".toList, 443, 0⟩, 5010, false, [⟨⟨"::1".toList, 443, .inet6⟩, 0⟩]⟩ rfl rfl (by decide) rfl
    (by decide) (by decide)

end DnsCache

end KatHttp3
