import KatHttp3.Library.Transition
import KatHttp3.Library.Parties
import Mathlib.Data.Int.Notation
import Mathlib.Logic.Function.Basic
import Mathlib.Tactic.SplitIfs
import Mathlib.Tactic.ByContra

/-!
# Leases on native clients

The table of native clients and the JNI calls that lease them. What happens
under `g_handles_mutex` is one step; `finalize_handle` runs outside of it, in the
call that released the last lease or in the one that destroys the client.
-/

namespace KatHttp3

namespace ClientLeases

open WeightedList Parties

/-- `HandleEntry`. -/
structure HandleEntry where
  /-- There is a `ResolverCtx` that has not been freed. -/
  resolver : Bool
  activeCalls : ℕ := 0
  destroyRequested : Bool := false
  destroyStarted : Bool := false
  /-- How often `kathttp3_client_destroy` has run for the client. -/
  destroys : ℕ := 0
  deriving DecidableEq

namespace HandleEntry

variable (entry : HandleEntry)

/-- The locked part of `ClientLease::release`, and whether it is left to finalize. -/
def release : HandleEntry × Bool :=
  let entry := { entry with activeCalls := entry.activeCalls - 1 }
  if entry.activeCalls = 0 ∧ entry.destroyRequested = true ∧ entry.destroyStarted = false then
    ({ entry with destroyStarted := true }, true)
  else (entry, false)

/-- What `destroyClient` does under the mutex with an entry that it has removed. -/
def requestDestroy : HandleEntry × Bool :=
  let entry := { entry with destroyRequested := true }
  if entry.activeCalls = 0 ∧ entry.destroyStarted = false then
    ({ entry with destroyStarted := true }, true)
  else (entry, false)

/-- `finalize_handle`. -/
def finalize : HandleEntry := { entry with destroys := entry.destroys + 1, resolver := false }

end HandleEntry

/-- The entries that have ever been made, of which `g_handles` has some. -/
structure Handles where
  entries : List HandleEntry := []
  /-- `g_handles`, with the positions of the entries. -/
  table : ℤ → Option ℕ := fun _ => none
  nextHandle : ℕ := 1

namespace Handles

variable (handles : Handles)

def setEntry (e : ℕ) (entry : HandleEntry) : Handles :=
  { handles with entries := handles.entries.set e entry }

/-- The next handle of `createClient`, unless it is out of range. -/
def fetchHandle : Handles × Option ℤ :=
  ({ handles with nextHandle := (handles.nextHandle + 1) % 2 ^ 64 },
    if handles.nextHandle = 0 ∨ 2 ^ 63 - 1 < handles.nextHandle then none
    else some handles.nextHandle)

/-- `emplace`, which leaves an entry that is there alone. -/
def register (handle : ℤ) (resolver : Bool) : Handles :=
  { handles with
    entries := handles.entries ++ [{ resolver := resolver }]
    table := if (handles.table handle).isSome then handles.table
      else Function.update handles.table handle (some handles.entries.length) }

/-- `g_handles.find`. -/
def find (value : ℤ) : Option (ℕ × HandleEntry) :=
  (handles.table value).bind fun e => handles.entries[e]?.map fun entry => (e, entry)

/-- `acquire_client`, with the entry of the lease. -/
def acquire (value : ℤ) : Handles × Option ℕ :=
  if value = 0 then (handles, none)
  else
    match handles.find value with
    | none => (handles, none)
    | some (e, entry) =>
      if entry.destroyRequested then (handles, none)
      else (handles.setEntry e { entry with activeCalls := entry.activeCalls + 1 }, some e)

def release (e : ℕ) : Handles × Option ℕ :=
  match handles.entries[e]? with
  | none => (handles, none)
  | some entry =>
    (handles.setEntry e entry.release.1, if entry.release.2 then some e else none)

/-- The locked part of `destroyClient`. -/
def remove (value : ℤ) : Handles × Option ℕ :=
  match handles.find value with
  | none => (handles, none)
  | some (e, entry) =>
    ({ handles with table := Function.update handles.table value none }.setEntry e
        entry.requestDestroy.1,
      if entry.requestDestroy.2 then some e else none)

def finalize (e : ℕ) : Handles :=
  match handles.entries[e]? with
  | none => handles
  | some entry => handles.setEntry e entry.finalize

end Handles

/-- Where a JNI call is. -/
inductive Doing
  | nothing
  /-- `createClient` has a handle. -/
  | creating (handle : ℤ)
  /-- Out of the mutex: the entry to finalize, and for a move assignment the
  variable assigned to and the one moved from. -/
  | released (entry : Option ℕ) (assignment : Option (ℕ × ℕ))
  deriving DecidableEq

/-- A JNI call with its `ClientLease` variables; a variable without an entry is empty. -/
structure JniCall where
  leases : List (Option ℕ) := []
  doing : Doing := .nothing
  deriving DecidableEq

inductive LeaseStep
  | fetchHandle
  | register (resolver : Bool)
  | registerFails
  | acquire (value : ℤ)
  | moveConstruct (source : ℕ)
  | moveAssign (target source : ℕ)
  | destruct (lease : ℕ)
  | destroyClient (value : ℤ)
  | finalize
  | proceed

namespace JniCall

variable (handles : Handles) (call : JniCall)

/-- `release` of a variable, up to the end of its locked part. -/
def release (lease : ℕ) (assignment : Option (ℕ × ℕ)) : Option (Handles × JniCall) :=
  match call.leases[lease]? with
  | none => none
  | some none => some (handles, { call with doing := .released none assignment })
  | some (some e) =>
    let next := handles.release e
    some (next.1, { leases := call.leases.set lease none, doing := .released next.2 assignment })

/-- `entry_ = std::move(other.entry_)`. -/
def assign (target source : ℕ) : JniCall where
  leases := (call.leases.set target (call.leases[source]?.join)).set source none
  doing := .nothing

/-- A step of a call that is in none of the functions that take several. -/
def start : LeaseStep → Option (Handles × JniCall)
  | .fetchHandle =>
    let next := handles.fetchHandle
    some (next.1, { call with doing := next.2.elim .nothing .creating })
  | .acquire value =>
    let next := handles.acquire value
    some (next.1, { call with leases := call.leases ++ [next.2] })
  | .moveConstruct source =>
    match call.leases[source]? with
    | none => none
    | some entry => some (handles, { call with leases := call.leases.set source none ++ [entry] })
  | .moveAssign target source =>
    if source < call.leases.length then
      if target = source then some (handles, call)
      else call.release handles target (some (target, source))
    else none
  | .destruct lease => call.release handles lease none
  | .destroyClient value =>
    let next := handles.remove value
    some (next.1, { call with doing := .released next.2 none })
  | _ => none

def step (label : LeaseStep) : Option (Handles × JniCall) :=
  match call.doing, label with
  | .nothing, label => call.start handles label
  | .creating handle, .register resolver =>
    some (handles.register handle resolver, { call with doing := .nothing })
  | .creating _, .registerFails => some (handles, { call with doing := .nothing })
  | .released (some e) assignment, .finalize =>
    some (handles.finalize e, { call with doing := .released none assignment })
  | .released none none, .proceed => some (handles, { call with doing := .nothing })
  | .released none (some (target, source)), .proceed => some (handles, call.assign target source)
  | _, _ => none

end JniCall

/-- The clients and the JNI calls that are running. -/
abbrev JniState := System Handles JniCall

inductive JniStep
  | enter
  | call (i : ℕ) (step : LeaseStep)

def step (s : JniState) : JniStep → Option JniState
  | .enter => some (s.join {})
  | .call i step => s.move i fun handles call => call.step handles step

/-! ### Entries -/

namespace HandleEntry

/-- The destruction is due that has been started and not carried out. -/
def due (entry : HandleEntry) : ℕ := entry.destroyStarted.toNat - entry.destroys

/-- A destruction has been started exactly when it is requested and no lease is
left, and it is carried out at most once. -/
structure Sound (entry : HandleEntry) : Prop where
  started : entry.destroyStarted = true ↔ entry.destroyRequested = true ∧ entry.activeCalls = 0
  once : entry.destroys ≤ entry.destroyStarted.toNat

variable {entry : HandleEntry}

theorem release_activeCalls : entry.release.1.activeCalls = entry.activeCalls - 1 := by
  unfold release
  dsimp only
  split_ifs <;> rfl

theorem Sound.release (h : entry.Sound) : entry.release.1.Sound ∧
    entry.release.1.due = entry.due + if entry.release.2 then 1 else 0 := by
  have hstarted := h.started
  have honce := h.once
  unfold HandleEntry.release
  dsimp only
  split_ifs with hlast hfalse hfalse
  · have hnone : entry.destroys = 0 := by simpa [hlast.2.2] using honce
    refine ⟨⟨iff_of_true rfl ⟨hlast.2.1, hlast.1⟩, ?_⟩, ?_⟩
    · simp [hnone]
    · simp [due, hnone, hlast.2.2]
  · exact absurd rfl hfalse
  · cases hfalse
  · refine ⟨⟨?_, honce⟩, rfl⟩
    dsimp only
    constructor
    · intro hs
      obtain ⟨hrequested, hzero⟩ := hstarted.mp hs
      exact ⟨hrequested, by omega⟩
    · rintro ⟨hrequested, hzero⟩
      by_contra hs
      exact hlast ⟨hzero, hrequested, by simpa using hs⟩

theorem Sound.requestDestroy (h : entry.Sound) : entry.requestDestroy.1.Sound ∧
    entry.requestDestroy.1.due = entry.due + if entry.requestDestroy.2 then 1 else 0 := by
  have hstarted := h.started
  have honce := h.once
  unfold HandleEntry.requestDestroy
  dsimp only
  split_ifs with hlast hfalse hfalse
  · have hnone : entry.destroys = 0 := by simpa [hlast.2] using honce
    refine ⟨⟨iff_of_true rfl ⟨rfl, hlast.1⟩, ?_⟩, ?_⟩
    · simp [hnone]
    · simp [due, hnone, hlast.2]
  · exact absurd rfl hfalse
  · cases hfalse
  · refine ⟨⟨?_, honce⟩, rfl⟩
    dsimp only
    constructor
    · intro hs
      exact ⟨rfl, (hstarted.mp hs).2⟩
    · rintro ⟨-, hzero⟩
      by_contra hs
      exact hlast ⟨hzero, by simpa using hs⟩

theorem requestDestroy_activeCalls : entry.requestDestroy.1.activeCalls = entry.activeCalls := by
  unfold requestDestroy
  dsimp only
  split_ifs <;> rfl

theorem release_destroyRequested :
    entry.release.1.destroyRequested = entry.destroyRequested := by
  unfold release
  dsimp only
  split_ifs <;> rfl

/-- A lease on an entry whose destruction is not requested. -/
theorem Sound.acquire (h : entry.Sound) (hrequested : entry.destroyRequested = false) :
    HandleEntry.Sound { entry with activeCalls := entry.activeCalls + 1 } := by
  refine ⟨?_, h.once⟩
  have hstarted := h.started
  rw [hrequested] at hstarted
  simpa [hrequested] using hstarted

theorem Sound.finalize (h : entry.Sound) (hdue : 0 < entry.due) :
    entry.finalize.Sound ∧ entry.finalize.due + 1 = entry.due := by
  have honce := h.once
  unfold due at hdue ⊢
  unfold HandleEntry.finalize
  refine ⟨⟨h.started, ?_⟩, ?_⟩ <;> dsimp only <;> omega

end HandleEntry

/-! ### The table -/

namespace Handles

/-- An entry is in the table under one handle at most, and only as long as
nobody has asked for its destruction. -/
structure WellFormed (handles : Handles) : Prop where
  bounded : ∀ value e, handles.table value = some e → e < handles.entries.length
  unique : ∀ value other e, handles.table value = some e → handles.table other = some e →
    value = other
  present : ∀ value e entry, handles.table value = some e → handles.entries[e]? = some entry →
    entry.destroyRequested = false
  sound : ∀ entry ∈ handles.entries, entry.Sound

/-- A number of the entry at a position, 0 where there is none. -/
def measure (μ : HandleEntry → ℕ) (e : ℕ) (handles : Handles) : ℕ :=
  (handles.entries[e]?.map μ).getD 0

variable {handles : Handles} {e : ℕ} {entry : HandleEntry}

theorem measure_of_get (μ : HandleEntry → ℕ) (h : handles.entries[e]? = some entry) :
    measure μ e handles = μ entry := by
  rw [measure, h]
  rfl

theorem measure_setEntry (μ : HandleEntry → ℕ) (h : handles.entries[e]? = some entry)
    (next : HandleEntry) (other : ℕ) :
    measure μ other (handles.setEntry e next) =
      if e = other then μ next else measure μ other handles := by
  obtain ⟨hlt, -⟩ := List.getElem?_eq_some_iff.mp h
  unfold measure setEntry
  dsimp only
  rw [List.getElem?_set]
  split_ifs
  · rfl
  · rfl

theorem measure_register (μ : HandleEntry → ℕ) (handle : ℤ) (resolver : Bool)
    (hnew : μ { resolver := resolver } = 0) :
    measure μ e (handles.register handle resolver) = measure μ e handles := by
  unfold measure register
  dsimp only
  rw [List.getElem?_append]
  split_ifs with hlt
  · rfl
  · rw [List.getElem?_eq_none (Nat.le_of_not_lt hlt)]
    cases e - handles.entries.length with
    | zero => exact hnew
    | succ => rfl

theorem find_eq_some {value : ℤ} (h : handles.find value = some (e, entry)) :
    handles.table value = some e ∧ handles.entries[e]? = some entry := by
  obtain ⟨e', htable, hmap⟩ := Option.bind_eq_some_iff.mp h
  obtain ⟨entry', hentry, heq⟩ := Option.map_eq_some_iff.mp hmap
  obtain ⟨rfl, rfl⟩ := Prod.mk.inj heq
  exact ⟨htable, hentry⟩

/-- An entry changes and stays in the table only if its destruction is not requested. -/
theorem WellFormed.setEntry (h : handles.WellFormed) {next : HandleEntry}
    (hsound : next.Sound) (hrequested : ∀ value, handles.table value = some e →
      next.destroyRequested = false) : (handles.setEntry e next).WellFormed where
  bounded value e' htable := by
    rw [Handles.setEntry, List.length_set]
    exact h.bounded value e' htable
  unique := h.unique
  present value e' entry' htable hentry := by
    rw [Handles.setEntry] at htable hentry
    rw [List.getElem?_set] at hentry
    split_ifs at hentry with hsame hlt
    · obtain rfl := Option.some.inj hentry
      exact hrequested value (hsame ▸ htable)
    · exact h.present value e' entry' htable hentry
  sound entry' hentry := by
    rcases List.mem_or_eq_of_mem_set hentry with hold | rfl
    · exact h.sound entry' hold
    · exact hsound

theorem WellFormed.register (h : handles.WellFormed) (handle : ℤ) (resolver : Bool) :
    (handles.register handle resolver).WellFormed := by
  have htable : ∀ value e, (handles.register handle resolver).table value = some e →
      handles.table value = some e ∨ value = handle ∧ e = handles.entries.length := by
    intro value e hvalue
    unfold Handles.register at hvalue
    dsimp only at hvalue
    split_ifs at hvalue with hsome
    · exact Or.inl hvalue
    · by_cases hsame : value = handle
      · rw [hsame, Function.update_self] at hvalue
        exact Or.inr ⟨hsame, (Option.some.inj hvalue).symm⟩
      · rw [Function.update_of_ne hsame] at hvalue
        exact Or.inl hvalue
  have hlength : (handles.register handle resolver).entries =
      handles.entries ++ [{ resolver := resolver }] := rfl
  refine ⟨?_, ?_, ?_, ?_⟩
  · intro value e hvalue
    rw [hlength, List.length_append, List.length_singleton]
    rcases htable value e hvalue with hold | ⟨-, rfl⟩
    · exact Nat.lt_succ_of_lt (h.bounded value e hold)
    · exact Nat.lt_succ_self _
  · intro value other e hvalue hother
    rcases htable value e hvalue with hold | ⟨rfl, rfl⟩
    · rcases htable other e hother with hold' | ⟨-, rfl⟩
      · exact h.unique value other e hold hold'
      · exact absurd (h.bounded value _ hold) (Nat.lt_irrefl _)
    · rcases htable other _ hother with hold' | ⟨rfl, -⟩
      · exact absurd (h.bounded other _ hold') (Nat.lt_irrefl _)
      · rfl
  · intro value e entry hvalue hentry
    rw [hlength] at hentry
    rcases htable value e hvalue with hold | ⟨-, rfl⟩
    · rw [List.getElem?_append_left (h.bounded value e hold)] at hentry
      exact h.present value e entry hold hentry
    · rw [List.getElem?_concat_length] at hentry
      obtain rfl := Option.some.inj hentry
      rfl
  · intro entry hentry
    rw [hlength] at hentry
    rcases List.mem_append.mp hentry with hold | hnew
    · exact h.sound entry hold
    · rw [List.mem_singleton.mp hnew]
      exact ⟨by simp, Nat.zero_le _⟩

theorem WellFormed.erase (h : handles.WellFormed) (value : ℤ) :
    WellFormed { handles with table := Function.update handles.table value none } := by
  have htable : ∀ other e, Function.update handles.table value none other = some e →
      handles.table other = some e := by
    intro other e hother
    by_cases hsame : other = value
    · rw [hsame, Function.update_self] at hother
      cases hother
    · rwa [Function.update_of_ne hsame] at hother
  refine ⟨?_, ?_, ?_, h.sound⟩
  · exact fun other e hother => h.bounded other e (htable other e hother)
  · exact fun a b e ha hb => h.unique a b e (htable a e ha) (htable b e hb)
  · exact fun other e entry hother => h.present other e entry (htable other e hother)

/-- An operation in terms of what it adds to the leases and to the destructions
that are due; a lease is added only where no destruction is requested. -/
structure Books (handles next : Handles) (leased taken added carried : ℕ → ℕ) : Prop where
  wellFormed : next.WellFormed
  leases : ∀ e, measure HandleEntry.activeCalls e next + taken e =
    measure HandleEntry.activeCalls e handles + leased e
  due : ∀ e, measure HandleEntry.due e next + carried e =
    measure HandleEntry.due e handles + added e
  requested : ∀ e entry, handles.entries[e]? = some entry → entry.destroyRequested = true →
    leased e = 0

/-- One for an entry and nothing for the others. -/
def only (entry : Option ℕ) (e : ℕ) : ℕ := if entry = some e then 1 else 0

@[simp] theorem only_none (e : ℕ) : only none e = 0 := rfl

@[simp] theorem only_self (e : ℕ) : only (some e) e = 1 := if_pos rfl

def nobody (_ : ℕ) : ℕ := 0

@[simp] theorem nobody_apply (e : ℕ) : nobody e = 0 := rfl

theorem Books.refl (h : handles.WellFormed) : Books handles handles nobody nobody nobody nobody :=
  ⟨h, fun _ => rfl, fun _ => rfl, fun _ _ _ _ => rfl⟩

/-- A number that may go up by one for the entry that is set. -/
theorem measure_setEntry_add (μ : HandleEntry → ℕ) (hentry : handles.entries[e]? = some entry)
    {next : HandleEntry} {more : Bool} (h : μ next = μ entry + if more then 1 else 0) (other : ℕ) :
    measure μ other (handles.setEntry e next) =
      measure μ other handles + only (if more then some e else none) other := by
  rw [measure_setEntry _ hentry]
  by_cases hsame : e = other
  · rw [if_pos hsame, h, ← hsame, measure_of_get _ hentry]
    cases more with
    | false => rfl
    | true => simp [only]
  · rw [if_neg hsame]
    cases more with
    | false => rfl
    | true => simp [only, hsame]

/-- A number that stays the same. -/
theorem measure_setEntry_same (μ : HandleEntry → ℕ) (hentry : handles.entries[e]? = some entry)
    {next : HandleEntry} (h : μ next = μ entry) (other : ℕ) :
    measure μ other (handles.setEntry e next) = measure μ other handles :=
  @measure_setEntry_add handles e entry μ hentry next false h other

/-- A number that goes down by one. -/
theorem measure_setEntry_sub (μ : HandleEntry → ℕ) (hentry : handles.entries[e]? = some entry)
    {next : HandleEntry} (h : μ next + 1 = μ entry) (other : ℕ) :
    measure μ other (handles.setEntry e next) + only (some e) other = measure μ other handles := by
  rw [measure_setEntry _ hentry]
  by_cases hsame : e = other
  · rw [if_pos hsame, ← hsame, measure_of_get _ hentry, ← h]
    simp [only]
  · rw [if_neg hsame]
    simp [only, hsame]

theorem WellFormed.acquire (h : handles.WellFormed) (value : ℤ) :
    Books handles (handles.acquire value).1 (only (handles.acquire value).2) nobody nobody
      nobody := by
  have hrefl : Books handles handles (only none) nobody nobody nobody := Books.refl h
  unfold Handles.acquire
  split_ifs
  · exact hrefl
  cases hfind : handles.find value with
  | none => exact hrefl
  | some found =>
    obtain ⟨e, entry⟩ := found
    obtain ⟨htable, hentry⟩ := find_eq_some hfind
    dsimp only
    split_ifs with hrequested
    · exact hrefl
    rw [Bool.not_eq_true] at hrequested
    have hsound := (h.sound entry (List.mem_of_getElem? hentry)).acquire hrequested
    refine ⟨h.setEntry hsound fun _ _ => hrequested, ?_, ?_, ?_⟩
    · exact @measure_setEntry_add handles e entry _ hentry _ true rfl
    · exact measure_setEntry_same _ hentry rfl
    · intro other entry' hentry' hrequested'
      rw [only, if_neg]
      intro hsame
      rw [← Option.some.inj hsame, hentry] at hentry'
      rw [← Option.some.inj hentry', hrequested] at hrequested'
      cases hrequested'

theorem WellFormed.release (h : handles.WellFormed)
    (hheld : 0 < measure HandleEntry.activeCalls e handles) :
    Books handles (handles.release e).1 nobody (only (some e)) (only (handles.release e).2)
      nobody := by
  unfold Handles.release
  cases hentry : handles.entries[e]? with
  | none =>
    rw [measure, hentry] at hheld
    exact absurd hheld (Nat.lt_irrefl 0)
  | some entry =>
    rw [measure_of_get _ hentry] at hheld
    obtain ⟨hsound, hdue⟩ := (h.sound entry (List.mem_of_getElem? hentry)).release
    refine ⟨h.setEntry hsound fun value htable => ?_, ?_, ?_, fun _ _ _ _ => rfl⟩
    · exact HandleEntry.release_destroyRequested.trans (h.present value e entry htable hentry)
    · apply measure_setEntry_sub _ hentry
      rw [HandleEntry.release_activeCalls]
      omega
    · exact measure_setEntry_add _ hentry hdue

theorem WellFormed.remove (h : handles.WellFormed) (value : ℤ) :
    Books handles (handles.remove value).1 nobody nobody (only (handles.remove value).2)
      nobody := by
  unfold Handles.remove
  cases hfind : handles.find value with
  | none => exact Books.refl h
  | some found =>
    obtain ⟨e, entry⟩ := found
    obtain ⟨htable, hentry⟩ := find_eq_some hfind
    obtain ⟨hsound, hdue⟩ := (h.sound entry (List.mem_of_getElem? hentry)).requestDestroy
    refine ⟨(h.erase value).setEntry hsound fun other hother => ?_, ?_, ?_, fun _ _ _ _ => rfl⟩
    · dsimp only at hother
      by_cases hsame : other = value
      · rw [hsame, Function.update_self] at hother
        cases hother
      · rw [Function.update_of_ne hsame] at hother
        exact absurd (h.unique other value e hother htable) hsame
    · exact measure_setEntry_same _ hentry HandleEntry.requestDestroy_activeCalls
    · exact measure_setEntry_add _ hentry hdue

theorem WellFormed.finalize (h : handles.WellFormed)
    (hdue : 0 < measure HandleEntry.due e handles) :
    Books handles (handles.finalize e) nobody nobody nobody (only (some e)) := by
  unfold Handles.finalize
  cases hentry : handles.entries[e]? with
  | none =>
    rw [measure, hentry] at hdue
    exact absurd hdue (Nat.lt_irrefl 0)
  | some entry =>
    rw [measure_of_get _ hentry] at hdue
    obtain ⟨hsound, hless⟩ := (h.sound entry (List.mem_of_getElem? hentry)).finalize hdue
    refine ⟨h.setEntry hsound fun value htable => ?_, ?_, ?_, fun _ _ _ _ => rfl⟩
    · exact h.present value e entry htable hentry
    · exact measure_setEntry_same _ hentry rfl
    · exact measure_setEntry_sub _ hentry hless

theorem WellFormed.books_register (h : handles.WellFormed) (handle : ℤ) (resolver : Bool) :
    Books handles (handles.register handle resolver) nobody nobody nobody nobody :=
  ⟨h.register handle resolver, fun _ => measure_register _ handle resolver rfl,
    fun _ => measure_register _ handle resolver rfl, fun _ _ _ _ => rfl⟩

theorem WellFormed.fetchHandle (h : handles.WellFormed) :
    Books handles handles.fetchHandle.1 nobody nobody nobody nobody :=
  ⟨⟨h.bounded, h.unique, h.present, h.sound⟩, fun _ => rfl, fun _ => rfl, fun _ _ _ _ => rfl⟩

end Handles

open Handles

/-! ### Calls -/

namespace JniCall

/-- The leases of the call on an entry. -/
def leaseCount (e : ℕ) (call : JniCall) : ℕ := total (fun lease => only lease e) call.leases

/-- Whether the call is left to finalize the entry. -/
def finalizeCount (e : ℕ) (call : JniCall) : ℕ :=
  match call.doing with
  | .released entry _ => only entry e
  | _ => 0

/-- The target of a move assignment has released what it held. -/
def Inv (call : JniCall) : Prop :=
  ∀ entry target source, call.doing = .released entry (some (target, source)) →
    target ≠ source ∧ source < call.leases.length ∧ call.leases[target]? = some none

variable {handles handles' : Handles} {call call' : JniCall}

/-- A step of a call in terms of what it books: the same in the table and in the call. -/
structure Moves (handles handles' : Handles) (call call' : JniCall)
    (leased taken added carried : ℕ → ℕ) : Prop where
  books : Books handles handles' leased taken added carried
  inv : call'.Inv
  leases : ∀ e, leaseCount e call' + taken e = leaseCount e call + leased e
  due : ∀ e, finalizeCount e call' + carried e = finalizeCount e call + added e

theorem inv_of_no_assignment
    (h : ∀ entry assignment, call.doing ≠ .released entry (some assignment)) :
    call.Inv :=
  fun entry target source hdoing => absurd hdoing (h entry (target, source))

theorem moves_release (h : handles.WellFormed) (hnothing : call.doing = .nothing)
    (hheld : ∀ e, leaseCount e call ≤ measure HandleEntry.activeCalls e handles) {lease : ℕ}
    {assignment : Option (ℕ × ℕ)}
    (hassignment : ∀ target source, assignment = some (target, source) →
      target = lease ∧ target ≠ source ∧ source < call.leases.length)
    (hstep : call.release handles lease assignment = some (handles', call')) :
    ∃ leased taken added carried, Moves handles handles' call call' leased taken added carried := by
  unfold release at hstep
  split at hstep
  · cases hstep
  · rename_i hlease
    cases hstep
    refine ⟨_, _, _, _, Books.refl h, ?_, fun _ => rfl, fun e => ?_⟩
    · rintro entry target source hdoing
      obtain ⟨-, rfl⟩ := Doing.released.inj hdoing
      obtain ⟨rfl, hne, hlt⟩ := hassignment target source rfl
      exact ⟨hne, hlt, hlease⟩
    · simp only [finalizeCount, hnothing, only_none]
  · rename_i e hlease
    cases hstep
    have hsum : ∀ other, total (fun lease => only lease other) (call.leases.set lease none) +
        only (some e) other = leaseCount other call + only none other :=
      fun other => total_set hlease none
    have hpos : 0 < measure HandleEntry.activeCalls e handles := by
      have hone := hsum e
      have hle := hheld e
      simp only [only_self, only_none] at hone
      omega
    refine ⟨_, _, _, _, h.release hpos, ?_, ?_, fun other => ?_⟩
    · rintro entry target source hdoing
      obtain ⟨-, rfl⟩ := Doing.released.inj hdoing
      obtain ⟨rfl, hne, hlt⟩ := hassignment target source rfl
      refine ⟨hne, ?_, ?_⟩
      · rwa [List.length_set]
      · rw [List.getElem?_set_self (List.getElem?_eq_some_iff.mp hlease).1]
    · exact hsum
    · simp only [finalizeCount, hnothing, nobody_apply]
      omega

/-- The move assignment keeps the number of leases, since its target is empty. -/
theorem moves_assign (h : handles.WellFormed) (hinv : call.Inv) {target source : ℕ}
    (hdoing : call.doing = .released none (some (target, source))) :
    Moves handles handles call (call.assign target source) nobody nobody nobody nobody := by
  obtain ⟨hne, hlt, htarget⟩ := hinv none target source hdoing
  refine ⟨Books.refl h, inv_of_no_assignment (fun _ _ hdo => by cases hdo), fun e => ?_,
    fun e => ?_⟩
  · have hsource : call.leases[source]? = some call.leases[source] := List.getElem?_eq_getElem hlt
    have hmoved : (call.leases.set target call.leases[source])[source]? =
        some call.leases[source] := by
      rw [List.getElem?_set_ne hne]
      exact hsource
    have hfirst := @total_set _ (fun lease => only lease e) _ _ _ htarget call.leases[source]
    have hsecond := @total_set _ (fun lease => only lease e) _ _ _ hmoved none
    unfold leaseCount assign
    dsimp only
    rw [hsource, Option.join_some]
    simp only [only_none, nobody_apply] at hfirst hsecond ⊢
    omega
  · simp only [finalizeCount, hdoing, assign, only_none]

theorem moves_start (h : handles.WellFormed) (hnothing : call.doing = .nothing)
    (hheld : ∀ e, leaseCount e call ≤ measure HandleEntry.activeCalls e handles)
    {label : LeaseStep} (hstep : call.start handles label = some (handles', call')) :
    ∃ leased taken added carried, Moves handles handles' call call' leased taken added carried := by
  have hidle : call.Inv := inv_of_no_assignment (by simp [hnothing])
  unfold start at hstep
  cases label with
  | fetchHandle =>
    cases hstep
    refine ⟨_, _, _, _, h.fetchHandle, ?_, fun _ => rfl, fun e => ?_⟩
    · refine inv_of_no_assignment fun entry assignment => ?_
      cases handles.fetchHandle.2 <;> simp
    · simp only [finalizeCount, hnothing]
      cases handles.fetchHandle.2 <;> rfl
  | acquire value =>
    cases hstep
    refine ⟨_, _, _, _, h.acquire value, inv_of_no_assignment (by simp [hnothing]), fun e => ?_,
      fun e => ?_⟩
    · unfold leaseCount
      rw [total_append, total_cons, total_nil]
      rfl
    · simp only [finalizeCount, hnothing]
  | moveConstruct source =>
    dsimp only at hstep
    split at hstep
    · cases hstep
    · rename_i entry hentry
      cases hstep
      refine ⟨_, _, _, _, Books.refl h, inv_of_no_assignment (by simp [hnothing]), fun e => ?_,
        fun e => ?_⟩
      · have hsum := @total_set _ (fun lease => only lease e) _ _ _ hentry none
        unfold leaseCount
        rw [total_append, total_cons, total_nil]
        simp only [only_none, nobody_apply] at hsum ⊢
        omega
      · simp only [finalizeCount, hnothing]
  | moveAssign target source =>
    dsimp only at hstep
    split_ifs at hstep with hlt hsame
    · cases hstep
      exact ⟨_, _, _, _, Books.refl h, hidle, fun _ => rfl, fun _ => rfl⟩
    · refine moves_release h hnothing hheld ?_ hstep
      rintro target' source' heq
      obtain ⟨rfl, rfl⟩ := Prod.mk.inj (Option.some.inj heq)
      exact ⟨rfl, hsame, hlt⟩
  | destruct lease =>
    refine moves_release h hnothing hheld ?_ hstep
    rintro target source heq
    cases heq
  | destroyClient value =>
    cases hstep
    refine ⟨_, _, _, _, h.remove value, ?_, fun _ => rfl, fun e => ?_⟩
    · refine inv_of_no_assignment fun entry assignment => ?_
      simp
    · simp only [finalizeCount, hnothing, nobody_apply]
      omega
  | register => cases hstep
  | registerFails => cases hstep
  | finalize => cases hstep
  | proceed => cases hstep

theorem moves_step (h : handles.WellFormed) (hinv : call.Inv)
    (hheld : ∀ e, leaseCount e call ≤ measure HandleEntry.activeCalls e handles)
    (hdue : ∀ e, finalizeCount e call ≤ measure HandleEntry.due e handles)
    {label : LeaseStep} (hstep : call.step handles label = some (handles', call')) :
    ∃ leased taken added carried, Moves handles handles' call call' leased taken added carried := by
  unfold step at hstep
  split at hstep
  · rename_i hdoing
    exact moves_start h hdoing hheld hstep
  · rename_i handle resolver hdoing
    cases hstep
    refine ⟨_, _, _, _, h.books_register handle resolver, inv_of_no_assignment (by simp),
      fun _ => rfl, fun e => ?_⟩
    simp only [finalizeCount, hdoing]
  · rename_i handle hdoing
    cases hstep
    refine ⟨_, _, _, _, Books.refl h, inv_of_no_assignment (by simp), fun _ => rfl, fun e => ?_⟩
    simp only [finalizeCount, hdoing]
  · rename_i e assignment hdoing
    cases hstep
    have hpos : 0 < measure HandleEntry.due e handles := by
      have hle := hdue e
      simp only [finalizeCount, hdoing, only_self] at hle
      omega
    refine ⟨_, _, _, _, h.finalize hpos, ?_, fun _ => rfl, fun other => ?_⟩
    · intro entry target source hreleased
      obtain ⟨-, rfl⟩ := Doing.released.inj hreleased
      exact hinv (some e) target source hdoing
    · simp only [finalizeCount, hdoing, only_none, nobody_apply]
      omega
  · rename_i hdoing
    cases hstep
    refine ⟨_, _, _, _, Books.refl h, inv_of_no_assignment (by simp), fun _ => rfl, fun e => ?_⟩
    simp only [finalizeCount, hdoing, only_none]
  · rename_i target source hdoing
    cases hstep
    exact ⟨_, _, _, _, moves_assign h hinv hdoing⟩
  · cases hstep

end JniCall

/-! ### Runs -/

structure Inv (s : JniState) : Prop where
  wellFormed : s.shared.WellFormed
  calls : ∀ call ∈ s.parties, call.Inv
  leases : ∀ e, s.Balanced (measure HandleEntry.activeCalls e) (JniCall.leaseCount e)
  due : ∀ e, s.Balanced (measure HandleEntry.due e) (JniCall.finalizeCount e)

variable {s s' : JniState}

/-- A step of a call and what it books. -/
theorem Inv.moves (h : Inv s) {call call' : JniCall} {handles' : Handles} {label : LeaseStep}
    (hcall : call ∈ s.parties) (hstep : call.step s.shared label = some (handles', call')) :
    ∃ leased taken added carried,
      JniCall.Moves s.shared handles' call call' leased taken added carried :=
  JniCall.moves_step h.wellFormed (h.calls call hcall) (fun e => (h.leases e).weight_le hcall)
    (fun e => (h.due e).weight_le hcall) hstep

theorem Inv.step (h : Inv s) {label : JniStep} (hstep : step s label = some s') : Inv s' := by
  cases label with
  | enter =>
    cases hstep
    refine ⟨h.wellFormed, ?_, fun e => (h.leases e).join rfl, fun e => (h.due e).join rfl⟩
    exact @System.forall_join _ _ s (fun _ => JniCall.Inv) h.calls {}
      (JniCall.inv_of_no_assignment (by simp))
  | call i m =>
    change s.move i (fun handles call => call.step handles m) = some s' at hstep
    refine ⟨?_, ?_, fun e => (h.leases e).move hstep ?_, fun e => (h.due e).move hstep ?_⟩
    · obtain ⟨call, handles', call', hcall, hmove, rfl⟩ := System.move_eq_some.mp hstep
      obtain ⟨_, _, _, _, hmoves⟩ := h.moves (List.mem_of_getElem? hcall) hmove
      exact hmoves.books.wellFormed
    · apply @System.forall_move _ _ s s' i _ (fun _ => JniCall.Inv) h.calls hstep
      intro call handles' call' hcall hmove
      obtain ⟨_, _, _, _, hmoves⟩ := h.moves hcall hmove
      exact ⟨hmoves.inv, fun _ _ hother => hother⟩
    · intro call handles' call' hcall hmove
      obtain ⟨leased, taken, _, _, hmoves⟩ := h.moves (List.mem_of_getElem? hcall) hmove
      have hbooks := hmoves.books.leases e
      have hcount := hmoves.leases e
      omega
    · intro call handles' call' hcall hmove
      obtain ⟨_, _, added, carried, hmoves⟩ := h.moves (List.mem_of_getElem? hcall) hmove
      have hbooks := hmoves.books.due e
      have hcount := hmoves.due e
      omega

/-- All the leases on an entry. -/
def heldLeases (e : ℕ) (s : JniState) : ℕ := total (JniCall.leaseCount e) s.parties

/-- No call is left to finalize the entry. -/
def Quiet (e : ℕ) (s : JniState) : Prop := ∀ call ∈ s.parties, call.finalizeCount e = 0

/-- No step adds a lease on an entry whose destruction is requested. -/
theorem Inv.leases_step (h : Inv s) {label : JniStep} (hstep : ClientLeases.step s label = some s')
    {e : ℕ} {entry : HandleEntry} (hentry : s.shared.entries[e]? = some entry)
    (hrequested : entry.destroyRequested = true) : heldLeases e s' ≤ heldLeases e s := by
  have hbefore : measure HandleEntry.activeCalls e s.shared = heldLeases e s := h.leases e
  have hafter : measure HandleEntry.activeCalls e s'.shared = heldLeases e s' :=
    (h.step hstep).leases e
  rw [← hbefore, ← hafter]
  cases label with
  | enter =>
    cases hstep
    exact le_rfl
  | call i m =>
    change s.move i (fun handles call => call.step handles m) = some s' at hstep
    obtain ⟨call, handles', call', hcall, hmove, rfl⟩ := System.move_eq_some.mp hstep
    obtain ⟨leased, taken, _, _, hmoves⟩ := h.moves (List.mem_of_getElem? hcall) hmove
    have hbooks := hmoves.books.leases e
    rw [hmoves.books.requested e entry hentry hrequested] at hbooks
    dsimp only
    omega

/-- What holds of a client that was ever registered. -/
structure Sound (s : JniState) (e : ℕ) (entry : HandleEntry) : Prop where
  counted : entry.activeCalls = heldLeases e s
  once : entry.destroys ≤ 1
  /-- Neither while it is destroyed nor afterwards is there a lease. -/
  unheld : entry.destroys ≠ 0 ∨ ¬ Quiet e s → heldLeases e s = 0
  removed : entry.destroyRequested = true → ∀ value, s.shared.table value ≠ some e
  unobtainable : entry.destroyRequested = true →
    ∀ label s', step s label = some s' → heldLeases e s' ≤ heldLeases e s
  destroyed : entry.destroyRequested = true → heldLeases e s = 0 → Quiet e s → entry.destroys = 1

theorem Inv.sound (h : Inv s) {e : ℕ} {entry : HandleEntry}
    (hentry : s.shared.entries[e]? = some entry) : Sound s e entry := by
  obtain ⟨hstarted, honce⟩ := h.wellFormed.sound entry (List.mem_of_getElem? hentry)
  have hcounted : entry.activeCalls = heldLeases e s := by
    have hleases : measure HandleEntry.activeCalls e s.shared = heldLeases e s := h.leases e
    rwa [measure_of_get _ hentry] at hleases
  have hdue : entry.due = total (JniCall.finalizeCount e) s.parties := by
    have hbalanced : measure HandleEntry.due e s.shared =
        total (JniCall.finalizeCount e) s.parties := h.due e
    rwa [measure_of_get _ hentry] at hbalanced
  have hbool := entry.destroyStarted.toNat_le
  refine ⟨hcounted, honce.trans hbool, fun hending => ?_, fun hrequested value htable => ?_,
    fun hrequested label s' hstep => h.leases_step hstep hentry hrequested,
    fun hrequested hnone hquiet => ?_⟩
  · have hs : entry.destroyStarted = true := by
      by_contra hs
      rw [Bool.not_eq_true] at hs
      rw [HandleEntry.due, hs] at hdue
      rw [hs] at honce
      rcases hending with hdestroys | hpending
      · exact hdestroys (Nat.le_zero.mp honce)
      · refine hpending fun call hcall => ?_
        have hle : call.finalizeCount e ≤ total (JniCall.finalizeCount e) s.parties :=
          weight_le_total hcall
        rw [← hdue] at hle
        simpa using hle
    rw [← hcounted]
    exact (hstarted.mp hs).2
  · rw [h.wellFormed.present value e entry htable hentry] at hrequested
    cases hrequested
  · have hs := hstarted.mpr ⟨hrequested, hcounted.trans hnone⟩
    have hzero : total (JniCall.finalizeCount e) s.parties = 0 := by
      unfold total
      rw [List.sum_eq_zero]
      intro n hn
      obtain ⟨call, hcall, rfl⟩ := List.mem_map.mp hn
      exact hquiet call hcall
    rw [hzero, HandleEntry.due, hs] at hdue
    rw [hs] at honce
    simp only [Bool.toNat_true] at hdue honce
    omega

/-- In every run of any number of JNI calls: the leases on a client are counted,
it is destroyed at most once and not while there is a lease, and when its
destruction was requested, the last lease is released and nobody is left to
destroy it, it has been destroyed. -/
theorem run_sound {steps : List JniStep} {s : JniState}
    (hrun : Transition.run step ⟨{}, []⟩ steps = some s) {e : ℕ} {entry : HandleEntry}
    (hentry : s.shared.entries[e]? = some entry) : Sound s e entry := by
  have hinv : Inv s := by
    apply Transition.run_invariant_of_step _ hrun
    · refine ⟨⟨?_, ?_, ?_, ?_⟩, ?_, fun _ => rfl, fun _ => rfl⟩ <;> simp
    · intro t label t' h hstep
      exact h.step hstep
  exact hinv.sound hentry

/-- A client is made, leased by two calls, one of which moves its lease, and
destroyed; the call that releases the last lease finalizes it. -/
def leaseSteps : List JniStep :=
  [.enter, .call 0 .fetchHandle, .call 0 (.register true),
    .enter, .call 1 (.acquire 1), .enter, .call 2 (.acquire 1), .call 2 (.acquire 2),
    .call 2 (.moveAssign 1 0), .call 2 .proceed, .enter, .call 3 (.destroyClient 1),
    .call 3 .proceed, .call 1 (.destruct 0), .call 1 .proceed, .call 2 (.destruct 1),
    .call 2 .finalize, .call 2 .proceed]

def destroyedEntry : HandleEntry where
  resolver := false
  destroyRequested := true
  destroyStarted := true
  destroys := 1

theorem run_sound_released :
    ∃ s, Transition.run step ⟨{}, []⟩ leaseSteps = some s ∧
      s.shared.entries[0]? = some destroyedEntry ∧ Sound s 0 destroyedEntry := by
  obtain ⟨s, hrun, hentry⟩ := Option.map_eq_some_iff.mp
    (show (Transition.run step ⟨{}, []⟩ leaseSteps).map (fun s => s.shared.entries[0]?) =
      some (some destroyedEntry) by decide +kernel)
  exact ⟨s, hrun, hentry, run_sound hrun hentry⟩

end ClientLeases

end KatHttp3
