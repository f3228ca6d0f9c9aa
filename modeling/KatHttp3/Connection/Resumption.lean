import KatHttp3.Library.LastWrite
import KatHttp3.Library.Parties
import KatHttp3.Library.Transition
import KatHttp3.Text.Str

/-!
# Tickets and tokens

What a `TlsClientContext` keeps for later connections: per server a session with the
transport parameters that go with it, and per server, network and address family the
token of the last NEW_TOKEN frame. A session is an object with a reference count, which
the entries of the cache and the SSL objects of the connections share. A connection to
the next endpoint makes a new SSL object in place of the old one, which is not freed.
-/

namespace KatHttp3

open Parties WeightedList

/-- `std::to_string` of an int. -/
def Str.ofInt : ℤ → Str
  | .ofNat n => Str.ofNat n
  | .negSucc n => '-' :: Str.ofNat (n + 1)

def newTokenKey (serverName : Str) (networkHandle : ℕ) (family : ℤ) : Str :=
  serverName ++ '|' :: (Str.ofNat networkHandle ++ '|' :: Str.ofInt family)

/-- The slot of a server. It is not left without a session. -/
structure CachedResumption where
  session : ℕ
  transportParams : List UInt8
  deriving DecidableEq

/-- What `acquire_resumption` returns, with a reference that the caller owns. -/
structure ResumptionState where
  session : Option ℕ := none
  transportParams : List UInt8 := []
  deriving DecidableEq

def kMaxNewTokenBytes : ℕ := 4096

/-- An `SSL`, with the session that it refers to. -/
structure SslObject where
  session : Option ℕ
  deriving DecidableEq

/-- A place that may hold a reference to the session. -/
def reference (place : Option ℕ) (session : ℕ) : ℕ := if place = some session then 1 else 0

structure TlsClientContext where
  resumptions : AList fun _ : Str => CachedResumption := ∅
  newTokens : AList fun _ : Str => List UInt8 := ∅
  /-- The reference counts of the sessions. -/
  references : ℕ → ℕ := fun _ => 0
  /-- The writes of `cache_resumption`, the newest first. -/
  cachedResumptions : List (Str × CachedResumption) := []
  /-- The SSL objects that nothing points to any more. -/
  abandoned : List SslObject := []

namespace TlsClientContext

variable (context : TlsClientContext)

/-- `SSL_SESSION_up_ref`. -/
def retain (place : Option ℕ) : TlsClientContext :=
  { context with references := fun session => context.references session + reference place session }

/-- `SSL_SESSION_free`. -/
def free (place : Option ℕ) : TlsClientContext :=
  { context with references := fun session => context.references session - reference place session }

/-- Nothing points to an SSL object any more. -/
def abandon (ssl : Option SslObject) : TlsClientContext :=
  { context with abandoned := context.abandoned ++ ssl.toList }

/-- `acquire_resumption`, whose `SSL_SESSION_up_ref` may fail. -/
def acquireResumption (serverName : Str) (upRef : Bool) : TlsClientContext × ResumptionState :=
  match context.resumptions.lookup serverName with
  | none => (context, {})
  | some slot =>
    if upRef then (context.retain (some slot.session), ⟨some slot.session, slot.transportParams⟩)
    else (context, {})

/-- `cache_resumption`, with the session of `SSL_get1_session`. -/
def cacheResumption (serverName : Str) (session : Option ℕ) (transportParams : List UInt8) :
    TlsClientContext :=
  if serverName = [] then context
  else
    match session with
    | none => context
    | some session =>
      let slot := ⟨session, transportParams⟩
      let context := context.retain (some session)
      let context := context.free ((context.resumptions.lookup serverName).map
        CachedResumption.session)
      { context with
        resumptions := context.resumptions.insert serverName slot
        cachedResumptions := (serverName, slot) :: context.cachedResumptions }

def acquireNewToken (serverName : Str) (networkHandle : ℕ) (family : ℤ) : List UInt8 :=
  (context.newTokens.lookup (newTokenKey serverName networkHandle family)).getD []

def cacheNewToken (serverName : Str) (networkHandle : ℕ) (family : ℤ) (token : List UInt8) :
    TlsClientContext :=
  if serverName = [] ∨ token = [] ∨ kMaxNewTokenBytes < token.length then context
  else
    { context with
      newTokens := context.newTokens.insert (newTokenKey serverName networkHandle family) token }

end TlsClientContext

/-! ### The TLS sessions of the connections -/

/-- A `TlsClientSession`, and the state that `setup_connection` has acquired for it and not yet
passed to `init`. -/
structure TlsClientSession where
  serverName : Str
  resumption : Option ResumptionState := none
  ssl : Option SslObject := none
  transportParams : List UInt8 := []
  deriving DecidableEq

inductive TlsAction
  | acquire (upRef : Bool)
  /-- `init`, in which `SSL_new` and `SSL_set_session` may fail. -/
  | init (created resumed : Bool)
  /-- The handshake or a ticket gives the SSL object another session. -/
  | establish (session : ℕ)
  | setResumptionTransportParams (transportParams : List UInt8)
  /-- The destructor. -/
  | destroy
  deriving DecidableEq

/-- An action that sets the SSL object of the TLS session. -/
def TlsAction.sets : TlsAction → Bool
  | .init _ _ => true
  | _ => false

namespace TlsClientSession

def advance (action : TlsAction) (context : TlsClientContext) (tls : TlsClientSession) :
    Option (TlsClientContext × TlsClientSession) :=
  match action, tls.resumption, tls.ssl with
  | .acquire upRef, none, _ =>
    let (context, resumption) := context.acquireResumption tls.serverName upRef
    some (context, { tls with resumption := some resumption })
  | .init created resumed, some resumption, old =>
    -- the pointer is overwritten, also where `SSL_new` fails
    let context := context.abandon old
    if created then
      let session := if resumed then resumption.session else none
      some ((context.retain session).free resumption.session,
        { tls with resumption := none, ssl := some ⟨session⟩ })
    else some (context.free resumption.session, { tls with resumption := none, ssl := none })
  | .establish session, _, some old =>
    -- a session that OpenSSL makes has no other reference than that of its SSL object
    if context.references session = 0 then
      some ((context.retain (some session)).free old.session,
        { tls with ssl := some ⟨some session⟩ })
    else none
  | .setResumptionTransportParams transportParams, _, _ => some (context, { tls with transportParams })
  | .destroy, none, some old =>
    some ((context.cacheResumption tls.serverName old.session tls.transportParams).free old.session,
      { tls with ssl := none, transportParams := [] })
  | _, _, _ => none

/-- The session that has been acquired and not passed on. -/
def acquired (tls : TlsClientSession) : Option ℕ := tls.resumption.bind ResumptionState.session

/-- The session that the SSL object refers to. -/
def attached (tls : TlsClientSession) : Option ℕ := tls.ssl.bind SslObject.session

/-- How many references to the session it holds. -/
def held (tls : TlsClientSession) (session : ℕ) : ℕ :=
  reference tls.acquired session + reference tls.attached session

end TlsClientSession

abbrev TlsSystem := System TlsClientContext TlsClientSession

inductive TlsStep
  | connect (serverName : Str)
  | tls (i : ℕ) (action : TlsAction)
  | newToken (serverName : Str) (networkHandle : ℕ) (family : ℤ) (token : List UInt8)
  deriving DecidableEq

namespace TlsSystem

def initial : TlsSystem := ⟨{}, []⟩

def step (s : TlsSystem) : TlsStep → Option TlsSystem
  | .connect serverName => some (s.join { serverName := serverName })
  | .tls i action => s.move i (TlsClientSession.advance action)
  | .newToken serverName networkHandle family token =>
    some { s with shared := s.shared.cacheNewToken serverName networkHandle family token }

end TlsSystem

/-! ### The keys of the tokens -/

namespace Str

theorem bar_notMem_ofNat (n : ℕ) : '|' ∉ Str.ofNat n := by
  intro hmem
  have hdigit : ('|').isDigit = true := Nat.isDigit_of_mem_toDigits (by omega) (by omega) hmem
  exact absurd hdigit (by decide)

theorem bar_notMem_ofInt (n : ℤ) : '|' ∉ Str.ofInt n := by
  cases n with
  | ofNat n => exact bar_notMem_ofNat n
  | negSucc n =>
    intro hmem
    rcases List.mem_cons.mp hmem with hsign | hdigits
    · exact absurd hsign (by decide)
    · exact bar_notMem_ofNat _ hdigits

theorem decimal_ofNat (n : ℕ) : decimal (Str.ofNat n) = n := Nat.ofDigitChars_ten_toDigits

theorem ofInt_injective : Function.Injective Str.ofInt := by
  have hsign : ∀ m n : ℕ, '-' :: Str.ofNat m ≠ Str.ofNat n := by
    intro m n heq
    have hmem : '-' ∈ Str.ofNat n := heq ▸ List.mem_cons_self
    have hdigit : ('-').isDigit = true := Nat.isDigit_of_mem_toDigits (by omega) (by omega) hmem
    exact absurd hdigit (by decide)
  intro m n heq
  cases m with
  | ofNat m =>
    cases n with
    | ofNat n =>
      have hsame := congrArg decimal heq
      simp only [Str.ofInt, decimal_ofNat] at hsame
      rw [hsame]
    | negSucc n => exact absurd heq.symm (hsign _ _)
  | negSucc m =>
    cases n with
    | ofNat n => exact absurd heq (hsign _ _)
    | negSucc n =>
      have hsame := congrArg decimal (List.cons.inj heq).2
      rw [decimal_ofNat, decimal_ofNat, Nat.add_right_cancel_iff] at hsame
      rw [hsame]

/-- What stands behind the last bar is read off with what stands before it. -/
theorem append_bar_inj {s s' t t' : Str} (ht : '|' ∉ t) (ht' : '|' ∉ t')
    (h : s ++ '|' :: t = s' ++ '|' :: t') : s = s' ∧ t = t' := by
  have hlast := rfind_append_cons (s := s) ht
  rw [h, rfind_append_cons ht'] at hlast
  obtain ⟨hs, hcons⟩ := List.append_inj h (Option.some.inj hlast).symm
  exact ⟨hs, (List.cons.inj hcons).2⟩

end Str

/-- A server name may have bars itself, so the fields are read from the end. -/
theorem newTokenKey_injective :
    Function.Injective fun name : Str × ℕ × ℤ => newTokenKey name.1 name.2.1 name.2.2 := by
  rintro ⟨server, network, family⟩ ⟨server', network', family'⟩ heq
  dsimp only [newTokenKey] at heq
  rw [← List.cons_append, ← List.append_assoc, ← List.cons_append, ← List.append_assoc] at heq
  obtain ⟨hfront, hfamily⟩ :=
    Str.append_bar_inj (Str.bar_notMem_ofInt _) (Str.bar_notMem_ofInt _) heq
  obtain ⟨hserver, hnetwork⟩ :=
    Str.append_bar_inj (Str.bar_notMem_ofNat _) (Str.bar_notMem_ofNat _) hfront
  have hsame := congrArg Str.decimal hnetwork
  rw [Str.decimal_ofNat, Str.decimal_ofNat] at hsame
  rw [hserver, hsame, Str.ofInt_injective hfamily]

/-! ### The reference counts -/

namespace TlsClientContext

variable (context : TlsClientContext)

/-- How many slots hold a session. -/
def slots (session : ℕ) : ℕ :=
  LastWrite.weigh (fun slot => reference (some slot.session) session) context.resumptions

@[simp] theorem retain_references (place : Option ℕ) (session : ℕ) :
    (context.retain place).references session =
      context.references session + reference place session := rfl

@[simp] theorem free_references (place : Option ℕ) (session : ℕ) :
    (context.free place).references session =
      context.references session - reference place session := rfl

@[simp] theorem slots_retain (place : Option ℕ) (session : ℕ) :
    (context.retain place).slots session = context.slots session := rfl

@[simp] theorem slots_free (place : Option ℕ) (session : ℕ) :
    (context.free place).slots session = context.slots session := rfl

/-- How many abandoned SSL objects refer to a session. -/
def leaked (session : ℕ) : ℕ := total (fun ssl => reference ssl.session session) context.abandoned

@[simp] theorem leaked_retain (place : Option ℕ) (session : ℕ) :
    (context.retain place).leaked session = context.leaked session := rfl

@[simp] theorem leaked_free (place : Option ℕ) (session : ℕ) :
    (context.free place).leaked session = context.leaked session := rfl

@[simp] theorem abandon_references (ssl : Option SslObject) (session : ℕ) :
    (context.abandon ssl).references session = context.references session := rfl

@[simp] theorem slots_abandon (ssl : Option SslObject) (session : ℕ) :
    (context.abandon ssl).slots session = context.slots session := rfl

@[simp] theorem leaked_abandon (ssl : Option SslObject) (session : ℕ) :
    (context.abandon ssl).leaked session =
      context.leaked session + reference (ssl.bind SslObject.session) session := by
  rw [leaked, leaked, abandon, total_append]
  cases ssl <;> rfl

/-- Acquiring a session takes one reference, which the caller owns. -/
theorem acquireResumption_references (serverName : Str) (upRef : Bool) (session : ℕ) :
    (context.acquireResumption serverName upRef).1.references session =
        context.references session +
          reference (context.acquireResumption serverName upRef).2.session session ∧
      (context.acquireResumption serverName upRef).1.resumptions = context.resumptions ∧
      (context.acquireResumption serverName upRef).1.abandoned = context.abandoned := by
  unfold acquireResumption
  split
  · exact ⟨rfl, rfl, rfl⟩
  · split_ifs
    · exact ⟨rfl, rfl, rfl⟩
    · exact ⟨rfl, rfl, rfl⟩

/-- Caching a session is nothing that the SSL objects notice. -/
theorem cacheResumption_abandoned (serverName : Str) (session : Option ℕ)
    (transportParams : List UInt8) :
    (context.cacheResumption serverName session transportParams).abandoned = context.abandoned := by
  unfold cacheResumption
  split_ifs
  · rfl
  · cases session <;> rfl

/-- Caching a session takes a reference for the slot, and gives that of the slot back. -/
theorem cacheResumption_references (serverName : Str) (place : Option ℕ)
    (transportParams : List UInt8) (session : ℕ)
    (hslots : context.slots session ≤ context.references session) :
    (context.cacheResumption serverName place transportParams).references session +
        context.slots session =
      context.references session +
        (context.cacheResumption serverName place transportParams).slots session := by
  unfold cacheResumption
  split_ifs
  · rfl
  · cases place with
    | none => rfl
    | some new =>
      let weight : CachedResumption → ℕ := fun slot => reference (some slot.session) session
      let old := (context.resumptions.lookup serverName).map CachedResumption.session
      have hold : LastWrite.weightAt weight context.resumptions serverName =
          reference old session := by
        unfold LastWrite.weightAt old
        cases context.resumptions.lookup serverName <;> rfl
      have hle := LastWrite.weightAt_le weight context.resumptions serverName
      have hinsert := LastWrite.weigh_insert weight context.resumptions serverName
        ⟨new, transportParams⟩
      rw [hold] at hle hinsert
      change LastWrite.weigh weight context.resumptions ≤ _ at hslots
      change context.references session + reference (some new) session - reference old session +
          LastWrite.weigh weight context.resumptions = context.references session +
        LastWrite.weigh weight (context.resumptions.insert serverName ⟨new, transportParams⟩)
      change _ = _ + reference (some new) session at hinsert
      omega

/-! ### The contents of the caches -/

theorem acquireResumption_caches (serverName : Str) (upRef : Bool) :
    (context.acquireResumption serverName upRef).1.newTokens = context.newTokens ∧
      (context.acquireResumption serverName upRef).1.resumptions = context.resumptions ∧
      (context.acquireResumption serverName upRef).1.cachedResumptions =
        context.cachedResumptions := by
  unfold acquireResumption
  split
  · exact ⟨rfl, rfl, rfl⟩
  · split_ifs <;> exact ⟨rfl, rfl, rfl⟩

theorem cacheResumption_caches (serverName : Str) (session : Option ℕ)
    (transportParams : List UInt8) :
    (context.cacheResumption serverName session transportParams).newTokens = context.newTokens ∧
      (LastWrite.Holds (fun name => name) context.resumptions context.cachedResumptions →
        LastWrite.Holds (fun name => name)
          (context.cacheResumption serverName session transportParams).resumptions
          (context.cacheResumption serverName session transportParams).cachedResumptions) := by
  unfold cacheResumption
  split_ifs
  · exact ⟨rfl, id⟩
  · cases session with
    | none => exact ⟨rfl, id⟩
    | some session => exact ⟨rfl, fun h => h.insert (fun _ _ heq => heq) serverName _⟩

end TlsClientContext

namespace TlsClientSession

variable {context context' : TlsClientContext} {tls tls' : TlsClientSession} {action : TlsAction}

/-- An action books in the reference counts what it changes of the slots, of its own references
and of the abandoned ones. -/
theorem advance_references (hadvance : tls.advance action context = some (context', tls'))
    (session : ℕ)
    (hheld : context.slots session + tls.held session + context.leaked session ≤
      context.references session) :
    context'.references session + context.slots session + tls.held session +
        context.leaked session =
      context.references session + context'.slots session + tls'.held session +
        context'.leaked session := by
  unfold advance at hadvance
  split at hadvance
  · rename_i upRef hfree
    obtain ⟨hreferences, hslots, habandoned⟩ :=
      context.acquireResumption_references tls.serverName upRef session
    generalize context.acquireResumption tls.serverName upRef = result
      at hreferences hslots habandoned hadvance
    obtain ⟨acquired, resumption⟩ := result
    dsimp only at hreferences hslots habandoned
    cases hadvance
    have hbefore : tls.held session = reference tls.attached session := by
      rw [held, TlsClientSession.acquired, hfree]
      exact Nat.zero_add _
    have hsameSlots : context'.slots session = context.slots session := by
      rw [TlsClientContext.slots, hslots, TlsClientContext.slots]
    have hsameLeaked : context'.leaked session = context.leaked session := by
      rw [TlsClientContext.leaked, habandoned, TlsClientContext.leaked]
    rw [hreferences, hsameSlots, hsameLeaked, hbefore]
    change _ = _ + (reference resumption.session session + reference tls.attached session) + _
    omega
  · rename_i created resumed resumption hgiven
    have hbefore : tls.held session =
        reference resumption.session session + reference tls.attached session := by
      rw [held, TlsClientSession.acquired, hgiven]
      rfl
    have hleaked : (context.abandon tls.ssl).leaked session =
        context.leaked session + reference tls.attached session :=
      context.leaked_abandon tls.ssl session
    dsimp only at hadvance
    -- whether the session is resumed or not, the new SSL object takes one reference to its own
    generalize (if resumed then resumption.session else none) = given at hadvance
    split_ifs at hadvance
    · cases hadvance
      simp only [TlsClientContext.free_references, TlsClientContext.retain_references,
        TlsClientContext.abandon_references, TlsClientContext.slots_free,
        TlsClientContext.slots_retain, TlsClientContext.slots_abandon, TlsClientContext.leaked_free,
        TlsClientContext.leaked_retain, hleaked]
      change _ = _ + (0 + reference given session) + _
      omega
    · cases hadvance
      simp only [TlsClientContext.free_references, TlsClientContext.abandon_references,
        TlsClientContext.slots_free, TlsClientContext.slots_abandon, TlsClientContext.leaked_free,
        hleaked]
      change _ = _ + (0 + 0) + _
      omega
  · rename_i new old hold
    have hbefore : tls.held session =
        reference tls.acquired session + reference old.session session := by
      rw [held, attached, hold]
      rfl
    split_ifs at hadvance
    cases hadvance
    change (_ + reference (some new) session - reference old.session session) +
      context.slots session + _ + context.leaked session = context.references session +
        context.slots session + (reference tls.acquired session + reference (some new) session) +
          context.leaked session
    omega
  · cases hadvance
    rfl
  · rename_i old hfree hold
    have hbefore : tls.held session = 0 + reference old.session session := by
      rw [held, TlsClientSession.acquired, hfree, attached, hold]
      rfl
    have hcached := context.cacheResumption_references tls.serverName old.session
      tls.transportParams session (by omega)
    have habandoned := context.cacheResumption_abandoned tls.serverName old.session
      tls.transportParams
    cases hadvance
    rw [TlsClientContext.leaked_free, TlsClientContext.leaked, TlsClientContext.leaked, habandoned]
    change (_ - reference old.session session) + _ + _ + _ = _ +
      (context.cacheResumption tls.serverName old.session tls.transportParams).slots session +
        (reference tls.acquired session + 0) + _
    rw [TlsClientSession.acquired, hfree]
    change _ = _ + _ + (0 + 0) + _
    rw [TlsClientContext.leaked] at hheld
    omega
  · cases hadvance

/-- What an action does to the two caches. -/
theorem advance_caches (hadvance : tls.advance action context = some (context', tls')) :
    context'.newTokens = context.newTokens ∧
      (LastWrite.Holds (fun name => name) context.resumptions context.cachedResumptions →
        LastWrite.Holds (fun name => name) context'.resumptions context'.cachedResumptions) := by
  unfold advance at hadvance
  split at hadvance
  · rename_i upRef hfree
    have hacquired := context.acquireResumption_caches tls.serverName upRef
    generalize context.acquireResumption tls.serverName upRef = result at hacquired hadvance
    obtain ⟨acquired, resumption⟩ := result
    obtain ⟨htokens, hresumptions, hwrites⟩ := hacquired
    cases hadvance
    exact ⟨htokens, fun h => by rw [hresumptions, hwrites]; exact h⟩
  · dsimp only at hadvance
    split_ifs at hadvance
    all_goals
      cases hadvance
      exact ⟨rfl, id⟩
  · split_ifs at hadvance
    cases hadvance
    exact ⟨rfl, id⟩
  · cases hadvance
    exact ⟨rfl, id⟩
  · rename_i old hfree hold
    obtain ⟨htokens, hholds⟩ :=
      context.cacheResumption_caches tls.serverName old.session tls.transportParams
    cases hadvance
    exact ⟨htokens, hholds⟩
  · cases hadvance

/-- An action abandons an SSL object if and only if it is an `init` where there is one. -/
theorem advance_abandoned (hadvance : tls.advance action context = some (context', tls')) :
    context'.abandoned = context.abandoned ++ if action.sets then tls.ssl.toList else [] := by
  unfold advance at hadvance
  split at hadvance
  · rename_i upRef hfree
    obtain ⟨-, -, habandoned⟩ := context.acquireResumption_references tls.serverName upRef 0
    generalize context.acquireResumption tls.serverName upRef = result at habandoned hadvance
    cases hadvance
    exact habandoned.trans (List.append_nil _).symm
  · dsimp only at hadvance
    split_ifs at hadvance
    all_goals
      cases hadvance
      rfl
  · split_ifs at hadvance
    cases hadvance
    exact (List.append_nil _).symm
  · cases hadvance
    exact (List.append_nil _).symm
  · cases hadvance
    exact (context.cacheResumption_abandoned _ _ _).trans (List.append_nil _).symm
  · cases hadvance

end TlsClientSession

namespace TlsSystem

/-- Every reference to a session is that of a slot, of a TLS session or of an SSL object that has
been abandoned. -/
def Counted (s : TlsSystem) : Prop :=
  ∀ session, s.shared.references session =
    s.shared.slots session + total (fun tls => tls.held session) s.parties +
      s.shared.leaked session

variable {s s' : TlsSystem}

theorem counted_move (h : s.Counted) {i : ℕ} {action : TlsAction}
    (hstep : s.move i (TlsClientSession.advance action) = some s') : s'.Counted := by
  obtain ⟨tls, context, tls', hget, hadvance, rfl⟩ := System.move_eq_some.mp hstep
  intro session
  have hall := h session
  have hone : tls.held session ≤
      total (fun tls : TlsClientSession => tls.held session) s.parties :=
    @weight_le_total _ (fun tls : TlsClientSession => tls.held session) _ _
      (List.mem_of_getElem? hget)
  have hsum : total (fun tls : TlsClientSession => tls.held session) (s.parties.set i tls') +
      tls.held session =
        total (fun tls : TlsClientSession => tls.held session) s.parties + tls'.held session :=
    total_set hget tls'
  have hbooked := TlsClientSession.advance_references hadvance session (by omega)
  dsimp only
  omega

theorem counted_step (h : s.Counted) (step : TlsStep) (hstep : s.step step = some s') :
    s'.Counted := by
  cases step with
  | connect serverName =>
    cases hstep
    intro session
    rw [System.join, total_append]
    exact h session
  | tls i action => exact counted_move h hstep
  | newToken serverName networkHandle family token =>
    cases hstep
    intro session
    dsimp only [TlsClientContext.cacheNewToken]
    split_ifs <;> exact h session

/-! ### What is abandoned -/

/-- A step that does not set up a connection over the one that its TLS session still has. -/
def Spares (s : TlsSystem) : TlsStep → Prop
  | .tls i action => ∀ tls ∈ s.parties[i]?, action.sets → tls.ssl = none
  | .connect _ | .newToken _ _ _ _ => True

instance : ∀ (s : TlsSystem) (step : TlsStep), Decidable (Spares s step)
  | s, .tls i action =>
    inferInstanceAs (Decidable (∀ tls ∈ s.parties[i]?, action.sets → tls.ssl = none))
  | _, .connect _ | _, .newToken _ _ _ _ => inferInstanceAs (Decidable True)

theorem abandoned_step {step : TlsStep} (hstep : s.step step = some s') :
    Spares s step ↔ s'.shared.abandoned = s.shared.abandoned := by
  cases step with
  | connect serverName =>
    cases hstep
    exact ⟨fun _ => rfl, fun _ => trivial⟩
  | tls i action =>
    obtain ⟨tls, context, tls', hget, hadvance, rfl⟩ := System.move_eq_some.mp hstep
    rw [TlsClientSession.advance_abandoned hadvance, List.append_right_eq_self]
    change (∀ tls ∈ s.parties[i]?, action.sets → tls.ssl = none) ↔ _
    rw [hget]
    cases action.sets
    · simp
    · simp
  | newToken serverName networkHandle family token =>
    cases hstep
    refine ⟨fun _ => ?_, fun _ => trivial⟩
    unfold TlsClientContext.cacheNewToken
    split_ifs <;> rfl

/-- What is abandoned stays so. -/
theorem abandoned_isPrefix {step : TlsStep} (hstep : s.step step = some s') :
    s.shared.abandoned <+: s'.shared.abandoned := by
  cases step with
  | connect serverName =>
    cases hstep
    exact List.prefix_rfl
  | tls i action =>
    obtain ⟨tls, context, tls', -, hadvance, rfl⟩ := System.move_eq_some.mp hstep
    rw [TlsClientSession.advance_abandoned hadvance]
    exact List.prefix_append _ _
  | newToken serverName networkHandle family token =>
    cases hstep
    unfold TlsClientContext.cacheNewToken
    split_ifs <;> exact List.prefix_rfl

theorem abandoned_isPrefix_run {steps : List TlsStep}
    (hrun : Transition.run step s steps = some s') :
    s.shared.abandoned <+: s'.shared.abandoned := by
  induction steps generalizing s with
  | nil =>
    cases hrun
    exact List.prefix_rfl
  | cons label steps ih =>
    obtain ⟨next, hstep, hrest⟩ := Transition.run_cons.mp hrun
    exact (abandoned_isPrefix hstep).trans (ih hrest)

/-- The condition of the single steps is exact for the whole run. -/
theorem abandoned_run {steps : List TlsStep} (hrun : Transition.run step s steps = some s')
    (h : s.shared.abandoned = []) :
    Transition.Meets step Spares s steps ↔ s'.shared.abandoned = [] := by
  induction steps generalizing s with
  | nil =>
    cases hrun
    exact ⟨fun _ => h, fun _ => trivial⟩
  | cons label steps ih =>
    obtain ⟨next, hstep, hrest⟩ := Transition.run_cons.mp hrun
    have hspares := abandoned_step hstep
    rw [Transition.meets_cons hstep, hspares, h]
    constructor
    · rintro ⟨hnext, hmeets⟩
      exact (ih hrest hnext).mp hmeets
    · intro hlast
      have hkept := abandoned_isPrefix_run hrest
      rw [hlast] at hkept
      have hnext := List.prefix_nil.mp hkept
      exact ⟨hnext, (ih hrest hnext).mpr hlast⟩

end TlsSystem

/-! ### What is acquired -/

/-- The token that a step caches, with its server, its network and its address family. -/
def TlsStep.token? : TlsStep → Option ((Str × ℕ × ℤ) × List UInt8)
  | .newToken serverName networkHandle family token =>
    if serverName = [] ∨ token = [] ∨ kMaxNewTokenBytes < token.length then none
    else some ((serverName, networkHandle, family), token)
  | _ => none

namespace TlsSystem

variable {s s' : TlsSystem}

/-- The cache has the last token of every server, network and address family. -/
def Tokens (writes : List ((Str × ℕ × ℤ) × List UInt8)) (s : TlsSystem) : Prop :=
  LastWrite.Holds (fun name : Str × ℕ × ℤ => newTokenKey name.1 name.2.1 name.2.2)
    s.shared.newTokens writes

theorem tokens_initial : initial.Tokens [] := LastWrite.holds_empty _

theorem tokens_step {writes : List ((Str × ℕ × ℤ) × List UInt8)} (h : s.Tokens writes)
    {step : TlsStep} (hstep : s.step step = some s') :
    s'.Tokens (step.token?.toList ++ writes) := by
  cases step with
  | connect serverName =>
    cases hstep
    exact h
  | tls i action =>
    obtain ⟨tls, context, tls', -, hadvance, rfl⟩ := System.move_eq_some.mp hstep
    unfold Tokens
    rw [(TlsClientSession.advance_caches hadvance).1]
    exact h
  | newToken serverName networkHandle family token =>
    cases hstep
    unfold TlsClientContext.cacheNewToken TlsStep.token?
    dsimp only
    split_ifs
    · exact h
    · exact h.insert newTokenKey_injective (serverName, networkHandle, family) token

theorem tokens_run {writes : List ((Str × ℕ × ℤ) × List UInt8)} {steps : List TlsStep}
    (h : s.Tokens writes) (hrun : Transition.run step s steps = some s') :
    s'.Tokens ((steps.filterMap TlsStep.token?).reverse ++ writes) := by
  induction steps generalizing s writes with
  | nil =>
    cases hrun
    exact h
  | cons label steps ih =>
    obtain ⟨next, hstep, hrest⟩ := Transition.run_cons.mp hrun
    have hnext := ih (tokens_step h hstep) hrest
    cases hlabel : label.token? with
    | none =>
      rw [hlabel] at hnext
      rw [List.filterMap_cons_none hlabel]
      exact hnext
    | some write =>
      rw [hlabel] at hnext
      rw [List.filterMap_cons_some hlabel, List.reverse_cons, List.append_assoc]
      exact hnext

theorem resumptions_step
    (h : LastWrite.Holds (fun name => name) s.shared.resumptions s.shared.cachedResumptions)
    (step : TlsStep) (hstep : s.step step = some s') :
    LastWrite.Holds (fun name => name) s'.shared.resumptions s'.shared.cachedResumptions := by
  cases step with
  | connect serverName =>
    cases hstep
    exact h
  | tls i action =>
    obtain ⟨tls, context, tls', -, hadvance, rfl⟩ := System.move_eq_some.mp hstep
    exact (TlsClientSession.advance_caches hadvance).2 h
  | newToken serverName networkHandle family token =>
    cases hstep
    unfold TlsClientContext.cacheNewToken
    split_ifs <;> exact h

/-- In every run of connections, a token is only ever given out for the server, the network and
the address family that it was the last one for, a session only with the transport parameters
that were cached with it, and the references to a session are those that are in use and those
of the abandoned SSL objects, of which there is none as long as no connection is set up over a
live one. -/
theorem run_acquires {steps : List TlsStep}
    (hrun : Transition.run step initial steps = some s) :
    (∀ serverName networkHandle family,
      s.shared.acquireNewToken serverName networkHandle family =
        (LastWrite.last (steps.filterMap TlsStep.token?).reverse
          (serverName, networkHandle, family)).getD []) ∧
      (∀ serverName, (s.shared.acquireResumption serverName true).2 =
        (LastWrite.last s.shared.cachedResumptions serverName).elim {} fun slot =>
          ⟨some slot.session, slot.transportParams⟩) ∧
      s.Counted ∧ (Transition.Meets step Spares initial steps ↔ s.shared.abandoned = []) := by
  refine ⟨?_, ?_, ?_, ?_⟩
  · intro serverName networkHandle family
    have htokens := tokens_run tokens_initial hrun (serverName, networkHandle, family)
    rw [List.append_nil] at htokens
    rw [TlsClientContext.acquireNewToken, ← htokens]
  · intro serverName
    have hresumptions := Transition.run_invariant_of_step
      (fun _ label _ h hstep => resumptions_step h label hstep) hrun (LastWrite.holds_empty _)
    rw [← hresumptions serverName]
    unfold TlsClientContext.acquireResumption
    cases s.shared.resumptions.lookup serverName <;> rfl
  · exact Transition.run_invariant_of_step (fun _ label _ h hstep => counted_step h label hstep) hrun
      fun session => rfl
  · exact abandoned_run hrun rfl

/-- A connection leaves a ticket and a token. A second one takes the ticket, and its fallback to
the next endpoint takes it again. -/
def twoConnections : List TlsStep :=
  [.connect "a".toList, .tls 0 (.acquire true), .tls 0 (.init true true), .tls 0 (.establish 7),
    .tls 0 (.setResumptionTransportParams [1]), .newToken "a".toList 5 2 [9],
    .newToken "a|5".toList 6 2 [8], .tls 0 .destroy, .connect "a".toList, .tls 1 (.acquire true),
    .tls 1 (.init true true), .tls 1 (.acquire true), .tls 1 (.init true true)]

theorem run_acquires_twoConnections :
    ∃ s, Transition.run step initial twoConnections = some s ∧
      s.parties = [⟨"a".toList, none, none, []⟩, ⟨"a".toList, none, some ⟨some 7⟩, []⟩] ∧
      s.shared.references 7 = 3 ∧ s.shared.abandoned = [⟨some 7⟩] ∧
      s.shared.acquireNewToken "a".toList 5 2 = [9] ∧ s.Counted ∧
      ¬ Transition.Meets step Spares initial twoConnections := by
  obtain ⟨s, hrun, hs⟩ := Option.map_eq_some_iff.mp
    (show (Transition.run step initial twoConnections).map
        (fun s => (s.parties, s.shared.references 7, s.shared.abandoned)) =
      some ([⟨"a".toList, none, none, []⟩, ⟨"a".toList, none, some ⟨some 7⟩, []⟩], 3,
        [⟨some 7⟩]) by decide +kernel)
  obtain ⟨hparties, hs⟩ := Prod.mk.inj hs
  obtain ⟨hreferences, habandoned⟩ := Prod.mk.inj hs
  obtain ⟨htokens, -, hcounted, hspares⟩ := run_acquires hrun
  refine ⟨s, hrun, hparties, hreferences, habandoned, ?_, hcounted, ?_⟩
  · rw [htokens]
    decide +kernel
  · intro hmeets
    rw [hspares.mp hmeets] at habandoned
    cases habandoned

end TlsSystem

end KatHttp3
