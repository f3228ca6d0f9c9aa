import KatHttp3.Library.LeastValue
import KatHttp3.Library.MachineInt
import KatHttp3.Library.Transition
import KatHttp3.Text.Str

/-!
# The cache of the DNS-over-HTTPS resolver

A call of `resolve` looks its key up, and otherwise sends a query for every type and
stores what it finds for as long as the records allow. Calls may overlap. The tables
of Unicode and the JSON library are parameters: a response is what it yields.
-/

namespace KatHttp3

open LeastValue MachineInt

/-- What the Java library knows of characters. -/
structure JvmText where
  lowercase : Str → Str
  isWhitespace : Char → Bool
  /-- What the regular expression `\s` matches. -/
  isSpace : Char → Bool
  /-- `Character.digit` in base ten. -/
  digit : Char → Option ℕ

structure ResolvedAddress where
  ip : Str
  port : ℤ
  deriving DecidableEq

/-- What it knows of ASCII characters. -/
def asciiText : JvmText where
  lowercase := Str.asciiLower
  isWhitespace := Char.isWhitespace
  isSpace := Char.isWhitespace
  digit c := if c.isDigit then some (c.toNat - '0'.toNat) else none

/-! ### Responses -/

/-- A record of an answer or authority section; `ttl` is absent where `optLong` finds none. -/
structure DnsRecord where
  type : ℤ := 0
  ttl : Option ℤ := none
  data : Str := []
  deriving DecidableEq

/-- A response; the elements of an array that are no objects are absent. -/
structure DohResponse where
  status : ℤ := -1
  answer : List (Option DnsRecord) := []
  authority : Option (List (Option DnsRecord)) := none
  deriving DecidableEq

structure QueryResult where
  addresses : List ResolvedAddress
  positiveTtlMillis : Option ℤ
  negativeTtlMillis : Option ℤ
  cacheableNegative : Bool

def typeA : ℤ := 1

def typeSoa : ℤ := 6

def typeAaaa : ℤ := 28

def dnsStatusNoerror : ℤ := 0

def dnsStatusNxdomain : ℤ := 3

def maxCacheEntries : ℕ := 128

def maxCacheTtlMillis : ℤ := 24 * 60 * 60 * 1000

def nanosPerMilli : ℤ := 1000000

def longMax : ℤ := 2 ^ 63 - 1

def ttlMillis (seconds : ℤ) : Option ℤ :=
  if seconds ≤ 0 then none else if longMax / 1000 < seconds then some longMax else some (seconds * 1000)

namespace JvmText

variable (text : JvmText)

/-- `String.trim`. -/
def trim (s : Str) : Str := (s.dropWhile text.isWhitespace).rdropWhile text.isWhitespace

/-- The digits of a number without its sign. -/
def digits (s : Str) : Option ℕ :=
  if s = [] then none else (s.mapM text.digit).map fun ds => ds.foldl (fun n d => n * 10 + d) 0

/-- `String.toLongOrNull`. -/
def toLongOrNull (s : Str) : Option ℤ :=
  let value : Option ℤ := match s with
    | '-' :: rest => (text.digits rest).map fun n => -(n : ℤ)
    | '+' :: rest => (text.digits rest).map fun n => (n : ℤ)
    | _ => (text.digits s).map fun n => (n : ℤ)
  value.filter fun n => Fits64 n

/-- The last element of a text split at white space. -/
def lastField (s : Str) : Str := s.rtakeWhile fun c => !text.isSpace c

variable (port : ℤ)

/-- The address of an answer. -/
def addressOf (answer : DnsRecord) : Option ResolvedAddress :=
  if answer.type ≠ typeA ∧ answer.type ≠ typeAaaa then none
  else if text.trim answer.data = [] then none
  else some ⟨text.trim answer.data, port⟩

/-- A lifetime that counts for the current minimum if there is one. -/
def takeMin (current ttl : Option ℤ) : Option ℤ := Option.merge min current ttl

/-- The last field of an SOA record. -/
def soaMinimumSeconds (soa : DnsRecord) : Option ℤ :=
  text.toLongOrNull (text.lastField (text.trim soa.data))

def negativeTtlMillis (authority : Option (List (Option DnsRecord))) : Option ℤ :=
  match authority with
  | none => none
  | some records =>
    records.foldl (fun minimum record =>
      match record with
      | none => minimum
      | some soa =>
        if soa.type ≠ typeSoa then minimum
        else
          match text.soaMinimumSeconds soa with
          | none => minimum
          | some seconds => takeMin minimum (ttlMillis (min (soa.ttl.getD (-1)) seconds))) none

def parseResponse (response : DohResponse) : QueryResult :=
  let addresses := response.answer.filterMap fun answer => answer.bind (text.addressOf port)
  let answerTtlMillis := response.answer.foldl (fun least answer =>
    match answer with
    | none => least
    | some answer => takeMin least (ttlMillis (answer.ttl.getD (-1)))) none
  if addresses ≠ [] then ⟨addresses, answerTtlMillis, none, false⟩
  else
    let negative := text.negativeTtlMillis response.authority
    let isDnsNegative := response.status = dnsStatusNoerror ∨ response.status = dnsStatusNxdomain
    ⟨[], none, negative, isDnsNegative ∧ negative ≠ none⟩

end JvmText

/-! ### Calls -/

/-- The variables of the loop over the types. -/
structure Merged where
  out : List ResolvedAddress := []
  positiveTtlMillis : Option ℤ := none
  negativeTtlMillis : Option ℤ := none
  allQueriesHaveCacheableNegative : Bool := true

namespace Merged

def add (merged : Merged) : Option QueryResult → Merged
  | none => { merged with allQueriesHaveCacheableNegative := false }
  | some result =>
    { out := merged.out ++ result.addresses
      positiveTtlMillis := JvmText.takeMin merged.positiveTtlMillis result.positiveTtlMillis
      negativeTtlMillis := JvmText.takeMin merged.negativeTtlMillis result.negativeTtlMillis
      allQueriesHaveCacheableNegative :=
        merged.allQueriesHaveCacheableNegative && result.cacheableNegative }

def ttlMillis (merged : Merged) : Option ℤ :=
  if merged.out ≠ [] then merged.positiveTtlMillis
  else if merged.allQueriesHaveCacheableNegative then merged.negativeTtlMillis
  else none

end Merged

/-- A call of `resolve` that has not found its key. `start` is its reading of the clock. -/
structure DohCall where
  key : Str
  port : ℤ
  start : ℤ
  deriving DecidableEq

/-- An entry of the cache. What it comes from only records. -/
structure CacheEntry where
  addresses : List ResolvedAddress
  expiresAtNanos : ℤ
  call : DohCall
  results : List (Option DohResponse)
  deriving DecidableEq

/-- The cache, the least recently used entry first, and the calls under way. -/
structure DohResolver where
  cache : List (Str × CacheEntry) := []
  calls : ℕ → Option DohCall := fun _ => none

inductive DohStep
  /-- A call reads the clock and looks its key up. -/
  | lookup (id : ℕ) (host : Str) (port now : ℤ)
  /-- It has an answer to each of its queries, or the query failed. -/
  | finish (id : ℕ) (results : List (Option DohResponse))

namespace DohResolver

variable (text : JvmText) (types : List Str)

def keyOf (host : Str) (port : ℤ) : Str :=
  (text.lowercase host).rdropWhile (· == '.') ++ Char.ofNat 0 :: (toString port).toList

/-- The entry of a key. -/
def entryOf (s : DohResolver) (key : Str) : Option CacheEntry :=
  (s.cache.find? fun e => e.1 == key).map Prod.snd

def without (s : DohResolver) (key : Str) : List (Str × CacheEntry) :=
  s.cache.filter fun e => e.1 != key

/-- An entry that is served; the access makes it the most recently used one. -/
def served (s : DohResolver) (key : Str) (now : ℤ) : Option CacheEntry :=
  (s.entryOf key).filter fun entry => now < entry.expiresAtNanos

/-- `cache[key] = entry`, with the removal of the eldest entry. -/
def put (s : DohResolver) (key : Str) (entry : CacheEntry) : List (Str × CacheEntry) :=
  let entries := s.without key ++ [(key, entry)]
  if maxCacheEntries < entries.length then entries.tail else entries

def merge (port : ℤ) (results : List (Option DohResponse)) : Merged :=
  results.foldl (fun merged result => merged.add (result.map (text.parseResponse port))) {}

/-- What a call stores. -/
def newEntry (call : DohCall) (results : List (Option DohResponse)) : Option CacheEntry :=
  let merged := merge text call.port results
  (merged.ttlMillis.filter fun ttl => 0 < ttl).map fun ttl =>
    { addresses := merged.out
      expiresAtNanos :=
        toInt64 (call.start + toInt64 (min ttl maxCacheTtlMillis * nanosPerMilli))
      call := call
      results := results }

def step (s : DohResolver) : DohStep → Option DohResolver
  | .lookup id host port now =>
    match s.calls id with
    | some _ => none
    | none =>
      if ¬Fits64 now then none
      else
        let key := keyOf text host port
        match s.served key now with
        | some entry => some { s with cache := s.without key ++ [(key, entry)] }
        | none =>
          some
            { cache := s.without key
              calls := Function.update s.calls id (some ⟨key, port, now⟩) }
  | .finish id results =>
    match s.calls id with
    | none => none
    | some call =>
      if results.length ≠ types.length then none
      else
        let returned := { s with calls := Function.update s.calls id none }
        match newEntry text call results with
        | none => some returned
        | some entry => some { returned with cache := s.put call.key entry }

end DohResolver

/-! ### What the records allow -/

namespace JvmText

variable (text : JvmText) (port : ℤ)

/-- The TTLs of the answer records. -/
def answerTtls (response : DohResponse) : List ℤ :=
  response.answer.flatMap fun answer => (answer.bind DnsRecord.ttl).toList

/-- The negative TTL of an SOA record that has one. -/
def soaTtl (record : DnsRecord) : Option ℤ :=
  if record.type ≠ typeSoa then none
  else
    match record.ttl, text.soaMinimumSeconds record with
    | some ttl, some seconds => some (min ttl seconds)
    | _, _ => none

def soaTtls (response : DohResponse) : List ℤ :=
  (response.authority.getD []).flatMap fun record => (record.bind text.soaTtl).toList

def addresses (response : DohResponse) : List ResolvedAddress :=
  (text.parseResponse port response).addresses

/-- A response without addresses and with an SOA record. -/
structure Negative (response : DohResponse) : Prop where
  status : response.status = dnsStatusNoerror ∨ response.status = dnsStatusNxdomain
  addresses : text.addresses port response = []
  soa : text.soaTtls response ≠ []

/-- The responses among the results of a call. -/
def responses (results : List (Option DohResponse)) : List DohResponse := results.filterMap id

/-- The responses that an address list is built from. -/
def sources (results : List (Option DohResponse)) : List DohResponse :=
  (responses results).filter fun response => text.addresses port response ≠ []

def sourceTtls (results : List (Option DohResponse)) : List ℤ :=
  (text.sources port results).flatMap answerTtls

def negativeTtls (results : List (Option DohResponse)) : List ℤ :=
  (responses results).flatMap text.soaTtls

/-- The lifetimes that are left of a list of TTLs. -/
def lifetimes (ttls : List ℤ) : List ℤ := ttls.filterMap ttlMillis

variable {text port}

theorem ttlMillis_eq_none {seconds : ℤ} : ttlMillis seconds = none ↔ seconds ≤ 0 := by
  unfold ttlMillis
  split_ifs with hpos hlarge <;> simp [hpos]

theorem exists_ttlMillis {seconds : ℤ} (h : 0 < seconds) : ∃ millis, ttlMillis seconds = some millis := by
  apply Option.ne_none_iff_exists'.mp
  rw [Ne, ttlMillis_eq_none]
  omega

/-- Saturation is of no account below the limit of a day. -/
theorem min_ttlMillis {seconds millis : ℤ} (h : ttlMillis seconds = some millis) :
    min millis maxCacheTtlMillis = min (seconds * 1000) maxCacheTtlMillis ∧ 0 < millis := by
  unfold ttlMillis longMax at h
  unfold maxCacheTtlMillis
  split_ifs at h with hpos hlarge <;> obtain rfl := Option.some.inj h <;> omega

theorem mem_lifetimes {ttls : List ℤ} {millis : ℤ} :
    millis ∈ lifetimes ttls ↔ ∃ ttl ∈ ttls, ttlMillis ttl = some millis :=
  List.mem_filterMap

theorem lifetimes_ne_nil {ttls : List ℤ} : lifetimes ttls ≠ [] ↔ ∃ ttl ∈ ttls, 0 < ttl := by
  rw [Ne, lifetimes, List.filterMap_eq_nil_iff]
  simp only [ttlMillis_eq_none]
  push Not
  rfl

theorem min?_toList (ttl : Option ℤ) : ttl.toList.min? = ttl := by
  cases ttl <;> rfl

theorem lifetimes_flatMap {α : Type*} (f : α → List ℤ) (l : List α) :
    lifetimes (l.flatMap f) = l.flatMap fun a => lifetimes (f a) :=
  List.filterMap_flatMap ..

theorem lifetimes_toList (ttl : Option ℤ) : lifetimes ttl.toList = (ttl.bind ttlMillis).toList := by
  cases ttl with
  | none => rfl
  | some seconds =>
    cases h : ttlMillis seconds <;> simp [lifetimes, h]

theorem ttlMillis_getD (ttl : Option ℤ) : ttlMillis (ttl.getD (-1)) = ttl.bind ttlMillis := by
  cases ttl <;> rfl

/-- A missing TTL counts as little as one that is not positive. -/
theorem ttlMillis_min_getD (ttl : Option ℤ) (seconds : ℤ) :
    ttlMillis (min (ttl.getD (-1)) seconds) = (ttl.map fun t => min t seconds).bind ttlMillis := by
  cases ttl with
  | none =>
    apply if_pos
    exact (min_le_left _ _).trans (by decide)
  | some t => rfl

theorem answerTtl_eq (response : DohResponse) :
    (response.answer.foldl (fun least answer =>
      match answer with
      | none => least
      | some answer => takeMin least (ttlMillis (answer.ttl.getD (-1)))) none) =
    (lifetimes (answerTtls response)).min? := by
  have hstep : (fun (least : Option ℤ) (answer : Option DnsRecord) =>
      match answer with
      | none => least
      | some answer => takeMin least (ttlMillis (answer.ttl.getD (-1)))) =
      fun least answer => Option.merge min least
        (lifetimes (answer.bind DnsRecord.ttl).toList).min? := by
    funext least answer
    rw [lifetimes_toList, min?_toList]
    cases answer with
    | none => simp
    | some answer => simp [takeMin, ttlMillis_getD]
  rw [hstep, foldl_merge, answerTtls, lifetimes_flatMap, Option.merge_none_left]

theorem negativeTtlMillis_eq (response : DohResponse) :
    text.negativeTtlMillis response.authority = (lifetimes (text.soaTtls response)).min? := by
  unfold negativeTtlMillis soaTtls
  cases response.authority with
  | none => rfl
  | some records =>
    have hstep : (fun (minimum : Option ℤ) (record : Option DnsRecord) =>
        match record with
        | none => minimum
        | some soa =>
          if soa.type ≠ typeSoa then minimum
          else
            match text.soaMinimumSeconds soa with
            | none => minimum
            | some seconds => takeMin minimum (ttlMillis (min (soa.ttl.getD (-1)) seconds))) =
        fun minimum record => Option.merge min minimum
          (lifetimes (record.bind text.soaTtl).toList).min? := by
      funext minimum record
      rw [lifetimes_toList, min?_toList]
      cases record with
      | none => simp
      | some soa =>
        dsimp only [Option.bind_some]
        unfold soaTtl
        split_ifs with htype
        · simp
        · cases hseconds : text.soaMinimumSeconds soa with
          | none => cases soa.ttl <;> simp
          | some seconds =>
            dsimp only
            rw [ttlMillis_min_getD]
            cases soa.ttl <;> rfl
    dsimp only [Option.getD_some]
    rw [hstep, foldl_merge, lifetimes_flatMap, Option.merge_none_left]

theorem addresses_eq (response : DohResponse) :
    text.addresses port response =
      response.answer.filterMap fun answer => answer.bind (text.addressOf port) := by
  unfold addresses parseResponse
  dsimp only
  split_ifs with hnone
  · rfl
  · exact (not_not.mp hnone).symm

theorem parseResponse_of_addresses {response : DohResponse}
    (h : text.addresses port response ≠ []) :
    text.parseResponse port response =
      ⟨text.addresses port response, (lifetimes (answerTtls response)).min?, none, false⟩ := by
  rw [addresses_eq] at h ⊢
  unfold parseResponse
  dsimp only
  rw [if_pos h, answerTtl_eq]

/-- A response that is answered negatively and may be stored. -/
structure Cacheable (text : JvmText) (response : DohResponse) : Prop where
  status : response.status = dnsStatusNoerror ∨ response.status = dnsStatusNxdomain
  lifetime : ∃ ttl ∈ text.soaTtls response, 0 < ttl

theorem parseResponse_of_no_addresses {response : DohResponse}
    (h : text.addresses port response = []) :
    ∃ cacheable, text.parseResponse port response =
        ⟨[], none, (lifetimes (text.soaTtls response)).min?, cacheable⟩ ∧
      (cacheable = true ↔ text.Cacheable response) := by
  rw [addresses_eq] at h
  have hnegative : text.negativeTtlMillis response.authority ≠ none ↔
      ∃ ttl ∈ text.soaTtls response, 0 < ttl := by
    rw [negativeTtlMillis_eq, Ne, List.min?_eq_none_iff]
    exact lifetimes_ne_nil
  unfold parseResponse
  dsimp only
  rw [if_neg (not_not.mpr h), ← negativeTtlMillis_eq]
  refine ⟨_, rfl, ?_⟩
  simp only [decide_eq_true_eq, hnegative]
  constructor
  · rintro ⟨hstatus, hlifetime⟩
    exact ⟨hstatus, hlifetime⟩
  · intro hcacheable
    exact ⟨hcacheable.status, hcacheable.lifetime⟩

/-- Every query has been answered negatively, and the answer may be stored. -/
def AllCacheable (text : JvmText) (port : ℤ) (results : List (Option DohResponse)) : Prop :=
  ∀ result ∈ results, ∃ response, result = some response ∧ text.addresses port response = [] ∧
    text.Cacheable response

/-- The SOA TTLs of the responses without addresses. -/
def barrenTtls (text : JvmText) (port : ℤ) (results : List (Option DohResponse)) : List ℤ :=
  ((responses results).filter fun response => text.addresses port response = []).flatMap text.soaTtls

variable (text port) in
theorem cons_of_addresses {response : DohResponse} (results : List (Option DohResponse))
    (h : text.addresses port response ≠ []) :
    text.sourceTtls port (some response :: results) =
        answerTtls response ++ text.sourceTtls port results ∧
      text.barrenTtls port (some response :: results) = text.barrenTtls port results := by
  simp [sourceTtls, sources, barrenTtls, responses, h]

variable (text port) in
theorem cons_of_no_addresses {response : DohResponse} (results : List (Option DohResponse))
    (h : text.addresses port response = []) :
    text.sourceTtls port (some response :: results) = text.sourceTtls port results ∧
      text.barrenTtls port (some response :: results) =
        text.soaTtls response ++ text.barrenTtls port results := by
  simp [sourceTtls, sources, barrenTtls, responses, h]

theorem lifetimes_append (l m : List ℤ) : lifetimes (l ++ m) = lifetimes l ++ lifetimes m :=
  List.filterMap_append ..

/-- What the loop over the types adds to its variables. -/
structure Adds (text : JvmText) (port : ℤ) (results : List (Option DohResponse))
    (merged final : Merged) : Prop where
  out : final.out = merged.out ++ (responses results).flatMap (text.addresses port)
  positive : final.positiveTtlMillis =
    takeMin merged.positiveTtlMillis (lifetimes (text.sourceTtls port results)).min?
  negative : final.negativeTtlMillis =
    takeMin merged.negativeTtlMillis (lifetimes (text.barrenTtls port results)).min?
  all : final.allQueriesHaveCacheableNegative = true ↔
    merged.allQueriesHaveCacheableNegative = true ∧ text.AllCacheable port results

theorem adds_foldl (results : List (Option DohResponse)) (merged : Merged) :
    text.Adds port results merged
      (results.foldl (fun merged result => merged.add (result.map (text.parseResponse port))) merged) := by
  induction results generalizing merged with
  | nil =>
    refine ⟨?_, ?_, ?_, ?_⟩
    · simp [responses]
    · simp [sourceTtls, sources, responses, lifetimes, takeMin]
    · simp [barrenTtls, responses, lifetimes, takeMin]
    · simp [AllCacheable]
  | cons result results ih =>
    rw [List.foldl_cons]
    have hrest := ih (merged.add (result.map (text.parseResponse port)))
    cases result with
    | none =>
      refine ⟨hrest.out, hrest.positive, hrest.negative, hrest.all.trans ?_⟩
      simp [Merged.add, AllCacheable]
    | some response =>
      by_cases haddresses : text.addresses port response = []
      · obtain ⟨cacheable, hparse, hcacheable⟩ := parseResponse_of_no_addresses haddresses
        obtain ⟨hsources, hbarren⟩ := cons_of_no_addresses text port results haddresses
        rw [Option.map_some, hparse] at hrest ⊢
        refine ⟨?_, ?_, ?_, ?_⟩
        · rw [hrest.out]
          simp [Merged.add, responses, haddresses]
        · rw [hrest.positive, hsources]
          simp [Merged.add, takeMin]
        · rw [hrest.negative, hbarren, lifetimes_append, min?_append]
          exact merge_min_assoc ..
        · rw [hrest.all]
          simp [Merged.add, AllCacheable, haddresses, hcacheable, and_assoc]
      · have hparse := parseResponse_of_addresses haddresses
        obtain ⟨hsources, hbarren⟩ := cons_of_addresses text port results haddresses
        rw [Option.map_some, hparse] at hrest ⊢
        refine ⟨?_, ?_, ?_, ?_⟩
        · rw [hrest.out]
          simp [Merged.add, responses]
        · rw [hrest.positive, hsources, lifetimes_append, min?_append]
          exact merge_min_assoc ..
        · rw [hrest.negative, hbarren]
          simp [Merged.add, takeMin]
        · rw [hrest.all]
          simp [Merged.add, AllCacheable, haddresses]

end JvmText

/-! ### How long an entry is served -/

/-- A day on the clock. -/
def dayNanos : ℤ := maxCacheTtlMillis * nanosPerMilli

def nanosPerSecond : ℤ := 1000 * nanosPerMilli

/-- The lifetime of an entry with these TTLs, as far as it depends on one of them. -/
def lifetimeNanos (ttl : ℤ) : ℤ := min (ttl * 1000) maxCacheTtlMillis * nanosPerMilli

/-- The TTLs are fit for a call at a time: if there is a positive one then all are, and the
sum of the clock and the least lifetime fits. -/
def Lasting (start : ℤ) (ttls : List ℤ) : Prop :=
  (∃ ttl ∈ ttls, 0 < ttl) →
    (∀ ttl ∈ ttls, 0 < ttl) ∧ ∃ ttl ∈ ttls, 0 < ttl ∧ start + lifetimeNanos ttl < 2 ^ 63

/-- The TTLs that count for what a call stores. -/
inductive Relevant (text : JvmText) (port : ℤ) (results : List (Option DohResponse)) :
    List ℤ → Prop
  | sources (found : text.sources port results ≠ []) :
      Relevant text port results (text.sourceTtls port results)
  | negative (nothing : text.sources port results = []) (all : text.AllCacheable port results) :
      Relevant text port results (text.negativeTtls results)
  | unknown (nothing : text.sources port results = []) (not : ¬text.AllCacheable port results) :
      Relevant text port results []

namespace CacheEntry

variable (text : JvmText) (types : List Str) (entry : CacheEntry)

/-- The end of the lifetime is the sum of its start and its length. -/
def NoOverflow : Prop :=
  ∃ lifetime, 0 < lifetime ∧ lifetime ≤ dayNanos ∧ entry.expiresAtNanos = entry.call.start + lifetime

/-- The entry may be served at a time. Its responses have been received after `start`. -/
structure FreshAt (now : ℤ) : Prop where
  addresses : entry.addresses =
    (JvmText.responses entry.results).flatMap (text.addresses entry.call.port)
  day : now - entry.call.start ≤ dayNanos
  positive : entry.addresses ≠ [] → ∀ ttl ∈ text.sourceTtls entry.call.port entry.results,
    0 < ttl ∧ now - entry.call.start ≤ ttl * nanosPerSecond
  answered : entry.addresses = [] → entry.results.length = types.length ∧
    ∀ result ∈ entry.results, ∃ response, result = some response ∧
      text.Negative entry.call.port response
  negative : entry.addresses = [] → ∀ ttl ∈ text.negativeTtls entry.results,
    0 < ttl ∧ now - entry.call.start ≤ ttl * nanosPerSecond

end CacheEntry

namespace DohResolver

variable {text : JvmText} {types : List Str} {call : DohCall} {results : List (Option DohResponse)}

theorem out_ne_nil_iff {port : ℤ} :
    (JvmText.responses results).flatMap (text.addresses port) ≠ [] ↔ text.sources port results ≠ [] := by
  simp [JvmText.sources, List.flatMap_eq_nil_iff, List.filter_eq_nil_iff]

theorem barrenTtls_eq {port : ℤ} (h : text.sources port results = []) :
    text.barrenTtls port results = text.negativeTtls results := by
  simp only [JvmText.sources, List.filter_eq_nil_iff, decide_eq_true_eq, not_not] at h
  unfold JvmText.barrenTtls JvmText.negativeTtls
  rw [List.filter_eq_self.mpr]
  simpa using h

/-- The lifetime of what is found is the least one of the relevant TTLs. -/
theorem merge_ttlMillis (text : JvmText) (port : ℤ) (results : List (Option DohResponse)) :
    ∃ ttls, Relevant text port results ttls ∧
      (merge text port results).ttlMillis = (JvmText.lifetimes ttls).min? := by
  have hadds : text.Adds port results {} (merge text port results) := JvmText.adds_foldl results {}
  have hout : (merge text port results).out ≠ [] ↔ text.sources port results ≠ [] := by
    rw [hadds.out]
    exact out_ne_nil_iff
  have hall : (merge text port results).allQueriesHaveCacheableNegative = true ↔
      text.AllCacheable port results := by
    simpa using hadds.all
  unfold Merged.ttlMillis
  by_cases hsources : text.sources port results = []
  · have hnothing : ¬(merge text port results).out ≠ [] := by
      rw [hout]
      exact not_not.mpr hsources
    rw [if_neg hnothing]
    by_cases hcacheable : text.AllCacheable port results
    · refine ⟨_, .negative hsources hcacheable, ?_⟩
      rw [if_pos (hall.mpr hcacheable), hadds.negative, barrenTtls_eq hsources]
      simp [JvmText.takeMin]
    · refine ⟨_, .unknown hsources hcacheable, ?_⟩
      rw [if_neg (mt hall.mp hcacheable)]
      rfl
  · refine ⟨_, .sources hsources, ?_⟩
    rw [if_pos (hout.mpr hsources), hadds.positive]
    simp [JvmText.takeMin]

/-- What a call stores, with its lifetime. -/
structure Stored (text : JvmText) (call : DohCall) (results : List (Option DohResponse))
    (ttls : List ℤ) (lifetime : ℤ) (entry : CacheEntry) : Prop where
  origin : entry.call = call ∧ entry.results = results
  addresses : entry.addresses = (JvmText.responses results).flatMap (text.addresses call.port)
  expires : entry.expiresAtNanos = toInt64 (call.start + lifetime)
  bounds : 0 < lifetime ∧ lifetime ≤ dayNanos
  least : ∀ ttl ∈ ttls, 0 < ttl → lifetime ≤ lifetimeNanos ttl
  attained : ∃ ttl ∈ ttls, 0 < ttl ∧ lifetime = lifetimeNanos ttl

theorem lifetimeNanos_mono {a b : ℤ} (h : min a maxCacheTtlMillis ≤ min b maxCacheTtlMillis) :
    min a maxCacheTtlMillis * nanosPerMilli ≤ min b maxCacheTtlMillis * nanosPerMilli :=
  mul_le_mul_of_nonneg_right h (by decide)

theorem newEntry_cases (text : JvmText) (call : DohCall) (results : List (Option DohResponse)) :
    ∃ ttls, Relevant text call.port results ttls ∧
      ((newEntry text call results = none ∧ ¬∃ ttl ∈ ttls, 0 < ttl) ∨
        ∃ lifetime entry, newEntry text call results = some entry ∧
          Stored text call results ttls lifetime entry) := by
  obtain ⟨ttls, hrelevant, hmillis⟩ := merge_ttlMillis text call.port results
  refine ⟨ttls, hrelevant, ?_⟩
  unfold newEntry
  dsimp only
  rw [hmillis]
  cases hleast : (JvmText.lifetimes ttls).min? with
  | none =>
    left
    refine ⟨rfl, ?_⟩
    rw [List.min?_eq_none_iff] at hleast
    rw [← JvmText.lifetimes_ne_nil]
    exact not_not.mpr hleast
  | some millis =>
    right
    obtain ⟨hmem, hle⟩ := List.min?_eq_some_iff.mp hleast
    obtain ⟨ttl, httl, hvalue⟩ := JvmText.mem_lifetimes.mp hmem
    obtain ⟨hsame, hpos⟩ := JvmText.min_ttlMillis hvalue
    have hbounds : 0 < min millis maxCacheTtlMillis * nanosPerMilli ∧
        min millis maxCacheTtlMillis * nanosPerMilli ≤ dayNanos := by
      unfold dayNanos maxCacheTtlMillis nanosPerMilli
      omega
    have hfits : toInt64 (min millis maxCacheTtlMillis * nanosPerMilli) =
        min millis maxCacheTtlMillis * nanosPerMilli := by
      apply toInt64_of_fits
      have hday : dayNanos < 2 ^ 63 := by decide
      constructor <;> omega
    refine ⟨_, _, by rw [Option.filter_some, if_pos (by simpa using hpos)]; rfl, ⟨rfl, rfl⟩, ?_, ?_,
      hbounds, ?_, ?_⟩
    · exact (JvmText.adds_foldl results {}).out
    · exact congrArg (fun lifetime => toInt64 (call.start + lifetime)) hfits
    · intro other hother hotherPos
      obtain ⟨otherMillis, hotherValue⟩ := JvmText.exists_ttlMillis hotherPos
      apply lifetimeNanos_mono
      rw [← (JvmText.min_ttlMillis hotherValue).1]
      have hle := hle otherMillis (JvmText.mem_lifetimes.mpr ⟨other, hother, hotherValue⟩)
      omega
    · refine ⟨ttl, httl, ?_, ?_⟩
      · by_contra hnot
        rw [JvmText.ttlMillis_eq_none.mpr (by omega)] at hvalue
        cases hvalue
      · rw [lifetimeNanos, ← hsame]

theorem Stored.expires_eq {ttls : List ℤ} {lifetime : ℤ} {entry : CacheEntry}
    (h : Stored text call results ttls lifetime entry) (hstart : Fits64 call.start)
    (hsum : ∃ ttl ∈ ttls, 0 < ttl ∧ call.start + lifetimeNanos ttl < 2 ^ 63) :
    entry.expiresAtNanos = call.start + lifetime := by
  obtain ⟨ttl, httl, httlPos, hsum⟩ := hsum
  have hlifetime := h.least ttl httl httlPos
  have hpos := h.bounds.1
  obtain ⟨hlow, -⟩ := hstart
  rw [h.expires]
  apply toInt64_of_fits
  constructor <;> omega

theorem Stored.noOverflow_iff {ttls : List ℤ} {lifetime : ℤ} {entry : CacheEntry}
    (h : Stored text call results ttls lifetime entry) (hstart : Fits64 call.start) :
    entry.NoOverflow ↔ ∃ ttl ∈ ttls, 0 < ttl ∧ call.start + lifetimeNanos ttl < 2 ^ 63 := by
  have hday : dayNanos < 2 ^ 62 := by decide
  obtain ⟨hpos, hle⟩ := h.bounds
  constructor
  · rintro ⟨length, hlengthPos, hlengthLe, hexpires⟩
    obtain ⟨ttl, httl, httlPos, hlifetime⟩ := h.attained
    refine ⟨ttl, httl, httlPos, ?_⟩
    by_contra hoverflow
    obtain ⟨hlow, hhigh⟩ := hstart
    rw [h.expires, h.origin.1, toInt64_of_overflow (by omega) (by omega)] at hexpires
    omega
  · intro hsum
    refine ⟨lifetime, hpos, hle, ?_⟩
    rw [h.expires_eq hstart hsum, h.origin.1]

theorem lifetimeNanos_le (ttl : ℤ) : lifetimeNanos ttl ≤ ttl * nanosPerSecond := by
  unfold lifetimeNanos nanosPerSecond nanosPerMilli
  omega

theorem Stored.addresses_ne_nil_iff {ttls : List ℤ} {lifetime : ℤ} {entry : CacheEntry}
    (h : Stored text call results ttls lifetime entry) :
    entry.addresses ≠ [] ↔ text.sources call.port results ≠ [] := by
  rw [h.addresses]
  exact out_ne_nil_iff

/-- An entry that is stored with fit TTLs is served as long as they allow. -/
theorem Stored.freshAt {ttls : List ℤ} {lifetime : ℤ} {entry : CacheEntry}
    (h : Stored text call results ttls lifetime entry)
    (hrelevant : Relevant text call.port results ttls) (hlength : results.length = types.length)
    (hall : ∀ ttl ∈ ttls, 0 < ttl) {now : ℤ} (hnow : now < call.start + lifetime) :
    entry.FreshAt text types now := by
  have hne := h.addresses_ne_nil_iff
  obtain ⟨rfl, rfl⟩ := h.origin
  have hday := h.bounds.2
  have hleft : ∀ ttl ∈ ttls, 0 < ttl ∧ now - entry.call.start ≤ ttl * nanosPerSecond := by
    intro ttl httl
    have hpos := hall ttl httl
    have hle := h.least ttl httl hpos
    have hseconds := lifetimeNanos_le ttl
    exact ⟨hpos, by omega⟩
  have hnowDay : now - entry.call.start ≤ dayNanos := by omega
  cases hrelevant with
  | sources found =>
    have hsome := hne.mpr found
    exact ⟨h.addresses, hnowDay, fun _ => hleft, fun hnil => absurd hnil hsome,
      fun hnil => absurd hnil hsome⟩
  | negative nothing all =>
    refine ⟨h.addresses, hnowDay, fun hsome => absurd nothing (hne.mp hsome), ?_, fun _ => hleft⟩
    intro _
    refine ⟨hlength, ?_⟩
    intro result hresult
    obtain ⟨response, heq, haddresses, hcacheable⟩ := all result hresult
    obtain ⟨ttl, httl, -⟩ := hcacheable.lifetime
    exact ⟨response, heq, hcacheable.status, haddresses, List.ne_nil_of_mem httl⟩
  | unknown nothing not =>
    obtain ⟨ttl, httl, -⟩ := h.attained
    cases httl

/-- An entry that is served at the time of its call has been stored with fit TTLs. -/
theorem Stored.all_pos {ttls : List ℤ} {lifetime : ℤ} {entry : CacheEntry}
    (h : Stored text call results ttls lifetime entry)
    (hrelevant : Relevant text call.port results ttls)
    (hfresh : entry.FreshAt text types call.start) : ∀ ttl ∈ ttls, 0 < ttl := by
  have hne := h.addresses_ne_nil_iff
  obtain ⟨rfl, rfl⟩ := h.origin
  intro ttl httl
  cases hrelevant with
  | sources found => exact (hfresh.positive (hne.mpr found) ttl httl).1
  | negative nothing all =>
    have hnil : entry.addresses = [] := by
      by_contra hsome
      exact hne.mp hsome nothing
    exact (hfresh.negative hnil ttl httl).1
  | unknown nothing not => cases httl

/-! ### Runs -/

variable (text types) in
/-- The TTLs that count for what a call stores are fit for it. -/
def KeepsLifetimes (s : DohResolver) : DohStep → Prop
  | .lookup _ _ _ _ => True
  | .finish id results => ∀ call, s.calls id = some call →
      ∀ ttls, Relevant text call.port results ttls → Lasting call.start ttls

variable (text types) in
/-- All ends of lifetimes are right, and what is served from the cache may be served. -/
structure Honest (s : DohResolver) : Prop where
  sums : ∀ e ∈ s.cache, e.2.NoOverflow
  fresh : ∀ key now entry, s.served key now = some entry → entry.FreshAt text types now

/-- What all steps keep. -/
structure WellFormed (s : DohResolver) : Prop where
  keys : (s.cache.map Prod.fst).Nodup
  starts : ∀ id call, s.calls id = some call → Fits64 call.start

variable {s s' : DohResolver}

theorem entryOf_eq_some (h : s.WellFormed) {e : Str × CacheEntry} (he : e ∈ s.cache) :
    s.entryOf e.1 = some e.2 := by
  have hfound : (s.cache.find? fun other => other.1 == e.1).isSome = true :=
    List.find?_isSome.mpr ⟨e, he, beq_self_eq_true e.1⟩
  obtain ⟨other, hother⟩ := Option.isSome_iff_exists.mp hfound
  have hkey : other.1 = e.1 := by simpa using List.find?_some hother
  obtain rfl := List.inj_on_of_nodup_map h.keys (List.mem_of_find?_eq_some hother) he hkey
  rw [entryOf, hother, Option.map_some]

theorem mem_of_served {key : Str} {now : ℤ} {entry : CacheEntry}
    (h : s.served key now = some entry) :
    (key, entry) ∈ s.cache ∧ now < entry.expiresAtNanos := by
  obtain ⟨hentry, hnow⟩ := Option.filter_eq_some_iff.mp h
  obtain ⟨e, hfind, rfl⟩ := Option.map_eq_some_iff.mp hentry
  have hkey := List.find?_some hfind
  refine ⟨?_, by simpa using hnow⟩
  rw [← eq_of_beq hkey]
  exact List.mem_of_find?_eq_some hfind

variable (text types) in
/-- The same of one entry. -/
structure HonestEntry (entry : CacheEntry) : Prop where
  sum : entry.NoOverflow
  fresh : ∀ now < entry.expiresAtNanos, entry.FreshAt text types now

theorem honest_iff (h : s.WellFormed) :
    s.Honest text types ↔ ∀ e ∈ s.cache, HonestEntry text types e.2 := by
  constructor
  · intro hhonest e he
    refine ⟨hhonest.sums e he, ?_⟩
    intro now hnow
    apply hhonest.fresh e.1
    rw [served, entryOf_eq_some h he, Option.filter_some, if_pos (by simpa using hnow)]
  · intro hentries
    refine ⟨fun e he => (hentries e he).sum, ?_⟩
    intro key now entry hserved
    obtain ⟨hmem, hnow⟩ := mem_of_served hserved
    exact (hentries _ hmem).fresh now hnow

theorem mem_without {key : Str} {e : Str × CacheEntry} (h : e ∈ s.without key) :
    e ∈ s.cache ∧ e.1 ≠ key := by
  obtain ⟨hmem, hkey⟩ := List.mem_filter.mp h
  exact ⟨hmem, by simpa using hkey⟩

theorem nodup_without (h : s.WellFormed) (key : Str) : ((s.without key).map Prod.fst).Nodup :=
  h.keys.sublist (List.filter_sublist.map _)

theorem nodup_append (h : s.WellFormed) (key : Str) (entry : CacheEntry) :
    ((s.without key ++ [(key, entry)]).map Prod.fst).Nodup := by
  rw [List.map_append, List.nodup_append]
  refine ⟨nodup_without h key, List.nodup_singleton _, ?_⟩
  intro a ha b hb hab
  obtain ⟨e, he, rfl⟩ := List.mem_map.mp ha
  obtain rfl := List.mem_singleton.mp hb
  exact (mem_without he).2 hab

theorem put_sublist (key : Str) (entry : CacheEntry) :
    (s.put key entry).Sublist (s.without key ++ [(key, entry)]) := by
  unfold put
  dsimp only
  split_ifs with hfull
  · exact List.tail_sublist _
  · exact List.Sublist.refl _

theorem mem_put_self (key : Str) (entry : CacheEntry) : (key, entry) ∈ s.put key entry := by
  unfold put
  dsimp only
  split_ifs with hfull
  · have hne : s.without key ≠ [] := by
      intro hnil
      simp [hnil, maxCacheEntries] at hfull
    rw [List.tail_append_of_ne_nil hne]
    exact List.mem_append_right _ (List.mem_singleton.mpr rfl)
  · exact List.mem_append_right _ (List.mem_singleton.mpr rfl)

theorem mem_put {key : Str} {entry : CacheEntry} {e : Str × CacheEntry}
    (h : e ∈ s.put key entry) : e = (key, entry) ∨ e ∈ s.cache := by
  rcases List.mem_append.mp ((put_sublist key entry).subset h) with hold | hnew
  · exact .inr (mem_without hold).1
  · exact .inl (List.mem_singleton.mp hnew)

/-- What a step does. -/
inductive Stepped (text : JvmText) (types : List Str) (s : DohResolver) : DohStep → DohResolver → Prop
  | hit (id : ℕ) (host : Str) (port now : ℤ) (key : Str) (entry : CacheEntry)
      (served : s.served key now = some entry) :
      Stepped text types s (.lookup id host port now)
        { s with cache := s.without key ++ [(key, entry)] }
  | miss (id : ℕ) (host : Str) (port now : ℤ) (key : Str) (fits : Fits64 now) :
      Stepped text types s (.lookup id host port now)
        { cache := s.without key
          calls := Function.update s.calls id (some ⟨key, port, now⟩) }
  | finish (id : ℕ) (results : List (Option DohResponse)) (call : DohCall)
      (running : s.calls id = some call) (length : results.length = types.length)
      (nothing : newEntry text call results = none) :
      Stepped text types s (.finish id results) { s with calls := Function.update s.calls id none }
  | store (id : ℕ) (results : List (Option DohResponse)) (call : DohCall) (entry : CacheEntry)
      (running : s.calls id = some call) (length : results.length = types.length)
      (stored : newEntry text call results = some entry) :
      Stepped text types s (.finish id results)
        { cache := s.put call.key entry, calls := Function.update s.calls id none }

theorem step_cases {i : DohStep} (h : step text types s i = some s') :
    Stepped text types s i s' := by
  cases i with
  | lookup id host port now =>
    dsimp only [step] at h
    split at h
    · cases h
    · split_ifs at h with hfits
      split at h
      · rename_i entry hserved
        obtain rfl := Option.some.inj h
        exact .hit id host port now _ entry hserved
      · obtain rfl := Option.some.inj h
        exact .miss id host port now _ hfits
  | finish id results =>
    dsimp only [step] at h
    split at h
    · cases h
    · rename_i call hcall
      split_ifs at h with hlength
      split at h
      · rename_i hnothing
        obtain rfl := Option.some.inj h
        exact .finish id results call hcall (not_not.mp hlength) hnothing
      · rename_i entry hstored
        obtain rfl := Option.some.inj h
        exact .store id results call entry hcall (not_not.mp hlength) hstored

theorem starts_update (h : s.WellFormed) (id : ℕ) {started : Option DohCall}
    (hstarted : ∀ call, started = some call → Fits64 call.start) :
    ∀ id' call, Function.update s.calls id started id' = some call → Fits64 call.start := by
  intro id' call hcall
  by_cases hid : id' = id
  · rw [hid, Function.update_self] at hcall
    exact hstarted call hcall
  · rw [Function.update_of_ne hid] at hcall
    exact h.starts id' call hcall

theorem WellFormed.step {i : DohStep} (h : s.WellFormed) (hstep : step text types s i = some s') :
    s'.WellFormed := by
  cases step_cases hstep with
  | hit id host port now key entry served => exact ⟨nodup_append h key entry, h.starts⟩
  | miss id host port now key fits =>
    refine ⟨nodup_without h key, starts_update h id ?_⟩
    intro call hcall
    obtain rfl := Option.some.inj hcall
    exact fits
  | finish id results call running length nothing => exact ⟨h.keys, starts_update h id nofun⟩
  | store id results call entry running length stored =>
    exact ⟨(nodup_append h call.key entry).sublist ((put_sublist call.key entry).map _),
      starts_update h id nofun⟩

/-- What is stored may be served as long as it is exactly if its TTLs are fit. -/
theorem honestEntry_iff {entry : CacheEntry} {ttls : List ℤ} {lifetime : ℤ}
    (h : Stored text call results ttls lifetime entry)
    (hrelevant : Relevant text call.port results ttls) (hlength : results.length = types.length)
    (hstart : Fits64 call.start) :
    HonestEntry text types entry ↔ Lasting call.start ttls := by
  have hpositive : ∃ ttl ∈ ttls, 0 < ttl := by
    obtain ⟨ttl, httl, hpos, -⟩ := h.attained
    exact ⟨ttl, httl, hpos⟩
  constructor
  · intro hhonest _
    have hsum := (h.noOverflow_iff hstart).mp hhonest.sum
    refine ⟨?_, hsum⟩
    apply h.all_pos hrelevant (hhonest.fresh call.start _)
    rw [h.expires_eq hstart hsum]
    have hpos := h.bounds.1
    omega
  · intro hlasting
    obtain ⟨hall, hsum⟩ := hlasting hpositive
    refine ⟨(h.noOverflow_iff hstart).mpr hsum, ?_⟩
    intro now hnow
    rw [h.expires_eq hstart hsum] at hnow
    exact h.freshAt hrelevant hlength hall hnow

/-- The TTLs that count are determined by the results. -/
theorem Relevant.unique {port : ℤ} {ttls ttls' : List ℤ} (h : Relevant text port results ttls)
    (h' : Relevant text port results ttls') : ttls = ttls' := by
  cases h with
  | sources found =>
    cases h' with
    | sources found' => rfl
    | negative nothing all => exact absurd nothing found
    | unknown nothing not => exact absurd nothing found
  | negative nothing all =>
    cases h' with
    | sources found => exact absurd nothing found
    | negative nothing' all' => rfl
    | unknown nothing' not => exact absurd all not
  | unknown nothing not =>
    cases h' with
    | sources found => exact absurd nothing found
    | negative nothing' all => exact absurd all not
    | unknown nothing' not' => rfl

theorem keepsLifetimes_iff {id : ℕ} {ttls : List ℤ} (hrunning : s.calls id = some call)
    (hrelevant : Relevant text call.port results ttls) :
    s.KeepsLifetimes text (.finish id results) ↔ Lasting call.start ttls := by
  constructor
  · intro hkeeps
    exact hkeeps call hrunning ttls hrelevant
  · intro hlasting other hother ttls' hrelevant'
    obtain rfl := Option.some.inj (hrunning.symm.trans hother)
    rwa [Relevant.unique hrelevant' hrelevant]

theorem honest_step {i : DohStep} (h : s.WellFormed) (hhonest : s.Honest text types)
    (hstep : step text types s i = some s') :
    s'.Honest text types ↔ s.KeepsLifetimes text i := by
  have hold := (honest_iff h).mp hhonest
  rw [honest_iff (h.step hstep)]
  cases step_cases hstep with
  | hit id host port now key entry served =>
    refine iff_of_true ?_ trivial
    intro e he
    rcases List.mem_append.mp he with hrest | hserved
    · exact hold e (mem_without hrest).1
    · obtain rfl := List.mem_singleton.mp hserved
      exact hold _ (mem_of_served served).1
  | miss id host port now key fits =>
    refine iff_of_true ?_ trivial
    intro e he
    exact hold e (mem_without he).1
  | finish id results call running length nothing =>
    refine iff_of_true hold ?_
    obtain ⟨ttls, hrelevant, ⟨-, hnone⟩ | ⟨lifetime, entry, hstored, -⟩⟩ :=
      newEntry_cases text call results
    · rw [keepsLifetimes_iff running hrelevant]
      exact fun hpositive => absurd hpositive hnone
    · rw [nothing] at hstored
      cases hstored
  | store id results call entry running length stored =>
    obtain ⟨ttls, hrelevant, ⟨hnone, -⟩ | ⟨lifetime, entry', hstored, hentry⟩⟩ :=
      newEntry_cases text call results
    · rw [stored] at hnone
      cases hnone
    · obtain rfl := Option.some.inj (stored.symm.trans hstored)
      rw [keepsLifetimes_iff running hrelevant,
        ← honestEntry_iff hentry hrelevant length (h.starts id call running)]
      constructor
      · intro hall
        exact hall _ (mem_put_self call.key entry)
      · intro hnew e he
        rcases mem_put he with rfl | hmem
        · exact hnew
        · exact hold e hmem

theorem wellFormed_start : WellFormed {} :=
  ⟨List.nodup_nil, nofun⟩

theorem honest_start : Honest text types {} :=
  ⟨nofun, nofun⟩

/-- In every run of overlapping calls, no sum overflows and whatever is served from the cache
may be served, in every state reached, if and only if every call stores with TTLs that are
fit for it. -/
theorem dohCache_honest_iff (text : JvmText) (types : List Str) (calls : List DohStep)
    (s : DohResolver) (hrun : Transition.run (step text types) {} calls = some s) :
    Transition.Meets (step text types) (KeepsLifetimes text) {} calls ↔
      ∀ before after t, calls = before ++ after →
        Transition.run (step text types) {} before = some t → t.Honest text types := by
  apply Transition.meets_iff (fun t (h : WellFormed t ∧ Honest text types t) => h.2) _ _ hrun
  · exact ⟨wellFormed_start, honest_start⟩
  · intro t i u h hok hstep
    exact ⟨h.1.step hstep, (honest_step h.1 h.2 hstep).mpr hok⟩
  · intro t i u h hstep hgood
    exact (honest_step h.1 h.2 hstep).mp hgood

/-- A call for an IPv4 address and its answer. -/
def oneCall (ttls : List ℤ) : List DohStep :=
  [.lookup 0 "example.com".toList 443 10,
    .finish 0 [some
      { status := 0
        answer := ttls.map fun ttl => some { type := 1, ttl := some ttl, data := "192.0.2.1".toList } }]]

/-- The answer allows five minutes. -/
theorem dohCache_honest_iff_fits :
    ∃ s, Transition.run (step asciiText ["A".toList]) {} (oneCall [300]) = some s ∧
      (Transition.Meets (step asciiText ["A".toList]) (KeepsLifetimes asciiText) {} (oneCall [300]) ↔
        ∀ before after t, oneCall [300] = before ++ after →
          Transition.run (step asciiText ["A".toList]) {} before = some t →
            t.Honest asciiText ["A".toList]) :=
  ⟨_, rfl, dohCache_honest_iff asciiText ["A".toList] (oneCall [300]) _ rfl⟩

/-- One record of the answer must not be kept, and the other makes the cache serve both. -/
theorem dohCache_serves_zero :
    ∃ s, Transition.run (step asciiText ["A".toList]) {} (oneCall [0, 300]) = some s ∧
      (∃ entry, s.served (keyOf asciiText "example.com".toList 443) 299000000000 = some entry ∧
        entry.call.start = 10 ∧ entry.addresses.length = 2 ∧
          0 ∈ asciiText.sourceTtls 443 entry.results) ∧
      ¬s.Honest asciiText ["A".toList] := by
  refine ⟨_, rfl, ⟨_, rfl, rfl, rfl, by decide⟩, ?_⟩
  intro h
  have hfresh := h.fresh (keyOf asciiText "example.com".toList 443) 299000000000 _ rfl
  exact absurd (hfresh.positive (by decide) 0 (by decide)).1 (by decide)

end DohResolver

end KatHttp3
