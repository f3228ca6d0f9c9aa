import KatHttp3.Text.Str

/-!
# URLs: the splitter and the printer

`parseUrl` is the hand-written splitter of `url.cc` and `Url.toString` its
printer. The parser of IPv6 literals is the platform's `inet_pton`, taken as
a predicate of which only the alphabet is used.
-/

namespace KatHttp3

open Str

def asciiAlpha (c : Char) : Bool := c.isAlpha

def hexDigit (c : Char) : Bool :=
  c.isDigit || ('A' ≤ c && c ≤ 'F') || ('a' ≤ c && c ≤ 'f')

/-- The two text parsers of `inet_pton`. -/
structure InetPton where
  afInet : Str → Bool
  afInet6 : Str → Bool
  afInet6_chars : ∀ s, afInet6 s = true → ∀ c ∈ s, hexDigit c = true ∨ c = ':' ∨ c = '.'

structure Url where
  scheme : Str := []
  host : Str := []
  port : ℕ := 0
  path : Str := []
  query : Str := []
  queryPresent : Bool := false
  deriving DecidableEq, Repr

def defaultPort (scheme : Str) : ℕ :=
  if scheme = "https".toList then 443 else if scheme = "http".toList then 80 else 443

namespace Url

def valid (u : Url) : Bool := u.scheme != [] && u.host != []

/-- The port a connection to the URL uses. -/
def effectivePort (u : Url) : ℕ := if u.port ≠ 0 then u.port else defaultPort u.scheme

def authority (u : Url) : Str :=
  let a := if find u.host ':' = none then u.host else '[' :: u.host ++ [']']
  if u.effectivePort ≠ defaultPort u.scheme then a ++ ':' :: ofNat u.effectivePort else a

def requestTarget (u : Url) : Str :=
  let target := if u.path = [] then ['/'] else u.path
  if u.queryPresent then target ++ '?' :: u.query else target

def toString (u : Url) : Str :=
  u.scheme ++ "://".toList ++ u.authority ++ u.requestTarget

end Url

def unreserved (c : Char) : Bool :=
  asciiAlpha c || c.isDigit || c == '-' || c == '.' || c == '_' || c == '~'

def subDelimiter (c : Char) : Bool :=
  c == '!' || c == '$' || c == '&' || c == '\'' || c == '(' || c == ')' || c == '*' ||
    c == '+' || c == ',' || c == ';' || c == '='

/-- Characters of one URI component, `extra` being those this component allows
besides the unreserved ones and the sub-delimiters. -/
def validUriComponent (extra : Str) : Str → Bool
  | [] => true
  | c :: rest =>
    if c = '%' then
      match rest with
      | a :: b :: rest => hexDigit a && hexDigit b && validUriComponent extra rest
      | _ => false
    else (unreserved c || subDelimiter c || extra.contains c) && validUriComponent extra rest

def httpsScheme (scheme : Str) : Bool := asciiIequals scheme "https".toList

/-- The digits after the last colon of an authority, as a port between 1 and 65535. -/
def parsePort (ps : Str) : Option ℕ :=
  (fromChars (2 ^ 32 - 1) ps).filter fun value => value ≠ 0 ∧ value ≤ 65535

variable (net : InetPton)

/-- A bracketed IPv6 literal with an optional port. -/
def parseLiteralAuthority (auth : Str) : Option (Str × ℕ) :=
  match find auth ']' with
  | none => none
  | some close =>
    let host := (auth.drop 1).take (close - 1)
    if net.afInet6 host = false ∨ host = [] then none
    else
      match auth.drop (close + 1) with
      | [] => some (host, 0)
      | c :: ps => if c = ':' then (parsePort ps).map fun port => (host, port) else none

/-- A registered name or IPv4 address with an optional port. -/
def parseNamedAuthority (auth : Str) : Option (Str × ℕ) :=
  match rfind auth ':' with
  | some pcolon =>
    let host := auth.take pcolon
    if find host ':' ≠ none ∨ host = [] ∨ validUriComponent [] host = false then none
    else (parsePort (auth.drop (pcolon + 1))).map fun port => (host, port)
  | none => if validUriComponent [] auth then some (auth, 0) else none

/-- The authority part of `parse_url`: host and port, the port 0 when omitted. -/
def parseAuthority (auth : Str) : Option (Str × ℕ) :=
  if auth = [] then none
  else if find auth '@' ≠ none then none
  else if 2 ≤ auth.length ∧ auth.head? = some '[' then parseLiteralAuthority net auth
  else parseNamedAuthority auth

/-- What follows the authority: path, query and whether a query is present. The
fragment is checked and dropped. -/
def parseRest (rest : Str) : Option (Str × Str × Bool) :=
  let fragment := find rest '#'
  if validUriComponent ":@/?".toList (startingAt rest (fragment.map (· + 1))) = false then none
  else
    let rest := upTo rest fragment
    match find rest '?' with
    | none => if validUriComponent ":@/".toList rest then some (rest, [], false) else none
    | some q =>
      if validUriComponent ":@/".toList (rest.take q) &&
          validUriComponent ":@/?".toList (rest.drop (q + 1)) then
        some (rest.take q, rest.drop (q + 1), true)
      else none

def parseUrl (raw : Str) : Option Url :=
  match find raw ':' with
  | none => none
  | some colon =>
    if httpsScheme (raw.take colon) = false then none
    else if (raw.drop (colon + 1)).take 2 ≠ "//".toList then none
    else
      let tail := raw.drop (colon + 3)
      let authEnd := findFirstOf tail "/?#".toList
      match parseAuthority net (upTo tail authEnd), parseRest (startingAt tail authEnd) with
      | some (host, port), some (path, query, queryPresent) =>
        some ⟨"https".toList, host, port, path, query, queryPresent⟩
      | _, _ => none

end KatHttp3
