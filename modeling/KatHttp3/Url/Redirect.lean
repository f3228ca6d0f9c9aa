import KatHttp3.Text.HeaderList
import KatHttp3.Url.Parse

/-!
# Redirect decisions

`RedirectPolicy::evaluate` with the reference resolution it rests on. The
loop of `remove_dot_segments` shortens its input at every turn, so the length
of the input bounds the number of turns.
-/

namespace KatHttp3

open Str

structure Response where
  statusCode : ℕ := 0
  headers : HeaderList := []
  body : Str := []
  deriving DecidableEq

def isRedirectStatus (s : ℕ) : Bool := s = 301 ∨ s = 302 ∨ s = 303 ∨ s = 307 ∨ s = 308

def asciiAlnum (c : Char) : Bool := asciiAlpha c || c.isDigit

def removeLastSegment (output : Str) : Str :=
  match rfind output '/' with
  | none => []
  | some slash => output.take slash

/-- Where the first segment of the input ends, its own leading slash not counting. -/
def segmentEnd (input : Str) : Option ℕ :=
  if input.head? = some '/' then (find (input.drop 1) '/').map (· + 1) else find input '/'

/-- One turn of the loop of `remove_dot_segments` on a nonempty input. -/
def dotSegmentTurn (input output : Str) : Str × Str :=
  if startsWith input "../".toList then (input.drop 3, output)
  else if startsWith input "./".toList then (input.drop 2, output)
  else if startsWith input "/./".toList then (input.drop 2, output)
  else if input = "/.".toList then ("/".toList, output)
  else if startsWith input "/../".toList then (input.drop 3, removeLastSegment output)
  else if input = "/..".toList then ("/".toList, removeLastSegment output)
  else if input = ".".toList ∨ input = "..".toList then ([], output)
  else
    match segmentEnd input with
    | none => ([], output ++ input)
    | some i => (input.drop i, output ++ input.take i)

def removeDotSegmentsLoop : ℕ → Str → Str → Str
  | 0, _, output => output
  | turns + 1, input, output =>
    if input = [] then output
    else
      let (input, output) := dotSegmentTurn input output
      removeDotSegmentsLoop turns input output

def removeDotSegments (input : Str) : Str := removeDotSegmentsLoop input.length input []

/-- Whether the reference is acceptable, and if so whether it begins with a scheme. -/
def hasValidScheme (ref : Str) : Option Bool :=
  match find ref ':' with
  | none => some false
  | some colon =>
    if (findFirstOf ref "/?#".toList).any (· < colon) then some false
    else if colon = 0 ∨ ¬ (ref.head?.any asciiAlpha) then none
    else if ((ref.take colon).drop 1).all fun c => asciiAlnum c || c == '+' || c == '-' || c == '.'
      then some true
    else none

variable (net : InetPton)

/-- The branch of `resolve_reference` for references without scheme and authority. -/
def resolveRelative (base : Url) (reference : Str) : Url :=
  let question := find reference '?'
  let referencePath := upTo reference question
  let hasQuery := question.isSome
  let referenceQuery := startingAt reference (question.map (· + 1))
  let target : Url := { scheme := base.scheme, host := base.host, port := base.port }
  if referencePath = [] then
    if hasQuery then { target with path := base.path, query := referenceQuery, queryPresent := true }
    else { target with path := base.path, query := base.query, queryPresent := base.queryPresent }
  else if referencePath.head? = some '/' then
    { target with
      path := removeDotSegments referencePath, query := referenceQuery, queryPresent := hasQuery }
  else
    let pathPrefix := match rfind base.path '/' with
      | none => []
      | some slash => base.path.take (slash + 1)
    { target with
      path := removeDotSegments (pathPrefix ++ referencePath)
      query := referenceQuery
      queryPresent := hasQuery }

def resolveReference (base : Url) (reference : Str) : Option Url :=
  let reference := upTo reference (find reference '#')
  match hasValidScheme reference with
  | none => none
  | some true => parseUrl net reference
  | some false =>
    if startsWith reference "//".toList then parseUrl net (base.scheme ++ ":".toList ++ reference)
    else
      let target := resolveRelative base reference
      if target.valid then some target else none

structure RedirectDecision where
  follow : Bool := false
  crossOrigin : Bool := false
  dropBody : Bool := false
  newUrl : Str := []
  newMethod : Str := []
  deriving DecidableEq

/-- What a followed redirect does to method and body. -/
def rewriteMethod (method : Str) (statusCode : ℕ) : Str × Bool :=
  if (statusCode = 303 ∧ method ≠ "HEAD".toList) ∨
      ((statusCode = 301 ∨ statusCode = 302) ∧ method = "POST".toList) then
    ("GET".toList, true)
  else (method, statusCode = 303)

def evaluate (method : Str) (fromUrl : Url) (resp : Response) (autoRedirect : Bool)
    (remaining : ℕ) : RedirectDecision :=
  let d : RedirectDecision := { newMethod := method }
  if autoRedirect = false then d
  else if isRedirectStatus resp.statusCode = false then d
  else if remaining = 0 then d
  else
    let location := resp.headers.get "location".toList
    if location = [] then d
    else
      match resolveReference net fromUrl location with
      | none => d
      | some target =>
        if target.scheme ≠ "https".toList then d
        else if target.valid = false then d
        else
          let (newMethod, dropBody) := rewriteMethod method resp.statusCode
          { follow := true
            crossOrigin := fromUrl.scheme ≠ target.scheme ∨ fromUrl.host ≠ target.host ∨
              fromUrl.effectivePort ≠ target.effectivePort
            dropBody := dropBody
            newUrl := target.toString
            newMethod := newMethod }

end KatHttp3
