import ApiGateway.Url.Host

/-!
# URLs

An absolute URL in its normal form: a small scheme, the parts of the authority, a path without dot
segments, and escaped texts.  Some schemes are special; theirs always have a host and a path.
-/

namespace ApiGateway

namespace Url

structure Authority where
  username : List Char := []
  password : List Char := []
  host : Option Host := none
  port : Option Nat := none
  deriving DecidableEq, Repr

inductive Location where
  /-- Segments, each behind a slash. -/
  | segments (segments : List (List Char))
  /-- A text without structure. -/
  | plain (text : List Char)
  deriving DecidableEq, Repr

def Location.text : Location → List Char
  | segments parts => parts.flatMap ('/' :: ·)
  | plain text => text

end Url

structure Url where
  scheme : List Char
  authority : Option Url.Authority
  location : Url.Location
  query : Option (List Char)
  fragment : Option (List Char)
  deriving DecidableEq, Repr

namespace Url

/-! ## Schemes -/

/-- The special schemes with their default ports. -/
def specialPorts : List (String × Option Nat) :=
  [("http", some 80), ("https", some 443), ("ws", some 80), ("wss", some 443), ("ftp", some 21),
    ("file", none)]

def isSpecial (scheme : List Char) : Bool :=
  (specialPorts.lookup (.ofList scheme)).isSome

def defaultPort? (scheme : List Char) : Option Nat :=
  (specialPorts.lookup (.ofList scheme)).join

/-! ## Writing -/

/-- User, password, host and port. -/
def Authority.text (authority : Authority) : List Char :=
  let password := if authority.password = [] then [] else ':' :: authority.password
  let user := authority.username ++ password
  (if user = [] then [] else user ++ ['@']) ++
    ((authority.host.map (·.text.toList)).getD []) ++
    ((authority.port.map fun port => ':' :: (toString port).toList).getD [])

/-- A path that would read as an authority is kept from it by a dot segment. -/
def guard (authority : Option Authority) (path : List Char) : List Char :=
  match authority, path with
  | none, '/' :: '/' :: _ => '/' :: '.' :: path
  | _, path => path

/-- Scheme, authority and path. -/
def hierarchy (url : Url) : List Char :=
  url.scheme ++ ':' ::
    (((url.authority.map fun authority => '/' :: '/' :: authority.text).getD []) ++
      guard url.authority url.location.text)

def text (url : Url) : String :=
  .ofList (url.hierarchy ++ ((url.query.map ('?' :: ·)).getD []) ++
    ((url.fragment.map ('#' :: ·)).getD []))

/-! ## Escaping -/

/-- ASCII without control characters. -/
def isPrintable (byte : UInt8) : Bool :=
  32 ≤ byte && byte < 127

/-- The printable characters but some. -/
def keptBut (excluded : String) (byte : UInt8) : Bool :=
  isPrintable byte && !excluded.toList.contains (Char.ofNat byte.toNat)

def escapeWith (kept : UInt8 → Bool) (text : List Char) : List Char :=
  Text.Percent.encodeBytes kept (Text.utf8 text)

def keptInFragment : UInt8 → Bool := keptBut " \"<>\x60"
def keptInPath : UInt8 → Bool := keptBut " \"<>\x60#?\x7b\x7d"
def keptInUser : UInt8 → Bool := keptBut " \"<>\x60#?\x7b\x7d/:;=@[\\]^|"
def keptInQuery : UInt8 → Bool := keptBut " \"#<>"
def keptInSpecialQuery : UInt8 → Bool := keptBut " \"#<>'"

/-! ## Paths -/

/-- A segment with its escaped dots resolved, if it is nothing but dots. -/
def dots (segment : List Char) : List Char :=
  match segment with
  | '%' :: '2' :: 'e' :: rest | '%' :: '2' :: 'E' :: rest => '.' :: dots rest
  | c :: rest => c :: dots rest
  | [] => []

/-- Take one segment; a double dot takes the last one off.  The segments stand with the last first. -/
def pushSegment (segments : List (List Char)) (segment : List Char) (last : Bool) :
    List (List Char) :=
  match dots segment with
  | ['.', '.'] => if last then [] :: segments.tail else segments.tail
  | ['.'] => if last then [] :: segments else segments
  | _ => escapeWith keptInPath segment :: segments

def pushSegments (segments : List (List Char)) : List (List Char) → List (List Char)
  | [] => segments
  | [segment] => pushSegment segments segment true
  | segment :: rest => pushSegments (pushSegment segments segment false) rest

/-- The segments of a text behind its first slash. -/
def segmentsOf (special : Bool) (text : List Char) : List (List Char) :=
  let slashed := if special then text.map fun c => if c = '\\' then '/' else c else text
  (pushSegments [] (Text.splitAll '/' slashed)).reverse

/-! ## Reading -/

def isSlash (special : Bool) (c : Char) : Bool :=
  c == '/' || (special && c == '\\')

/-- The characters that end an authority. -/
def endsAuthority (special : Bool) (c : Char) : Bool :=
  isSlash special c || c == '?' || c == '#'

/-- What stands before the last at sign, and what stands after it. -/
def splitUser (text : List Char) : Option (List Char) × List Char :=
  let host := (text.reverse.takeWhile (· != '@')).reverse
  if host.length = text.length then (none, text)
  else (some (text.take (text.length - host.length - 1)), host)

/-- The host up to a colon outside brackets, and what stands behind it. -/
def splitHost (inside : Bool) : List Char → List Char × List Char
  | [] => ([], [])
  | c :: rest =>
    if c = ':' ∧ !inside then ([], c :: rest)
    else
      let inside := if c = '[' then true else if c = ']' then false else inside
      let (host, behind) := splitHost inside rest
      (c :: host, behind)

/-- A port, unless it is that of the scheme. -/
def parsePort (scheme text : List Char) : Except Problem (Option Nat) :=
  if !text.all Net.isDecimal ∨ 65535 < Net.valueOf 10 text then .error .invalidPort
  else if text = [] ∨ defaultPort? scheme = some (Net.valueOf 10 text) then .ok none
  else .ok (some (Net.valueOf 10 text))

def parseAuthority (scheme text : List Char) : Except Problem Authority := do
  let special := isSpecial scheme
  let (user, rest) := splitUser text
  let (hostText, behind) := splitHost false rest
  if user = some [] ∧ rest = [] then throw .emptyHost
  if special ∧ hostText = [] then throw .emptyHost
  let host ← if special then Host.parse hostText else Host.parseOpaque hostText
  if hostText = [] ∧ behind ≠ [] then throw .emptyHost
  let port ← parsePort scheme (behind.drop 1)
  let user := user.getD []
  let (username, password) := (Text.cut? ':' user).getD (user, [])
  let authority : Authority :=
    { username := escapeWith keptInUser username
      password := escapeWith keptInUser password
      host := if hostText = [] then none else some host
      port }
  if hostText = [] ∧ (authority.username ≠ [] ∨ authority.password ≠ []) then throw .emptyHost
  return authority

/-- The path behind an authority. -/
def locationBehind (special : Bool) (text : List Char) : Location :=
  match text with
  | [] => .segments (if special then [[]] else [])
  | c :: rest =>
    if isSlash special c then .segments (segmentsOf special rest)
    else .segments (segmentsOf special (c :: rest))

/-- A drive letter, which a path of a file may start with. -/
def isDrive (segment : List Char) : Bool :=
  match segment with
  | [letter, mark] => letter.isAlpha && (mark == ':' || mark == '|')
  | _ => false

/-- The host and path of a file; a local host is left out. -/
def parseFile (text : List Char) : Except Problem (Authority × Location) := do
  let slashes := text.takeWhile (isSlash true)
  if 2 ≤ slashes.length then
    let rest := text.drop 2
    let hostText := rest.takeWhile fun c => !isSlash true c
    if isDrive hostText then return ({}, .segments (segmentsOf true rest))
    let path := locationBehind true (rest.dropWhile fun c => !isSlash true c)
    if hostText = [] then return ({}, path)
    let host ← Host.parse hostText
    return ({ host := if host = .domain "localhost".toList then none else some host }, path)
  else return ({}, .segments (segmentsOf true (text.drop slashes.length)))

/-- What stands behind the scheme, without query and fragment. -/
def parseHierarchy (scheme text : List Char) : Except Problem (Option Authority × Location) := do
  let special := isSpecial scheme
  if scheme = "file".toList then
    let (authority, location) ← parseFile text
    return (some authority, location)
  else if special ∨ (Text.strip? ['/', '/'] text).isSome then
    let rest := if special then text.dropWhile (isSlash true) else text.drop 2
    let authority ← parseAuthority scheme (rest.takeWhile fun c => !endsAuthority special c)
    return (some authority,
      locationBehind special (rest.dropWhile fun c => !endsAuthority special c))
  else
    match text with
    | '/' :: rest => return (none, .segments (segmentsOf false rest))
    | text => return (none, .plain (escapeWith isPrintable text))

def isSchemeCharacter (c : Char) : Bool :=
  c.isAlphanum || c == '+' || c == '-' || c == '.'

/-- The scheme and what stands behind it. -/
def splitScheme? (text : List Char) : Option (List Char × List Char) :=
  match Text.cut? ':' text with
  | some (c :: scheme, rest) =>
    if c.isAlpha ∧ scheme.all isSchemeCharacter then some (Text.lowerAscii (c :: scheme), rest)
    else none
  | _ => none

/-- The text up to a mark, and the text behind the mark, if it is there. -/
def splitAt (mark : Char) (text : List Char) : List Char × Option (List Char) :=
  match Text.cut? mark text with
  | some (before, after) => (before, some after)
  | none => (text, none)

/-- Control characters and blanks around a URL do not count, and line breaks and tabs nowhere. -/
def clean (text : List Char) : List Char :=
  (Text.trim (·.toNat ≤ 32) text).filter fun c => c != '\t' && c != '\n' && c != '\r'

def parse (text : String) : Except Problem Url :=
  match splitScheme? (clean text.toList) with
  | none => .error .relative
  | some (scheme, rest) => do
    let (rest, fragment) := splitAt '#' rest
    let (rest, query) := splitAt '?' rest
    let (authority, location) ← parseHierarchy scheme rest
    let keptInQuery := if isSpecial scheme then keptInSpecialQuery else keptInQuery
    return { scheme, authority, location, query := query.map (escapeWith keptInQuery)
             fragment := fragment.map (escapeWith keptInFragment) }

end Url

end ApiGateway
