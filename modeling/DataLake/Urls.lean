import DataLake.Foundation.Text

/-! The parts of a URL, as `urllib.parse.urlsplit` cuts them. -/

namespace DataLake

open Foundation

/-- What the cutting uses of Unicode and of the address library. -/
structure UrlLibrary where
  lower : Text → Text
  nfkc : Text → Text
  /-- The version of an address literal. -/
  ipAddress : Text → Except String Nat

structure SplitResult where
  scheme : Text
  netloc : Text
deriving DecidableEq

/-- `s.rpartition(sep)`. -/
def rpartition (sep : Char) (s : Text) : Text × Bool × Text :=
  match partition sep s.reverse with
  | (after, true, before) => (before.reverse, true, after.reverse)
  | (_, false, _) => ([], false, s)

namespace SplitResult

def userinfo (parts : SplitResult) : Option Text × Option Text :=
  match rpartition '@' parts.netloc with
  | (info, true, _) =>
    match partition ':' info with
    | (username, true, password) => (some username, some password)
    | (username, false, _) => (some username, none)
  | (_, false, _) => (none, none)

def username (parts : SplitResult) : Option Text := parts.userinfo.1

def password (parts : SplitResult) : Option Text := parts.userinfo.2

def hostinfo (parts : SplitResult) : Text :=
  let hostinfo := (rpartition '@' parts.netloc).2.2
  match partition '[' hostinfo with
  | (_, true, bracketed) => (partition ']' bracketed).1
  | (_, false, _) => (partition ':' hostinfo).1

/-- The host in lower case, but for the zone of a scoped address. -/
def hostname (lib : UrlLibrary) (parts : SplitResult) : Option Text :=
  match parts.hostinfo with
  | [] => none
  | name =>
    match partition '%' name with
    | (host, true, zone) => some (lib.lower host ++ '%' :: zone)
    | (host, false, _) => some (lib.lower host)

end SplitResult

def isSchemeChar (c : Char) : Bool := c.isAlphanum || c = '+' || c = '-' || c = '.'

/-- A scheme starts with a letter and ends at the first colon. -/
def splitScheme (url : Text) : Text × Text :=
  match url, partition ':' url with
  | c :: _, (scheme, true, rest) =>
    if c.isAlpha && scheme.all isSchemeChar then (scheme.map Char.toLower, rest) else ([], url)
  | _, _ => ([], url)

def splitNetloc : Text → Text
  | '/' :: '/' :: rest => rest.takeWhile fun c => !(c = '/' || c = '?' || c = '#')
  | _ => []

def isHexDigit (c : Char) : Bool := c.isDigit || ('a' ≤ c && c ≤ 'f') || ('A' ≤ c && c ≤ 'F')

def checkBracketedHost (lib : UrlLibrary) (hostname : Text) : Except String Unit :=
  match hostname with
  | 'v' :: rest =>
    match partition '.' rest with
    | (version, true, address) =>
      if version ≠ [] && version.all isHexDigit && address ≠ [] then .ok ()
      else .error "IPvFuture address is invalid"
    | _ => .error "IPvFuture address is invalid"
  | _ => do
    let version ← lib.ipAddress hostname
    if version = 4 then throw "An IPv4 address cannot be in brackets"

def checkBracketedNetloc (lib : UrlLibrary) (netloc : Text) : Except String Unit :=
  let hostAndPort := (rpartition '@' netloc).2.2
  match partition '[' hostAndPort with
  | (before, true, bracketed) => do
    if before ≠ [] then throw "Invalid IPv6 URL"
    let (hostname, _, port) := partition ']' bracketed
    if port ≠ [] && port.head? ≠ some ':' then throw "Invalid IPv6 URL"
    checkBracketedHost lib hostname
  | (_, false, _) => checkBracketedHost lib (partition ':' hostAndPort).1

/-- A character that normalizes to a delimiter is refused. -/
def checkNetloc (lib : UrlLibrary) (netloc : Text) : Except String Unit :=
  if netloc.all fun c => c.toNat < 128 then .ok ()
  else
    let kept := netloc.filter fun c => !(c = '@' || c = ':' || c = '#' || c = '?')
    let normalized := lib.nfkc kept
    if kept ≠ normalized && "/?#@:".toList.any normalized.contains then
      .error s!"netloc '{String.ofList netloc}' contains invalid characters under NFKC normalization"
    else .ok ()

def urlsplit (lib : UrlLibrary) (url : Text) : Except String SplitResult := do
  let stripped := url.dropWhile fun c => c.toNat ≤ 32
  let cleaned := stripped.filter fun c => !(c = '\t' || c = '\r' || c = '\n')
  let (scheme, rest) := splitScheme cleaned
  let netloc := splitNetloc rest
  if netloc.contains '[' ≠ netloc.contains ']' then throw "Invalid IPv6 URL"
  if netloc.contains '[' && netloc.contains ']' then checkBracketedNetloc lib netloc
  checkNetloc lib netloc
  return ⟨scheme, netloc⟩

end DataLake
