import DataLake.Foundation.Sha256
import DataLake.Placeholders
import DataLake.Redirects
import DataLake.RestApiSource
import Mathlib.Algebra.Order.Ring.Unbundled.Rat

/-! What the providers that acquire a token have in common: the checks of their settings,
and what they read from a response. -/

namespace DataLake

open Foundation

abbrev Fields := List (Text × Json)

/-- `fields.get(key, missing)` -/
def getField (fields : Fields) (key : String) (missing : Json := .null) : Json :=
  (fields.lookup key.toList).getD missing

/-- `fields[key] = value` -/
def dictSet (fields : Fields) (key : Text) (value : Json) : Fields :=
  if key ∈ fields.map Prod.fst then fields.map fun x => if x.1 = key then (key, value) else x
  else fields ++ [(key, value)]

def dictUpdate (fields extra : Fields) : Fields :=
  extra.foldl (fun fields x => dictSet fields x.1 x.2) fields

/-- `bool(value)` -/
def Json.truthy : Json → Bool
  | .null => false
  | .bool b => b
  | .int n => n ≠ 0
  | .float q => q ≠ 0
  | .str s => s ≠ []
  | .arr items => !items.isEmpty
  | .obj fields => !fields.isEmpty

/-- A value as the key of a dictionary: numbers and truth values are one if they are equal. -/
inductive HashKey where
  | none
  | num (q : Rat)
  | str (s : Text)
deriving DecidableEq

def Json.hashKey (value : Json) : Except Exc HashKey :=
  match value with
  | .null => .ok .none
  | .bool b => .ok (.num (if b then 1 else 0))
  | .int n => .ok (.num n)
  | .float q => .ok (.num q)
  | .str s => .ok (.str s)
  | .arr _ | .obj _ => .error (.other s!"unhashable type: '{value.typeName}'")

inductive PyFloat where
  | finite (q : Rat)
  | infinite
  | negInfinite
  | nan
deriving DecidableEq

/-- What `json.loads` raises: a `ValueError`, or something else, as it does of text that is nested
too deeply. -/
inductive LoadsError where
  | value
  | other (message : String)

/-- What the token providers use of httpx and of the standard library. -/
structure AuthLibrary (Request : Type) where
  texts : TextLibrary
  loads : Bytes → Except LoadsError Json
  parseFloat : Text → Option PyFloat
  /-- From a method, a URL, headers and a JSON body. -/
  buildRequest : Text → Json → Json → Option Json → Except Exc Request
  url : Request → Text
  isHttpError : Exc → Bool
  /-- `headers.get(name)`, which raises of a name that it cannot encode. -/
  header : List (Text × Text) → Text → Except String (Option Text)

/-! The settings. -/

def validateUrl (value : Json) (label : String) : Except DataLakeError Unit :=
  let error := configurationError s!"{label} must be an absolute http:// or https:// URL"
  match value with
  | .str s =>
    if "http://".toList.isPrefixOf s || "https://".toList.isPrefixOf s then .ok () else .error error
  | _ => .error error

section Checks

variable (lib : TextLibrary)

def validateMethod (value : Json) (label : String) : Except DataLakeError Text :=
  let method := if value.truthy then lib.upper (value.toText lib) else "POST".toList
  if method ∈ allowedMethods then .ok method
  else .error (configurationError
    (s!"{label} must be one of ['GET', 'POST'], got " ++ String.ofList (value.repr lib)))

def validateHeaderName (value : Json) (label : String) : Except DataLakeError Unit :=
  let error := configurationError s!"{label} must be a non-empty header name"
  match value with
  | .str s =>
    if s.all isWhitespace || s.contains '\r' || s.contains '\n' then .error error else .ok ()
  | _ => .error error

def validateFieldPath (value : Json) (label : String) : Except DataLakeError Unit :=
  let error := configurationError s!"{label} must be a non-empty field path"
  match value with
  | .str s => if s.all isWhitespace then .error error else .ok ()
  | _ => .error error

/-- An `int` or a `float`, not a `bool`. -/
def Json.number : Json → Option Rat
  | .int n => some n
  | .float q => some q
  | _ => none

def validateTimeout (maxTimeoutSeconds : Rat) (value : Json) (label : String) :
    Except DataLakeError Rat :=
  let error := configurationError s!"{label} must be a positive number"
  match value.number with
  | none => .error error
  | some seconds =>
    if seconds ≤ 0 then .error error
    else if maxTimeoutSeconds < seconds then
      .error (configurationError (s!"{label} must not exceed " ++
        String.ofList (lib.floatRepr maxTimeoutSeconds) ++ " seconds"))
    else .ok seconds

end Checks

/-- An equal string; nothing else equals one. -/
def Json.isText (value : Json) (s : String) : Bool :=
  match value with
  | .str s' => s' = s.toList
  | _ => false

def validateExtractConfig (extract : Json) (label : String) : Except DataLakeError Fields :=
  match extract with
  | .obj extract =>
    let source := getField extract "from"
    if source.isText "json" then do
      validateFieldPath (getField extract "field") s!"{label}.field"
      return extract
    else if source.isText "header" then do
      validateHeaderName (getField extract "header") s!"{label}.header"
      return extract
    else .error (configurationError s!"{label}.from must be 'json' or 'header'")
  | _ => .error (configurationError s!"{label} must be an object")

section Extraction

variable {Request : Type} (lib : AuthLibrary Request)

def extractValue (response : HttpResponse) (body : Bytes) (extract : Fields) : Except Exc Text :=
  if (getField extract "from").isText "header" then
    match getField extract "header" with
    | .str name =>
      match lib.header response.headers name with
      | .error message => .error (.other message)
      | .ok none => .error (.dataLake (authenticationError
          s!"authentication response missing header {pyRepr name}"))
      | .ok (some value) => .ok value
    | _ => .error (.other "header name is not a string")
  else
    match lib.loads body with
    | .error .value =>
      .error (.dataLake (authenticationError "authentication response was not valid JSON"))
    | .error (.other message) => .error (.other message)
    | .ok data =>
      match getField extract "field" with
      | .str field =>
        match getByPath data field with
        | (value, true) => .ok (value.toText lib.texts)
        | (_, false) => .error (.dataLake (authenticationError
            s!"authentication response missing field {pyRepr field}"))
      | _ => .error (.other "field path is not a string")

/-- `float(value)`; `none` stands for a `TypeError` or a `ValueError`. -/
def pyFloat (value : Json) : Except Exc (Option PyFloat) :=
  match value with
  | .bool b => .ok (some (.finite (if b then 1 else 0)))
  | .int n =>
    if n.natAbs < 2 ^ 1024 - 2 ^ 970 then .ok (some (.finite n))
    else .error (.other "int too large to convert to float")
  | .float q => .ok (some (.finite q))
  | .str s => .ok (lib.parseFloat s)
  | _ => .ok none

end Extraction

structure CachedToken where
  value : Text
  /-- The deadline, where there is one. -/
  expiresAt : Option PyFloat
deriving DecidableEq

def expirySafetyMarginSeconds : Rat := 30

/-- `now + max(seconds - margin, 0)` -/
def deadline (now : Rat) : PyFloat → PyFloat
  | .finite seconds => .finite (now + max (seconds - expirySafetyMarginSeconds) 0)
  | .infinite => .infinite
  | .negInfinite => .finite now
  | .nan => .nan

end DataLake
