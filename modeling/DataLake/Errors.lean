import DataLake.Foundation.Text

/-! The domain errors. Whether one is retryable, and its category, are fixed
where it is raised. -/

namespace DataLake

open Foundation

structure DataLakeError where
  message : String
  retryable : Bool
  category : String
deriving DecidableEq

/-- What a call can raise: a domain error, or an exception of some other class. -/
inductive Exc where
  | dataLake (e : DataLakeError)
  | other (message : String)
deriving DecidableEq

def fetchFailed (message : String) (retryable : Bool) : DataLakeError :=
  ⟨message, retryable, "FetchFailed"⟩

def malformedResponseError (message : String) : DataLakeError :=
  ⟨message, false, "MalformedResponseError"⟩

def configurationError (message : String) : DataLakeError :=
  ⟨message, false, "ConfigurationError"⟩

def authenticationError (message : String) : DataLakeError :=
  ⟨message, false, "AuthenticationError"⟩

def mappingError (message : String) : DataLakeError := ⟨message, false, "MappingError"⟩

def pageLimitExceededError (message : String) : DataLakeError :=
  ⟨message, false, "PageLimitExceededError"⟩

def outboundRequestBlocked (message : String) : DataLakeError :=
  ⟨message, false, "OutboundRequestBlockedError"⟩

def rawPayloadAccessDenied (message : String) : DataLakeError :=
  ⟨message, false, "RawPayloadAccessDenied"⟩

def rawPayloadIntegrityError (message : String) : DataLakeError :=
  ⟨message, false, "RawPayloadIntegrityError"⟩

def runClaimRejected (message : String) : DataLakeError := ⟨message, false, "RunClaimRejected"⟩

def invalidRunTransition (message : String) : DataLakeError :=
  ⟨message, false, "InvalidRunTransition"⟩

/-- How `run_pipeline` records an exception: a domain error as it is, any other
one wrapped as a non-retryable failure. -/
def Exc.wrapped : Exc → DataLakeError
  | .dataLake e => e
  | .other message => ⟨message, false, "UnexpectedError"⟩

/-- The assigned characters outside ASCII that Python does not print: controls, formats, spaces and
private use. -/
def notPrintable : List (Nat × Nat) :=
  [(0x7f, 0xa0), (0xad, 0xad), (0x600, 0x605), (0x61c, 0x61c), (0x6dd, 0x6dd), (0x70f, 0x70f),
    (0x890, 0x891), (0x8e2, 0x8e2), (0x1680, 0x1680), (0x180e, 0x180e), (0x2000, 0x200f),
    (0x2028, 0x202f), (0x205f, 0x206f), (0x3000, 0x3000), (0xe000, 0xf8ff), (0xfeff, 0xfeff),
    (0xfff9, 0xfffb), (0x110bd, 0x110bd), (0x110cd, 0x110cd), (0x13430, 0x1343f),
    (0x1bca0, 0x1bca3), (0x1d173, 0x1d17a), (0xe0001, 0xe0001), (0xe0020, 0xe007f),
    (0xf0000, 0xffffd), (0x100000, 0x10fffd)]

def isPrintable (c : Char) : Bool :=
  32 ≤ c.toNat && (c.toNat < 127 || !notPrintable.any fun range =>
    range.1 ≤ c.toNat && c.toNat ≤ range.2)

/-- Python's `repr` of a text. -/
def pyRepr (s : Text) : String :=
  let quote := if s.contains '\'' && !s.contains '"' then '"' else '\''
  let escape (c : Char) : Text :=
    if c = '\\' || c = quote then ['\\', c]
    else if c = '\n' then ['\\', 'n']
    else if c = '\r' then ['\\', 'r']
    else if c = '\t' then ['\\', 't']
    else if isPrintable c then [c]
    else if c.toNat < 0x100 then '\\' :: 'x' :: hexDigits 2 c.toNat
    else if c.toNat < 0x10000 then '\\' :: 'u' :: hexDigits 4 c.toNat
    else '\\' :: 'U' :: hexDigits 8 c.toNat
  String.ofList (quote :: s.flatMap escape ++ [quote])

end DataLake
