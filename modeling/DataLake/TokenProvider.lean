import DataLake.MultiStep

/-! The provider that asks one endpoint for a token, and what both token providers do with
what they have acquired: they keep it until it expires or is rejected, and put it into a
header of the request. -/

namespace DataLake

open Foundation

variable {Request α : Type}

/-! `TokenEndpointAuthProvider`. -/

def dictPair (item : Json) : Except Exc (Text × Json) :=
  match item with
  | .arr [.str key, value] => .ok (key, value)
  | .str [key, value] => .ok ([key], .str [value])
  | _ => .error (.other "dictionary update sequence element has the wrong length")

/-- `dict(value)`: pairs do for a dictionary, too. -/
def pyDict (value : Json) : Except Exc Fields :=
  match value with
  | .obj fields => .ok fields
  | .arr items => (items.mapM dictPair).map (dictUpdate [])
  | .str [] => .ok []
  | _ => .error (.other s!"'{value.typeName}' object is not iterable")

section Endpoint

variable (lib : AuthLibrary Request)

def endpointFailure (e : Exc) : Exc :=
  match e with
  | .dataLake e => .dataLake e
  | .other message =>
    if lib.isHttpError e then
      .dataLake (authenticationError s!"token endpoint request failed: {message}")
    else e

/-- What is done with the answer of the endpoint. -/
def readToken (credential extract : Fields) (response : HttpResponse) (body : Bytes) :
    AuthProg Request CachedToken :=
  if 400 ≤ response.statusCode then
    .raise (.dataLake (authenticationError
      s!"token endpoint returned HTTP {response.statusCode}"))
  else do
    let value ← Prog.ofExcept (extractValue lib response body extract)
    let expiresAt ← extractExpiresAt lib body (getField credential "expires_in_field")
    return { value, expiresAt }

/-- `TokenEndpointAuthProvider._acquire` -/
def acquireFromEndpoint (maxTimeoutSeconds : Rat) (credential : Fields) :
    AuthProg Request CachedToken := do
  orFail (validateUrl (getField credential "token_url") "credential.token_url")
  let method ← orFail (validateMethod lib.texts (getField credential "method" (.str "POST".toList))
    "credential.method")
  let readTimeout ← orFail (validateTimeout lib.texts maxTimeoutSeconds
    (getField credential "timeout_seconds" defaultTimeoutSeconds) "credential.timeout_seconds")
  let extract ← orFail (validateExtractConfig (getField credential "extract") "credential.extract")
  let headers ← Prog.ofExcept (pyDict (getField credential "request_headers" (.obj [])))
  let requestBody := match getField credential "request_body" with
    | .null => none
    | body => some body
  let sent : AuthProg Request (HttpResponse × Bytes) :=
    withClient { defaultTimeout with read := readTimeout } do
      let request ← Prog.ofExcept (lib.buildRequest method (getField credential "token_url")
        (.obj headers) (if method = "POST".toList then requestBody else none))
      let answer ← authCall (.guardedSend request)
      Prog.ofExcept answer
  let (response, body) ← sent.handle .ret fun e => .raise (endpointFailure lib e)
  readToken lib credential extract response body

end Endpoint

/-! `TokenCachingAuthProvider`. -/

/-- `now >= deadline` -/
def PyFloat.reached (now : Rat) : PyFloat → Bool
  | finite q => q ≤ now
  | negInfinite => true
  | infinite | nan => false

def isExpired (cache : Option CachedToken) : AuthProg Request Bool :=
  match cache with
  | none => .ret true
  | some token =>
    match token.expiresAt with
    | none => .ret false
    | some deadline => do
      let now ← authCall .monotonic
      return deadline.reached now

/-- What the connector gives the provider: a request, in which a header can be set. That raises of
a value that cannot be encoded, as one with half of a surrogate pair. -/
structure RequestLibrary (Request : Type) where
  setHeader : Request → Text → Text → Except String Request

/-- The token of the cache, or a new one when that is expired. -/
def currentToken (acquired : AuthProg Request CachedToken) (cache : Option CachedToken) :
    AuthProg Request CachedToken := do
  let expired ← isExpired cache
  match expired, cache with
  | false, some token => return token
  | _, _ => acquired

def injectHeader (credential : Fields) : Json :=
  getField credential "inject_header" (.str "Authorization".toList)

def injectPrefix (credential : Fields) : Json :=
  getField credential "inject_prefix" (.str "Bearer ".toList)

/-- The request with the token in its header. The name of the header is a text when it is
accepted. -/
def injectToken (lib : TextLibrary) (requests : RequestLibrary Request) (credential : Fields)
    (request : Request) (token : CachedToken) : Except Exc Request := do
  (validateHeaderName (injectHeader credential) "credential.inject_header").mapError .dataLake
  (requests.setHeader request ((injectHeader credential).toText lib)
    ((injectPrefix credential).toText lib ++ token.value)).mapError .other

/-- `prepare_request`: the request with the token, and the cache as it leaves it. -/
def prepareRequest (lib : TextLibrary) (requests : RequestLibrary Request)
    (acquired : AuthProg Request CachedToken) (credential : Fields) (cache : Option CachedToken)
    (request : Request) : AuthProg Request (Request × CachedToken) := do
  let token ← currentToken acquired cache
  let prepared ← Prog.ofExcept (injectToken lib requests credential request token)
  return (prepared, token)

end DataLake
