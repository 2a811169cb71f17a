import DataLake.Foundation.Program
import DataLake.Mapping
import DataLake.RawStore
import DataLake.RunRow

/-! The calls a pipeline run makes, and the REST source: its settings, one request,
and the loop over the pages. -/

namespace DataLake

open Foundation

structure Response where
  status : Nat
  contentType : Option Text
  body : Bytes
deriving DecidableEq

inductive ConnectionKind where
  | source
  | destination
deriving DecidableEq

/-- The calls of a run. What travels inside a request or a load beyond the page
and the rows (headers, credentials) is the environment's. -/
inductive RunOp where
  | now
  | createTaskExecution (t : TaskExecution)
  | resolveCredential (kind : ConnectionKind)
  | send (page : Int)
  | raw (op : StoreOp)
  | load (rows : List Row)
  | saveRun (fields : RunFields) (copy : PipelineRun)
  | saveTaskExecution (t : TaskExecution)

@[reducible] def RunOp.Resp : RunOp → Type
  | now => Nat
  | createTaskExecution _ => Unit
  | resolveCredential _ => Except Exc Unit
  | send _ => Except Exc Response
  | raw op => op.Resp
  | load _ => Except Exc Nat
  | saveRun _ _ => Unit
  | saveTaskExecution _ => Unit

abbrev RunSig : Signature := ⟨RunOp, RunOp.Resp⟩

abbrev RunProg (α : Type) := Prog RunSig Exc α

def runCall (op : RunOp) : RunProg op.Resp := Prog.perform (S := RunSig) op

def orRaise {α : Type} : Except Exc α → RunProg α := Prog.ofExcept

theorem orRaise_ok {α β : Type} (a : α) (f : α → RunProg β) : (orRaise (.ok a) >>= f) = f a := rfl

structure FetchResult where
  records : List Json
  nextCursor : Option Text
  rawPayload : Bytes
  rawContentType : Text
  cursorUsed : Option Text
  sourcePath : Option Text
  httpStatus : Option Nat

/-- The settings of the source that decide what it does with a response. Those that
`_validate_config` checks the type of are kept as they are stored. -/
structure RestApiConfig where
  baseUrl : Text
  path : Text
  method : Text := "GET".toList
  recordsPath : Option Text := none
  recordsKey : Option Text := none
  pageSize : Option Rat := none
  startPage : Json := .int 1
  maxPages : Json := .int 500
  retainEmptyTerminalPage : Bool := false
  authProviderType : Option Text := none
  timeoutSeconds : Json := .int 30
  maxResponseBytes : Json := .int 10485760

/-- An `int` that is not a `bool`, and at least 1. -/
def Json.positiveInt : Json → Option Int
  | int n => if 1 ≤ n then some n else none
  | _ => none

def Json.positiveNumber : Json → Bool
  | int n => 0 < n
  | float q => 0 < q
  | _ => false

/-- The letters outside ASCII whose capitals have one of ASCII. -/
def upperCases : List (Char × String) :=
  [('ß', "SS"), ('ı', "I"), ('ŉ', "ʼN"), ('ſ', "S"), ('ǰ', "J\u030c"), ('ẖ', "H\u0331"),
    ('ẗ', "T\u0308"), ('ẘ', "W\u030a"), ('ẙ', "Y\u030a"), ('ẚ', "Aʾ"), ('ﬀ', "FF"), ('ﬁ', "FI"),
    ('ﬂ', "FL"), ('ﬃ', "FFI"), ('ﬄ', "FFL"), ('ﬅ', "ST"), ('ﬆ', "ST")]

/-- `str.upper`, where any other letter outside ASCII keeps its case. -/
def upper (s : Text) : Text :=
  s.flatMap fun c => ((upperCases.lookup c).map String.toList).getD [c.toUpper]

def allowedMethods : List Text := ["GET".toList, "POST".toList]

namespace RestApiConfig

/-- `_validate_config`; the page limit and the start page come back as integers. -/
def validate (config : RestApiConfig) : Except DataLakeError (Int × Int) := do
  if config.baseUrl = [] then
    throw (configurationError "rest_api source requires 'base_url'")
  if config.path = [] then
    throw (configurationError "rest_api source requires 'path'")
  if ¬ upper config.method ∈ allowedMethods then
    throw (configurationError (s!"rest_api source: unsupported method " ++
      s!"{pyRepr (upper config.method)} (allowed: ['GET', 'POST'])"))
  let some maxPages := config.maxPages.positiveInt |
    throw (configurationError "rest_api source: 'max_pages' must be a positive integer")
  let some startPage := config.startPage.positiveInt |
    throw (configurationError "rest_api source: 'start_page' must be a positive integer")
  if ¬ config.timeoutSeconds.positiveNumber then
    throw (configurationError "rest_api source: 'timeout_seconds' must be a positive number")
  if config.maxResponseBytes.positiveInt = none then
    throw (configurationError "rest_api source: 'max_response_bytes' must be a positive integer")
  return (maxPages, startPage)

/-- `_records_path`: an empty `records_path` counts as absent. -/
def records (config : RestApiConfig) : Text :=
  match config.recordsPath with
  | some (c :: cs) => c :: cs
  | _ => config.recordsKey.getD "results".toList

end RestApiConfig

def authProviderTypes : List Text :=
  ["api_key".toList, "basic".toList, "bearer".toList, "multi_step_token".toList,
    "token_endpoint".toList]

/-- `_resolve_auth_provider`: whether there is one. -/
def resolveAuthProvider (config : RestApiConfig) : Except Exc Bool :=
  match config.authProviderType with
  | none | some [] => .ok false
  | some typeKey =>
    if typeKey ∈ authProviderTypes then .ok true
    -- The text of a `KeyError` is the `repr` of its message.
    else .error (.other (pyRepr (s!"No AuthProvider registered for type_key={pyRepr typeKey}. " ++
      "Known types: ['api_key', 'basic', 'bearer', 'multi_step_token', 'token_endpoint']").toList))

def send (page : Int) : RunProg Response := do
  let r ← runCall (.send page)
  orRaise r

def checkStatus (response : Response) : Except Exc Response :=
  if response.status = 429 ∨ (500 ≤ response.status ∧ response.status < 600) then
    .error (.dataLake (fetchFailed s!"source returned HTTP {response.status}" true))
  else if response.status ≥ 400 then
    .error (.dataLake (fetchFailed s!"source returned HTTP {response.status}" false))
  else .ok response

def sendWithAuthRetry (provider : Bool) (page : Int) : RunProg Response := do
  let response ← send page
  let response ← if (response.status = 401 ∨ response.status = 403) ∧ provider then send page
    else pure response
  orRaise (checkStatus response)

def parseJson (loads : Bytes → Except String Json) (body : Bytes) : Except Exc Json :=
  match loads body with
  | .ok data => .ok data
  | .error message =>
    .error (.dataLake (malformedResponseError s!"source returned invalid JSON: {message}"))

def extractRecords (data : Json) (path : Text) : Except Exc (List Json) :=
  match data with
  | .arr items => .ok items
  | .obj fields =>
    match getByPath (.obj fields) path with
    | (_, false) =>
      .error (.dataLake (malformedResponseError
        s!"response is missing the expected records field {pyRepr path}"))
    | (.arr items, true) => .ok items
    | (_, true) =>
      .error (.dataLake (malformedResponseError
        s!"records field {pyRepr path} did not contain a list"))
  | _ =>
    .error (.dataLake (malformedResponseError
      s!"expected a JSON object or array in the response, got {data.typeName}"))

/-- What the loop does with a response: the page it yields, if any, and whether it
stops there. -/
structure PageStep where
  page : Option FetchResult
  stop : Bool

def fetchResult (config : RestApiConfig) (page : Int) (response : Response) (records : List Json)
    (nextCursor : Option Text) : FetchResult :=
  { records, nextCursor, rawPayload := response.body
    rawContentType := response.contentType.getD "application/json".toList
    cursorUsed := some (str page), sourcePath := some config.path
    httpStatus := some response.status }

def readPage (config : RestApiConfig) (loads : Bytes → Except String Json) (page : Int)
    (response : Response) : Except Exc PageStep := do
  let data ← parseJson loads response.body
  let records ← extractRecords data config.records
  if records.isEmpty then
    if config.retainEmptyTerminalPage then
      return ⟨some (fetchResult config page response [] none), true⟩
    else return ⟨none, true⟩
  else
    let isLastPage := config.pageSize.any fun size => (records.length : Rat) < size
    let nextCursor := if isLastPage then none else some (str (page + 1))
    return ⟨some (fetchResult config page response records nextCursor), isLastPage⟩

def pageLimitExceeded (maxPages page : Int) : DataLakeError :=
  pageLimitExceededError (s!"rest_api source reached max_pages={maxPages} while more data may " ++
    s!"remain: last successfully processed page={page}, next_cursor='{page + 1}'")

/-- The loop of `fetch`, run together with its consumer; `remaining` pages may still
be yielded after this one. -/
def fetchPages {σ : Type} (config : RestApiConfig) (loads : Bytes → Except String Json)
    (maxPages : Int) (provider : Bool) (consume : σ → FetchResult → RunProg σ) :
    Nat → Int → σ → RunProg σ
  | remaining, page, s => do
    let response ← sendWithAuthRetry provider page
    let step ← orRaise (readPage config loads page response)
    let s ← match step.page with
      | some result => consume s result
      | none => pure s
    if step.stop then return s
    else
      match remaining with
      | 0 => raiseError (pageLimitExceeded maxPages page)
      | remaining + 1 => fetchPages config loads maxPages provider consume remaining (page + 1) s

/-- `int(cursor) if cursor else start_page`. -/
def firstPage (cursor : Option Text) (startPage : Int) : Except Exc Int :=
  match cursor with
  | none | some [] => .ok startPage
  | some cursor =>
    match int cursor with
    | some page => .ok page
    | none => .error (.other
        s!"invalid literal for int() with base 10: {pyRepr cursor}")

def fetch {σ : Type} (config : RestApiConfig) (loads : Bytes → Except String Json)
    (cursor : Option Text) (consume : σ → FetchResult → RunProg σ) (s : σ) : RunProg σ := do
  let (maxPages, startPage) ← orRaise (config.validate.mapError Exc.dataLake)
  let page ← orRaise (firstPage cursor startPage)
  let provider ← orRaise (resolveAuthProvider config)
  fetchPages config loads maxPages provider consume (maxPages.toNat - 1) page s

theorem validate_ok {config : RestApiConfig} {maxPages startPage : Int}
    (h : config.validate = .ok (maxPages, startPage)) :
    config.maxPages.positiveInt = some maxPages ∧
    config.startPage.positiveInt = some startPage := by
  simp only [RestApiConfig.validate, throw, throwThe, MonadExceptOf.throw, bind, Except.bind,
    pure, Except.pure] at h
  cases hmax : config.maxPages.positiveInt with
  | none =>
    simp only [hmax] at h
    split_ifs at h
  | some m =>
    cases hstart : config.startPage.positiveInt with
    | none =>
      simp only [hmax, hstart] at h
      split_ifs at h
    | some s =>
      simp only [hmax, hstart] at h
      split_ifs at h
      cases h
      exact ⟨rfl, rfl⟩

theorem validate_maxPages (config : RestApiConfig) {limits : Int × Int} {maxPages : Int}
    (h : config.validate = .ok limits) (hmax : 1 ≤ maxPages) :
    { config with maxPages := .int maxPages }.validate = .ok (maxPages, limits.2) := by
  obtain ⟨m, s⟩ := limits
  obtain ⟨hm, hs⟩ := validate_ok h
  simp only [RestApiConfig.validate, throw, throwThe, MonadExceptOf.throw, bind, Except.bind,
    pure, Except.pure, hm, hs] at h ⊢
  have hpos : (Json.int maxPages).positiveInt = some maxPages := by simp [Json.positiveInt, hmax]
  simp only [hpos]
  split_ifs at h with hurl hpath hmethod htimeout hbytes
  cases h
  simp [hurl, hpath, hmethod, htimeout, hbytes]

theorem checkStatus_ok {response r : Response} (h : checkStatus response = .ok r) :
    r = response := by
  unfold checkStatus at h
  split_ifs at h
  exact (Except.ok.inj h).symm

theorem readPage_ok {config : RestApiConfig} {loads : Bytes → Except String Json} {page : Int}
    {response : Response} {step : PageStep} (h : readPage config loads page response = .ok step) :
    match step.page with
    | none => step.stop = true
    | some result => result.cursorUsed = some (str page) ∧
        result.nextCursor = if step.stop then none else some (str (page + 1)) := by
  unfold readPage at h
  cases hdata : parseJson loads response.body with
  | error e => rw [hdata] at h; cases h
  | ok data =>
    rw [hdata] at h
    cases hrecords : extractRecords data config.records with
    | error e => simp [hrecords, bind, Except.bind] at h
    | ok records =>
      simp only [hrecords, bind, Except.bind] at h
      split_ifs at h with _ _ hlast
      · cases h
        exact ⟨rfl, rfl⟩
      · cases h
        rfl
      · cases h
        exact ⟨rfl, by simp [fetchResult, hlast]⟩
      · cases h
        exact ⟨rfl, by simp [fetchResult, hlast]⟩

end DataLake
