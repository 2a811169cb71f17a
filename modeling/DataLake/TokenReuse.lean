import DataLake.Foundation.Generator
import DataLake.StrictMapping
import DataLake.TokenProvider

/-! A fetch with a provider that keeps its token: when a token is used again, and when a new
one is acquired. -/

namespace DataLake

open Foundation

variable {Request : Type}

/-- The calls of a fetch. What `acquire` does is left to each provider. -/
inductive FetchOp (Request : Type) where
  | monotonic
  | acquire
  | send (request : Request)
  | yield (result : FetchResult)

@[reducible] def FetchOp.Resp {Request : Type} : FetchOp Request → Type
  | monotonic => Rat
  | acquire => Except Exc CachedToken
  | send _ => Except Exc Response
  | yield _ => Unit

abbrev FetchSig (Request : Type) : Signature := ⟨FetchOp Request, FetchOp.Resp⟩

abbrev FetchProg (Request α : Type) := Prog (FetchSig Request) Exc α

def fetchCall (op : FetchOp Request) : FetchProg Request op.Resp :=
  Prog.perform (S := FetchSig Request) op

/-- 401 and 403. -/
def Response.refuses (response : Response) : Bool :=
  response.status = 401 || response.status = 403

/-- What a fetch with a provider is set up with. -/
structure TokenFetch (Request : Type) where
  config : RestApiConfig
  loads : Bytes → Except String Json
  texts : TextLibrary
  requests : RequestLibrary Request
  /-- `client.build_request`, for a page. -/
  build : Int → Except Exc Request
  credential : Fields

namespace TokenFetch

variable (setting : TokenFetch Request)

def isExpired (cache : Option CachedToken) : FetchProg Request Bool :=
  match cache with
  | none => .ret true
  | some token =>
    match token.expiresAt with
    | none => .ret false
    | some deadline => do
      let now ← fetchCall .monotonic
      return deadline.reached now

def currentToken (cache : Option CachedToken) : FetchProg Request CachedToken := do
  let expired ← isExpired cache
  match expired, cache with
  | false, some token => return token
  | _, _ => do
    let acquired ← fetchCall .acquire
    Prog.ofExcept acquired

def prepareRequest (cache : Option CachedToken) (request : Request) :
    FetchProg Request (Request × CachedToken) := do
  let token ← currentToken cache
  let prepared ← Prog.ofExcept
    (injectToken setting.texts setting.requests setting.credential request token)
  return (prepared, token)

def buildRequest (cache : Option CachedToken) (page : Int) :
    FetchProg Request (Request × CachedToken) := do
  let request ← Prog.ofExcept (setting.build page)
  setting.prepareRequest cache request

def send (request : Request) : FetchProg Request Response := do
  let answer ← fetchCall (.send request)
  Prog.ofExcept answer

/-- `_send_with_auth_retry`, with the token that stays in the cache. -/
def sendWithAuthRetry (cache : Option CachedToken) (page : Int) :
    FetchProg Request (Response × CachedToken) := do
  let (request, token) ← setting.buildRequest cache page
  let response ← send request
  let (response, token) ← if response.refuses then do
      let (retryRequest, token) ← setting.buildRequest none page
      let response ← send retryRequest
      pure (response, token)
    else pure (response, token)
  let response ← Prog.ofExcept (checkStatus response)
  return (response, token)

/-- One turn of the loop, from a page number, the pages yielded and the cache to the next ones. -/
def fetchTurn (maxPages : Int) (state : Int × Nat × Option CachedToken) :
    FetchProg Request (Option (Int × Nat × Option CachedToken)) := do
  let (page, pagesYielded, cache) := state
  let (response, token) ← setting.sendWithAuthRetry cache page
  let step ← Prog.ofExcept (readPage setting.config setting.loads page response)
  match step.page with
  | some result => fetchCall (.yield result)
  | none => pure ()
  if step.stop then return none
  else if (pagesYielded : Int) + 1 ≥ maxPages then
    .raise (.dataLake (pageLimitExceeded maxPages page))
  else return some (page + 1, pagesYielded + 1, some token)

/-- `fetch`, with a provider of its own. -/
def fetch (fuel : Nat) (cursor : Option Text) : FetchProg Request Bool := do
  let (maxPages, startPage) ← Prog.ofExcept (setting.config.validate.mapError .dataLake)
  let page ← Prog.ofExcept (firstPage cursor startPage)
  Prog.loop (setting.fetchTurn maxPages) fuel (page, 0, none)

end TokenFetch

/-! What the calls made so far tell. -/

structure Standing where
  /-- The token that was acquired last. -/
  token : Option CachedToken := none
  /-- A request has gone out since, and the source has answered one of those with 401 or 403. -/
  sent : Bool := false
  rejected : Bool := false
  /-- The clock, as it was last read since the last request. -/
  reading : Option Rat := none
  /-- The acquisition that has failed. -/
  failure : Option Exc := none
  pages : Nat := 0
  /-- The requests for the page under way, and whether the last one was refused. -/
  tries : Nat := 0
  refused : Bool := false

namespace Standing

def after (s : Standing) : Call (FetchSig Request) → Standing
  | ⟨.monotonic, now⟩ => { s with reading := some now }
  | ⟨.acquire, .ok token⟩ => { s with token := some token, sent := false, rejected := false }
  | ⟨.acquire, .error e⟩ => { s with failure := some e }
  | ⟨.send _, answer⟩ =>
    let refused := answer.toOption.any Response.refuses
    { s with
      sent := true
      rejected := s.rejected || refused
      reading := none
      tries := s.tries + 1
      refused }
  | ⟨.yield _, _⟩ => { s with pages := s.pages + 1, tries := 0 }

/-- The clock was read at the deadline of the token, or later. -/
def Overdue (s : Standing) : Prop :=
  ∃ token now, s.token = some token ∧ s.reading = some now ∧
    (token.expiresAt = some .negInfinite ∨ ∃ q, token.expiresAt = some (.finite q) ∧ q ≤ now)

/-- The clock was read before the deadline of the token, where there is one. -/
def InTime (s : Standing) (token : CachedToken) : Prop :=
  ∀ deadline, token.expiresAt = some deadline → ∃ now, s.reading = some now ∧
    deadline ≠ .negInfinite ∧ ∀ q, deadline = .finite q → now < q

end Standing

theorem reached_iff {now : Rat} {deadline : PyFloat} : deadline.reached now = true ↔
    deadline = .negInfinite ∨ ∃ q, deadline = .finite q ∧ q ≤ now := by
  cases deadline <;> simp [PyFloat.reached]

def standing (calls : List (Call (FetchSig Request))) : Standing := calls.foldl Standing.after {}

theorem standing_snoc (calls : List (Call (FetchSig Request))) (call : Call (FetchSig Request)) :
    standing (calls ++ [call]) = (standing calls).after call := by
  rw [standing, List.foldl_append]
  rfl

namespace TokenFetch

variable (setting : TokenFetch Request)

/-- The request for a page, with the token in its header. -/
def Carries (page : Int) (token : CachedToken) (request : Request) : Prop :=
  ∃ plain, setting.build page = .ok plain ∧
    injectToken setting.texts setting.requests setting.credential plain token = .ok request

/-- When a call may be made. -/
def Lawful (first : Int) (s : Standing) : FetchOp Request → Prop
  | .acquire => s.token = none ∨ s.rejected = true ∨ s.Overdue
  | .send request =>
    (∃ token, s.token = some token ∧ setting.Carries (first + s.pages) token request ∧
      s.rejected = false ∧ (s.sent = true → s.InTime token)) ∧
    (s.tries = 0 ∨ s.tries = 1 ∧ s.refused = true ∧ s.sent = false)
  | _ => True

/-- The page that the fetch begins with. -/
def BeginsWith (cursor : Option Text) (first : Int) : Prop :=
  ∃ limits, setting.config.validate = .ok limits ∧ firstPage cursor limits.2 = .ok first

end TokenFetch

/-! The cache, as the calls tell it. -/

/-- The cache holds the token acquired last, unless that was rejected. -/
structure Kept (cache : Option CachedToken) (s : Standing) : Prop where
  unfailed : s.failure = none
  cached : match cache with
    | some token => s.token = some token ∧ s.sent = true ∧ s.rejected = false
    | none => s.token = none ∨ s.rejected = true

/-- The token is one that the next request may carry. -/
structure Ready (cache : Option CachedToken) (s s' : Standing) (token : CachedToken) : Prop where
  unfailed : s'.failure = none
  current : s'.token = some token
  accepted : s'.rejected = false
  inTime : s'.sent = true → s'.InTime token
  fresh : cache = none → s'.sent = false
  pages : s'.pages = s.pages
  tries : s'.tries = s.tries
  refused : s'.refused = s.refused

/-- A failed acquisition is how the fetch ends. -/
def FailureEnds {α : Type} (s : Standing) (out : Except Exc α) : Prop :=
  ∀ e, s.failure = some e → out = .error e

theorem failureEnds_of_none {α : Type} {s : Standing} (h : s.failure = none) (out : Except Exc α) :
    FailureEnds s out := by
  intro e he
  rw [h] at he
  cases he

/-! What the providers do at an acquisition. -/

/-- A body tells in how many seconds its token expires. -/
def ExpiresIn (lib : AuthLibrary Request) (credential : Fields) (body : Bytes) (seconds : PyFloat) :
    Prop :=
  ∃ path data value, getField credential "expires_in_field" = .str path ∧ path ≠ [] ∧
    lib.loads body = .ok data ∧ Present data path value ∧ pyFloat lib value = .ok (some seconds)

/-- A token has the deadline that the last answer tells, counted from the last reading of the
clock, less the margin; it has none if the answer tells none. -/
def Dated (lib : AuthLibrary Request) (credential : Fields) (calls : List (Call (AuthSig Request)))
    (token : CachedToken) : Prop :=
  ∃ response body, (answers calls).getLast? = some (response, body) ∧
    (∀ q, ExpiresIn lib credential body (.finite q) → ∃ before now,
      calls = before ++ [⟨.monotonic, now⟩] ∧
        token.expiresAt = some (.finite (now + max (q - 30) 0))) ∧
    ((∀ seconds, ¬ ExpiresIn lib credential body seconds) → token.expiresAt = none)

section Providers

variable {lib : AuthLibrary Request} {credential : Fields} {calls : List (Call (AuthSig Request))}

theorem ExpiresIn.unique {body : Bytes} {seconds seconds' : PyFloat}
    (h : ExpiresIn lib credential body seconds) (h' : ExpiresIn lib credential body seconds') :
    seconds = seconds' := by
  obtain ⟨path, data, value, hpath, -, hdata, hvalue, hseconds⟩ := h
  obtain ⟨path', data', value', hpath', -, hdata', hvalue', hseconds'⟩ := h'
  cases hpath.symm.trans hpath'
  cases hdata.symm.trans hdata'
  cases hvalue.unique hvalue'
  cases hseconds.symm.trans hseconds'
  rfl

theorem guardedSend_answered (request : Request) :
    (authCall (.guardedSend request) >>= fun answer => Prog.ofExcept answer).Along (fun _ _ => True)
      (fun _ _ => True) (fun calls' out => ∀ answer, out = .ok answer →
        (answers calls').getLast? = some answer) calls := by
  refine ⟨trivial, fun answer _ => ?_⟩
  cases answer with
  | error e => exact nofun
  | ok answer =>
    rintro _ ⟨⟩
    show (answers (calls ++ [⟨.guardedSend request, .ok answer⟩])).getLast? = some answer
    rw [answers, List.filterMap_append]
    exact List.getLast?_concat

theorem sendStep_answered (context : Context) (i : Nat) (step : Fields) :
    (sendStep lib context i step).Along (fun _ _ => True) (fun _ _ => True)
      (fun calls' out => ∀ answer, out = .ok answer →
        (answers calls').getLast? = some answer) calls := by
  refine along_orFail (fun _ => nofun) fun method _ => along_orFail (fun _ => nofun) fun url _ =>
    along_orFail (fun _ => nofun) fun headers _ => along_orFail (fun _ => nofun) fun body _ => ?_
  refine Prog.Along.handle (Prog.along_ofExcept (fun _ _ => nofun) fun request _ =>
    guardedSend_answered request) (fun _ _ h => h) fun _ _ _ => nofun

/-- The body that steps leave is that of the last answer. -/
theorem runSteps_answered (steps : List (Fields × Nat)) (outputs : Outputs) (finalBody : Option Bytes)
    (h : steps = [] → ∃ response body, finalBody = some body ∧
      (answers calls).getLast? = some (response, body)) :
    (runSteps lib credential steps outputs finalBody).Along (fun _ _ => True) (fun _ _ => True)
      (fun calls' out => ∀ result, out = .ok result → ∃ response body, result.2 = some body ∧
        (answers calls').getLast? = some (response, body)) calls := by
  induction steps generalizing outputs finalBody calls with
  | nil =>
    rintro _ ⟨⟩
    exact h rfl
  | cons x steps ih =>
    refine (sendStep_answered _ _ _).handle (fun calls' answer hanswer => ?_) fun _ _ _ => nofun
    obtain ⟨response, body⟩ := answer
    dsimp only
    split_ifs
    · exact nofun
    · exact Prog.along_ofExcept (fun _ _ => nofun) fun outputs' _ =>
        ih outputs' _ fun _ => ⟨response, body, rfl, hanswer _ rfl⟩

theorem extractExpiresAt_dated {response : HttpResponse} {body : Bytes}
    (hbody : (answers calls).getLast? = some (response, body)) (value : Text) :
    (extractExpiresAt lib body (getField credential "expires_in_field")).Along (fun _ _ => True)
      (fun _ _ => True) (fun calls' out => ∀ expiresAt, out = .ok expiresAt →
        Dated lib credential calls' ⟨value, expiresAt⟩) calls := by
  have huntold : (∀ seconds, ¬ ExpiresIn lib credential body seconds) →
      ∀ (expiresAt : Option PyFloat), (.ok none : Except Exc (Option PyFloat)) = .ok expiresAt →
        Dated lib credential calls ⟨value, expiresAt⟩ := by
    rintro hnone _ ⟨⟩
    exact ⟨response, body, hbody, fun q hq => absurd hq (hnone _), fun _ => rfl⟩
  unfold extractExpiresAt
  split_ifs with hfalsy
  · refine huntold ?_
    rintro seconds ⟨path, _, _, hpath, hne, -⟩
    rw [hpath] at hfalsy
    exact hne (by simpa [Json.truthy] using hfalsy)
  · split
    · rename_i hloads
      refine huntold ?_
      rintro seconds ⟨_, _, _, _, _, hdata, -⟩
      cases hloads.symm.trans hdata
    · exact nofun
    · rename_i data path hdata hpath
      rw [hpath] at hfalsy
      have hne : path ≠ [] := by simpa [Json.truthy] using hfalsy
      have htold : ∀ seconds, ExpiresIn lib credential body seconds →
          ∃ value, Present data path value ∧ pyFloat lib value = .ok (some seconds) := by
        rintro seconds ⟨_, _, value, hpath', -, hdata', hvalue, hseconds⟩
        cases hpath.symm.trans hpath'
        cases hdata.symm.trans hdata'
        exact ⟨value, hvalue, hseconds⟩
      split
      · rename_i hmissing
        refine huntold fun seconds hseconds => ?_
        obtain ⟨value, hvalue, -⟩ := htold seconds hseconds
        exact getByPath_missing.mp (congrArg Prod.snd hmissing) value hvalue
      · rename_i found hfound
        have hpresent := getByPath_found.mp hfound
        refine Prog.along_ofExcept (fun _ _ => nofun) fun seconds hseconds => ?_
        cases seconds with
        | none =>
          refine huntold fun seconds' hseconds' => ?_
          obtain ⟨value, hvalue, hfloat⟩ := htold seconds' hseconds'
          rw [hvalue.unique hpresent, hseconds] at hfloat
          cases hfloat
        | some seconds =>
          have htells : ExpiresIn lib credential body seconds :=
            ⟨path, data, found, hpath, hne, hdata, hpresent, hseconds⟩
          refine ⟨trivial, fun now _ => ?_⟩
          rintro _ ⟨⟩
          refine ⟨response, body, by rwa [answers_monotonic], fun q hq => ?_, fun hnone => ?_⟩
          · rw [htells.unique hq]
            exact ⟨calls, now, rfl, rfl⟩
          · exact absurd htells (hnone seconds)
    · exact nofun

/-- A token that is returned with the expiry that the answer tells. -/
theorem dated_token {response : HttpResponse} {body : Bytes}
    (hbody : (answers calls).getLast? = some (response, body)) (value : Text) :
    (extractExpiresAt lib body (getField credential "expires_in_field") >>= fun expiresAt =>
      (pure ⟨value, expiresAt⟩ : AuthProg Request CachedToken)).Along (fun _ _ => True)
      (fun _ _ => True) (fun calls' out => ∀ token, out = .ok token →
        Dated lib credential calls' token) calls := by
  refine (extractExpiresAt_dated hbody value).handle (fun calls' expiresAt h => ?_) fun _ _ _ => nofun
  rintro _ ⟨⟩
  exact h _ rfl

theorem acquire_dated (maxTimeoutSeconds : Rat) :
    (acquire lib maxTimeoutSeconds credential).Along (fun _ _ => True) (fun _ _ => True)
      (fun calls' out => ∀ token, out = .ok token → Dated lib credential calls' token) calls := by
  refine along_orFail (fun _ => nofun) fun steps hsteps => along_orFail (fun _ => nofun) fun _ _ => ?_
  have hne : steps.zipIdx ≠ [] := by
    rw [ne_eq, List.zipIdx_eq_nil_iff]
    exact validateSteps_ne_nil hsteps
  refine (withClient_along (fun _ _ _ => trivial) ?_
    (runSteps_answered _ _ none fun hnil => absurd hnil hne)).handle ?_ fun _ _ _ => nofun
  · intro calls' out h result hout
    rw [answers_closeClient]
    exact h result hout
  · rintro calls' ⟨outputs, finalBody⟩ h
    obtain ⟨response, body, hfinal, hbody⟩ := h _ rfl
    obtain rfl : finalBody = some body := hfinal
    refine Prog.along_ofExcept (fun _ _ => nofun) fun key _ => ?_
    split
    · exact nofun
    · exact dated_token hbody _

theorem acquireFromEndpoint_dated (maxTimeoutSeconds : Rat) :
    (acquireFromEndpoint lib maxTimeoutSeconds credential).Along (fun _ _ => True) (fun _ _ => True)
      (fun calls' out => ∀ token, out = .ok token → Dated lib credential calls' token) calls := by
  refine along_orFail (fun _ => nofun) fun _ _ => along_orFail (fun _ => nofun) fun _ _ =>
    along_orFail (fun _ => nofun) fun _ _ => along_orFail (fun _ => nofun) fun extract _ =>
    Prog.along_ofExcept (fun _ _ => nofun) fun headers _ => ?_
  refine Prog.Along.handle (Q := fun calls' out => ∀ answer, out = .ok answer →
    (answers calls').getLast? = some answer) ?_ ?_ fun _ _ _ => nofun
  · refine Prog.Along.handle (Q := fun calls' out => ∀ answer, out = .ok answer →
      (answers calls').getLast? = some answer)
      (withClient_along (fun _ _ _ => trivial) ?_ (Prog.along_ofExcept (fun _ _ => nofun)
        fun request _ => guardedSend_answered request)) (fun _ _ h => h) fun _ _ _ => nofun
    intro calls' out h answer hout
    rw [answers_closeClient]
    exact h answer hout
  · rintro calls' ⟨response, body⟩ h
    show (readToken lib credential extract response body).Along _ _ _ _
    unfold readToken
    split_ifs
    · exact nofun
    · exact Prog.along_ofExcept (fun _ _ => nofun) fun value _ => dated_token (h _ rfl) value

end Providers

namespace TokenFetch

variable {setting : TokenFetch Request} {first page : Int} {cache : Option CachedToken}
  {calls : List (Call (FetchSig Request))}

/-- The law of every call, of a fetch from the page given on. -/
def Law (setting : TokenFetch Request) (first : Int) (calls : List (Call (FetchSig Request)))
    (op : FetchOp Request) : Prop :=
  (standing calls).failure = none ∧ setting.Lawful first (standing calls) op

abbrev Follows {α : Type} (setting : TokenFetch Request) (first : Int)
    (Q : List (Call (FetchSig Request)) → Except Exc α → Prop)
    (calls : List (Call (FetchSig Request))) (p : FetchProg Request α) : Prop :=
  p.Along (fun _ _ => True) (setting.Law first) Q calls

theorem acquire_follows (hfailure : (standing calls).failure = none)
    (hlawful : setting.Lawful first (standing calls) .acquire) (cache : Option CachedToken) :
    setting.Follows first (fun calls' out => match out with
        | .ok token => Ready cache (standing calls) (standing calls') token
        | .error _ => FailureEnds (standing calls') out)
      calls (fetchCall .acquire >>= fun acquired => Prog.ofExcept acquired) := by
  refine ⟨⟨hfailure, hlawful⟩, fun acquired _ => ?_⟩
  cases acquired with
  | ok token =>
    show Ready _ _ (standing (calls ++ [⟨.acquire, .ok token⟩])) token
    rw [standing_snoc]
    exact ⟨hfailure, rfl, rfl, nofun, fun _ => rfl, rfl, rfl, rfl⟩
  | error e =>
    show FailureEnds (standing (calls ++ [⟨.acquire, .error e⟩])) _
    rw [standing_snoc]
    rintro e' ⟨⟩
    rfl

theorem currentToken_unlimited {token : CachedToken} (h : token.expiresAt = none) :
    currentToken (some token) = (.ret token : FetchProg Request CachedToken) := by
  cases token
  cases h
  rfl

theorem currentToken_limited {token : CachedToken} {deadline : PyFloat}
    (h : token.expiresAt = some deadline) :
    currentToken (some token) = ((fetchCall .monotonic >>= fun now =>
      if deadline.reached now then fetchCall .acquire >>= fun acquired => Prog.ofExcept acquired
      else .ret token) : FetchProg Request CachedToken) := by
  obtain ⟨value, expiresAt⟩ := token
  cases h
  refine congrArg (@Prog.call (FetchSig Request) Exc CachedToken .monotonic) (funext fun now => ?_)
  show ((Prog.ret (deadline.reached now) : FetchProg Request Bool) >>= _) =
    if deadline.reached now then _ else _
  cases deadline.reached now <;> rfl

theorem currentToken_follows (h : Kept cache (standing calls)) :
    setting.Follows first (fun calls' out => match out with
        | .ok token => Ready cache (standing calls) (standing calls') token
        | .error _ => FailureEnds (standing calls') out)
      calls (currentToken cache) := by
  cases cache with
  | none => exact acquire_follows h.unfailed (h.cached.imp_right .inl) none
  | some token =>
    obtain ⟨htoken, -, haccepted⟩ := h.cached
    cases hexpires : token.expiresAt with
    | none =>
      rw [currentToken_unlimited hexpires]
      refine ⟨h.unfailed, htoken, haccepted, fun _ deadline hdeadline => ?_, nofun, rfl, rfl, rfl⟩
      rw [hexpires] at hdeadline
      cases hdeadline
    | some deadline =>
      rw [currentToken_limited hexpires]
      refine ⟨⟨h.unfailed, trivial⟩, fun now _ => ?_⟩
      have hread : standing (calls ++ [⟨.monotonic, now⟩]) =
          { standing calls with reading := some now } := standing_snoc _ _
      show setting.Follows first _ _ (if deadline.reached now then _ else _)
      split_ifs with hreached
      · refine (acquire_follows (by rw [hread]; exact h.unfailed) ?_ (some token)).imp
          fun calls' out hout => ?_
        · rw [hread]
          refine .inr (.inr ⟨token, now, htoken, rfl, ?_⟩)
          simpa [hexpires] using reached_iff.mp hreached
        · rw [hread] at hout
          cases out with
          | ok token' => exact { hout with }
          | error e => exact hout
      · show Ready _ _ (standing (calls ++ [⟨.monotonic, now⟩])) token
        rw [hread]
        refine ⟨h.unfailed, htoken, haccepted, fun _ deadline' hdeadline => ⟨now, rfl, ?_⟩, nofun,
          rfl, rfl, rfl⟩
        cases hexpires.symm.trans hdeadline
        rw [reached_iff, not_or] at hreached
        exact ⟨hreached.1, fun q hq => lt_of_not_ge fun hle => hreached.2 ⟨q, hq, hle⟩⟩

/-- What `_build_request` gives back. -/
theorem buildRequest_follows (h : Kept cache (standing calls)) :
    setting.Follows first (fun calls' out => match out with
        | .ok (request, token) => Ready cache (standing calls) (standing calls') token ∧
            setting.Carries page token request
        | .error _ => FailureEnds (standing calls') out)
      calls (setting.buildRequest cache page) := by
  refine Prog.along_ofExcept (fun e _ => failureEnds_of_none h.unfailed _) fun plain hplain => ?_
  refine (currentToken_follows h).handle (fun calls' token hready => ?_) fun calls' e hends => ?_
  · exact Prog.along_ofExcept (fun e _ => failureEnds_of_none hready.unfailed _)
      fun request hrequest => ⟨hready, plain, hplain, hrequest⟩
  · intro e' he
    cases hends e' he
    rfl

theorem send_follows {request : Request} (hfailure : (standing calls).failure = none)
    (hlawful : setting.Lawful first (standing calls) (.send request)) :
    setting.Follows first
      (fun calls' out => standing calls' = (standing calls).after ⟨.send request, out⟩)
      calls (send request) := by
  refine ⟨⟨hfailure, hlawful⟩, fun answer _ => ?_⟩
  cases answer with
  | ok response => exact standing_snoc _ _
  | error e => exact standing_snoc _ _

theorem checkStatus_refuses {response response' : Response} (h : checkStatus response = .ok response') :
    response.refuses = false := by
  unfold checkStatus at h
  split_ifs at h with _ hstatus
  have hlt : response.status < 400 := Nat.lt_of_not_le hstatus
  simp only [Response.refuses, Bool.or_eq_false_iff, decide_eq_false_iff_not]
  omega

/-- Where the answer is not a refusal, the token stays. -/
theorem ready_kept {s s' : Standing} {token : CachedToken} (h : Ready cache s s' token)
    {request : Request} {response : Response} (hresponse : response.refuses = false) :
    Kept (some token) (s'.after ⟨.send request, .ok response⟩) where
  unfailed := h.unfailed
  cached := ⟨h.current, rfl, by simp [Standing.after, h.accepted, hresponse, Except.toOption]⟩

/-- One page: the token is the one that stays in the cache. -/
theorem sendWithAuthRetry_follows (h : Kept cache (standing calls))
    (htries : (standing calls).tries = 0) (hpage : page = first + (standing calls).pages) :
    setting.Follows first (fun calls' out => match out with
        | .ok (_, token) => Kept (some token) (standing calls') ∧
            (standing calls').pages = (standing calls).pages
        | .error _ => FailureEnds (standing calls') out)
      calls (setting.sendWithAuthRetry cache page) := by
  refine (buildRequest_follows h).handle ?_ fun _ _ h => fun e he => by cases h e he; rfl
  rintro calls₁ ⟨request, token⟩ ⟨hready, hcarries⟩
  rw [hpage, ← hready.pages] at hcarries
  have hlawful : setting.Lawful first (standing calls₁) (.send request) :=
    ⟨⟨token, hready.current, hcarries, hready.accepted, hready.inTime⟩,
      .inl (hready.tries.trans htries)⟩
  refine (send_follows hready.unfailed hlawful).handle (fun calls₂ response hsent => ?_)
    fun calls₂ e hsent => failureEnds_of_none (by rw [hsent]; exact hready.unfailed) _
  split_ifs with hrefuses
  · -- the token was rejected, and the request is sent again with another one
    have hrejected : Kept none (standing calls₂) := by
      rw [hsent]
      exact ⟨hready.unfailed, .inr (by simp [Standing.after, hrefuses, Except.toOption])⟩
    have hrebuilt : setting.Follows first _ calls₂ (setting.buildRequest none page) :=
      buildRequest_follows hrejected
    refine hrebuilt.handle ?_ fun _ _ h => fun e he => by
      cases h e he
      rfl
    rintro calls₃ ⟨retryRequest, token'⟩ ⟨hready', hcarries'⟩
    have hpages : (standing calls₃).pages = (standing calls).pages := by
      rw [hready'.pages, hsent, ← hready.pages]
      rfl
    rw [hpage, ← hpages] at hcarries'
    have htried : (standing calls₃).tries = 1 := by
      rw [hready'.tries, hsent]
      simp [Standing.after, hready.tries, htries]
    have hrefused : (standing calls₃).refused = true := by
      rw [hready'.refused, hsent]
      simp [Standing.after, hrefuses, Except.toOption]
    have hlawful' : setting.Lawful first (standing calls₃) (.send retryRequest) :=
      ⟨⟨token', hready'.current, hcarries', hready'.accepted, hready'.inTime⟩,
        .inr ⟨htried, hrefused, hready'.fresh rfl⟩⟩
    refine (send_follows hready'.unfailed hlawful').handle (fun calls₄ response' hsent' => ?_)
      fun calls₄ e hsent' => failureEnds_of_none (by rw [hsent']; exact hready'.unfailed) _
    have hunfailed : (standing calls₄).failure = none := by
      rw [hsent']
      exact hready'.unfailed
    refine Prog.along_ofExcept (fun e _ => failureEnds_of_none hunfailed _) fun response'' hstatus => ?_
    exact ⟨hsent' ▸ ready_kept hready' (checkStatus_refuses hstatus), by rw [hsent', ← hpages]; rfl⟩
  · have hunfailed : (standing calls₂).failure = none := by
      rw [hsent]
      exact hready.unfailed
    refine Prog.along_ofExcept (fun e _ => failureEnds_of_none hunfailed _) fun response' hstatus => ?_
    exact ⟨hsent ▸ ready_kept hready (checkStatus_refuses hstatus), by rw [hsent, ← hready.pages]; rfl⟩

/-- The state between two turns. -/
structure Between (first : Int) (state : Int × Nat × Option CachedToken) (s : Standing) : Prop where
  kept : Kept state.2.2 s
  untried : s.tries = 0
  page : state.1 = first + s.pages

theorem fetchTurn_follows {state : Int × Nat × Option CachedToken} (maxPages : Int)
    (h : Between first state (standing calls)) :
    setting.Follows first (fun calls' out => match out with
        | .ok (some next) => Between first next (standing calls')
        | .ok none => FailureEnds (standing calls') (.ok true)
        | .error e => FailureEnds (standing calls') (.error e : Except Exc Bool))
      calls (setting.fetchTurn maxPages state) := by
  obtain ⟨page, pagesYielded, cache⟩ := state
  refine (sendWithAuthRetry_follows h.kept h.untried h.page).handle ?_ fun _ _ h => fun e he => by
    cases h e he
    rfl
  rintro calls₁ ⟨response, token⟩ ⟨hkept, hpages⟩
  refine Prog.along_ofExcept (fun e _ => failureEnds_of_none hkept.unfailed _) fun step hstep => ?_
  obtain ⟨result, stop⟩ := step
  cases result with
  | none =>
    have hstop : stop = true := readPage_ok hstep
    subst hstop
    exact failureEnds_of_none hkept.unfailed _
  | some result =>
    refine ⟨⟨hkept.unfailed, trivial⟩, fun _ _ => ?_⟩
    have hyielded : standing (calls₁ ++ [⟨.yield result, ()⟩]) =
        { standing calls₁ with pages := (standing calls₁).pages + 1, tries := 0 } :=
      standing_snoc _ _
    have hunfailed : (standing (calls₁ ++ [⟨.yield result, ()⟩])).failure = none := by
      rw [hyielded]
      exact hkept.unfailed
    show setting.Follows first _ _ (if stop = true then _ else _)
    split_ifs
    · exact failureEnds_of_none hunfailed _
    · exact failureEnds_of_none hunfailed _
    · show Between first (page + 1, pagesYielded + 1, some token) (standing _)
      rw [hyielded]
      refine ⟨⟨hkept.unfailed, hkept.cached⟩, rfl, ?_⟩
      have hpage : page = first + (standing calls).pages := h.page
      show page + 1 = first + ((standing calls₁).pages + 1 : Nat)
      rw [hpage, hpages]
      omega

theorem fetch_follows (setting : TokenFetch Request) (fuel : Nat) (cursor : Option Text) :
    (setting.fetch fuel cursor).Along (fun _ _ => True)
      (fun calls op => ∃ first, setting.BeginsWith cursor first ∧ setting.Law first calls op)
      (fun calls out => FailureEnds (standing calls) out) [] := by
  refine Prog.along_ofExcept (fun e _ => nofun) fun limits hlimits => ?_
  refine Prog.along_ofExcept (fun e _ => nofun) fun first hfirst => ?_
  have hbegins : setting.BeginsWith cursor first := by
    refine ⟨limits, ?_, hfirst⟩
    cases hvalidate : setting.config.validate with
    | ok limits' =>
      rw [hvalidate] at hlimits
      cases hlimits
      rfl
    | error e =>
      rw [hvalidate] at hlimits
      cases hlimits
  have hstart : Between first (first, 0, none) (standing ([] : List (Call (FetchSig Request)))) :=
    ⟨⟨rfl, .inl rfl⟩, rfl, (Int.add_zero first).symm⟩
  refine Prog.Along.mono (P := setting.Law first) ?_ fun _ _ hlaw => ⟨first, hbegins, hlaw⟩
  refine Prog.Along.loop (K := fun state calls => Between first state (standing calls))
    (fun _ _ h => (fetchTurn_follows limits.1 h).imp fun _ out hout => ?_)
    (fun _ _ h => failureEnds_of_none h.kept.unfailed _) fuel hstart
  rcases out with e | _ | next <;> exact hout

section Carried

variable {T : Signature} {carry : ∀ op : FetchOp Request, Prog T Exc op.Resp}
  {f : AuthOp Request → T.Op} {g : ∀ op, T.Resp (f op) → op.Resp}
  {acquired : AuthProg Request CachedToken}

theorem currentToken_interpret
    (hclock : carry .monotonic = (authCall .monotonic : AuthProg Request Rat).embed f g)
    (hacquire : carry .acquire =
      (acquired.embed f g).handle (fun token => .ret (.ok token)) fun e => .ret (.error e)) :
    (currentToken cache).interpret carry = (DataLake.currentToken acquired cache).embed f g := by
  have hacquired : (fetchCall .acquire >>= fun answer =>
      (Prog.ofExcept answer : FetchProg Request CachedToken)).interpret carry = acquired.embed f g := by
    rw [Prog.interpret_bind]
    show ((carry .acquire).handle .ret .raise).handle
      (fun answer => (Prog.ofExcept answer : FetchProg Request CachedToken).interpret carry) .raise = _
    rw [Prog.handle_handle, hacquire, Prog.handle_handle]
    generalize acquired.embed f g = p
    induction p with
    | ret token => rfl
    | raise e => rfl
    | call op k ih => exact congrArg (Prog.call op) (funext ih)
  cases cache with
  | none => exact hacquired
  | some token =>
    obtain ⟨value, _ | deadline⟩ := token
    · rfl
    · rw [currentToken_limited rfl, Prog.interpret_bind]
      show ((carry .monotonic).handle .ret .raise).handle _ _ = _
      rw [hclock]
      refine congrArg (Prog.call (f .monotonic)) (funext fun r => ?_)
      show (if deadline.reached (g .monotonic r) then _ else _ : FetchProg Request _).interpret carry =
        ((Prog.ret (deadline.reached (g .monotonic r)) : AuthProg Request Bool) >>= _).embed f g
      cases deadline.reached (g .monotonic r) with
      | true => exact hacquired
      | false => rfl

/-- Where an acquisition is carried out by the program of a provider, a request is prepared as
that provider prepares it. -/
theorem prepareRequest_interpret
    (hclock : carry .monotonic = (authCall .monotonic : AuthProg Request Rat).embed f g)
    (hacquire : carry .acquire =
      (acquired.embed f g).handle (fun token => .ret (.ok token)) fun e => .ret (.error e))
    (request : Request) :
    (setting.prepareRequest cache request).interpret carry =
      (DataLake.prepareRequest setting.texts setting.requests acquired setting.credential cache
        request).embed f g := by
  unfold prepareRequest DataLake.prepareRequest
  rw [Prog.interpret_bind, Prog.embed_bind, currentToken_interpret hclock hacquire]
  refine congrArg _ (funext fun token => ?_)
  cases (injectToken setting.texts setting.requests setting.credential request token) with
  | ok prepared => rfl
  | error e => rfl

end Carried

end TokenFetch

/-- Every request of a fetch carries the token that was acquired last, which has neither been
rejected nor, after its first use, reached its deadline; a token is acquired when there is no
such one, the second request for a page is sent after a refusal and with a new token, and an
acquisition that fails is the end. The deadline is the one that either provider computes. -/
theorem tokens_reused_in_time (setting : TokenFetch Request) (fuel : Nat) (cursor : Option Text)
    (lib : AuthLibrary Request) (maxTimeoutSeconds : Rat) :
    (setting.fetch fuel cursor).Along (fun _ _ => True)
      (fun calls op => ∃ first, setting.BeginsWith cursor first ∧ setting.Law first calls op)
      (fun calls out => FailureEnds (standing calls) out) [] ∧
    ∀ acquired ∈ [acquire lib maxTimeoutSeconds setting.credential,
        acquireFromEndpoint lib maxTimeoutSeconds setting.credential],
      acquired.Along (fun _ _ => True) (fun _ _ => True) (fun calls out =>
        ∀ token, out = .ok token → Dated lib setting.credential calls token) [] := by
  refine ⟨TokenFetch.fetch_follows setting fuel cursor, fun acquired hacquired => ?_⟩
  rcases List.mem_cons.mp hacquired with rfl | hacquired
  · exact acquire_dated maxTimeoutSeconds
  · rw [List.mem_singleton.mp hacquired]
    exact acquireFromEndpoint_dated maxTimeoutSeconds

/-- A source of pages of two records, and requests by their page and the token that they carry. -/
def pagedFetch : TokenFetch (Int × Text) where
  config := { baseUrl := "https://source".toList, path := "/rows".toList, maxPages := .int 3 }
  loads := fun _ => .ok (.arr [.null, .null])
  texts := asciiTexts
  requests := { setHeader := fun request _ value => .ok (request.1, value) }
  build := fun page => .ok (page, [])
  credential := []

/-- A world that has the readings of its clock, its tokens and its statuses at hand. -/
def scripted : Exec (FetchSig (Int × Text)) Unit (List Rat × List CachedToken × List Nat)
  | .monotonic, _, (now :: readings, rest) => some (now, readings, rest)
  | .acquire, _, (readings, token :: tokens, statuses) => some (.ok token, readings, tokens, statuses)
  | .acquire, _, (readings, [], statuses) => some (.error (.other "no token"), readings, [], statuses)
  | .send _, _, (readings, tokens, status :: statuses) =>
    some (.ok ⟨status, none, []⟩, readings, tokens, statuses)
  | .yield _, _, w => some ((), w)
  | _, _, _ => none

/-- The requests of a fetch, each with its page and the token that it carries. -/
def FetchOp.sent : FetchOp (Int × Text) → Option (Int × Text)
  | .send request => some request
  | _ => none

-- the token is used again before its deadline, another is acquired at it, and the refusal of that
-- one makes for a third, with which the page is asked for once more
example : ((pagedFetch.fetch 3 none).calls scripted (fun _ => ())
    ([5, 10], [⟨"a".toList, some (.finite 10)⟩, ⟨"b".toList, some (.finite 20)⟩, ⟨"c".toList, none⟩],
      [200, 200, 401, 200])).filterMap FetchOp.sent =
    [(1, "Bearer a".toList), (2, "Bearer a".toList), (3, "Bearer b".toList),
      (3, "Bearer c".toList)] := by decide +kernel

-- no token for the second request of a page, and so no second request
example : ((pagedFetch.fetch 3 none).calls scripted (fun _ => ())
    ([], [⟨"a".toList, none⟩], [403])).filterMap FetchOp.sent = [(1, "Bearer a".toList)] := by
  decide +kernel

end DataLake
