import DataLake.Foundation.Sessions
import DataLake.TokenSupport

/-! The acquisition of a token in several steps: the requests it sends, and what these
reveal of the credential. -/

namespace DataLake

open Foundation

structure Timeout where
  connect : Rat
  read : Rat
  write : Rat
  pool : Rat

def defaultTimeout : Timeout := ⟨10, 30, 10, 10⟩

def defaultTimeoutSeconds : Json := .int 30

def maxMultiSteps : Nat := 5

inductive AuthOp (Request : Type) where
  | buildClient (timeout : Timeout)
  | closeClient
  | guardedSend (request : Request)
  | monotonic

@[reducible] def AuthOp.Resp {Request : Type} : AuthOp Request → Type
  | buildClient _ => Unit
  | closeClient => Unit
  | guardedSend _ => Except Exc (HttpResponse × Bytes)
  | monotonic => Rat

abbrev AuthSig (Request : Type) : Signature := ⟨AuthOp Request, AuthOp.Resp⟩

abbrev AuthProg (Request α : Type) := Prog (AuthSig Request) Exc α

section Acquire

variable {Request α : Type}

def authCall (op : AuthOp Request) : AuthProg Request op.Resp :=
  Prog.perform (S := AuthSig Request) op

def orFail (x : Except DataLakeError α) : AuthProg Request α :=
  Prog.ofExcept (x.mapError .dataLake)

theorem orFail_ok {β : Type} (a : α) (f : α → AuthProg Request β) :
    orFail (.ok a) >>= f = f a := rfl

theorem orFail_error {β : Type} (e : DataLakeError) (f : α → AuthProg Request β) :
    orFail (.error e) >>= f = .raise (.dataLake e) := rfl

/-! `_validate_steps`. -/

def validateStep (lib : TextLibrary) (i : Nat) (step : Json) : Except DataLakeError Fields :=
  match step with
  | .obj step => do
    validateUrl (getField step "url") s!"credential.steps[{i}].url"
    let _ ← validateMethod lib (getField step "method" (.str "POST".toList))
      s!"credential.steps[{i}].method"
    match step.lookup "extract".toList with
    | none => return step
    | some extract => do
      let extract ← validateExtractConfig extract s!"credential.steps[{i}].extract"
      if (getField extract "as").truthy then return step
      else throw (configurationError s!"credential.steps[{i}].extract.as is required")
  | _ => throw (configurationError s!"credential.steps[{i}] must be an object")

def validateSteps (lib : TextLibrary) (credential : Fields) :
    Except DataLakeError (List Fields) :=
  match getField credential "steps" with
  | .arr (first :: rest) =>
    if maxMultiSteps < (first :: rest).length then
      throw (configurationError (s!"credential.steps has {(first :: rest).length} entries, " ++
        s!"exceeding the maximum of {maxMultiSteps}"))
    else do
      let steps ← (first :: rest).zipIdx.mapM fun x => validateStep lib x.2 x.1
      if (getField credential "final_token_from").truthy then return steps
      else throw (configurationError "credential.final_token_from is required")
  | _ => throw (configurationError "credential.steps must be a non-empty list")

/-! `_acquire`. -/

/-- The values produced so far, by their names. -/
abbrev Outputs := List (HashKey × Text)

def Outputs.assign (outputs : Outputs) (key : HashKey) (value : Text) : Outputs :=
  (key, value) :: outputs.filter fun x => x.1 ≠ key

/-- What a path can reach of the outputs. -/
def Outputs.toJson (outputs : Outputs) : Json :=
  .obj (outputs.filterMap fun x =>
    match x with
    | (.str name, value) => some (name, .str value)
    | _ => none)

def stepContext (credential : Fields) (outputs : Outputs) : Context :=
  [(credentialSpace, .obj credential), (stepsSpace, outputs.toJson)]

variable (lib : AuthLibrary Request)

/-- A transport error becomes an authentication error, any other exception goes on. -/
def stepFailure (i : Nat) (e : Exc) : Exc :=
  match e with
  | .dataLake e => .dataLake e
  | .other message =>
    if lib.isHttpError e then
      .dataLake (authenticationError s!"multi-step auth step {i} request failed: {message}")
    else e

/-- The request of a step. A body is substituted whatever the method is, and goes with a
`POST` only. -/
def sendStep (context : Context) (i : Nat) (step : Fields) :
    AuthProg Request (HttpResponse × Bytes) := do
  let method ← orFail (validateMethod lib.texts (getField step "method" (.str "POST".toList))
    s!"credential.steps[{i}].method")
  let url ← orFail (substitutePlaceholders lib.texts context (getField step "url"))
  let headers ← orFail (substitutePlaceholders lib.texts context (getField step "headers" (.obj [])))
  let body ← orFail (match getField step "json_body" with
    | .null => .ok none
    | body => (substitutePlaceholders lib.texts context body).map some)
  let sent : AuthProg Request (HttpResponse × Bytes) := do
    let request ← Prog.ofExcept (lib.buildRequest method url headers
      (if method = "POST".toList then body else none))
    let answer ← authCall (.guardedSend request)
    Prog.ofExcept answer
  sent.handle .ret fun e => .raise (stepFailure lib i e)

/-- What a step adds to the outputs. -/
def recordOutput (step : Fields) (response : HttpResponse) (body : Bytes) (outputs : Outputs) :
    Except Exc Outputs :=
  match step.lookup "extract".toList with
  | none => .ok outputs
  | some (.obj extract) => do
    let value ← extractValue lib response body extract
    let key ← (getField extract "as").hashKey
    return outputs.assign key value
  | some _ => .error (.other "extract is not a dict")

def runSteps (credential : Fields) :
    List (Fields × Nat) → Outputs → Option Bytes → AuthProg Request (Outputs × Option Bytes)
  | [], outputs, finalBody => .ret (outputs, finalBody)
  | (step, i) :: steps, outputs, _ => do
    let (response, body) ← sendStep lib (stepContext credential outputs) i step
    if 400 ≤ response.statusCode then
      .raise (.dataLake (authenticationError
        s!"multi-step auth step {i} returned HTTP {response.statusCode}"))
    else do
      let outputs ← Prog.ofExcept (recordOutput lib step response body outputs)
      runSteps credential steps outputs (some body)

def extractExpiresAt (body : Bytes) (expiresInField : Json) :
    AuthProg Request (Option PyFloat) :=
  if !expiresInField.truthy then .ret none
  else
    match lib.loads body, expiresInField with
    | .error .value, _ => .ret none
    | .error (.other message), _ => .raise (.other message)
    | .ok data, .str field =>
      match getByPath data field with
      | (_, false) => .ret none
      | (value, true) => do
        match ← Prog.ofExcept (pyFloat lib value) with
        | none => return none
        | some seconds => do
          let now ← authCall .monotonic
          return some (deadline now seconds)
    | .ok _, field =>
      .raise (.other s!"'{field.typeName}' object has no attribute 'split'")

/-- What becomes of the outputs of all steps. -/
def finalToken (credential : Fields) (outputs : Outputs) (finalBody : Option Bytes) :
    AuthProg Request CachedToken := do
  let finalTokenFrom := getField credential "final_token_from"
  let key ← Prog.ofExcept finalTokenFrom.hashKey
  match outputs.lookup key with
  | none => .raise (.dataLake (authenticationError ("multi-step auth: " ++
      String.ofList (finalTokenFrom.repr lib.texts) ++ " was never produced by any step")))
  | some value => do
    let expiresAt ← match finalBody with
      | none => .ret none
      | some body => extractExpiresAt lib body (getField credential "expires_in_field")
    return { value, expiresAt }

/-- `with build_client(timeout=timeout) as client` -/
def withClient (timeout : Timeout) (body : AuthProg Request α) : AuthProg Request α := do
  authCall (.buildClient timeout)
  body.handle (fun a => authCall .closeClient >>= fun _ => .ret a)
    fun e => authCall .closeClient >>= fun _ => .raise e

/-- `MultiStepTokenAuthProvider._acquire` -/
def acquire (maxTimeoutSeconds : Rat) (credential : Fields) : AuthProg Request CachedToken := do
  let steps ← orFail (validateSteps lib.texts credential)
  let readTimeout ← orFail (validateTimeout lib.texts maxTimeoutSeconds
    (getField credential "timeout_seconds" defaultTimeoutSeconds) "credential.timeout_seconds")
  let result ← withClient { defaultTimeout with read := readTimeout }
    (runSteps lib credential steps.zipIdx [] none)
  finalToken lib credential result.1 result.2

end Acquire

/-! On the wire: `guarded_send` carries out the requests that it lets through. -/

inductive WireOp (Request : Type) where
  | buildClient (timeout : Timeout)
  | closeClient
  | send (request : Request)
  | nextChunk
  | close
  | monotonic

@[reducible] def WireOp.Resp {Request : Type} : WireOp Request → Type
  | buildClient _ => Unit
  | closeClient => Unit
  | send _ => Except Exc HttpResponse
  | nextChunk => Except Exc (Option Chunk)
  | close => Unit
  | monotonic => Rat

abbrev WireSig (Request : Type) : Signature := ⟨WireOp Request, WireOp.Resp⟩

variable {Request A : Type} [Address A]

def WireOp.ofHttp (request : Request) : HttpOp → WireOp Request
  | .send _ => .send request
  | .nextChunk => .nextChunk
  | .close => .close

def WireOp.toHttp (request : Request) :
    (op : HttpOp) → (WireSig Request).Resp (ofHttp request op) → HttpSig.Resp op
  | .send _, response => response
  | .nextChunk, chunk => chunk
  | .close, done => done

/-- What stands around an acquisition: the settings, and the libraries. -/
structure AuthSetting (Request A : Type) where
  lib : AuthLibrary Request
  urls : UrlLibrary
  context : OutboundContext A
  options : SendOptions
  maxTimeoutSeconds : Rat

namespace AuthSetting

variable (setting : AuthSetting Request A)

def carry : (op : AuthOp Request) → Prog (WireSig Request) Exc op.Resp
  | .buildClient timeout => Prog.perform (S := WireSig Request) (.buildClient timeout)
  | .closeClient => Prog.perform (S := WireSig Request) .closeClient
  | .guardedSend request =>
    ((guardedSend setting.urls setting.context setting.options (setting.lib.url request)).embed
      (T := WireSig Request) (WireOp.ofHttp request) (WireOp.toHttp request)).handle
        (fun answer => .ret (.ok answer)) fun e => .ret (.error e)
  | .monotonic => Prog.perform (S := WireSig Request) .monotonic

def acquireOverWire (credential : Fields) : Prog (WireSig Request) Exc CachedToken :=
  (acquire setting.lib setting.maxTimeoutSeconds credential).interpret setting.carry

end AuthSetting

/-- The request that goes out with a call. -/
def WireOp.sent : WireOp Request → Option Request
  | .send request => some request
  | _ => none

/-! What an acquisition depends on. -/

/-- The path is written as a placeholder in what a step sends. -/
def Written (credential : Fields) (path : Text) : Prop :=
  ∃ items step key value s, getField credential "steps" = .arr items ∧ .obj step ∈ items ∧
    key ∈ ["url", "headers", "json_body"] ∧ step.lookup key.toList = some value ∧
    value.HasText s ∧ .inr (credentialSpace, path) ∈ placeholders.scan s

structure Agree (credential credential' : Fields) : Prop where
  fields : ∀ key ∈ ["steps", "final_token_from", "expires_in_field", "timeout_seconds"],
    credential'.lookup key.toList = credential.lookup key.toList
  paths : ∀ path, Written credential path →
    getByPath (.obj credential') path = getByPath (.obj credential) path

section Congruence

variable {credential credential' : Fields} {lib : AuthLibrary Request}

theorem stepContext_eq {outputs : Outputs} {name : Text × Text}
    (h : name.1 = credentialSpace →
      getByPath (.obj credential') name.2 = getByPath (.obj credential) name.2) :
    getByPath ((stepContext credential' outputs).get name.1) name.2 =
      getByPath ((stepContext credential outputs).get name.1) name.2 := by
  by_cases hname : name.1 = credentialSpace
  · rw [hname]
    exact h hname
  · have hne : (name.1 == credentialSpace) = false := by simpa using hname
    simp only [Context.get, stepContext, List.lookup_cons, hne]

theorem HasText_getField {step : Fields} {key : String} {missing : Json} {s : Text}
    (hmissing : ¬ missing.HasText s) (h : (getField step key missing).HasText s) :
    ∃ value, step.lookup key.toList = some value ∧ value.HasText s := by
  unfold getField at h
  cases hlookup : step.lookup key.toList with
  | none =>
    rw [hlookup] at h
    exact absurd h hmissing
  | some value =>
    rw [hlookup] at h
    exact ⟨value, rfl, h⟩

theorem validateStep_ok {lib : TextLibrary} {i : Nat} {value : Json} {step : Fields}
    (h : validateStep lib i value = .ok step) : value = .obj step := by
  cases value with
  | obj fields =>
    obtain ⟨_, -, h⟩ := bind_eq_ok.mp h
    obtain ⟨_, -, h⟩ := bind_eq_ok.mp h
    split at h
    · cases h
      rfl
    · obtain ⟨_, -, h⟩ := bind_eq_ok.mp h
      split_ifs at h
      cases h
      rfl
  | _ => cases h

theorem validateSteps_ok {lib : TextLibrary} {steps : List Fields}
    (h : validateSteps lib credential = .ok steps) :
    getField credential "steps" = .arr (steps.map .obj) := by
  unfold validateSteps at h
  split at h
  · rename_i first rest hitems
    split_ifs at h
    · obtain ⟨steps', hsteps, h⟩ := bind_eq_ok.mp h
      cases h
      have hobj := (mapM_eq_ok.mp hsteps).imp fun _ _ => validateStep_ok
      rw [hitems, ← List.zipIdx_map_fst 0 (first :: rest)]
      refine congrArg Json.arr ?_
      rw [← List.forall₂_eq_eq_eq, List.forall₂_map_left_iff, List.forall₂_map_right_iff]
      exact hobj
    · obtain ⟨_, -, h⟩ := bind_eq_ok.mp h
      cases h
  · cases h

theorem validateSteps_ne_nil {lib : TextLibrary} {steps : List Fields}
    (h : validateSteps lib credential = .ok steps) : steps ≠ [] := by
  rintro rfl
  have hitems := validateSteps_ok h
  rw [List.map_nil] at hitems
  unfold validateSteps at h
  rw [hitems] at h
  cases h

/-- The templates of a step read of the credential what is written in them. -/
theorem Agree.substitute (h : Agree credential credential') {steps : List Json}
    (hsteps : getField credential "steps" = .arr steps) {step : Fields} (hstep : .obj step ∈ steps)
    (outputs : Outputs) {key : String} (hkey : key ∈ ["url", "headers", "json_body"])
    {missing : Json} (hmissing : ∀ s, ¬ missing.HasText s) :
    substitutePlaceholders lib.texts (stepContext credential' outputs) (getField step key missing) =
      substitutePlaceholders lib.texts (stepContext credential outputs)
        (getField step key missing) := by
  refine substitutePlaceholders_congr fun s name hs hname => stepContext_eq fun hspace => ?_
  obtain ⟨value, hlookup, hs⟩ := HasText_getField (hmissing s) hs
  refine h.paths name.2 ⟨steps, step, key, value, s, hsteps, hstep, hkey, hlookup, hs, ?_⟩
  rwa [← hspace]

theorem Agree.sendStep (h : Agree credential credential') {steps : List Json}
    (hsteps : getField credential "steps" = .arr steps) {step : Fields} (hstep : .obj step ∈ steps)
    (outputs : Outputs) (i : Nat) :
    DataLake.sendStep lib (stepContext credential' outputs) i step =
      DataLake.sendStep lib (stepContext credential outputs) i step := by
  have hsubstitute := fun {key} => @Agree.substitute _ _ _ lib h _ hsteps _ hstep outputs key
  have hurl := @hsubstitute "url" (by simp) .null nofun
  have hheaders := @hsubstitute "headers" (by simp) (.obj []) (by rintro s (_ | _ | ⟨⟨⟩, _⟩))
  have hbody := @hsubstitute "json_body" (by simp) .null nofun
  unfold DataLake.sendStep
  rw [hurl, hheaders]
  cases hjson : getField step "json_body" <;> rw [hjson] at hbody <;> simp only [hbody]

theorem Agree.runSteps (h : Agree credential credential') {items : List Json}
    (hsteps : getField credential "steps" = .arr items) (steps : List (Fields × Nat))
    (hmem : ∀ x ∈ steps, .obj x.1 ∈ items) (outputs : Outputs) (finalBody : Option Bytes) :
    DataLake.runSteps lib credential' steps outputs finalBody =
      DataLake.runSteps lib credential steps outputs finalBody := by
  induction steps generalizing outputs finalBody with
  | nil => rfl
  | cons x steps ih =>
    unfold DataLake.runSteps
    rw [h.sendStep hsteps (hmem x (.head _))]
    simp only [ih fun y hy => hmem y (.tail _ hy)]

theorem Agree.getField (h : Agree credential credential') {key : String}
    (hkey : key ∈ ["steps", "final_token_from", "expires_in_field", "timeout_seconds"])
    (missing : Json) :
    DataLake.getField credential' key missing = DataLake.getField credential key missing := by
  rw [DataLake.getField, DataLake.getField, h.fields key hkey]

/-- The acquisition is the same program for both. -/
theorem Agree.acquire (h : Agree credential credential') (maxTimeoutSeconds : Rat) :
    DataLake.acquire lib maxTimeoutSeconds credential' =
      DataLake.acquire lib maxTimeoutSeconds credential := by
  have hvalidate : validateSteps lib.texts credential' = validateSteps lib.texts credential := by
    unfold validateSteps
    rw [h.getField (by simp), h.getField (by simp)]
  have hfinal : finalToken lib credential' = finalToken lib credential := by
    funext outputs finalBody
    unfold finalToken
    rw [h.getField (by simp), h.getField (by simp)]
  unfold DataLake.acquire
  rw [hvalidate, hfinal, h.getField (by simp)]
  cases hsteps : validateSteps lib.texts credential with
  | error e => rw [orFail_error, orFail_error]
  | ok steps =>
    have hitems := validateSteps_ok hsteps
    have hmem : ∀ x ∈ steps.zipIdx, Json.obj x.1 ∈ steps.map Json.obj := fun x hx =>
      List.mem_map_of_mem (List.fst_mem_of_mem_zipIdx hx)
    simp only [orFail_ok, h.runSteps hitems steps.zipIdx hmem]

end Congruence

/-! What is inserted. -/

/-- The name under which a step produces a value, and the rule by which it reads it. -/
def producedBy (step : Fields) : Option (HashKey × Fields) :=
  match step.lookup "extract".toList with
  | some (.obj extract) => (getField extract "as").hashKey.toOption.map fun key => (key, extract)
  | _ => none

/-- The value under a name, after the steps and answers given with the last one first: what
the last step to produce it has read from its answer. -/
def lastProduced (lib : AuthLibrary Request) (key : HashKey) :
    List (Fields × HttpResponse × Bytes) → Option Text
  | [] => none
  | (step, response, body) :: earlier =>
    match producedBy step with
    | some (key', extract) =>
      if key = key' then (extractValue lib response body extract).toOption
      else lastProduced lib key earlier
    | none => lastProduced lib key earlier

/-- What stands in the place of a character, or of a placeholder: a text of the credential, or
a value as it was produced. -/
def Piece (texts : TextLibrary) (credential : Fields) (values : HashKey → Option Text) :
    Char ⊕ (Text × Text) → Text → Prop
  | .inl c, part => part = [c]
  | .inr (space, path), part =>
    (space = credentialSpace ∧ ∃ value, getByPath (.obj credential) path = (value, true) ∧
      part = value.toText texts) ∨ (space = stepsSpace ∧ values (.str path) = some part)

def Inserted (texts : TextLibrary) (credential : Fields) (values : HashKey → Option Text)
    (s r : Text) : Prop :=
  ∃ parts, List.Forall₂ (Piece texts credential values) (placeholders.scan s) parts ∧
    r = parts.flatten

/-- The texts of the value are filled in, and its keys stay. -/
abbrev Filled (texts : TextLibrary) (credential : Fields) (values : HashKey → Option Text) :
    Json → Json → Prop :=
  Json.Rewritten (· = ·) (Inserted texts credential values)

/-- The request is made of what the step says, filled in. -/
def Fills (lib : AuthLibrary Request) (credential : Fields) (values : HashKey → Option Text)
    (step : Fields) (request : Request) : Prop :=
  ∃ method url headers body, lib.buildRequest method url headers body = .ok request ∧
    Filled lib.texts credential values (getField step "url") url ∧
    Filled lib.texts credential values (getField step "headers" (.obj [])) headers ∧
    ∀ json, body = some json →
      Filled lib.texts credential values (getField step "json_body") json

section Insertion

variable {lib : AuthLibrary Request} {credential : Fields} {outputs outputs' : Outputs}

theorem Outputs.lookup_assign (key key' : HashKey) (value : Text) :
    (outputs.assign key value).lookup key' =
      if key' = key then some value else outputs.lookup key' := by
  by_cases hkey : key' = key
  · simp [assign, hkey]
  · have hne : (key' == key) = false := by simpa using hkey
    rw [if_neg hkey, assign, List.lookup_cons, hne]
    show (outputs.filter fun x => x.1 ≠ key).lookup key' = outputs.lookup key'
    induction outputs with
    | nil => rfl
    | cons x outputs ih =>
      obtain ⟨key'', value'⟩ := x
      by_cases hx : key'' = key
      · rw [List.filter_cons_of_neg (by simpa using hx), ih, List.lookup_cons, hx, hne]
      · rw [List.filter_cons_of_pos (by simpa using hx), List.lookup_cons, List.lookup_cons, ih]

theorem Outputs.lookup_toJson (name : Text) :
    (outputs.filterMap fun x =>
      match x with
      | (.str name, value) => some (name, Json.str value)
      | _ => none).lookup name = (outputs.lookup (.str name)).map .str := by
  induction outputs with
  | nil => rfl
  | cons x outputs ih =>
    obtain ⟨key, value⟩ := x
    cases key with
    | str name' =>
      by_cases hname : name = name'
      · simp [hname]
      · have hne : (name == name') = false := by simpa using hname
        have hne' : (HashKey.str name == HashKey.str name') = false := by simpa using hname
        simp only [List.filterMap_cons, List.lookup_cons, hne, hne', ih]
    | none =>
      have hne : (HashKey.str name == HashKey.none) = false := rfl
      simp only [List.filterMap_cons, List.lookup_cons, hne, ih]
    | num q =>
      have hne : (HashKey.str name == HashKey.num q) = false := rfl
      simp only [List.filterMap_cons, List.lookup_cons, hne, ih]

/-- There is nothing under an output, so that a path with a dot leads nowhere. -/
theorem Outputs.getByPath_dot {path : Text} {found : Json}
    (h : getByPath outputs.toJson path = (found, true)) : '.' ∉ path := by
  intro hdot
  obtain ⟨a, b, rfl⟩ := List.append_of_mem hdot
  unfold getByPath toJson at h
  rw [List.splitOn_append_cons_self] at h
  obtain ⟨part, parts, ha⟩ := List.exists_cons_of_ne_nil (List.splitOn_ne_nil '.' a)
  obtain ⟨part', parts', hb⟩ := List.exists_cons_of_ne_nil
    (List.append_ne_nil_of_right_ne_nil parts (List.splitOn_ne_nil '.' b))
  rw [ha, List.cons_append, hb, walkPath, lookup_toJson] at h
  cases hlookup : outputs.lookup (.str part) with
  | none => simp [hlookup] at h
  | some text => simp [hlookup, walkPath] at h

/-- A path reaches the outputs by a name of theirs. -/
theorem Outputs.getByPath_toJson {path : Text} {value : Json}
    (h : getByPath outputs.toJson path = (value, true)) :
    ∃ part, value = .str part ∧ outputs.lookup (.str path) = some part := by
  have hdot := getByPath_dot h
  unfold getByPath toJson at h
  rw [List.splitOn_eq_singleton hdot, walkPath, lookup_toJson] at h
  cases hlookup : outputs.lookup (.str path) with
  | none => simp [hlookup] at h
  | some part =>
    rw [hlookup] at h
    cases h
    exact ⟨part, rfl, rfl⟩

theorem recordOutput_lookup {step : Fields} {response : HttpResponse} {body : Bytes}
    {history : List (Fields × HttpResponse × Bytes)}
    (houtputs : ∀ key, outputs.lookup key = lastProduced lib key history)
    (h : recordOutput lib step response body outputs = .ok outputs') (key : HashKey) :
    outputs'.lookup key = lastProduced lib key ((step, response, body) :: history) := by
  unfold recordOutput at h
  cases hextract : step.lookup "extract".toList with
  | none =>
    rw [hextract] at h
    cases h
    have hproduced : producedBy step = none := by rw [producedBy, hextract]
    rw [lastProduced, hproduced]
    exact houtputs key
  | some extract =>
    rw [hextract] at h
    cases extract with
    | obj extract =>
      obtain ⟨value, hvalue, h⟩ := bind_eq_ok.mp h
      obtain ⟨key', hkey, h⟩ := bind_eq_ok.mp h
      cases h
      have hproduced : producedBy step = some (key', extract) := by
        simp only [producedBy, hextract, hkey]
        rfl
      rw [Outputs.lookup_assign, lastProduced, hproduced, houtputs]
      simp only [hvalue]
      rfl
    | _ => cases h

/-- What is substituted in a template of a step, of the credential and of earlier answers, is
inserted as it is. -/
theorem substituteText_inserted {values : HashKey → Option Text}
    (houtputs : ∀ key, outputs.lookup key = values key) {s r : Text}
    (h : substituteText lib.texts (stepContext credential outputs) s = .ok r) :
    Inserted lib.texts credential values s r := by
  obtain ⟨parts, hparts, rfl⟩ := map_eq_ok.mp h
  refine ⟨parts, forall₂_of_mem (mapM_eq_ok.mp hparts) ?_, rfl⟩
  rintro (c | ⟨space, path⟩) hmem part hpart
  · cases hpart
    rfl
  · obtain ⟨value, hvalue, rfl⟩ := resolvePlaceholder_eq_ok.mp hpart
    rcases placeholder_space hmem with hspace | hspace
    · obtain rfl := hspace
      exact .inl ⟨rfl, value, hvalue, rfl⟩
    · obtain rfl := hspace
      obtain ⟨part, rfl, hlookup⟩ := Outputs.getByPath_toJson hvalue
      exact .inr ⟨rfl, (houtputs _).symm.trans hlookup⟩

theorem substitute_filled {values : HashKey → Option Text}
    (houtputs : ∀ key, outputs.lookup key = values key) {template result : Json}
    (h : substitutePlaceholders lib.texts (stepContext credential outputs) template = .ok result) :
    Filled lib.texts credential values template result :=
  (substitutePlaceholders_ok h).mono (fun _ _ _ => id) fun _ _ _ => substituteText_inserted houtputs

/-! The answers that a run has got. -/

def answers (calls : List (Call (AuthSig Request))) : List (HttpResponse × Bytes) :=
  calls.filterMap fun call =>
    match call with
    | ⟨.guardedSend _, .ok answer⟩ => some answer
    | _ => none

def history (steps : List Fields) (calls : List (Call (AuthSig Request))) :
    List (Fields × HttpResponse × Bytes) := (steps.zip (answers calls)).reverse

/-- A request is that of the first step without an answer yet, filled in from the credential
and from the values that the answers had. -/
def Verbatim (lib : AuthLibrary Request) (credential : Fields)
    (calls : List (Call (AuthSig Request))) (op : AuthOp Request) : Prop :=
  ∀ request, op = .guardedSend request → ∃ steps step,
    validateSteps lib.texts credential = .ok steps ∧ steps[(answers calls).length]? = some step ∧
      Fills lib credential (fun key => lastProduced lib key (history steps calls)) step request

section Runs

variable {α β : Type} {A : ∀ op, (AuthSig Request).Resp op → Prop}
  {P : List (Call (AuthSig Request)) → AuthOp Request → Prop}
  {calls : List (Call (AuthSig Request))}

theorem along_orFail {Q : List (Call (AuthSig Request)) → Except Exc α → Prop}
    {x : Except DataLakeError β} {f : β → AuthProg Request α} (herror : ∀ e, Q calls (.error e))
    (h : ∀ a, x = .ok a → (f a).Along A P Q calls) : (orFail x >>= f).Along A P Q calls := by
  cases x with
  | error e => exact herror _
  | ok a => exact h a rfl

end Runs

theorem answers_error {calls : List (Call (AuthSig Request))} {request : Request} {e : Exc} :
    answers (calls ++ [⟨.guardedSend request, .error e⟩]) = answers calls := by
  rw [answers, List.filterMap_append]
  exact List.append_nil _

theorem sendStep_along {calls : List (Call (AuthSig Request))} {steps : List Fields} {step : Fields}
    {i : Nat} (hsteps : validateSteps lib.texts credential = .ok steps)
    (hstep : steps[(answers calls).length]? = some step)
    (houtputs : ∀ key, outputs.lookup key = lastProduced lib key (history steps calls)) :
    (sendStep lib (stepContext credential outputs) i step).Along (fun _ _ => True)
      (Verbatim lib credential)
      (fun calls' out => match out with
        | .ok answer => answers calls' = answers calls ++ [answer]
        | .error _ => answers calls' = answers calls)
      calls := by
  refine along_orFail (fun _ => rfl) fun method hmethod => along_orFail (fun _ => rfl)
    fun url hurl => along_orFail (fun _ => rfl) fun headers hheaders =>
    along_orFail (fun _ => rfl) fun body hbody => ?_
  have hfill := fun {template result} =>
    @substitute_filled _ lib credential _ _ houtputs template result
  refine Prog.Along.handle (Q := fun calls' out => match out with
    | .ok answer => answers calls' = answers calls ++ [answer]
    | .error _ => answers calls' = answers calls)
    (Prog.along_ofExcept (fun _ _ => rfl) fun request hrequest => ?_)
    (fun calls' answer hanswer => hanswer) fun _ _ hunchanged => hunchanged
  refine ⟨?_, fun r _ => ?_⟩
  · rintro _ ⟨⟩
    refine ⟨steps, step, hsteps, hstep, method, url, headers, _, hrequest, hfill hurl,
      hfill hheaders, fun json hjson => hfill (?_ : _ = Except.ok json)⟩
    obtain rfl : body = some json := by
      split_ifs at hjson
      exact hjson
    cases hvalue : getField step "json_body" with
    | null =>
      rw [hvalue] at hbody
      cases hbody
    | _ =>
      rw [hvalue] at hbody
      obtain ⟨_, h, heq⟩ := map_eq_ok.mp hbody
      cases heq
      exact h
  · cases r with
    | error e => exact answers_error
    | ok answer => exact List.filterMap_append

/-- The next answer is the one to the next step. -/
theorem history_snoc {steps rest : List Fields} {step : Fields}
    {calls calls' : List (Call (AuthSig Request))} {answer : HttpResponse × Bytes}
    (hrest : steps.drop (answers calls).length = step :: rest)
    (hanswers : answers calls' = answers calls ++ [answer]) :
    history steps calls' = (step, answer) :: history steps calls := by
  have hlength : (steps.take (answers calls).length).length = (answers calls).length := by
    have hlt := congrArg List.length hrest
    rw [List.length_drop, List.length_cons] at hlt
    rw [List.length_take]
    omega
  have hsteps := List.take_append_drop (answers calls).length steps
  rw [hrest] at hsteps
  have hzip := @List.zip_append _ _ _ (step :: rest) _ [answer] hlength
  have hzip' := @List.zip_append _ _ _ (step :: rest) _ [] hlength
  rw [hsteps] at hzip hzip'
  rw [List.append_nil, List.zip_nil_right, List.append_nil] at hzip'
  rw [history, history, hanswers, hzip, hzip', List.reverse_append]
  simp

/-- How the loop ends once the last step is answered: with what the answers have produced, or
with what the last answer raises. -/
def StepsEnd (lib : AuthLibrary Request) (steps : List Fields)
    (calls : List (Call (AuthSig Request))) (out : Except Exc (Outputs × Option Bytes)) : Prop :=
  (answers calls).length = steps.length →
    ∃ step response body earlier, history steps calls = (step, response, body) :: earlier ∧
      step ∈ steps ∧
      match out with
      | .ok (outputs, finalBody) => finalBody = some body ∧ response.statusCode < 400 ∧
          (∀ key, outputs.lookup key = lastProduced lib key (history steps calls)) ∧
          ∃ before, recordOutput lib step response body before = .ok outputs
      | .error e =>
          (400 ≤ response.statusCode ∧ ∃ message, e = .dataLake (authenticationError message)) ∨
          (response.statusCode < 400 ∧ ∃ before, recordOutput lib step response body before = .error e)

/-- The next steps of the loop, not necessarily all that are left. -/
theorem runSteps_along {steps : List Fields}
    (hsteps : validateSteps lib.texts credential = .ok steps) {rest : List (Fields × Nat)}
    {calls : List (Call (AuthSig Request))} {finalBody : Option Bytes}
    (hrest : rest.map Prod.fst <+: steps.drop (answers calls).length)
    (houtputs : ∀ key, outputs.lookup key = lastProduced lib key (history steps calls))
    (hend : rest = [] → StepsEnd lib steps calls (.ok (outputs, finalBody))) :
    (runSteps lib credential rest outputs finalBody).Along (fun _ _ => True)
      (Verbatim lib credential)
      (fun calls out => StepsEnd lib steps calls out ∧ ∀ result, out = .ok result →
        ∀ key, result.1.lookup key = lastProduced lib key (history steps calls)) calls := by
  induction rest generalizing outputs calls finalBody with
  | nil =>
    refine ⟨hend rfl, ?_⟩
    rintro _ ⟨⟩
    exact houtputs
  | cons x rest ih =>
    obtain ⟨step, i⟩ := x
    obtain ⟨others, hothers⟩ := hrest
    have hstep : steps[(answers calls).length]? = some step := by
      have hhead := congrArg (·[0]?) hothers
      simpa using hhead.symm
    have hmem : step ∈ steps := List.mem_of_getElem? hstep
    have hlt : (answers calls).length < steps.length := (List.getElem?_eq_some_iff.mp hstep).1
    have hdrop : steps.drop ((answers calls).length + 1) = rest.map Prod.fst ++ others := by
      rw [← List.tail_drop, ← hothers]
      rfl
    refine (sendStep_along hsteps hstep houtputs).handle (fun calls' answer hanswers => ?_)
      fun calls' e hunchanged => ⟨fun hlength => ?_, nofun⟩
    · have hhistory := history_snoc hothers.symm hanswers
      obtain ⟨response, body⟩ := answer
      dsimp only at hanswers ⊢
      split_ifs with hstatus
      · exact ⟨fun _ => ⟨step, response, body, _, hhistory, hmem, .inl ⟨hstatus, _, rfl⟩⟩, nofun⟩
      · have hstatus := Nat.lt_of_not_le hstatus
        refine Prog.along_ofExcept (fun e herror => ?_) fun outputs' hrecord => ?_
        · exact ⟨fun _ => ⟨step, response, body, _, hhistory, hmem, .inr ⟨hstatus, _, herror⟩⟩,
            nofun⟩
        · have houtputs' : ∀ key, outputs'.lookup key = lastProduced lib key (history steps calls') := by
            intro key
            rw [hhistory]
            exact recordOutput_lookup houtputs hrecord key
          refine ih ⟨others, ?_⟩ houtputs' fun _ _ =>
            ⟨step, response, body, _, hhistory, hmem, rfl, hstatus, houtputs', _, hrecord⟩
          rw [hanswers, List.length_append]
          exact hdrop.symm
    · rw [hunchanged] at hlength
      omega

theorem extractExpiresAt_issues (body : Bytes) (field : Json) :
    (extractExpiresAt lib body field).Issues fun op => op = AuthOp.monotonic := by
  unfold extractExpiresAt
  split_ifs
  · trivial
  · split
    · trivial
    · trivial
    · split
      · trivial
      · refine (Prog.issues_ofExcept _ _).bind fun seconds => ?_
        cases seconds with
        | none => trivial
        | some seconds => exact ⟨rfl, fun _ => trivial⟩
    · trivial

theorem finalToken_issues (finalBody : Option Bytes) :
    (finalToken lib credential outputs finalBody).Issues fun op => op = AuthOp.monotonic := by
  refine (Prog.issues_ofExcept _ _).bind fun key => ?_
  split
  · trivial
  · cases finalBody with
    | none => trivial
    | some body => exact (extractExpiresAt_issues body _).bind fun _ => trivial

theorem withClient_along {α : Type} {P : List (Call (AuthSig Request)) → AuthOp Request → Prop}
    {Q : List (Call (AuthSig Request)) → Except Exc α → Prop}
    {timeout : Timeout} {body : AuthProg Request α} {calls : List (Call (AuthSig Request))}
    (hclient : ∀ calls op, (∀ request, op ≠ .guardedSend request) → P calls op)
    (hclose : ∀ calls out, Q calls out → Q (calls ++ [⟨.closeClient, ()⟩]) out)
    (hbody : body.Along (fun _ _ => True) P Q (calls ++ [⟨.buildClient timeout, ()⟩])) :
    (withClient timeout body).Along (fun _ _ => True) P Q calls := by
  refine ⟨hclient _ _ nofun, fun _ _ => ?_⟩
  refine hbody.handle ?_ ?_
  · exact fun _ _ h => ⟨hclient _ _ nofun, fun _ _ => hclose _ _ h⟩
  · exact fun _ _ h => ⟨hclient _ _ nofun, fun _ _ => hclose _ _ h⟩

theorem verbatim_of_ne {calls : List (Call (AuthSig Request))} {op : AuthOp Request}
    (hop : ∀ request, op ≠ .guardedSend request) : Verbatim lib credential calls op :=
  fun request h => absurd h (hop request)

theorem answers_closeClient {calls : List (Call (AuthSig Request))} :
    answers (calls ++ [⟨.closeClient, ()⟩]) = answers calls := by
  rw [answers, List.filterMap_append]
  exact List.append_nil _

theorem answers_monotonic {calls : List (Call (AuthSig Request))} {now : Rat} :
    answers (calls ++ [⟨.monotonic, now⟩]) = answers calls := by
  rw [answers, List.filterMap_append]
  exact List.append_nil _

theorem StepsEnd.closeClient {steps : List Fields} {calls : List (Call (AuthSig Request))}
    {out : Except Exc (Outputs × Option Bytes)} (h : StepsEnd lib steps calls out) :
    StepsEnd lib steps (calls ++ [⟨.closeClient, ()⟩]) out := by
  unfold StepsEnd history at h ⊢
  rwa [answers_closeClient]

/-- The steps of an acquisition, with the client that sends their requests. -/
theorem clientSteps_along {steps : List Fields}
    (hsteps : validateSteps lib.texts credential = .ok steps) (timeout : Timeout)
    {calls : List (Call (AuthSig Request))} (hcalls : answers calls = []) :
    (withClient timeout (runSteps lib credential steps.zipIdx [] none)).Along (fun _ _ => True)
      (Verbatim lib credential) (StepsEnd lib steps) calls := by
  have hnone : answers (calls ++ [⟨.buildClient timeout, ()⟩]) = [] := by
    rw [answers, List.filterMap_append]
    exact (List.append_nil _).trans hcalls
  refine withClient_along (fun _ _ => verbatim_of_ne) (fun _ _ h => h.closeClient)
    ((runSteps_along hsteps ?_ (fun key => ?_) fun hnil => ?_).imp fun _ _ h => h.1)
  · rw [hnone, List.zipIdx_map_fst]
    exact List.prefix_refl _
  · simp [history, hnone, lastProduced]
  · exact absurd (List.zipIdx_eq_nil_iff.mp hnil) (validateSteps_ne_nil hsteps)

/-- Every request of an acquisition is filled in from the credential and earlier answers. -/
theorem acquire_along (maxTimeoutSeconds : Rat) :
    (acquire lib maxTimeoutSeconds credential).Along (fun _ _ => True) (Verbatim lib credential)
      (fun _ _ => True) [] := by
  refine along_orFail (fun _ => trivial) fun steps hsteps => along_orFail (fun _ => trivial)
    fun readTimeout _ => ?_
  refine (clientSteps_along hsteps _ rfl).handle ?_ fun _ _ _ => trivial
  rintro calls ⟨outputs, finalBody⟩ -
  refine ((finalToken_issues finalBody).along (K := fun _ => True) trivial ?_).imp
    fun _ _ _ => trivial
  rintro calls _ - rfl
  exact ⟨verbatim_of_ne nofun, fun _ _ => trivial⟩

end Insertion

/-! What the requests reveal. -/

namespace AuthSetting

variable {C W : Type} (setting : AuthSetting Request A) (exec : Exec (WireSig Request) C W)
  (policy : WireOp Request → C) (world : W)

/-- The requests that go out when the servers, the network and the clock behave in the way
given, whether or not the acquisition comes to an end. -/
def requests (credential : Fields) : List Request :=
  ((setting.acquireOverWire credential).calls exec policy world).filterMap WireOp.sent

end AuthSetting

/-- The requests of an acquisition depend on the credential by its settings and by the paths
written in its steps, and every value in them that a server has returned is inserted as it is. -/
theorem requests_reveal_named (setting : AuthSetting Request A) {credential credential' : Fields}
    (h : Agree credential credential') :
    (∀ (C W : Type) (exec : Exec (WireSig Request) C W) (policy : WireOp Request → C) (world : W),
      setting.requests exec policy world credential' =
        setting.requests exec policy world credential) ∧
    ∀ c ∈ [credential, credential'],
      (acquire setting.lib setting.maxTimeoutSeconds c).Along (fun _ _ => True)
        (Verbatim setting.lib c) (fun _ _ => True) [] := by
  refine ⟨fun C W exec policy world => ?_, fun c _ => acquire_along setting.maxTimeoutSeconds⟩
  rw [AuthSetting.requests, AuthSetting.requests, AuthSetting.acquireOverWire,
    AuthSetting.acquireOverWire, h.acquire]

def clientPlaceholder : Text := opening ++ " credential.client_id ".toList ++ closing

def sessionPlaceholder : Text := opening ++ "steps.token".toList ++ closing

/-- A step that names the client but not its secret. -/
def clientStep : Fields :=
  [("url".toList, .str "https://internal.example-insurer.test/login".toList),
    ("headers".toList, .obj [("X-Client".toList, .str clientPlaceholder)]),
    ("extract".toList, .obj [("as".toList, .str "token".toList), ("from".toList, .str "json".toList),
      ("field".toList, .str "token".toList)])]

/-- A step that names what the first one was answered. -/
def sessionStep : Fields :=
  [("url".toList, .str "https://internal.example-insurer.test/token".toList),
    ("headers".toList, .obj [("X-Session".toList, .str sessionPlaceholder)])]

def clientCredential (secret : String) : Fields :=
  [("client_id".toList, .str "demo-client".toList), ("client_secret".toList, .str secret.toList),
    ("steps".toList, .arr [.obj clientStep, .obj sessionStep]),
    ("final_token_from".toList, .str "token".toList)]

theorem hasText_header {name text s : Text} (h : (Json.obj [(name, .str text)]).HasText s) :
    s = text := by
  obtain _ | _ | ⟨hfield, hs⟩ := h
  obtain rfl := List.mem_singleton.mp hfield
  cases hs
  rfl

theorem clientCredential_agree (secret secret' : String) :
    Agree (clientCredential secret) (clientCredential secret') where
  fields := by
    intro key hkey
    simp only [List.mem_cons, List.not_mem_nil, or_false] at hkey
    rcases hkey with rfl | rfl | rfl | rfl <;> rfl
  paths := by
    rintro path ⟨items, step, key, value, s, hitems, hstep, hkey, hvalue, hs, hpath⟩
    cases (hitems : Json.arr [.obj clientStep, .obj sessionStep] = .arr items)
    -- no URL and no body has a placeholder, and the two headers name no secret
    have hurl : ∀ url : String, value = .str url.toList →
        placeholders.scan url.toList = url.toList.map .inl → False := by
      rintro url rfl hscan
      cases hs
      rw [hscan] at hpath
      simp at hpath
    simp only [List.mem_cons, List.not_mem_nil, or_false, Json.obj.injEq] at hstep hkey
    rcases hstep with rfl | rfl
    · rcases hkey with rfl | rfl | rfl
      · exact (hurl _ (Option.some.inj hvalue).symm rfl).elim
      · obtain rfl := Option.some.inj hvalue
        rw [hasText_header hs] at hpath
        have hscan : placeholders.scan clientPlaceholder =
            [.inr (credentialSpace, "client_id".toList)] := rfl
        rw [hscan] at hpath
        cases List.mem_singleton.mp hpath
        rfl
      · cases (hvalue : none = some value)
    · rcases hkey with rfl | rfl | rfl
      · exact (hurl _ (Option.some.inj hvalue).symm rfl).elim
      · obtain rfl := Option.some.inj hvalue
        rw [hasText_header hs] at hpath
        have hscan : placeholders.scan sessionPlaceholder =
            [.inr (stepsSpace, "token".toList)] := rfl
        rw [hscan] at hpath
        cases List.mem_singleton.mp hpath
      · cases (hvalue : none = some value)

/-- The settings of an acquisition whose responses are JSON objects with a token. -/
def tokenSetting : AuthSetting (Text × Json × Json × Option Json) IpAddress where
  lib := {
    texts := asciiTexts
    loads := fun _ => .ok (.obj [("token".toList,
      .str (opening ++ "credential.client_secret".toList ++ closing))])
    parseFloat := fun _ => none
    buildRequest := fun method url headers body => .ok (method, url, headers, body)
    url := fun request => match request.2.1 with | .str url => url | _ => []
    isHttpError := fun _ => false
    header := fun headers name => .ok (headers.lookup name) }
  urls := asciiLibrary
  context := tenantLists internalAddress
  options := { ceiling := 1000 }
  maxTimeoutSeconds := 120

/-- Servers that answer each request at once. -/
def promptServers : Exec (WireSig (Text × Json × Json × Option Json)) Unit Unit
  | .buildClient _, _, w | .closeClient, _, w | .close, _, w => some ((), w)
  | .send _, _, w => some (.ok { isRedirect := false }, w)
  | .nextChunk, _, w => some (.ok none, w)
  | .monotonic, _, w => some (0, w)

def sentHeaders (request : Text × Json × Json × Option Json) : List (Text × Text) :=
  match request.2.2.1 with
  | .obj fields => fields.filterMap fun
    | (name, .str value) => some (name, value)
    | _ => none
  | _ => []

/-- Two requests go out: the first names the client, and the second what the first was answered,
although that looks like a placeholder itself. -/
theorem requests_reveal_client :
    Agree (clientCredential "demo-secret") (clientCredential "other-secret") ∧
    (tokenSetting.requests promptServers (fun _ => ()) () (clientCredential "other-secret")).map
        sentHeaders =
      [[("X-Client".toList, "demo-client".toList)],
        [("X-Session".toList, opening ++ "credential.client_secret".toList ++ closing)]] ∧
    (∀ (C W : Type) (exec : Exec (WireSig (Text × Json × Json × Option Json)) C W)
      (policy : WireOp (Text × Json × Json × Option Json) → C) (world : W),
      tokenSetting.requests exec policy world (clientCredential "other-secret") =
        tokenSetting.requests exec policy world (clientCredential "demo-secret")) ∧
    ∀ c ∈ [clientCredential "demo-secret", clientCredential "other-secret"],
      (acquire tokenSetting.lib tokenSetting.maxTimeoutSeconds c).Along (fun _ _ => True)
        (Verbatim tokenSetting.lib c) (fun _ _ => True) [] :=
  ⟨clientCredential_agree _ _, by decide +kernel,
    requests_reveal_named tokenSetting (clientCredential_agree _ _)⟩

end DataLake
