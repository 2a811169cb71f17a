import DataLake.StrictMapping
import DataLake.TokenProvider

/-! What an acquired token is made of. -/

namespace DataLake

open Foundation

variable {Request : Type}

/-- The value that a rule points at in an answer. -/
def Pointed (lib : AuthLibrary Request) (extract : Fields) (response : HttpResponse) (body : Bytes)
    (value : Json) : Prop :=
  if (getField extract "from").isText "header" then
    ∃ name text, getField extract "header" = .str name ∧
      lib.header response.headers name = .ok (some text) ∧ value = .str text
  else
    ∃ field data, getField extract "field" = .str field ∧ lib.loads body = .ok data ∧
      Present data field value

def Json.IsScalar : Json → Prop
  | .null | .arr _ | .obj _ => False
  | _ => True

/-- The value that the last step to produce the name has pointed at, the last step first. -/
def LastPointed (lib : AuthLibrary Request) (key : HashKey) :
    List (Fields × HttpResponse × Bytes) → Json → Prop
  | [], _ => False
  | (step, response, body) :: earlier, value =>
    match producedBy step with
    | some (key', extract) =>
      if key = key' then Pointed lib extract response body value else LastPointed lib key earlier value
    | none => LastPointed lib key earlier value

section Extraction

variable {lib : AuthLibrary Request} {extract credential : Fields} {response : HttpResponse}
  {body : Bytes}

theorem Pointed.unique {value value' : Json} (h : Pointed lib extract response body value)
    (h' : Pointed lib extract response body value') : value = value' := by
  unfold Pointed at h h'
  split_ifs at h h'
  · obtain ⟨name, text, hname, htext, rfl⟩ := h
    obtain ⟨name', text', hname', htext', rfl⟩ := h'
    cases hname.symm.trans hname'
    cases htext.symm.trans htext'
    rfl
  · obtain ⟨field, data, hfield, hdata, hvalue⟩ := h
    obtain ⟨field', data', hfield', hdata', hvalue'⟩ := h'
    cases hfield.symm.trans hfield'
    cases hdata.symm.trans hdata'
    exact hvalue.unique hvalue'

end Extraction

/-! The law of a token. -/

section Reading

variable {lib : AuthLibrary Request} {credential : Fields} {body : Bytes}
  {calls : List (Call (AuthSig Request))}

end Reading

/-- The request with the token of the scalar, or an authentication error. -/
def Lawful (lib : AuthLibrary Request) (requests : RequestLibrary Request) (credential : Fields)
    (request : Request) (source : Json → Prop) (out : Except Exc (Request × CachedToken)) : Prop :=
  (∃ message, out = .error (.dataLake (authenticationError message))) ∨
  ∃ value token prepared, source value ∧ value.IsScalar ∧
    token.value = value.toText lib.texts ∧
    requests.setHeader request ((injectHeader credential).toText lib.texts)
      ((injectPrefix credential).toText lib.texts ++ token.value) = .ok prepared ∧
    out = .ok (prepared, token)

section Prepare

variable {lib : AuthLibrary Request} {requests : RequestLibrary Request} {credential : Fields}
  {request : Request} {cache : Option CachedToken} {acquired : AuthProg Request CachedToken}

end Prepare

/-! The endpoint. -/

section Endpoint

variable {lib : AuthLibrary Request} {credential extract : Fields}

end Endpoint

/-! The steps. -/

section Steps

variable {lib : AuthLibrary Request} {credential : Fields} {key : HashKey}
  {past : List (Fields × HttpResponse × Bytes)}

theorem LastPointed.unique {value value' : Json} (h : LastPointed lib key past value)
    (h' : LastPointed lib key past value') : value = value' := by
  induction past with
  | nil => exact h.elim
  | cons x earlier ih =>
    unfold LastPointed at h h'
    cases hproduced : producedBy x.1 with
    | none =>
      rw [hproduced] at h h'
      exact ih h h'
    | some produced =>
      rw [hproduced] at h h'
      dsimp only at h h'
      split_ifs at h h'
      · exact h.unique h'
      · exact ih h h'

end Steps

def accessTokenRule : Fields :=
  [("from".toList, .str "json".toList), ("field".toList, .str "access_token".toList)]

def endpointCredential : Fields :=
  [("token_url".toList, .str "https://auth.example-insurer.test/token".toList),
    ("extract".toList, .obj accessTokenRule)]

end DataLake
