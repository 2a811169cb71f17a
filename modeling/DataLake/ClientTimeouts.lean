import DataLake.RealTokens

/-! The timeouts of the clients against the ceiling of the deployment. -/

namespace DataLake

open Foundation

variable {Request : Type}

/-- `resolve_timeout_seconds` -/
def resolveTimeoutSeconds (ceiling : Rat) (requested : Option Rat) : Rat :=
  match requested with
  | none => ceiling
  | some seconds => min seconds ceiling

/-- `RestApiSourceConnector._client`, by its timeouts; what is no number has no minimum. -/
def RestApiConfig.client (ceiling : Rat) (config : RestApiConfig) : Except Exc Timeout :=
  match config.timeoutSeconds.number with
  | none => .error (.other
      s!"'<' not supported between instances of '{config.timeoutSeconds.typeName}' and 'float'")
  | some seconds => .ok { defaultTimeout with read := resolveTimeoutSeconds ceiling (some seconds) }

def Timeout.Within (timeout : Timeout) (ceiling : Rat) : Prop :=
  timeout.connect ≤ ceiling ∧ timeout.read ≤ ceiling ∧ timeout.write ≤ ceiling ∧
    timeout.pool ≤ ceiling

/-- A provider builds no client beyond the ceiling. -/
def ClientsWithin (ceiling : Rat) (acquired : AuthProg Request CachedToken) : Prop :=
  ∀ timeout, acquired.CanIssue (.buildClient timeout) → timeout.Within ceiling

def Builds (acquired : AuthProg Request CachedToken) : Prop :=
  ∃ timeout, acquired.CanIssue (.buildClient timeout)

/-- Every client that an accepted configuration comes to is within the ceiling. -/
structure PhasesBounded (Request : Type) (ceiling : Rat) : Prop where
  source : ∀ (config : RestApiConfig) limits timeout, config.validate = .ok limits → config.client ceiling = .ok timeout →
    timeout.Within ceiling
  endpoint : ∀ (lib : AuthLibrary Request) credential,
    ClientsWithin ceiling (acquireFromEndpoint lib ceiling credential)
  steps : ∀ (lib : AuthLibrary Request) credential,
    ClientsWithin ceiling (acquire lib ceiling credential)

/-- Without a timeout of its own, a configuration is accepted under this ceiling when it is
under another. -/
structure DefaultAccepted (Request : Type) (ceiling : Rat) : Prop where
  source : ∀ config : RestApiConfig, config.timeoutSeconds = defaultTimeoutSeconds →
    ∃ timeout, config.client ceiling = .ok timeout
  endpoint : ∀ (lib : AuthLibrary Request) credential other,
    credential.lookup "timeout_seconds".toList = none →
    Builds (acquireFromEndpoint lib other credential) →
    Builds (acquireFromEndpoint lib ceiling credential)
  steps : ∀ (lib : AuthLibrary Request) credential other,
    credential.lookup "timeout_seconds".toList = none →
    Builds (acquire lib other credential) → Builds (acquire lib ceiling credential)

section Checks

variable {lib : TextLibrary} {ceiling seconds : Rat} {value : Json} {label : String}

theorem validateTimeout_ok : validateTimeout lib ceiling value label = .ok seconds ↔
    value.number = some seconds ∧ 0 < seconds ∧ seconds ≤ ceiling := by
  unfold validateTimeout
  cases value.number with
  | none => simp
  | some q =>
    dsimp only
    split_ifs with hpos hceiling
    · refine iff_of_false nofun ?_
      rintro ⟨⟨⟩, hseconds, -⟩
      exact Rat.not_le.mpr hseconds hpos
    · refine iff_of_false nofun ?_
      rintro ⟨⟨⟩, -, hseconds⟩
      exact Rat.not_lt.mpr hseconds hceiling
    · constructor
      · rintro ⟨⟩
        exact ⟨rfl, Rat.not_le.mp hpos, Rat.not_lt.mp hceiling⟩
      · rintro ⟨⟨⟩, -, -⟩
        rfl

/-- The default passes the check of a ceiling that it does not exceed. -/
theorem validateTimeout_default :
    (∃ seconds, validateTimeout lib ceiling defaultTimeoutSeconds label = .ok seconds) ↔
      30 ≤ ceiling := by
  have hpos : (0 : Rat) < 30 := by decide
  simp only [validateTimeout_ok, defaultTimeoutSeconds, Json.number]
  constructor
  · rintro ⟨_, ⟨⟩, -, h⟩
    exact h
  · exact fun h => ⟨30, rfl, hpos, h⟩

theorem within_of_read (hceiling : 10 ≤ ceiling) (hread : seconds ≤ ceiling) :
    Timeout.Within { defaultTimeout with read := seconds } ceiling :=
  ⟨hceiling, hread, hceiling, hceiling⟩

end Checks

section Programs

variable {α β : Type} {P : AuthOp Request → Prop} {op : AuthOp Request}

theorem issues_orFail {x : Except DataLakeError β} {f : β → AuthProg Request α}
    (h : ∀ a, x = .ok a → (f a).Issues P) : (orFail x >>= f).Issues P := by
  cases x with
  | error e => trivial
  | ok a => exact h a rfl

theorem canIssue_orFail {x : Except DataLakeError β} {f : β → AuthProg Request α} :
    (orFail x >>= f).CanIssue op ↔ ∃ a, x = .ok a ∧ (f a).CanIssue op := by
  cases x with
  | error e => exact iff_of_false id (by rintro ⟨_, ⟨⟩, -⟩)
  | ok a => exact ⟨fun h => ⟨a, rfl, h⟩, by rintro ⟨_, ⟨⟩, h⟩; exact h⟩

theorem canIssue_ofExcept {x : Except Exc β} {f : β → AuthProg Request α} :
    (Prog.ofExcept x >>= f).CanIssue op ↔ ∃ a, x = .ok a ∧ (f a).CanIssue op := by
  cases x with
  | error e => exact iff_of_false id (by rintro ⟨_, ⟨⟩, -⟩)
  | ok a => exact ⟨fun h => ⟨a, rfl, h⟩, by rintro ⟨_, ⟨⟩, h⟩; exact h⟩

theorem withClient_issues {timeout : Timeout} {body : AuthProg Request α}
    (hbuild : P (.buildClient timeout)) (hclose : P .closeClient) (hbody : body.Issues P) :
    (withClient timeout body).Issues P :=
  ⟨hbuild, fun _ => hbody.handle (fun _ => ⟨hclose, fun _ => trivial⟩)
    fun _ => ⟨hclose, fun _ => trivial⟩⟩

variable {lib : AuthLibrary Request} {credential : Fields} {ceiling : Rat}

theorem sendStep_issues (hsend : ∀ request, P (.guardedSend request)) (context : Context) (i : Nat)
    (step : Fields) : (sendStep lib context i step).Issues P := by
  refine issues_orFail fun _ _ => issues_orFail fun _ _ => issues_orFail fun _ _ =>
    issues_orFail fun _ _ => Prog.Issues.handle ?_ (fun _ => trivial) fun _ => trivial
  exact (Prog.issues_ofExcept _ _).bind fun request =>
    ⟨hsend request, fun _ => Prog.issues_ofExcept _ _⟩

theorem runSteps_issues (hsend : ∀ request, P (.guardedSend request)) (steps : List (Fields × Nat))
    (outputs : Outputs) (finalBody : Option Bytes) :
    (runSteps lib credential steps outputs finalBody).Issues P := by
  induction steps generalizing outputs finalBody with
  | nil => trivial
  | cons x steps ih =>
    refine (sendStep_issues hsend _ _ _).bind fun answer => ?_
    dsimp only
    split_ifs
    · trivial
    · exact (Prog.issues_ofExcept _ _).bind fun _ => ih _ _

/-- The client of the endpoint is built when the settings are accepted, the timeout and the
others. -/
theorem builds_endpoint : Builds (acquireFromEndpoint lib ceiling credential) ↔
    (∃ readTimeout, validateTimeout lib.texts ceiling
      (getField credential "timeout_seconds" defaultTimeoutSeconds) "credential.timeout_seconds" =
        .ok readTimeout) ∧
    (∃ done, validateUrl (getField credential "token_url") "credential.token_url" = .ok done) ∧
    (∃ method, validateMethod lib.texts (getField credential "method" (.str "POST".toList))
      "credential.method" = .ok method) ∧
    (∃ extract, validateExtractConfig (getField credential "extract") "credential.extract" =
      .ok extract) ∧
    ∃ headers, pyDict (getField credential "request_headers" (.obj [])) = .ok headers := by
  simp only [Builds, acquireFromEndpoint, canIssue_orFail, canIssue_ofExcept]
  constructor
  · rintro ⟨_, done, hurl, method, hmethod, readTimeout, htimeout, extract, hextract, headers,
      hheaders, -⟩
    exact ⟨⟨_, htimeout⟩, ⟨_, hurl⟩, ⟨_, hmethod⟩, ⟨_, hextract⟩, ⟨_, hheaders⟩⟩
  · rintro ⟨⟨readTimeout, htimeout⟩, ⟨done, hurl⟩, ⟨method, hmethod⟩, ⟨extract, hextract⟩,
      ⟨headers, hheaders⟩⟩
    exact ⟨_, done, hurl, method, hmethod, readTimeout, htimeout, extract, hextract, headers,
      hheaders, .inl rfl⟩

theorem builds_steps : Builds (acquire lib ceiling credential) ↔
    (∃ readTimeout, validateTimeout lib.texts ceiling
      (getField credential "timeout_seconds" defaultTimeoutSeconds) "credential.timeout_seconds" =
        .ok readTimeout) ∧ ∃ steps, validateSteps lib.texts credential = .ok steps := by
  simp only [Builds, acquire, canIssue_orFail]
  constructor
  · rintro ⟨_, steps, hsteps, readTimeout, htimeout, -⟩
    exact ⟨⟨_, htimeout⟩, ⟨_, hsteps⟩⟩
  · rintro ⟨⟨readTimeout, htimeout⟩, ⟨steps, hsteps⟩⟩
    exact ⟨_, steps, hsteps, readTimeout, htimeout, .inl rfl⟩

theorem endpoint_clients (hceiling : 10 ≤ ceiling) :
    ClientsWithin ceiling (acquireFromEndpoint lib ceiling credential) := by
  intro timeout hbuild
  refine Prog.Issues.canIssue (P := fun op => ∀ timeout, op = AuthOp.buildClient timeout →
    timeout.Within ceiling) ?_ hbuild timeout rfl
  refine issues_orFail fun _ _ => issues_orFail fun _ _ => issues_orFail fun readTimeout htimeout =>
    issues_orFail fun _ _ => (Prog.issues_ofExcept _ _).bind fun _ => ?_
  refine Prog.Issues.handle (Prog.Issues.handle (withClient_issues ?_ nofun ?_) (fun _ => trivial)
    fun _ => trivial) (fun answer => ?_) fun _ => trivial
  · rintro _ ⟨⟩
    exact within_of_read hceiling (validateTimeout_ok.mp htimeout).2.2
  · exact (Prog.issues_ofExcept _ _).bind fun _ => ⟨nofun, fun _ => Prog.issues_ofExcept _ _⟩
  · unfold readToken
    dsimp only
    split_ifs
    · trivial
    · refine (Prog.issues_ofExcept _ _).bind fun _ => ((extractExpiresAt_issues _ _).mono ?_).bind
        fun _ => trivial
      rintro _ rfl
      exact nofun

theorem steps_clients (hceiling : 10 ≤ ceiling) :
    ClientsWithin ceiling (acquire lib ceiling credential) := by
  intro timeout hbuild
  refine Prog.Issues.canIssue (P := fun op => ∀ timeout, op = AuthOp.buildClient timeout →
    timeout.Within ceiling) ?_ hbuild timeout rfl
  refine issues_orFail fun _ _ => issues_orFail fun readTimeout htimeout =>
    (withClient_issues ?_ nofun (runSteps_issues (fun _ => nofun) _ _ _)).bind fun result => ?_
  · rintro _ ⟨⟩
    exact within_of_read hceiling (validateTimeout_ok.mp htimeout).2.2
  · refine (finalToken_issues _).mono ?_
    rintro _ rfl
    exact nofun

end Programs

/-! The source. -/

theorem source_client {config : RestApiConfig} {ceiling : Rat} {timeout : Timeout}
    (hceiling : 10 ≤ ceiling) (h : config.client ceiling = .ok timeout) : timeout.Within ceiling := by
  unfold RestApiConfig.client at h
  split at h
  · cases h
  · cases h
    exact within_of_read hceiling Std.min_le_right

def policySource : RestApiConfig where
  baseUrl := "https://api.example-insurer.test".toList
  path := "/v1/policies".toList

/-- A library that builds no request. -/
def idleLibrary : AuthLibrary Request where
  texts := asciiTexts
  loads := fun _ => .ok .null
  parseFloat := fun _ => none
  buildRequest := fun _ _ _ _ => .error (.other "no request")
  url := fun _ => []
  isHttpError := fun _ => false
  header := fun _ _ => .ok none

theorem phases_bounded_iff {ceiling : Rat} : PhasesBounded Request ceiling ↔ 10 ≤ ceiling := by
  constructor
  · intro h
    exact (h.source policySource (500, 1) _ rfl rfl).1
  · intro hceiling
    exact ⟨fun _ _ _ _ => source_client hceiling, fun _ _ => endpoint_clients hceiling,
      fun _ _ => steps_clients hceiling⟩

theorem default_accepted_iff {ceiling : Rat} : DefaultAccepted Request ceiling ↔ 30 ≤ ceiling := by
  constructor
  · intro h
    have hbuilds : Builds (acquireFromEndpoint (idleLibrary : AuthLibrary Request) 30
        endpointCredential) :=
      builds_endpoint.mpr ⟨validateTimeout_default.mpr (by decide), ⟨_, rfl⟩, ⟨_, rfl⟩, ⟨_, rfl⟩,
        ⟨_, rfl⟩⟩
    exact validateTimeout_default.mp
      (builds_endpoint.mp (h.endpoint idleLibrary endpointCredential 30 rfl hbuilds)).1
  · intro hceiling
    have htimeout : ∀ {lib : TextLibrary} {credential : Fields},
        credential.lookup "timeout_seconds".toList = none →
        ∃ readTimeout, validateTimeout lib ceiling
          (getField credential "timeout_seconds" defaultTimeoutSeconds)
          "credential.timeout_seconds" = .ok readTimeout := by
      intro lib credential hnone
      rw [getField, hnone]
      exact validateTimeout_default.mpr hceiling
    refine ⟨fun config hdefault => ?_, fun lib credential other hnone hbuilds => ?_,
      fun lib credential other hnone hbuilds => ?_⟩
    · rw [RestApiConfig.client, hdefault]
      exact ⟨_, rfl⟩
    · exact builds_endpoint.mpr ⟨htimeout hnone, (builds_endpoint.mp hbuilds).2⟩
    · exact builds_steps.mpr ⟨htimeout hnone, (builds_steps.mp hbuilds).2⟩

/-- The ceiling does what it is for when none of the defaults exceeds it. -/
theorem ceiling_respected_iff (Request : Type) (ceiling : Rat) :
    (PhasesBounded Request ceiling ∧ DefaultAccepted Request ceiling ↔ 30 ≤ ceiling) ∧
    (PhasesBounded Request ceiling ↔ 10 ≤ ceiling) := by
  refine ⟨?_, phases_bounded_iff⟩
  rw [phases_bounded_iff, default_accepted_iff]
  exact ⟨fun h => h.2, fun h => ⟨Rat.le_trans (by decide) h, h⟩⟩

/-- Under a ceiling of five seconds a source may still take ten to connect. -/
theorem low_ceiling_exceeded : ¬ (PhasesBounded Unit 5 ∧ DefaultAccepted Unit 5) := by
  rintro ⟨hphases, -⟩
  have hconnect := (hphases.source policySource (500, 1) _ rfl rfl).1
  exact absurd hconnect (by decide)

end DataLake
