import DataLake.AuditTrail
import DataLake.Foundation.Unwinding
import DataLake.JobStaleness
import DataLake.TenantScope

/-! Passes of different organizations at once: the objects and the records of an
organization are changed by the passes of its own jobs only. -/

namespace DataLake

open Foundation

/-! The calls of a pass whose organization has the identifier `u`. -/

/-- The service names no other organization. -/
def Named (u : Uuid) : ∀ op : StoreOp, op.Resp → Prop
  | .tenantUuid, r => ∀ tenant, r = .ok tenant → tenant = u
  | _, _ => True

/-- The call writes to the prefix of the organization, or to no object. -/
def WritesIn (u : Uuid) (op : StoreOp) : Prop :=
  op.writes = true → ∀ key, op.key = some key → Owns u key

variable {u : Uuid} {bucket : BucketName}

theorem writesIn_idle {op : StoreOp} (h : op.writes = false) : WritesIn u op := by
  intro hwrites
  simp [h] at hwrites

theorem confined_read {α : Type} {p : StoreProg α} (hp : p.Issues (recordOp true)) :
    p.Confined (Named u) (WritesIn u) := by
  refine (hp.mono fun op hop => ?_).confined
  intro hwrites
  cases op with
  | headObject key => cases hwrites
  | getObject key => cases hwrites
  | tenantUuid => cases hop
  | putIfAbsent key object => cases hop
  | putObject key object => cases hop
  | saveStorageUri record uri => cases hop
  | _ => exact hop.elim

theorem put_confined (key : Text) (data : Bytes) (contentType : Text) :
    (put bucket key data contentType).Confined (Named u) (WritesIn u) := by
  have howns : ∀ tenant v op, op.key = some (tenantKey tenant key) →
      Named v .tenantUuid (.ok tenant) → WritesIn v op := by
    intro tenant v op hop hv _ key' hkey'
    obtain rfl := Option.some.inj (hop.symm.trans hkey')
    obtain rfl := hv tenant rfl
    exact owns_tenantKey tenant key
  obtain ⟨k, hk, hissues⟩ := put_tenant_first
    (P := fun r op => ∀ v, Named v .tenantUuid r → WritesIn v op) bucket key data contentType
    fun tenant => ⟨fun v => howns tenant v _ rfl, fun v => howns tenant v _ rfl,
      fun v => howns tenant v _ rfl⟩
  rw [hk]
  exact ⟨writesIn_idle rfl, fun r hr => ((hissues r).mono fun op hop => hop u hr).confined⟩

theorem inspectLegacy_confined (category : Category) (key : Text) (dryRun : Bool)
    (record : RawPayloadRecord) (result : MigrationInspectionResult) :
    (inspectLegacy bucket category key dryRun record result).Confined (Named u) (WritesIn u) := by
  refine (confined_read (issues_keyExists trivial)).bind fun found => ?_
  cases found with
  | false => trivial
  | true =>
    have hget : (getRawByKey key).Confined (Named u) (WritesIn u) := by
      refine confined_read (issues_storeCall trivial fun r => ?_)
      cases r <;> trivial
    have hmigrate : (verifyAndMaybeMigrate bucket key record dryRun).Confined (Named u)
        (WritesIn u) := by
      refine hget.bind fun object => ?_
      unfold migrateObject
      split_ifs
      · trivial
      · trivial
      · exact (put_confined _ _ _).bind fun _ => trivial
    refine hmigrate.bind fun migrated => ?_
    obtain ⟨ok, uri⟩ := migrated
    cases ok with
    | false => trivial
    | true =>
      cases dryRun with
      | true => trivial
      | false =>
        cases uri with
        | none => trivial
        | some uri => exact ⟨fun _ key hkey => (by cases hkey), fun _ _ => trivial⟩

theorem inspectRecord_confined (tenant schemaName : Text) (dryRun : Bool)
    (record : RawPayloadRecord) (result : MigrationInspectionResult) :
    (inspectRecord bucket tenant schemaName dryRun record result).Confined (Named u)
      (WritesIn u) := by
  unfold inspectRecord
  dsimp only
  split
  · trivial
  · trivial
  · exact inspectLegacy_confined _ _ _ _ _

theorem migrateRecords_confined (tenant schemaName : Text) (options : MigrationOptions)
    (records : List RawPayloadRecord) (since : Nat) (result : MigrationInspectionResult) :
    (migrateRecords bucket tenant schemaName options records since result).Confined (Named u)
      (WritesIn u) := by
  induction records generalizing since result with
  | nil => trivial
  | cons record records ih =>
    refine (inspectRecord_confined tenant schemaName options.dryRun record result).bind
      fun result => ?_
    split_ifs
    · have hreport : (reportProgress options result).Issues (WritesIn u) :=
        issues_reportProgress (fun _ => writesIn_idle rfl) options result
      have hpoll : (pollCancel options).Issues (WritesIn u) :=
        issues_pollCancel (writesIn_idle rfl) options
      refine hreport.confined.bind fun _ => hpoll.confined.bind fun cancelled => ?_
      cases cancelled with
      | true => trivial
      | false => exact ih 0 result
    · exact ih _ _

theorem pass_confined (schemaName : Text) (options : MigrationOptions) :
    (runRawPayloadMigration bucket schemaName options).Confined (Named u) (WritesIn u) := by
  refine ⟨writesIn_idle rfl, fun tenant _ => ?_⟩
  cases tenant with
  | error e => trivial
  | ok tenant =>
    refine ⟨writesIn_idle rfl, fun records _ => ?_⟩
    refine (migrateRecords_confined _ _ _ _ _ _).bind fun result => ?_
    have hreport : (reportProgress options result.skipped).Issues (WritesIn u) :=
      issues_reportProgress (fun _ => writesIn_idle rfl) options result.skipped
    exact hreport.confined.bind fun _ => trivial

/-! The sessions. -/

variable {tenants : Text → Uuid} {platform : Platform}

/-- In each schema the service names the organization of that schema. -/
def AnswersIn (tenants : Text → Uuid) : ∀ op : JobOp, op.Resp → Prop
  | .store schemaName op, r => Named (tenants schemaName) op r
  | _, _ => True

def StoresIn (tenants : Text → Uuid) : JobOp → Prop
  | .store schemaName op => WritesIn (tenants schemaName) op
  | _ => True

theorem migrationPass_confined (job : RawPayloadMigrationJob) :
    (migrationPass platform job).Confined (AnswersIn tenants) (StoresIn tenants) := by
  refine (pass_confined (u := tenants job.organization.schemaName) _ _).embed
    (fun op r hr => ?_) fun op hop => ?_
  · cases op with
    | tenantUuid => exact hr
    | _ => trivial
  · cases op with
    | progressCallback result => trivial
    | cancelCheck => trivial
    | _ => exact hop

/-- The calls that have nothing to do with a store. -/
def JobOp.isOutside : JobOp → Bool
  | .store _ _ => false
  | _ => true

theorem storesIn_outside {op : JobOp} (h : op.isOutside = true) : StoresIn tenants op := by
  cases op with
  | store schemaName op => cases h
  | _ => trivial

theorem confined_outside {α : Type} {p : JobProg α}
    (hp : p.Issues fun op : JobOp => op.isOutside = true) :
    p.Confined (AnswersIn tenants) (StoresIn tenants) :=
  (hp.mono fun _ hop => storesIn_outside hop).confined

theorem startOp_outside {op : JobOp} (h : startOp op) : op.isOutside = true := by
  cases op with
  | store schemaName op => exact h.elim
  | _ => rfl

theorem operatorOp_outside {op : JobOp} (h : operatorOp op) : op.isOutside = true := by
  cases op with
  | store schemaName op => exact h.elim
  | _ => rfl

theorem task_confined (id task : Uuid) :
    (runRawPayloadMigrationTask platform id task).Confined (AnswersIn tenants)
      (StoresIn tenants) := by
  refine ⟨trivial, fun found _ => ?_⟩
  cases found with
  | none => trivial
  | some job =>
    refine ⟨trivial, fun now _ => ⟨trivial, fun saved _ => ?_⟩⟩
    cases saved with
    | error e => trivial
    | ok _ =>
      refine (migrationPass_confined _).handle (fun result => confined_outside ?_)
        fun e => confined_outside ?_
      · exact ⟨rfl, fun _ => ⟨rfl, fun _ => ⟨rfl, fun _ => ⟨rfl, fun saved =>
          Prog.issues_ofExcept _ saved⟩⟩⟩⟩
      · exact ⟨rfl, fun _ => ⟨rfl, fun saved => Prog.issues_ofExcept _ saved⟩⟩

theorem program_stays (request : JobRequest) :
    (request.program platform).Confined (AnswersIn tenants) (StoresIn tenants) := by
  cases request with
  | start orgId dryRun =>
    exact confined_outside ((migrationStart_startOp orgId dryRun).mono fun _ => startOp_outside)
  | retry id =>
    exact confined_outside ((issues_migrationJobRetry id).mono fun _ => operatorOp_outside)
  | cancel id =>
    exact confined_outside ((issues_migrationJobCancel id).mono fun _ hop =>
      operatorOp_outside (operatorOp_cancelOp hop))
  | work =>
    exact ⟨trivial, fun m _ => (task_confined m.job m.task).handle (fun _ => trivial)
      fun _ => trivial⟩

/-! The platform. -/

variable {c : OpsAnswer} {v w : OpsWorld} {s t : Ops}

theorem execJobs_tenants {op : JobOp} {r : op.Resp} (h : execJobs op c v = some (r, w)) :
    w.tenantUuids = v.tenantUuids := by
  cases op with
  | createJob organization dryRun =>
    rcases execJobs_createJob h with ⟨-, rfl⟩ | ⟨job, -, -, -, -, -, rfl⟩ <;> rfl
  | saveStatus fields copy =>
    rcases execJobs_saveStatus h with ⟨-, rfl⟩ | ⟨row, now, -, -, -, rfl⟩ <;> rfl
  | delay id => rcases execJobs_delay h with ⟨-, rfl⟩ | ⟨task, -, rfl⟩ <;> rfl
  | receive => rcases execJobs_receive h with ⟨n, -, -, rfl⟩ | ⟨n, -, -, rfl⟩ <;> rfl
  | refreshCancelRequested id =>
    obtain ⟨rfl, -⟩ := execJobs_refreshCancelRequested h
    rfl
  | store schemaName op =>
    obtain ⟨a, store, -, -, rfl⟩ := execJobs_store h
    rfl
  | _ => cases c <;> cases h <;> rfl

theorem execJobs_answersIn {op : JobOp} {r : op.Resp} (h : execJobs op c v = some (r, w)) :
    AnswersIn v.tenantUuids op r := by
  cases op with
  | store schemaName op =>
    cases op with
    | tenantUuid =>
      obtain ⟨a, store, hunder, hexec, -⟩ := execJobs_store h
      obtain ⟨rfl, -⟩ := execStore_tenantUuid hexec
      rintro tenant rfl
      simpa [underTenant] using hunder
    | _ => trivial
  | _ => trivial

/-- A write in the schema of one organization leaves alone what another one has. -/
theorem execJobs_keepsOthers {schemaName : Text} {op : StoreOp} {r : op.Resp} {tenant : Uuid}
    (h : execJobs (.store schemaName op) c v = some (r, w))
    (hop : WritesIn (v.tenantUuids schemaName) op) (hne : v.tenantUuids schemaName ≠ tenant)
    {key : Text} (hkey : Owns tenant key) : w.bucket key = v.bucket key := by
  obtain ⟨a, store, -, hexec, rfl⟩ := execJobs_store h
  have hput : ∀ target, op.writes = true → op.key = some target → key ≠ target := by
    rintro target hwrites htarget rfl
    exact hne (Uuid.text_inj ((hop hwrites key htarget).symm.trans hkey))
  rcases execStore_bucket hexec with heq | ⟨target, object, rfl | rfl, heq⟩
  · exact congrFun heq key
  · exact (congrFun heq key).trans (Function.update_of_ne (hput target rfl rfl) _ _)
  · exact (congrFun heq key).trans (Function.update_of_ne (hput target rfl rfl) _ _)

/-- The row is of a job that may write to what the organization has. -/
def Touches (w : OpsWorld) (tenant : Uuid) (row : RawPayloadMigrationJob) : Prop :=
  row.dryRun = false ∧ w.tenantUuids row.organization.schemaName = tenant

/-- What the organization has is as it was in `v`. -/
structure Intact (v w : OpsWorld) (tenant : Uuid) : Prop where
  objects : ∀ key, Owns tenant key → w.bucket key = v.bucket key
  records : ∀ schema, v.tenantUuids schema = tenant → w.records schema = v.records schema

structure Isolated (v : OpsWorld) (tenant : Uuid) (s : Ops) : Prop where
  tenants : s.world.tenantUuids = v.tenantUuids
  confined : Sessions.AllConfined (fun _ => true) (AnswersIn v.tenantUuids)
    (StoresIn v.tenantUuids) s
  intact : (∃ row ∈ s.world.jobs, Touches v tenant row) ∨ Intact v s.world tenant

theorem Isolated.next {tenant : Uuid} {e : OpsEvent} (h : Isolated v tenant s)
    (haccounted : s.Accounted) (htrail : Trail s) (he : s.next platform e = some t) :
    Isolated v tenant t := by
  have hanswered : Sessions.Answered execJobs (fun _ => true) (fun _ : JobRequest => True)
      (AnswersIn v.tenantUuids) s e := by
    cases e with
    | start i request => exact fun _ => trivial
    | step i c =>
      intro _ x op k r w _ _ hexec
      rw [← h.tenants]
      exact execJobs_answersIn hexec
    | die i => trivial
  have hconfined := h.confined.next (fun request _ => program_stays request) hanswered he
  rcases Sessions.next_cases he with ⟨i, request, rfl, -, rfl⟩ |
    ⟨i, c, x, op, k, r, w, rfl, hx, -, hprog, hexec, rfl⟩ | ⟨i, x, rfl, hx, rfl⟩
  · exact ⟨h.tenants, hconfined, h.intact⟩
  · refine ⟨(execJobs_tenants hexec).trans h.tenants, hconfined, ?_⟩
    rcases h.intact with ⟨row, hrow, hreal, htenant⟩ | hintact
    · -- The row of the job stays, in the mode and for the organization it was made for.
      obtain ⟨row', hrow', hidentity⟩ := (execJobs_later hexec).rows row hrow
      simp only [RawPayloadMigrationJob.identity, Prod.mk.injEq] at hidentity
      obtain ⟨-, horganization, hdry⟩ := hidentity
      exact .inl ⟨row', hrow', hdry.trans hreal, by rwa [horganization]⟩
    · rcases execJobs_unchanged hexec with ⟨hbucket, hrecords⟩ |
        ⟨schemaName, storeOp, rfl, hwrites, hothers⟩
      · refine .inr ⟨fun key hkey => ?_, fun schema hschema => ?_⟩
        · exact (congrFun hbucket key).trans (hintact.objects key hkey)
        · exact (congrFun hrecords schema).trans (hintact.records schema hschema)
      · by_cases htenant : v.tenantUuids schemaName = tenant
        · have hrule : Accounted x.log (.store schemaName storeOp) := haccounted.rule hx hprog
          obtain ⟨told, m, htold, hreal, rfl, -⟩ := hrule hwrites
          obtain ⟨row, hrow, hidentity⟩ :=
            (execJobs_later hexec).inTable (htrail.inTable hx htold)
          simp only [RawPayloadMigrationJob.identity, Prod.mk.injEq] at hidentity
          obtain ⟨-, horganization, hdry⟩ := hidentity
          exact .inl ⟨row, hrow, hdry.trans hreal, by rwa [horganization]⟩
        · have hstays := h.confined i x rfl hx
          rw [hprog] at hstays
          have hin : WritesIn (s.world.tenantUuids schemaName) storeOp := by
            rw [h.tenants]
            exact hstays.1
          refine .inr ⟨fun key hkey => ?_, fun schema hschema => ?_⟩
          · have hkept := execJobs_keepsOthers hexec hin (by rwa [h.tenants]) hkey
            exact hkept.trans (hintact.objects key hkey)
          · have hne : schema ≠ schemaName := by
              rintro rfl
              exact htenant hschema
            exact (hothers schema hne).trans (hintact.records schema hschema)
  · exact ⟨h.tenants, hconfined, h.intact⟩

/-- Whatever the requests, the workers and the broker do, and whoever dies: as long as there is
no job of the organization but dry runs, its objects and its records are what they were, also
while the jobs of others write. -/
theorem other_tenants_untouched (platform : Platform) {w : OpsWorld} (hw : w.Accounts)
    (tenant : Uuid) {s : Ops}
    (hs : Reaches (Ops.next platform) (fun _ _ => True) (Sessions.idle w) s)
    (hjobs : ∀ row ∈ s.world.jobs, w.tenantUuids row.organization.schemaName = tenant →
      row.dryRun = true) :
    (∀ key, Owns tenant key → s.world.bucket key = w.bucket key) ∧
      ∀ schema, w.tenantUuids schema = tenant → s.world.records schema = w.records schema := by
  have hinvariant : Isolated w tenant s ∧ s.Accounted ∧ Trail s := by
    refine hs.invariant (I := fun u : Ops => Isolated w tenant u ∧ u.Accounted ∧ Trail u)
      ⟨⟨rfl, fun i x _ hx => ?_, .inr ⟨fun _ _ => rfl, fun _ _ => rfl⟩⟩,
        Sessions.conform_idle w, trail_idle hw⟩ fun u e v ⟨hu, haccounted, htrail⟩ _ he => ?_
    · cases hx
    · refine ⟨hu.next haccounted htrail he, ?_, htrail.next haccounted he⟩
      exact haccounted.next (fun _ request _ => program_accounted platform request)
        (fun _ _ _ _ _ _ _ _ _ _ hexec => execJobs_answered hexec) he
  rcases hinvariant.1.intact with ⟨row, hrow, hreal, htenant⟩ | hintact
  · have hdry := hjobs row hrow htenant
    rw [hreal] at hdry
    cases hdry
  · exact ⟨hintact.objects, hintact.records⟩

/-- Two organizations: the one of the schema `acme`, and another one. -/
def legacyPair : OpsWorld :=
  { legacyTenant with
    tenantUuids := fun schema => if schema = acme.schemaName then ⟨1⟩ else ⟨2⟩ }

/-- The first write of the one leaves alone what the other has. -/
theorem other_tenants_untouched_first : ∃ s : Ops,
    Reaches (Ops.next smallPlatform) (fun _ _ => True) (Sessions.idle legacyPair) s ∧
    (legacyPair.bucket legacyTarget).isSome = false ∧
    (s.world.bucket legacyTarget).isSome = true ∧
    ∀ key, Owns ⟨2⟩ key → s.world.bucket key = legacyPair.bucket key := by
  have hfinal : (replay (Ops.next smallPlatform) (fun _ _ => True) (Sessions.idle legacyPair)
      (firstWrite ++ [.step 1 (.raw (.done ⟨0⟩))])).map (fun s =>
        ((s.world.bucket legacyTarget).isSome, s.world.jobs.all fun row =>
          decide (legacyPair.tenantUuids row.organization.schemaName = ⟨2⟩) == false)) =
      some (true, true) := by
    decide +kernel
  obtain ⟨s, hs, hend⟩ := Option.map_eq_some_iff.mp hfinal
  obtain ⟨hwritten, hjobs⟩ := Prod.mk.injEq _ _ _ _ ▸ hend
  have haccounts : legacyPair.Accounts := .of_empty rfl rfl rfl
  have hreach := Reaches.of_replay _ hs
  have hothers := other_tenants_untouched smallPlatform haccounts ⟨2⟩ hreach
    fun row hrow htenant => by simpa [htenant] using List.all_eq_true.mp hjobs row hrow
  exact ⟨s, hreach, by decide +kernel, hwritten, hothers.1⟩

end DataLake
