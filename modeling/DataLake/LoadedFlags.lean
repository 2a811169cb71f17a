import DataLake.PageAttempts
import DataLake.PageCalls

/-! Any number of workers on one database, each with its attempt at a run, call by call and in
any order: whatever version of a page is flagged, a worker has loaded its records. -/

namespace DataLake

open Foundation

/-- What a worker has read and claimed when it executes a run. -/
structure Delivery where
  pipeline : Pipeline
  claimed : PipelineRun
  isFinal : Bool

def Delivery.program (platform : Platform) (d : Delivery) : RunProg Unit :=
  runBody platform d.pipeline d.claimed d.isFinal

abbrev Deployment := Sessions RunSig Exc Unit Delivery World

inductive DeploymentEvent where
  | create (pipeline : Pipeline) (key : Text) (prior : Option PipelineRun) (fresh : Uuid)
  | claim (i : Nat) (run task : Uuid) (pipeline : Pipeline) (isFinal : Bool) (now : Nat)
  | answer (i : Nat) (c : RunAnswer)
  | die (i : Nat)

def execDeployment (tenant : Uuid) : Exec RunSig RunAnswer World := fun op c w =>
  if admissible tenant w.store op c then execRun op c w else none

def withRuns (s : Deployment) (runs : List PipelineRun) : Deployment :=
  { s with world := { s.world with runs } }

def Deployment.next (platform : Platform) (tenant : Uuid) (s : Deployment) :
    DeploymentEvent → Option Deployment
  | .create pipeline key prior fresh =>
    if fresh ∈ s.world.runs.map PipelineRun.id then none
    else some (withRuns s (s.world.runs ++ [{ newRun pipeline key prior with id := fresh }]))
  | .claim i run task pipeline isFinal now =>
    (findRun s.world.runs run).bind fun row => (claimRun row task now).toOption.bind fun claimed =>
      Sessions.next (Delivery.program platform) (execDeployment tenant)
        (withRuns s (saveFields .claim claimed s.world.runs)) (.start i ⟨pipeline, claimed, isFinal⟩)
  | .answer i c => Sessions.next (Delivery.program platform) (execDeployment tenant) s (.step i c)
  | .die i => Sessions.next (Delivery.program platform) (execDeployment tenant) s (.die i)

/-- What holds of the calls of every worker, whatever it is answered. -/
theorem Deployment.conform {platform : Platform} {tenant : Uuid}
    {P : Delivery → List (Call RunSig) → RunOp → Prop}
    (hprogram : ∀ d : Delivery,
      (d.program platform).Along (fun _ _ => True) (P d) (fun _ _ => True) [])
    {w : World} {s : Deployment}
    (h : Reaches (Deployment.next platform tenant) (fun _ _ => True) (Sessions.idle w) s) :
    s.Conform (fun _ _ _ => True) P fun _ _ _ => True := by
  refine h.invariant (Sessions.conform_idle w) fun s e t hs _ he => ?_
  have hnext : ∀ (s : Deployment) (e : SessionEvent RunAnswer Delivery),
      s.Conform (fun _ _ _ => True) P (fun _ _ _ => True) →
      Sessions.next (Delivery.program platform) (execDeployment tenant) s e = some t →
      t.Conform (fun _ _ _ => True) P fun _ _ _ => True :=
    fun _ _ hs he => hs.next (fun _ d _ => hprogram d) (fun _ _ _ _ _ _ _ _ _ _ _ => trivial) he
  cases e with
  | create pipeline key prior fresh =>
    simp only [Deployment.next] at he
    split_ifs at he
    cases he
    exact hs
  | claim i run task pipeline isFinal now =>
    obtain ⟨row, -, he⟩ := Option.bind_eq_some_iff.mp he
    obtain ⟨claimed, -, he⟩ := Option.bind_eq_some_iff.mp he
    exact hnext (withRuns s (saveFields .claim claimed s.world.runs)) _ hs he
  | answer i c =>
    simp only [Deployment.next] at he
    exact hnext s _ hs he
  | die i =>
    simp only [Deployment.next] at he
    exact hnext s _ hs he

/-- At the end of the calls, the records of a response are loaded, right after the version of
its bytes was stored. -/
def JustLoaded (platform : Platform) (d : Delivery) (calls : List (Call RunSig))
    (stored : RawPayloadRecord) (version : Uuid × Nat × Text) : Prop :=
  ∃ before page response between defaults rows n result stop,
    calls = before ++ ⟨.send page, .ok response⟩ ::
      (between ++ [⟨.raw (.getOrCreateRecord defaults), .ok stored⟩, ⟨.load rows, .ok n⟩]) ∧
    (∀ call ∈ between, ∃ op, call.1 = RunOp.raw op) ∧
    readPage d.pipeline.sourceConfig platform.loads page response = .ok ⟨some result, stop⟩ ∧
    mapRecords result.records d.pipeline.destinationMapping d.pipeline.strictMapping = .ok rows ∧
    defaults.version = version ∧ defaults.checksumSha256 = sha256hex response.body

/-- Some worker has loaded the records of this version. -/
def WasLoaded (platform : Platform) (s : Deployment) (version : Uuid × Nat × Text) : Prop :=
  ∃ i x calls later stored, s.sessions i = some x ∧ x.log = calls ++ later ∧
    JustLoaded platform x.request calls stored version

/-! The calls of one attempt. -/

/-- A version is flagged only when its records were loaded last, and no record is created with
the flag. -/
def FlagsLoaded (platform : Platform) (d : Delivery) (calls : List (Call RunSig)) (op : RunOp) :
    Prop :=
  (∀ record, op = .raw (.saveLoaded record) →
    ∃ stored version, JustLoaded platform d calls stored version ∧ record.id = stored.id) ∧
  ∀ defaults, op = .raw (.getOrCreateRecord defaults) → defaults.loadedSuccessfully = false

def flagsNothing (op : RunOp) : Prop :=
  ∀ record, op ≠ .raw (.saveLoaded record) ∧ op ≠ .raw (.getOrCreateRecord record)

section Attempt

variable {platform : Platform} {d : Delivery} {α : Type} {calls : List (Call RunSig)}

abbrev Flags {α : Type} (platform : Platform) (d : Delivery)
    (Q : List (Call RunSig) → Except Exc α → Prop) (calls : List (Call RunSig)) (p : RunProg α) :
    Prop :=
  p.Along (fun _ _ => True) (FlagsLoaded platform d) Q calls

theorem flagsLoaded_of_nothing {op : RunOp} (h : flagsNothing op) :
    FlagsLoaded platform d calls op :=
  ⟨fun record hop => absurd hop (h record).1, fun defaults hop => absurd hop (h defaults).2⟩

theorem flagsNothing_of_ne {op : RunOp} (h : ∀ op', op ≠ .raw op') : flagsNothing op :=
  fun _ => ⟨h _, h _⟩

theorem flagsLoaded_other (calls : List (Call RunSig)) (op : RunOp) (hop : noStoreCall op) :
    FlagsLoaded platform d calls op :=
  flagsLoaded_of_nothing (flagsNothing_of_ne hop)

theorem flagsLoaded_put (calls : List (Call RunSig)) (op : StoreOp) (hop : touchesNoRecord op) :
    FlagsLoaded platform d calls (.raw op) :=
  flagsLoaded_of_nothing fun record =>
    ⟨fun heq => (hop record).1 (RunOp.raw.inj heq), fun heq => (hop record).2 (RunOp.raw.inj heq)⟩

/-- A page is flagged when its records are loaded. -/
theorem processPage_flags {page : Int} {response : Response} {result : FetchResult} {stop : Bool}
    {before : List (Call RunSig)} (hcalls : calls = before ++ [⟨.send page, .ok response⟩])
    (hread : readPage d.pipeline.sourceConfig platform.loads page response =
      .ok ⟨some result, stop⟩) (run : PipelineRun) :
    Flags platform d (fun _ _ => True) calls (processPage platform d.pipeline run result) := by
  have hpayload : result.rawPayload = response.body := readPage_body hread
  refine (storeRawPayload_abides flagsLoaded_put (fun between tenant _ => ⟨nofun, ?_⟩)).handle
    (fun calls₁ record hstored => ?_) fun _ _ _ => trivial
  · rintro _ ⟨⟩
    rfl
  obtain ⟨between, uri, rfl, hbetween⟩ := hstored record rfl
  refine Prog.along_ofExcept (fun _ _ => trivial) fun rows hrows => ?_
  refine ⟨flagsLoaded_other _ _ nofun, fun answer _ => ?_⟩
  refine Prog.along_ofExcept (fun _ _ => trivial) fun loaded hloaded => ?_
  refine ⟨⟨?_, nofun⟩, fun _ _ => ⟨flagsLoaded_other _ _ nofun, fun _ _ => trivial⟩⟩
  rintro _ ⟨⟩
  refine ⟨record, _, ⟨before, page, response, between, (rawPage run result).record uri, rows,
    loaded, result, stop, ?_, hbetween, hread, ?_, rfl, ?_⟩, rfl⟩
  · rw [hcalls, hloaded]
    simp
  · cases hmapped : mapRecords result.records d.pipeline.destinationMapping
        d.pipeline.strictMapping with
    | ok rows' =>
      rw [hmapped] at hrows
      cases hrows
      rfl
    | error e =>
      rw [hmapped] at hrows
      cases hrows
  · exact congrArg sha256hex hpayload

variable (platform d) in
theorem program_flags : Flags platform d (fun _ _ => True) [] (d.program platform) := by
  refine runBody_abides flagsLoaded_other (fun calls => ?_) d.isFinal
  refine execute_abides (K := fun _ _ => True) flagsLoaded_other (fun _ _ _ _ => trivial) ?_
  intro run page response result stop before _ _ hread
  exact (processPage_flags rfl hread run).imp fun _ _ _ _ _ => trivial

end Attempt

/-! The table. -/

/-- What a call of the store does to the table: it adds a record, or it leaves identifier and
version of each one, and flags at most the one that it saves. -/
theorem execStore_records {op : StoreOp} {a : StoreAnswer} {s s' : StoreWorld} {r : op.Resp}
    (h : execStore op a s = some (r, s')) :
    (∃ defaults fresh, op = .getOrCreateRecord defaults ∧
      (a = .done fresh ∨ ∃ err, a = .unheard fresh err) ∧
      s'.records = s.records ++ [{ defaults with id := fresh }]) ∨
    ∃ f : RawPayloadRecord → RawPayloadRecord, s'.records = s.records.map f ∧
      ∀ r, (f r).id = r.id ∧ (f r).version = r.version ∧ ((f r).loadedSuccessfully = true →
        r.loadedSuccessfully = true ∨ ∃ record, op = .saveLoaded record ∧ record.id = r.id) := by
  have hsame : s'.records = s.records → ∃ f : RawPayloadRecord → RawPayloadRecord,
      s'.records = s.records.map f ∧ ∀ r, (f r).id = r.id ∧ (f r).version = r.version ∧
        ((f r).loadedSuccessfully = true → r.loadedSuccessfully = true ∨
          ∃ record, op = .saveLoaded record ∧ record.id = r.id) :=
    fun heq => ⟨id, by rw [heq, List.map_id], fun r => ⟨rfl, rfl, .inl⟩⟩
  cases op with
  | getOrCreateRecord defaults =>
    rcases execStore_getOrCreateRecord h with ⟨rfl, -⟩ | ⟨fresh, ha, -, -, rfl⟩
    · exact .inr (hsame rfl)
    · exact .inl ⟨defaults, fresh, rfl, ha, rfl⟩
  | saveLoaded record =>
    cases a with
    | done _ =>
      cases h
      refine .inr ⟨_, rfl, fun r => ?_⟩
      split_ifs with hid
      · exact ⟨rfl, rfl, fun _ => .inr ⟨record, rfl, hid.symm⟩⟩
      · exact ⟨rfl, rfl, .inl⟩
    | _ => cases h
  | saveStorageUri id uri =>
    cases a with
    | done _ =>
      cases h
      refine .inr ⟨_, rfl, fun r => ?_⟩
      split_ifs <;> exact ⟨rfl, rfl, .inl⟩
    | _ => cases h
  | putIfAbsent key object =>
    refine .inr (hsame ?_)
    rcases execStore_putIfAbsent h with ⟨_, _, _, _, rfl⟩ | ⟨_, _, _, _, _, rfl⟩ |
      ⟨_, _, _, rfl⟩ | ⟨_, _, _, rfl⟩
    · rfl
    · rfl
    · rfl
    · rcases writeIfAbsent_cases s key object with heq | ⟨-, heq⟩ <;> rw [heq]
      rfl
  | putObject key object =>
    refine .inr (hsame ?_)
    rcases execStore_putObject h with ⟨_, _, _, rfl⟩ | ⟨_, _, _, rfl⟩ | ⟨_, _, _, rfl⟩ <;> rfl
  | tenantUuid => exact .inr (hsame (by rw [(execStore_tenantUuid h).2]))
  | headObject key => exact .inr (hsame (by rw [(execStore_headObject h).1]))
  | getObject key => exact .inr (hsame (by rw [(execStore_getObject h).1]))
  | selectRecords =>
    cases a with
    | done _ => cases h; exact .inr (hsame rfl)
    | _ => cases h
  | progressCallback result =>
    cases a with
    | done _ => cases h; exact .inr (hsame rfl)
    | _ => cases h
  | cancelCheck =>
    cases a with
    | cancel _ => cases h; exact .inr (hsame rfl)
    | _ => cases h

theorem execRun_records {tenant : Uuid} {op : RunOp} {c : RunAnswer} {w w' : World} {r : op.Resp}
    (h : execDeployment tenant op c w = some (r, w')) :
    (∃ defaults fresh, op = .raw (.getOrCreateRecord defaults) ∧
      fresh ∉ w.store.records.map RawPayloadRecord.id ∧
      w'.store.records = w.store.records ++ [{ defaults with id := fresh }]) ∨
    ∃ f : RawPayloadRecord → RawPayloadRecord, w'.store.records = w.store.records.map f ∧
      ∀ r, (f r).id = r.id ∧ (f r).version = r.version ∧ ((f r).loadedSuccessfully = true →
        r.loadedSuccessfully = true ∨ ∃ record, op = .raw (.saveLoaded record) ∧ record.id = r.id) := by
  unfold execDeployment at h
  split_ifs at h with hadmissible
  by_cases hop : ∃ op', op = .raw op'
  · obtain ⟨op, rfl⟩ := hop
    cases c with
    | raw a =>
      simp only [execRun, Option.map_eq_some_iff, Prod.exists, Prod.mk.injEq] at h
      obtain ⟨r', s, he, -, rfl⟩ := h
      rcases execStore_records he with ⟨defaults, fresh, rfl, ha, hrecords⟩ | ⟨f, hrecords, hf⟩
      · refine .inl ⟨defaults, fresh, rfl, ?_, hrecords⟩
        rcases ha with rfl | ⟨err, rfl⟩ <;> exact of_decide_eq_true hadmissible
      · refine .inr ⟨f, hrecords, fun r => ⟨(hf r).1, (hf r).2.1, fun hflag => ?_⟩⟩
        refine ((hf r).2.2 hflag).imp_right ?_
        rintro ⟨record, rfl, hid⟩
        exact ⟨record, rfl, hid⟩
    | _ => cases h
  · have hstore := execRun_store (fun o ho => hop ⟨o, ho⟩) h
    exact .inr ⟨id, by rw [hstore, List.map_id], fun r => ⟨rfl, rfl, .inl⟩⟩

/-- The record that is answered is in the table, as the version asked for. -/
theorem getOrCreate_stored {tenant : Uuid} {defaults r : RawPayloadRecord} {c : RunAnswer}
    {w w' : World}
    (h : execDeployment tenant (.raw (.getOrCreateRecord defaults)) c w = some (.ok r, w')) :
    ∃ r' ∈ w'.store.records, r'.id = r.id ∧ r'.version = defaults.version := by
  unfold execDeployment at h
  split_ifs at h
  cases c with
  | raw a =>
    simp only [execRun, Option.map_eq_some_iff, Prod.exists, Prod.mk.injEq] at h
    obtain ⟨answer, s, he, hanswer, rfl⟩ := h
    rcases execStore_getOrCreateRecord he with ⟨rfl, hfound⟩ | ⟨fresh, -, hfound, -, rfl⟩
    · obtain ⟨hmem, hversion⟩ := hfound r hanswer
      exact ⟨r, hmem, rfl, hversion⟩
    · rw [hfound r hanswer]
      exact ⟨_, List.mem_append_right _ (.head _), rfl, rfl⟩
  | _ => cases h

/-! The invariant. -/

structure FlagsKept (platform : Platform) (s : Deployment) : Prop where
  conform : s.Conform (fun _ _ _ => True) (FlagsLoaded platform) fun _ _ _ => True
  ids : (s.world.store.records.map RawPayloadRecord.id).Nodup
  answered : ∀ i x, s.sessions i = some x → ∀ defaults r,
    (⟨.raw (.getOrCreateRecord defaults), .ok r⟩ : Call RunSig) ∈ x.log →
      ∃ r' ∈ s.world.store.records, r'.id = r.id ∧ r'.version = defaults.version
  flagged : ∀ r ∈ s.world.store.records, r.loadedSuccessfully = true →
    WasLoaded platform s r.version

section Invariant

variable {platform : Platform} {tenant : Uuid} {s t : Deployment}

theorem JustLoaded.stored {d : Delivery} {calls : List (Call RunSig)} {stored : RawPayloadRecord}
    {version : Uuid × Nat × Text} (h : JustLoaded platform d calls stored version) :
    ∃ defaults : RawPayloadRecord, defaults.version = version ∧
      (⟨.raw (.getOrCreateRecord defaults), .ok stored⟩ : Call RunSig) ∈ calls := by
  obtain ⟨_, _, _, _, defaults, _, _, _, _, rfl, -, -, -, hversion, -⟩ := h
  exact ⟨defaults, hversion, by simp⟩

/-- A session that has begun goes on with the calls that it has made. -/
theorem WasLoaded.mono {version : Uuid × Nat × Text} (h : WasLoaded platform s version)
    (hst : ∀ i x, s.sessions i = some x →
      ∃ y later, t.sessions i = some y ∧ y.request = x.request ∧ y.log = x.log ++ later) :
    WasLoaded platform t version := by
  obtain ⟨i, x, calls, later, stored, hx, hlog, hloaded⟩ := h
  obtain ⟨y, later', hy, hrequest, hlog'⟩ := hst i x hx
  exact ⟨i, y, calls, later ++ later', stored, hy, by rw [hlog', hlog, List.append_assoc],
    hrequest ▸ hloaded⟩

theorem set_continues {w : World} {i : Nat} {y : Session RunSig Exc Unit Delivery}
    (hy : ∀ x, s.sessions i = some x → ∃ later, y.request = x.request ∧ y.log = x.log ++ later)
    (j : Nat) (x : Session RunSig Exc Unit Delivery) (hx : s.sessions j = some x) :
    ∃ y' later, (s.set w i y).sessions j = some y' ∧ y'.request = x.request ∧
      y'.log = x.log ++ later := by
  by_cases hij : j = i
  · subst hij
    obtain ⟨later, hrequest, hlog⟩ := hy x hx
    exact ⟨y, later, Sessions.set_self, hrequest, hlog⟩
  · exact ⟨x, [], by simpa [Sessions.set, hij] using hx, rfl, (List.append_nil _).symm⟩

/-- A record stays in the table, with its identifier and version. -/
theorem record_stays {op : RunOp} {c : RunAnswer} {w w' : World} {answer : op.Resp}
    (h : execDeployment tenant op c w = some (answer, w')) {r : RawPayloadRecord}
    (hr : r ∈ w.store.records) : ∃ r' ∈ w'.store.records, r'.id = r.id ∧ r'.version = r.version := by
  rcases execRun_records h with ⟨defaults, fresh, -, -, hrecords⟩ | ⟨f, hrecords, hf⟩ <;> rw [hrecords]
  · exact ⟨r, List.mem_append_left _ hr, rfl, rfl⟩
  · exact ⟨f r, List.mem_map_of_mem hr, (hf r).1, (hf r).2.1⟩

/-- The runs play no part in it. -/
theorem FlagsKept.withRuns (h : FlagsKept platform s) (runs : List PipelineRun) :
    FlagsKept platform (DataLake.withRuns s runs) :=
  ⟨h.conform, h.ids, h.answered, h.flagged⟩

theorem FlagsKept.sessions_next {e : SessionEvent RunAnswer Delivery} (h : FlagsKept platform s)
    (he : Sessions.next (Delivery.program platform) (execDeployment tenant) s e = some t) :
    FlagsKept platform t := by
  have hconform : t.Conform (fun _ _ _ => True) (FlagsLoaded platform) fun _ _ _ => True :=
    h.conform.next (fun _ d _ => program_flags platform d) (fun _ _ _ _ _ _ _ _ _ _ _ => trivial) he
  rcases Sessions.next_cases he with ⟨i, d, rfl, hi, rfl⟩ |
    ⟨i, c, x, op, k, answer, w, rfl, hx, -, hprog, hexec, rfl⟩ | ⟨i, x, rfl, hx, rfl⟩
  · have hcontinues := @set_continues s s.world i { request := d, prog := d.program platform }
      fun x hx => by rw [hi] at hx; cases hx
    refine ⟨hconform, h.ids, fun j y hy defaults r hmem => ?_,
      fun r hr hflag => (h.flagged r hr hflag).mono hcontinues⟩
    rcases Sessions.set_sessions hy with ⟨-, rfl⟩ | ⟨-, hy⟩
    · cases hmem
    · exact h.answered j y hy defaults r hmem
  · have hcontinues := @set_continues s w i (x.answered op k answer) fun x' hx' => by
      obtain rfl := Option.some.inj (hx.symm.trans hx')
      exact ⟨_, rfl, rfl⟩
    have hlaw := h.conform.rule hx hprog
    refine ⟨hconform, ?_, fun j y hy defaults r hmem => ?_, fun r hr hflag => ?_⟩
    · rcases execRun_records hexec with ⟨defaults, fresh, -, hfresh, hrecords⟩ | ⟨f, hrecords, hf⟩
      · rw [Sessions.set_world, hrecords, List.map_append, List.map_singleton]
        exact h.ids.append (List.nodup_singleton _) (List.disjoint_singleton.mpr hfresh)
      · rw [Sessions.set_world, hrecords, List.map_map]
        have hids : RawPayloadRecord.id ∘ f = RawPayloadRecord.id := funext fun r => (hf r).1
        rw [hids]
        exact h.ids
    · have hold : ∀ x', s.sessions j = some x' →
          (⟨.raw (.getOrCreateRecord defaults), .ok r⟩ : Call RunSig) ∈ x'.log →
          ∃ r' ∈ w.store.records, r'.id = r.id ∧ r'.version = defaults.version := by
        intro x' hx' hmem
        obtain ⟨r₀, hr₀, hid, hversion⟩ := h.answered j x' hx' defaults r hmem
        obtain ⟨r', hr', hid', hversion'⟩ := record_stays hexec hr₀
        exact ⟨r', hr', hid'.trans hid, hversion'.trans hversion⟩
      rcases Sessions.set_sessions hy with ⟨rfl, rfl⟩ | ⟨-, hy⟩
      · rcases List.mem_append.mp hmem with hmem | hmem
        · exact hold x hx hmem
        · cases List.mem_singleton.mp hmem
          exact getOrCreate_stored hexec
      · exact hold y hy hmem
    · rw [Sessions.set_world] at hr
      rcases execRun_records hexec with ⟨defaults, fresh, rfl, -, hrecords⟩ | ⟨f, hrecords, hf⟩
      · rw [hrecords] at hr
        rcases List.mem_append.mp hr with hr | hr
        · exact (h.flagged r hr hflag).mono hcontinues
        · rw [List.mem_singleton.mp hr] at hflag
          rw [hlaw.2 defaults rfl] at hflag
          cases hflag
      · rw [hrecords] at hr
        obtain ⟨r₀, hr₀, rfl⟩ := List.mem_map.mp hr
        rw [(hf r₀).2.1]
        rcases (hf r₀).2.2 hflag with hflag₀ | ⟨record, rfl, hid⟩
        · exact (h.flagged r₀ hr₀ hflag₀).mono hcontinues
        · -- the row that is flagged is the one whose records were just loaded
          obtain ⟨stored, version, hloaded, hstored⟩ := hlaw.1 record rfl
          obtain ⟨defaults, rfl, hmem⟩ := hloaded.stored
          obtain ⟨r₁, hr₁, hid₁, hversion⟩ := h.answered i x hx defaults stored hmem
          obtain rfl : r₁ = r₀ := List.inj_on_of_nodup_map h.ids hr₁ hr₀
            (hid₁.trans (hstored.symm.trans hid))
          rw [hversion]
          have hwas : WasLoaded platform s defaults.version :=
            ⟨i, x, x.log, [], stored, hx, (List.append_nil _).symm, hloaded⟩
          exact hwas.mono hcontinues
  · have hcontinues := @set_continues s s.world i { x with alive := false } fun x' hx' => by
      obtain rfl := Option.some.inj (hx.symm.trans hx')
      exact ⟨[], rfl, (List.append_nil _).symm⟩
    refine ⟨hconform, h.ids, fun j y hy defaults r hmem => ?_,
      fun r hr hflag => (h.flagged r hr hflag).mono hcontinues⟩
    rcases Sessions.set_sessions hy with ⟨rfl, rfl⟩ | ⟨-, hy⟩
    · exact h.answered j x hx defaults r hmem
    · exact h.answered j y hy defaults r hmem

theorem FlagsKept.next {e : DeploymentEvent} (h : FlagsKept platform s)
    (he : Deployment.next platform tenant s e = some t) : FlagsKept platform t := by
  cases e with
  | create pipeline key prior fresh =>
    simp only [Deployment.next] at he
    split_ifs at he
    cases he
    exact h.withRuns _
  | claim i run task pipeline isFinal now =>
    obtain ⟨row, -, he⟩ := Option.bind_eq_some_iff.mp he
    obtain ⟨claimed, -, he⟩ := Option.bind_eq_some_iff.mp he
    exact (h.withRuns _).sessions_next he
  | answer i c =>
    simp only [Deployment.next] at he
    exact h.sessions_next he
  | die i =>
    simp only [Deployment.next] at he
    exact h.sessions_next he

/-- From a table without a flag. -/
theorem recorded_idle {w : World} (hids : (w.store.records.map RawPayloadRecord.id).Nodup)
    (hflags : ∀ r ∈ w.store.records, r.loadedSuccessfully = false) :
    FlagsKept platform (Sessions.idle w) := by
  refine ⟨Sessions.conform_idle w, hids, fun i x hx => ?_, fun r hr hflag => ?_⟩
  · cases hx
  · rw [hflags r hr] at hflag
    cases hflag

end Invariant

end DataLake
