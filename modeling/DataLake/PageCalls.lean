import DataLake.Foundation.Sessions
import DataLake.BodyCalls

/-! The calls of an attempt at a run, page by page: which of them a law has to allow, and what
was called before. -/

namespace DataLake

open Foundation

def noStoreCall (op : RunOp) : Prop := ∀ op', op ≠ .raw op'

/-- A call of the object service, or the lookup of the tenant. -/
def touchesNoRecord (op : StoreOp) : Prop :=
  ∀ record, op ≠ .saveLoaded record ∧ op ≠ .getOrCreateRecord record

/-- The row that a page asks for. -/
def RawPage.record (page : RawPage) (uri : Text) : RawPayloadRecord where
  id := ⟨0⟩
  run := page.run
  pipeline := page.pipeline
  storageUri := uri
  contentType := page.contentType
  sizeBytes := page.data.length
  checksumSha256 := page.checksum
  sequence := page.sequence
  cursorUsed := page.cursorUsed
  nextCursor := page.nextCursor
  itemCount := page.itemCount
  sourcePath := page.sourcePath
  httpStatus := page.httpStatus

theorem put_within (bucket : BucketName) (key : Text) (data : Bytes) (contentType : Text) :
    (put bucket key data contentType).Within touchesNoRecord fun out =>
      ∀ uri, out = .ok uri → ∃ tenant, uri = storageUri bucket (tenantKey tenant key) := by
  refine ⟨fun _ => ⟨nofun, nofun⟩, fun tenant => ?_⟩
  cases tenant with
  | error e => exact nofun
  | ok tenant =>
    have hwrite : (putCreateOnly bucket (tenantKey tenant key) ⟨data, some contentType⟩).Issues
        touchesNoRecord :=
      issues_putCreateOnly (fun _ => ⟨nofun, nofun⟩) (fun _ => ⟨nofun, nofun⟩)
        fun _ => ⟨nofun, nofun⟩
    have hverify : (verifyExistingObject (tenantKey tenant key) data).Issues touchesNoRecord :=
      issues_verifyExistingObject fun _ => ⟨nofun, nofun⟩
    refine hwrite.within.handle (fun written _ => ?_) fun _ _ => nofun
    cases written with
    | true => exact fun uri huri => ⟨tenant, (Except.ok.inj huri).symm⟩
    | false =>
      refine hverify.within.handle (fun _ _ => ?_) fun _ _ => nofun
      exact fun uri huri => ⟨tenant, (Except.ok.inj huri).symm⟩

theorem issues_recordSuccess (run : PipelineRun) (task : TaskExecution) :
    (recordSuccess run task).Issues noStoreCall := by
  refine ⟨nofun, fun _ => ⟨nofun, fun _ => ?_⟩⟩
  refine (issues_orRaise _ _).bind fun run => ⟨nofun, fun _ => ⟨nofun, fun _ => trivial⟩⟩

theorem issues_recordFailure (platform : Platform) (run : PipelineRun) (task : TaskExecution)
    (e : DataLakeError) (isFinal : Bool) :
    (recordFailure platform run task e isFinal).Issues noStoreCall := by
  unfold recordFailure
  dsimp only
  split_ifs
  · refine ⟨nofun, fun _ => (issues_orRaise _ _).bind fun run => ?_⟩
    exact ⟨nofun, fun _ => ⟨nofun, fun _ => ⟨nofun, fun _ => trivial⟩⟩⟩
  · exact ⟨nofun, fun _ => ⟨nofun, fun _ => trivial⟩⟩

section Law

variable {P : List (Call RunSig) → RunOp → Prop} {calls : List (Call RunSig)}

abbrev Abides {α : Type} (P : List (Call RunSig) → RunOp → Prop)
    (Q : List (Call RunSig) → Except Exc α → Prop) (calls : List (Call RunSig)) (p : RunProg α) :
    Prop :=
  p.Along (fun _ _ => True) P Q calls

/-- The last call was answered with this response. -/
def AnsweredLast (page : Int) (response : Response) (calls : List (Call RunSig)) : Prop :=
  ∃ before, calls = before ++ [⟨.send page, .ok response⟩]

theorem send_abides (hother : ∀ calls op, noStoreCall op → P calls op) (page : Int) :
    Abides P (fun calls' out => ∀ response, out = .ok response → AnsweredLast page response calls')
      calls (send page) := by
  refine ⟨hother _ _ nofun, fun answer _ => ?_⟩
  cases answer with
  | error e => exact nofun
  | ok response =>
    rintro _ ⟨⟩
    exact ⟨calls, rfl⟩

theorem sendWithAuthRetry_abides (hother : ∀ calls op, noStoreCall op → P calls op)
    (provider : Bool) (page : Int) :
    Abides P (fun calls' out => ∀ response, out = .ok response →
      AnsweredLast page response calls' ∧ checkStatus response = .ok response) calls
      (sendWithAuthRetry provider page) := by
  have hchecked : ∀ calls response, AnsweredLast page response calls →
      Abides P (fun calls' out => ∀ response, out = .ok response →
        AnsweredLast page response calls' ∧ checkStatus response = .ok response) calls
        (orRaise (checkStatus response)) := by
    intro calls response hanswered
    cases hstatus : checkStatus response with
    | error e => exact nofun
    | ok response' =>
      rintro _ ⟨⟩
      obtain rfl := checkStatus_ok hstatus
      exact ⟨hanswered, hstatus⟩
  refine (send_abides hother page).handle (fun calls' response hanswered => ?_) fun _ _ _ => nofun
  dsimp only
  split_ifs
  · exact (send_abides hother page).handle
      (fun calls'' response' hanswered' => hchecked _ _ (hanswered' _ rfl)) fun _ _ _ => nofun
  · exact hchecked _ _ (hanswered _ rfl)

/-- A payload is stored by calls of the store, the last of which answers with its record. -/
theorem storeRawPayload_abides {bucket : BucketName} {page : RawPage}
    (hput : ∀ calls op, touchesNoRecord op → P calls (.raw op))
    (hcreate : ∀ between tenant, (∀ call ∈ between, ∃ op, call.1 = RunOp.raw op) →
      P (calls ++ between)
        (.raw (.getOrCreateRecord (page.record (storageUri bucket (tenantKey tenant page.key)))))) :
    Abides P (fun calls' out => ∀ record, out = .ok record → ∃ between uri,
      calls' = calls ++ (between ++ [⟨.raw (.getOrCreateRecord (page.record uri)), .ok record⟩]) ∧
      ∀ call ∈ between, ∃ op, call.1 = RunOp.raw op) calls
    (rawCall (storeRawPayload bucket page)) := by
  have hstored : ((put bucket page.key page.data page.contentType).embed (T := RunSig) RunOp.raw
      fun _ r => r).Within (fun op => ∃ op', op = RunOp.raw op' ∧ touchesNoRecord op') fun out =>
        ∀ uri, out = .ok uri → ∃ tenant, uri = storageUri bucket (tenantKey tenant page.key) :=
    Prog.Within.embed ((put_within bucket page.key page.data page.contentType).mono
      fun op hop => ⟨op, rfl, hop⟩)
  refine Prog.Along.embed_bind (hstored.along
    (K := fun calls' => ∃ between, calls' = calls ++ between ∧
      ∀ call ∈ between, ∃ op, call.1 = RunOp.raw op) ⟨[], by simp, nofun⟩ ?_) ?_ ?_
  · rintro _ _ ⟨between, rfl, hbetween⟩ ⟨op, rfl, hop⟩
    refine ⟨hput _ op hop, fun r _ => ⟨between ++ [⟨.raw op, r⟩], by simp, ?_⟩⟩
    intro call hcall
    rcases List.mem_append.mp hcall with hcall | hcall
    · exact hbetween call hcall
    · rw [List.mem_singleton.mp hcall]
      exact ⟨op, rfl⟩
  · rintro _ uri ⟨⟨between, rfl, hbetween⟩, huri⟩
    obtain ⟨tenant, rfl⟩ := huri _ rfl
    refine ⟨hcreate between tenant hbetween, fun answer _ => ?_⟩
    cases answer with
    | error e => exact nofun
    | ok record =>
      rintro _ ⟨⟩
      exact ⟨between, _, List.append_assoc .., hbetween⟩
  · exact fun _ _ _ => nofun

section Loop

variable {σ : Type} {K : Int → σ → Prop} {config : RestApiConfig}
  {loads : Bytes → Except String Json} {maxPages : Int} {provider : Bool}
  {consume : σ → FetchResult → RunProg σ}

/-- A turn of the loop: the consumer of a page comes right after its response. -/
theorem fetchTurn_abides (hother : ∀ calls op, noStoreCall op → P calls op)
    (hconsume : ∀ s page response result stop before, K page s →
      checkStatus response = .ok response →
      readPage config loads page response = .ok ⟨some result, stop⟩ →
        Abides P (fun _ out => ∀ s', out = .ok s' → K (page + 1) s')
          (before ++ [⟨.send page, .ok response⟩]) (consume s result))
    {next : σ → RunProg σ} {page : Int} {s : σ} (h : K page s)
    (hnext : ∀ s calls, K (page + 1) s → Abides P (fun _ _ => True) calls (next s)) :
    Abides P (fun _ _ => True) calls (do
      let response ← sendWithAuthRetry provider page
      let step ← orRaise (readPage config loads page response)
      let s ← match step.page with
        | some result => consume s result
        | none => pure s
      if step.stop then return s else next s : RunProg σ) := by
  refine (sendWithAuthRetry_abides hother provider page).handle (fun calls₁ response hanswer => ?_)
    fun _ _ _ => trivial
  obtain ⟨⟨before, rfl⟩, hstatus⟩ := hanswer _ rfl
  refine Prog.along_ofExcept (fun _ _ => trivial) fun step hread => ?_
  obtain ⟨result, stop⟩ := step
  cases result with
  | none =>
    -- only the end of the data yields no page
    obtain rfl : stop = true := readPage_ok hread
    trivial
  | some result =>
    refine (hconsume s page response result stop before h hstatus hread).handle
      (fun calls₂ s' hs' => ?_) fun _ _ _ => trivial
    dsimp only
    split_ifs
    · trivial
    · exact hnext s' calls₂ (hs' s' rfl)

theorem fetchPages_abides (hother : ∀ calls op, noStoreCall op → P calls op)
    (hconsume : ∀ s page response result stop before, K page s →
      checkStatus response = .ok response →
      readPage config loads page response = .ok ⟨some result, stop⟩ →
        Abides P (fun _ out => ∀ s', out = .ok s' → K (page + 1) s')
          (before ++ [⟨.send page, .ok response⟩]) (consume s result))
    (remaining : Nat) {page : Int} {s : σ} (h : K page s) :
    Abides P (fun _ _ => True) calls
      (fetchPages config loads maxPages provider consume remaining page s) := by
  induction remaining generalizing page s calls with
  | zero =>
    have hlimit : ∀ s calls, K (page + 1) s → Abides P (fun _ _ => True) calls
        ((fun _ => raiseError (pageLimitExceeded maxPages page) : σ → RunProg σ) s) :=
      fun _ _ _ => trivial
    exact fetchTurn_abides hother hconsume h hlimit
  | succ remaining ih => exact fetchTurn_abides hother hconsume h fun s calls hs => ih hs

end Loop

variable {platform : Platform} {pipeline : Pipeline} {K : Int → PipelineRun → Prop}

theorem execute_abides (hother : ∀ calls op, noStoreCall op → P calls op) {run : PipelineRun}
    (hfirst : ∀ limits page, pipeline.sourceConfig.validate = .ok limits →
      firstPage run.lastSuccessfulCursor limits.2 = .ok page → K page run)
    (hpage : ∀ run page response result stop before, K page run →
      checkStatus response = .ok response →
      readPage pipeline.sourceConfig platform.loads page response = .ok ⟨some result, stop⟩ →
        Abides P (fun _ out => ∀ run', out = .ok run' → K (page + 1) run')
          (before ++ [⟨.send page, .ok response⟩]) (processPage platform pipeline run result)) :
    Abides P (fun _ _ => True) calls (execute platform pipeline run) := by
  unfold execute
  split_ifs
  · trivial
  · refine ⟨hother _ _ nofun, fun source _ => ?_⟩
    refine Prog.along_ofExcept (fun _ _ => trivial) fun _ _ => ?_
    refine ⟨hother _ _ nofun, fun destination _ => ?_⟩
    refine Prog.along_ofExcept (fun _ _ => trivial) fun _ _ => ?_
    refine Prog.along_ofExcept (fun _ _ => trivial) fun limits hlimits => ?_
    refine Prog.along_ofExcept (fun _ _ => trivial) fun page hfirstPage => ?_
    refine Prog.along_ofExcept (fun _ _ => trivial) fun provider _ => ?_
    refine fetchPages_abides hother hpage _ (hfirst limits page ?_ hfirstPage)
    cases hvalid : pipeline.sourceConfig.validate with
    | error e =>
      rw [hvalid] at hlimits
      cases hlimits
    | ok limits' =>
      rw [hvalid] at hlimits
      cases hlimits
      rfl

/-- Around the pages, an attempt makes no call of the store. -/
theorem runBody_abides (hother : ∀ calls op, noStoreCall op → P calls op) {run : PipelineRun}
    (hexecute : ∀ calls, Abides P (fun _ _ => True) calls (execute platform pipeline run))
    (isFinal : Bool) :
    Abides P (fun _ _ => True) calls (runBody platform pipeline run isFinal) := by
  have hquiet : ∀ {α : Type} {p : RunProg α} (calls : List (Call RunSig)), p.Issues noStoreCall →
      Abides P (fun _ _ => True) calls p := fun calls hp =>
    hp.along (K := fun _ => True) trivial fun _ _ _ hop => ⟨hother _ _ hop, fun _ _ => trivial⟩
  refine ⟨hother _ _ nofun, fun startedAt _ => ⟨hother _ _ nofun, fun _ _ => ?_⟩⟩
  refine (hexecute _).handle (fun _ run _ => ?_) fun _ e _ => ?_
  · exact hquiet _ (issues_recordSuccess run _)
  · exact hquiet _ ((issues_recordFailure _ _ _ _ _).bind fun _ => trivial)

end Law

end DataLake
