import DataLake.AttemptSafety

/-! A run that meets no failure: on a source that has an end, and with no payload of
the run in the store, it reaches the end of the source. -/

namespace DataLake

open Foundation

def RunAnswer.calm : RunAnswer → Bool
  | .fail _ | .raw (.refused _) | .raw (.lost _) | .raw (.unheard _ _)
  | .raw (.tenant (.error _)) => false
  | _ => true

abbrev calmSource (source : Int → Response) : Exec RunSig RunAnswer Traced :=
  (execSource source).only fun _ c => c.calm

/-- No payload is stored for the run from the given page of its sequence on. -/
def Vacant (run : Uuid) (sequence : Nat) (t : Traced) : Prop :=
  ∀ tenant pipeline n checksum, sequence ≤ n →
    t.world.store.bucket (tenantKey tenant (logicalKey pipeline run n checksum)) = none

variable {y : Sync} {copy : PipelineRun} {c : RunAnswer} {t t' : Traced} {n : Nat} {run : Uuid}
  {l : Loaded}

theorem calmSource_some {op : RunOp} {r : op.Resp} (h : calmSource y.source op c t = some (r, t')) :
    c.calm = true ∧ fromSource y.source op c = true ∧
      ∃ w, execRun op c t.world = some (r, w) ∧ t'.world = w := by
  obtain ⟨hcalm, h⟩ := Exec.of_only h
  obtain ⟨hsource, w, he, rfl⟩ := execSource_some h
  refine ⟨hcalm, hsource, w, he, ?_⟩
  cases op with
  | saveRun fields copy => cases fields <;> rfl
  | _ => rfl

theorem calmSource_raw {op : StoreOp} {r : op.Resp}
    (h : calmSource y.source (.raw op) c t = some (r, t')) :
    ∃ a, (RunAnswer.raw a).calm = true ∧
      execStore op a t.world.store = some (r, t'.world.store) := by
  obtain ⟨hcalm, -, w, he, hw⟩ := calmSource_some h
  cases c with
  | raw a =>
    simp only [execRun, Option.map_eq_some_iff, Prod.mk.injEq] at he
    obtain ⟨⟨r', store⟩, ha, rfl, rfl⟩ := he
    refine ⟨a, hcalm, ?_⟩
    rw [ha, hw]
  | _ => cases he

theorem calmSource_store {op : RunOp} {r : op.Resp} (hop : ∀ o, op ≠ .raw o)
    (h : calmSource y.source op c t = some (r, t')) : t'.world.store = t.world.store := by
  obtain ⟨-, -, w, he, hw⟩ := calmSource_some h
  rw [hw]
  exact execRun_store hop he

theorem Vacant.of_store {t' : Traced} (h : Vacant run n t) (hs : t'.world.store = t.world.store) :
    Vacant run n t' := by
  intro tenant pipeline m checksum hm
  rw [hs]
  exact h tenant pipeline m checksum hm

theorem Vacant.write {t' : Traced} (tenant pipeline : Uuid) (checksum : Text) (object : S3Object)
    (h : Vacant run n t) (hs : t'.world.store.bucket = Function.update t.world.store.bucket
      (tenantKey tenant (logicalKey pipeline run n checksum)) (some object)) :
    Vacant run (n + 1) t' := by
  intro tenant' pipeline' m checksum' hm
  have hne : tenantKey tenant' (logicalKey pipeline' run m checksum') ≠
      tenantKey tenant (logicalKey pipeline run n checksum) := by
    intro heq
    obtain ⟨-, -, hseq, -⟩ := logicalKey_inj (tenantKey_inj heq).2
    omega
  rw [hs, Function.update_of_ne hne]
  exact h tenant' pipeline' m checksum' (by omega)

theorem calm_record {a : StoreAnswer} {defaults : RawPayloadRecord} {s s' : StoreWorld}
    {answer : Except Exc RawPayloadRecord} (ha : (RunAnswer.raw a).calm = true)
    (h : execStore (.getOrCreateRecord defaults) a s = some (answer, s')) :
    ∃ record, answer = .ok record := by
  cases a with
  | done fresh =>
    cases h
    exact ⟨_, rfl⟩
  | refused err => cases ha
  | unheard fresh err => cases ha
  | _ => cases h

theorem storeRawPayload_calm (bucket : BucketName) (page : RawPage)
    (h : Vacant page.run page.sequence t) :
    (rawCall (storeRawPayload bucket page)).Safe (calmSource y.source) Eq (fun _ _ => True)
      (fun out t' => (∃ record, out = .ok record) ∧ Vacant page.run (page.sequence + 1) t') t := by
  rintro _ rfl c r t₁ he
  obtain ⟨a, ha, he⟩ := calmSource_raw he
  obtain ⟨rfl, hstore₁⟩ := execStore_tenantUuid he
  refine ⟨trivial, ?_⟩
  cases r with
  | error e => cases ha
  | ok tenant =>
    rintro _ rfl c r t₂ he
    obtain ⟨a, ha, he⟩ := calmSource_raw he
    refine ⟨trivial, ?_⟩
    have hvacant : t₁.world.store.bucket (tenantKey tenant page.key) = none := by
      rw [hstore₁]
      exact h _ _ _ _ le_rfl
    rcases execStore_putIfAbsent he with ⟨_, rfl, -, rfl, hstore₂⟩ | ⟨_, o, -, ho, -⟩ |
      ⟨err, rfl, -⟩ | ⟨err, rfl, -⟩
    · rintro _ rfl c record t₃ he
      obtain ⟨a, ha, he⟩ := calmSource_raw he
      refine ⟨trivial, ?_⟩
      obtain ⟨record, rfl⟩ := calm_record ha he
      rintro _ rfl
      refine ⟨⟨record, rfl⟩, h.write tenant page.pipeline page.checksum
        ⟨page.data, some page.contentType⟩ ?_⟩
      rcases execStore_bucket he with hbucket | ⟨_, _, hput | hput, -⟩
      · rw [hbucket, hstore₂, hstore₁]
        rfl
      · cases hput
      · cases hput
    · rw [hvacant] at ho
      cases ho
    · cases ha
    · cases ha

theorem calm_call {α : Type} {Q : Except Exc α → Traced → Prop} {op : RunOp}
    {f : op.Resp → RunProg α} (hop : ∀ o, op ≠ .raw o) (h : Vacant run n t)
    (hf : ∀ c r t', calmSource y.source op c t = some (r, t') → Vacant run n t' →
      (f r).Safe (calmSource y.source) Eq (fun _ _ => True) Q t') :
    (runCall op >>= f).Safe (calmSource y.source) Eq (fun _ _ => True) Q t :=
  safe_runCall fun c r t' he => ⟨trivial, hf c r t' he (h.of_store (calmSource_store hop he))⟩

theorem calm_load {rows : List Row} {r : Except Exc Nat}
    (h : calmSource y.source (.load rows) c t = some (r, t')) : r = .ok rows.length := by
  obtain ⟨hcalm, -, w, he, -⟩ := calmSource_some h
  cases c with
  | done => cases he; rfl
  | fail e => cases hcalm
  | _ => cases he

theorem calm_resolveCredential {kind : ConnectionKind} {r : Except Exc Unit}
    (h : calmSource y.source (.resolveCredential kind) c t = some (r, t')) : r = .ok () := by
  obtain ⟨hcalm, -, w, he, -⟩ := calmSource_some h
  cases c with
  | done => cases he; rfl
  | fail e => cases hcalm
  | _ => cases he

theorem calm_send {page : Int} {r : Except Exc Response}
    (h : calmSource y.source (.send page) c t = some (r, t')) : r = .ok (y.source page) := by
  obtain ⟨hcalm, hsource, w, he, -⟩ := calmSource_some h
  cases c with
  | response response =>
    cases he
    exact congrArg _ (by simpa [fromSource] using hsource)
  | fail e => cases hcalm
  | _ => cases he

/-- The copy of a run of which no later payload is stored. -/
structure Calm (run : Uuid) (copy : PipelineRun) (t : Traced) : Prop where
  id : copy.id = run
  status : copy.status = .running
  vacant : Vacant run (copy.pagesExtracted + 1) t

theorem processPage_calm {result : FetchResult} {rows : List Row} (maxPages : Int)
    (h : Calm run copy t) (hmapped : y.mapped result = .ok rows) :
    (processPage y.platform (y.pipeline.withMaxPages maxPages) copy result).Safe
      (calmSource y.source) Eq (fun _ _ => True)
      (fun out t' => ∃ copy', out = .ok copy' ∧ Calm run copy' t') t := by
  have hvacant : Vacant (rawPage copy result).run (rawPage copy result).sequence t := by
    have hrun : (rawPage copy result).run = run := h.id
    rw [hrun]
    exact h.vacant
  refine (storeRawPayload_calm _ _ hvacant).handle (fun _ => rfl) (fun record v hv => ?_)
    fun e v hv => by simp at hv
  change Prog.Safe _ _ _ _ (orRaise (y.mapped result) >>= _) v
  rw [hmapped, orRaise_ok]
  refine calm_call (by simp) hv.2 fun c answer t₁ he hv₁ => ?_
  obtain rfl := calm_load he
  rw [orRaise_ok]
  refine safe_runCall fun c r t₂ he => ⟨trivial, ?_⟩
  obtain ⟨a, -, he⟩ := calmSource_raw he
  have hv₂ : Vacant run (copy.pagesExtracted + 1 + 1) t₂ := by
    rcases execStore_bucket he with hbucket | ⟨_, _, hput | hput, -⟩
    · intro tenant pipeline m checksum hm
      rw [hbucket, ← h.id]
      exact hv₁ tenant pipeline m checksum hm
    · cases hput
    · cases hput
  refine calm_call (by simp) hv₂ fun c r t₃ he hv₃ => ?_
  rintro _ rfl
  exact ⟨_, rfl, h.id, h.status, hv₃⟩

theorem sendWithAuthRetry_calm (provider : Bool) (page : Int) (response : Response)
    (hstatus : checkStatus (y.source page) = .ok response) (h : Vacant run n t) :
    (sendWithAuthRetry provider page).Safe (calmSource y.source) Eq (fun _ _ => True)
      (fun out t' => out = .ok (y.source page) ∧ Vacant run n t') t := by
  obtain rfl := checkStatus_ok hstatus
  have hsend : ∀ v, Vacant run n v → (send page).Safe (calmSource y.source) Eq (fun _ _ => True)
      (fun out t' => out = .ok (y.source page) ∧ Vacant run n t') v := by
    intro v hv
    refine calm_call (by simp) hv fun c r t₁ he hv₁ => ?_
    obtain rfl := calm_send he
    rintro _ rfl
    exact ⟨rfl, hv₁⟩
  have hcheck : ∀ v, Vacant run n v → Prog.Safe (calmSource y.source) Eq (fun _ _ => True)
      (fun out t' => out = .ok (y.source page) ∧ Vacant run n t')
      (orRaise (checkStatus (y.source page))) v := by
    intro v hv
    rw [hstatus]
    rintro _ rfl
    exact ⟨rfl, hv⟩
  refine (hsend t h).handle (fun _ => rfl) (fun response v hv => ?_) fun e v hv => by simp at hv
  obtain ⟨hresponse, hv⟩ := hv
  obtain rfl := Except.ok.inj hresponse
  dsimp only
  split_ifs
  · refine (hsend v hv).handle (fun _ => rfl) (fun response' u hu => ?_) fun e u hu => by simp at hu
    obtain ⟨hresponse', hu⟩ := hu
    obtain rfl := Except.ok.inj hresponse'
    exact hcheck u hu
  · exact hcheck v hv

def CalmEnd (out : Except Exc PipelineRun) : Prop :=
  ∃ copy, out = .ok copy ∧ copy.status = .running

theorem turn_calm {start : Int} {last : Nat} (hend : y.Complete start last) (maxPages : Int)
    (provider : Bool) {next : PipelineRun → RunProg PipelineRun}
    (hn : y.pages start n = some l) (hopen : l.ended = false) (hle : n ≤ last)
    (h : Calm run copy t)
    (hnext : ∀ l' copy' t', n + 1 ≤ last → y.pages start (n + 1) = some l' → l'.ended = false →
      Calm run copy' t' →
      (next copy').Safe (calmSource y.source) Eq (fun _ _ => True) (fun out _ => CalmEnd out) t') :
    (do
      let response ← sendWithAuthRetry provider (start + n)
      let step ← orRaise (readPage (y.pipeline.withMaxPages maxPages).sourceConfig
        y.platform.loads (start + n) response)
      let copy ← match step.page with
        | some result =>
          processPage y.platform (y.pipeline.withMaxPages maxPages) copy result
        | none => pure copy
      if step.stop then return copy else next copy : RunProg PipelineRun).Safe
      (calmSource y.source) Eq (fun _ _ => True) (fun out _ => CalmEnd out) t := by
  obtain ⟨step, hread, hstep⟩ : ∃ step, y.read (start + n) = .ok step ∧
      (step = ⟨none, true⟩ ∨ ∃ result rows l', step = ⟨some result, l'.ended⟩ ∧
        y.mapped result = .ok rows ∧ n + 1 ≤ last ∧ y.pages start (n + 1) = some l') := by
    rcases Nat.lt_or_ge n last with hlt | hge
    · obtain ⟨l₀, hl₀, -⟩ := hend
      obtain ⟨l₁, l', hl₁, hadd⟩ := Sync.pages_lt hl₀ hlt
      obtain rfl : l = l₁ := Option.some.inj (hn.symm.trans hl₁)
      obtain ⟨-, result, rows, hread, hmapped, -⟩ := Sync.add_eq_some hadd
      exact ⟨_, hread, .inr ⟨result, rows, l', rfl, hmapped, hlt, Sync.pages_of_add hn hadd⟩⟩
    · obtain rfl : n = last := Nat.le_antisymm hle hge
      obtain ⟨l₀, hl₀, hdone⟩ := hend
      obtain rfl : l = l₀ := Option.some.inj (hn.symm.trans hl₀)
      rcases hdone with hended | hread
      · simp [hopen] at hended
      · exact ⟨_, hread, .inl rfl⟩
  obtain ⟨hstatus, hpage⟩ := Sync.read_ok hread
  refine (sendWithAuthRetry_calm provider (start + n) _ hstatus h.vacant).handle (fun _ => rfl)
    (fun response v hv => ?_) fun e v hv => by simp at hv
  obtain ⟨hresponse, hv⟩ := hv
  obtain rfl := Except.ok.inj hresponse
  change Prog.Safe _ _ _ _ (orRaise (readPage y.pipeline.sourceConfig y.platform.loads
    (start + n) (y.source (start + n))) >>= _) v
  rw [hpage, orRaise_ok]
  rcases hstep with rfl | ⟨result, rows, l', rfl, hmapped, hlast, hl'⟩
  · rintro _ rfl
    exact ⟨copy, rfl, h.status⟩
  · refine (processPage_calm maxPages ⟨h.id, h.status, hv⟩ hmapped).handle (fun _ => rfl)
      (fun copy' u hu => ?_) fun e u hu => by simp at hu
    obtain ⟨copy'', heq, hcalm⟩ := hu
    obtain rfl := Except.ok.inj heq
    cases hended : l'.ended with
    | true =>
      rintro _ rfl
      exact ⟨copy', rfl, hcalm.status⟩
    | false => exact hnext l' copy' u hlast hl' hended hcalm

theorem fetchPages_calm {start : Int} {last : Nat} (hend : y.Complete start last)
    (maxPages : Int) (provider : Bool) (remaining : Nat) (hroom : last < n + remaining + 1)
    (hn : y.pages start n = some l) (hopen : l.ended = false) (hle : n ≤ last)
    (h : Calm run copy t) :
    (fetchPages (y.pipeline.withMaxPages maxPages).sourceConfig y.platform.loads maxPages provider
      (processPage y.platform (y.pipeline.withMaxPages maxPages)) remaining (start + n) copy).Safe
      (calmSource y.source) Eq (fun _ _ => True) (fun out _ => CalmEnd out) t := by
  induction remaining generalizing n l copy t with
  | zero =>
    exact turn_calm hend maxPages provider hn hopen hle h fun l' copy' t' hlast _ _ _ => by omega
  | succ remaining ih =>
    refine turn_calm hend maxPages provider hn hopen hle h fun l' copy' t' hlast hl' hopen' h' => ?_
    have hpage : start + n + 1 = start + ((n + 1 : Nat) : Int) := by push_cast; omega
    rw [hpage]
    exact ih (by omega) hl' hopen' hlast h'

theorem execute_calm {last : Nat} (hrunnable : y.Runnable)
    (hend : y.Complete y.pipeline.start last) {maxPages : Int} (hroom : (last : Int) < maxPages)
    (hcursor : copy.lastSuccessfulCursor = none) (h : Calm run copy t) :
    (execute y.platform (y.pipeline.withMaxPages maxPages) copy).Safe (calmSource y.source) Eq
      (fun _ _ => True) (fun out _ => CalmEnd out) t := by
  unfold execute
  have hmapping : (y.pipeline.withMaxPages maxPages).destinationMapping.isEmpty = false :=
    hrunnable.mapping
  rw [if_neg (by simp [hmapping])]
  refine calm_call (by simp) h.vacant fun c r t₁ he hv₁ => ?_
  obtain rfl := calm_resolveCredential he
  rw [orRaise_ok]
  refine calm_call (by simp) hv₁ fun c r t₂ he hv₂ => ?_
  obtain rfl := calm_resolveCredential he
  rw [orRaise_ok]
  obtain ⟨provider, hprovider⟩ := hrunnable.provider
  unfold extractAndLoad fetch
  have hvalid : (y.pipeline.withMaxPages maxPages).sourceConfig.validate =
      .ok (maxPages, y.pipeline.start) := hrunnable.valid maxPages (by omega)
  have hfirst : firstPage copy.lastSuccessfulCursor y.pipeline.start = .ok y.pipeline.start := by
    rw [hcursor]
    rfl
  have hauth : resolveAuthProvider (y.pipeline.withMaxPages maxPages).sourceConfig =
      .ok provider := hprovider
  rw [hvalid]
  change Prog.Safe _ _ _ _ (orRaise (firstPage copy.lastSuccessfulCursor y.pipeline.start) >>= _) _
  rw [hfirst, orRaise_ok, hauth, orRaise_ok]
  have hloop := fetchPages_calm (n := 0) hend maxPages provider (maxPages.toNat - 1) (by omega) rfl
    rfl (Nat.zero_le _) ⟨h.id, h.status, hv₂⟩
  rw [Int.natCast_zero, Int.add_zero] at hloop
  exact hloop

theorem runBody_calm {last : Nat} (hrunnable : y.Runnable)
    (hend : y.Complete y.pipeline.start last) {maxPages : Int} (hroom : (last : Int) < maxPages)
    (isFinal : Bool) (hcursor : copy.lastSuccessfulCursor = none) (h : Calm run copy t) :
    (runBody y.platform (y.pipeline.withMaxPages maxPages) copy isFinal).Safe
      (calmSource y.source) Eq (fun _ _ => True) (fun out _ => out = .ok ()) t := by
  refine calm_call (by simp) h.vacant fun c startedAt t₁ _ hv₁ => ?_
  refine calm_call (by simp) hv₁ fun c r t₂ _ hv₂ => ?_
  refine (execute_calm hrunnable hend hroom hcursor ⟨h.id, h.status, hv₂⟩).handle (fun _ => rfl)
    (fun copy' u hu => ?_) fun e u hu => ?_
  · obtain ⟨copy'', heq, hstatus⟩ := hu
    obtain rfl := Except.ok.inj heq
    refine safe_runCall fun c now u₁ _ => ⟨trivial, safe_runCall fun c finishedAt u₂ _ =>
      ⟨trivial, ?_⟩⟩
    simp only [markRunSucceeded, hstatus, ne_eq, not_true_eq_false, if_false, Except.mapError]
    rw [orRaise_ok]
    refine safe_runCall fun c r u₃ _ => ⟨trivial, safe_runCall fun c r u₄ _ => ⟨trivial, ?_⟩⟩
    rintro _ rfl
    rfl
  · obtain ⟨copy'', heq, -⟩ := hu
    cases heq

def calmStoreAnswer : StoreOp → StoreAnswer
  | .tenantUuid => .tenant (.ok ⟨0⟩)
  | .cancelCheck => .cancel false
  | _ => .done ⟨0⟩

def calmAnswer (source : Int → Response) : RunOp → RunAnswer
  | .now => .clock 0
  | .send page => .response (source page)
  | .raw op => .raw (calmStoreAnswer op)
  | _ => .done

theorem execStore_calm (op : StoreOp) (w : StoreWorld) :
    ∃ x, execStore op (calmStoreAnswer op) w = some x := by
  cases op with
  | putIfAbsent key object =>
    cases hb : w.bucket key <;> simp [execStore, calmStoreAnswer, hb]
  | headObject key => cases hb : w.bucket key <;> simp [execStore, calmStoreAnswer, hb]
  | getObject key => cases hb : w.bucket key <;> simp [execStore, calmStoreAnswer, hb]
  | _ => exact ⟨_, rfl⟩

/-- Every program has a run without failures. -/
theorem exists_calm_run {α : Type} (p : RunProg α) (source : Int → Response) (t : Traced) :
    ∃ out t', p.Runs (calmSource source) t out t' := by
  refine Prog.exists_runs (Prog.issues_true p) (fun op _ u => ⟨calmAnswer source op, ?_⟩) t
  cases op with
  | send page => simp [Exec.only, execSource, calmAnswer, fromSource, execRun, RunAnswer.calm]
  | raw op =>
    obtain ⟨x, hx⟩ := execStore_calm op u.world.store
    have hcalm : (RunAnswer.raw (calmStoreAnswer op)).calm = true := by cases op <;> rfl
    simp [Exec.only, execSource, calmAnswer, fromSource, execRun, hx, hcalm]
  | _ => exact ⟨_, rfl⟩

end DataLake
