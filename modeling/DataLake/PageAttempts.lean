import DataLake.PageVersions

/-! An attempt at a run, call by call: what was stored before each load, and when the flag of
a version and the counters of the run change. -/

namespace DataLake

open Foundation

variable {platform : Platform} {tenant run : Uuid} {chain : List Uuid}
  {pipeline : Pipeline} {copy : PipelineRun} {runs : List PipelineRun} {t t' : Watched}
  {op : RunOp} {c : RunAnswer} {r : op.Resp}

def Watched.records (t : Watched) : List RawPayloadRecord := t.world.store.records

/-- The pages whose row may be missing. -/
def Watched.unrecorded (t : Watched) : List StoredPage := t.lapsed ++ t.storing.toList

theorem unrecorded_left : t.left.unrecorded = t.unrecorded := List.append_nil _

def Counts (run : Uuid) (flagged : Nat) (t : Watched) : Prop :=
  ∃ row, findRun t.world.runs run = some row ∧ row.pagesExtracted = flagged ∧
    row.rawPayloadCount = flagged

def PageMoment (platform : Platform) (tenant run : Uuid) (chain : List Uuid) (t : Watched) : Prop :=
  ContinuedFrom t.world.runs run chain ∧ (∀ l ∈ t.loads, Backed platform tenant l) ∧
    ∃ flagged, Versions chain t.records t.stored t.unrecorded t.loads flagged ∧
      (t.flagging = false → Counts run flagged t)

/-- The worker is not between the two saves of a page, and its copy agrees with the row. -/
structure Pages (platform : Platform) (tenant : Uuid) (chain : List Uuid) (copy : PipelineRun)
    (t : Watched) : Prop where
  versions : Versions chain t.records t.stored t.unrecorded t.loads copy.pagesExtracted
  backed : ∀ l ∈ t.loads, Backed platform tenant l
  addressed : (tenantObjects {tenant}).Addressed t.world.store.bucket
  known : ∀ r ∈ t.records, r.run ∈ t.world.runs.map PipelineRun.id
  chain : ContinuedFrom t.world.runs copy.id chain
  row : ∃ row, findRun t.world.runs copy.id = some row ∧
    row.pagesExtracted = copy.pagesExtracted ∧ row.rawPayloadCount = copy.pagesExtracted ∧
    row.pipeline = copy.pipeline
  counted : copy.rawPayloadCount = copy.pagesExtracted
  bounded : ∀ r ∈ t.records, r.run = copy.id → r.loadedSuccessfully = true →
    r.sequence ≤ copy.pagesExtracted
  own : ∀ r ∈ t.records, r.run = copy.id → r.pipeline = copy.pipeline ∧
    r.storageUri = storageUri platform.bucket (tenantKey tenant (expectedLogicalKey r))
  settled : t.flagging = false

theorem Pages.moment (h : Pages platform tenant chain copy t) :
    PageMoment platform tenant copy.id chain t := by
  obtain ⟨row, hrow, hpages, hpayloads, -⟩ := h.row
  exact ⟨h.chain, h.backed, _, h.versions, fun _ => ⟨row, hrow, hpages, hpayloads⟩⟩

def PageGuards (platform : Platform) (tenant run : Uuid) (chain : List Uuid) (_ t : Watched) :
    Prop := PageMoment platform tenant run chain t

/-! The chain of the run. -/

theorem ContinuedFrom.mem (h : ContinuedFrom runs run chain) : run ∈ chain := by
  cases h <;> exact List.mem_cons_self

theorem ContinuedFrom.known (h : ContinuedFrom runs run chain) :
    ∀ id ∈ chain, id ∈ runs.map PipelineRun.id := by
  have hfound : ∀ {id row}, findRun runs id = some row → id ∈ runs.map PipelineRun.id :=
    fun hrow => findRun_id hrow ▸ List.mem_map_of_mem (findRun_mem hrow)
  induction h with
  | first hrow _ =>
    intro id hid
    rw [List.mem_singleton.mp hid]
    exact hfound hrow
  | next hrow _ _ ih =>
    intro id hid
    rcases List.mem_cons.mp hid with rfl | hid
    · exact hfound hrow
    · exact ih id hid

theorem write_continuedFrom (fields : RunFields) (copy row : PipelineRun) :
    (fields.write copy row).continuedFrom = row.continuedFrom := by
  cases fields <;> rfl

theorem ContinuedFrom.saveFields (h : ContinuedFrom runs run chain) (fields : RunFields)
    (copy : PipelineRun) : ContinuedFrom (saveFields fields copy runs) run chain := by
  have hfound : ∀ {id row}, findRun runs id = some row →
      ∃ row', findRun (DataLake.saveFields fields copy runs) id = some row' ∧
        row'.continuedFrom = row.continuedFrom := by
    intro id row hrow
    rw [findRun_saveFields, hrow]
    refine ⟨_, rfl, ?_⟩
    split_ifs
    · exact write_continuedFrom fields copy row
    · rfl
  induction h with
  | first hrow hfrom =>
    obtain ⟨row', hrow', heq⟩ := hfound hrow
    exact .first hrow' (heq.trans hfrom)
  | next hrow hfrom _ ih =>
    obtain ⟨row', hrow', heq⟩ := hfound hrow
    exact .next hrow' (heq.trans hfrom) ih

theorem ContinuedFrom.append (h : ContinuedFrom runs run chain) (new : List PipelineRun) :
    ContinuedFrom (runs ++ new) run chain := by
  induction h with
  | first hrow hfrom => exact .first (findRun_append_of_some hrow) hfrom
  | next hrow hfrom _ ih => exact .next (findRun_append_of_some hrow) hfrom ih

/-! The calls that leave the pages alone. -/

/-- A call of `put` with the data: what it writes hashes to the checksum in its key. -/
def putsPage (tenant : Uuid) (data : Bytes) : StoreOp → Prop
  | .tenantUuid | .headObject _ => True
  | .putIfAbsent key object | .putObject key object =>
    (tenantObjects {tenant}).WellNamed key object ∧ object.body = data
  | _ => False

/-- A call that changes neither objects nor records nor the counters. -/
def keepsPages : RunOp → Prop
  | .load _ | .raw _ => False
  | .saveRun fields _ => fields ≠ .progress
  | _ => True

theorem execRun_keepsPages {w w' : World} (hop : keepsPages op)
    (h : execRun op c w = some (r, w')) :
    w'.store = w.store ∧
      (w'.runs = w.runs ∨
        ∃ fields copy, fields ≠ .progress ∧ w'.runs = saveFields fields copy w.runs) := by
  have hraw : ∀ o, op ≠ .raw o := by
    rintro o rfl
    exact hop
  refine ⟨execRun_store hraw h, ?_⟩
  cases op with
  | raw op => exact absurd rfl (hraw op)
  | load rows => exact hop.elim
  | saveRun fields copy =>
    rw [execRun_saveRun h]
    exact .inr ⟨fields, copy, hop, rfl⟩
  | _ => cases c <;> cases h <;> exact .inl rfl

theorem observe_keepsPages (hop : keepsPages op) (t : Watched) (pipeline : Pipeline)
    (run : Uuid) (r : op.Resp) (w : World) :
    (t.observe pipeline run op r w).stored = t.stored ∧
      (t.observe pipeline run op r w).unrecorded = t.unrecorded ∧
      (t.observe pipeline run op r w).loads = t.loads ∧
      (t.observe pipeline run op r w).flagging = t.flagging ∧
      ((∀ page, op ≠ .send page) → (t.observe pipeline run op r w).received = t.received) := by
  cases op with
  | load rows => exact hop.elim
  | raw op => exact hop.elim
  | send page =>
    cases r <;> exact ⟨rfl, unrecorded_left, rfl, rfl, fun h => absurd rfl (h page)⟩
  | saveRun fields copy =>
    cases fields with
    | progress => exact absurd rfl hop
    | _ => exact ⟨rfl, unrecorded_left, rfl, rfl, fun _ => rfl⟩
  | _ => exact ⟨rfl, unrecorded_left, rfl, rfl, fun _ => rfl⟩

theorem write_counters {fields : RunFields} (h : fields ≠ .progress) (copy row : PipelineRun) :
    (fields.write copy row).pagesExtracted = row.pagesExtracted ∧
      (fields.write copy row).rawPayloadCount = row.rawPayloadCount := by
  cases fields with
  | progress => exact absurd rfl h
  | _ => exact ⟨rfl, rfl⟩

theorem Pages.saveFields (h : Pages platform tenant chain copy t) {fields : RunFields}
    (hfields : fields ≠ .progress) (copy' : PipelineRun) :
    Pages platform tenant chain copy
      { t with world := { t.world with runs := saveFields fields copy' t.world.runs } } where
  versions := h.versions
  backed := h.backed
  addressed := h.addressed
  known := by
    intro r hr
    rw [saveFields_ids]
    exact h.known r hr
  chain := h.chain.saveFields fields copy'
  row := by
    obtain ⟨row, hrow, hpages, hpayloads, hpipeline⟩ := h.row
    rw [findRun_saveFields, hrow]
    refine ⟨_, rfl, ?_⟩
    split_ifs
    · obtain ⟨hpages', hpayloads'⟩ := write_counters hfields copy' row
      exact ⟨hpages'.trans hpages, hpayloads'.trans hpayloads,
        (write_pipeline fields copy' row).trans hpipeline⟩
    · exact ⟨hpages, hpayloads, hpipeline⟩
  counted := h.counted
  bounded := h.bounded
  own := h.own
  settled := h.settled

theorem Pages.congr (h : Pages platform tenant chain copy t) (hruns : t'.world.runs = t.world.runs)
    (hrecords : t'.records = t.records)
    (haddressed : (tenantObjects {tenant}).Addressed t'.world.store.bucket)
    (hversions : Versions chain t'.records t'.stored t'.unrecorded t'.loads copy.pagesExtracted)
    (hloads : t'.loads = t.loads) (hflagging : t'.flagging = t.flagging) :
    Pages platform tenant chain copy t' where
  versions := hversions
  backed := by rw [hloads]; exact h.backed
  addressed := haddressed
  known := by rw [hrecords, hruns]; exact h.known
  chain := by rw [hruns]; exact h.chain
  row := by rw [hruns]; exact h.row
  counted := h.counted
  bounded := by rw [hrecords]; exact h.bounded
  own := by rw [hrecords]; exact h.own
  settled := by rw [hflagging]; exact h.settled

theorem Pages.call (h : Pages platform tenant chain copy t)
    (he : execWatched tenant pipeline run op c t = some (r, t')) (hop : keepsPages op) :
    Pages platform tenant chain copy t' ∧
      ((∀ page, op ≠ .send page) → t'.received = t.received) := by
  obtain ⟨-, w, hexec, rfl⟩ := execWatched_some he
  obtain ⟨hstore, hruns⟩ := execRun_keepsPages hop hexec
  obtain ⟨hstored, hunrecorded, hloads, hflagging, hreceived⟩ :=
    observe_keepsPages hop t pipeline run r w
  refine ⟨?_, hreceived⟩
  have hrecords : (t.observe pipeline run op r w).records = t.records := by
    rw [Watched.records, observe_world, hstore]
    rfl
  have hworld : ∀ runs, w.runs = runs →
      Pages platform tenant chain copy { t with world := { t.world with runs } } →
      Pages platform tenant chain copy (t.observe pipeline run op r w) := by
    intro runs hruns hpages
    refine hpages.congr ?_ hrecords ?_ ?_ hloads hflagging
    · rw [observe_world]
      exact hruns
    · rw [observe_world, hstore]
      exact h.addressed
    · rw [hrecords, hstored, hunrecorded, hloads]
      exact h.versions
  rcases hruns with hruns | ⟨fields, copy', hfields, hruns⟩
  · exact hworld _ hruns h
  · exact hworld _ hruns (h.saveFields hfields copy')

/-! The page is stored. -/

theorem Pages.sequence (h : Pages platform tenant chain copy t) :
    t.world.sequence copy.id = copy.pagesExtracted + 1 := by
  obtain ⟨row, hrow, hpages, -⟩ := h.row
  rw [World.sequence, hrow, ← hpages]
  rfl

/-- What a worker alone does to its key. -/
def Places (key : Text) (object : S3Object) (v w : StoreWorld) : Prop :=
  w.bucket key = v.bucket key ∨ (w.bucket key = some object ∧
    ∀ o, v.bucket key = some o → o.body = object.body)

theorem Places.trans {key : Text} {object : S3Object} {u v w : StoreWorld}
    (huv : Places key object u v) (hvw : Places key object v w) : Places key object u w := by
  rcases huv with hu | ⟨hv, hbody⟩
  · rcases hvw with hw | ⟨hw, hbody⟩
    · exact .inl (hw.trans hu)
    · exact .inr ⟨hw, hu ▸ hbody⟩
  · refine .inr ⟨?_, hbody⟩
    rcases hvw with hw | ⟨hw, -⟩
    · exact hw.trans hv
    · exact hw

theorem placer (key : Text) (object : S3Object) :
    WriterRely key object (Places key object) fun _ => True where
  refl _ := .inl rfl
  trans _ _ _ := Places.trans
  inv _ _ _ _ := trivial
  lasts v w o _ hvw ho := by
    rcases hvw with hw | ⟨hw, hbody⟩
    · exact ⟨o, hw.trans ho, rfl⟩
    · exact ⟨object, hw, (hbody o ho).symm⟩
  write u v _ habsent huv := by
    refine .inr ⟨by simp, fun o ho => ?_⟩
    rcases huv with hv | ⟨hv, -⟩
    · rw [hv, habsent] at ho
      cases ho
    · rw [hv] at ho
      cases ho
      rfl

def storeExec (tenant : Uuid) (pipeline : Pipeline) (run : Uuid) :
    Exec StoreSig RunAnswer Watched := fun op c t => execWatched tenant pipeline run (.raw op) c t

theorem storeExec_some {op : StoreOp} {r : op.Resp}
    (h : storeExec tenant pipeline run op c t = some (r, t')) :
    ∃ a s, c = .raw a ∧ admissible tenant t.world.store (.raw op) (.raw a) = true ∧
      execStore op a t.world.store = some (r, s) ∧
      t' = t.observe pipeline run (.raw op) r { t.world with store := s } := by
  obtain ⟨hadmissible, w, hexec, rfl⟩ := execWatched_some h
  cases c with
  | raw a =>
    simp only [execRun, Option.map_eq_some_iff, Prod.exists, Prod.mk.injEq] at hexec
    obtain ⟨r', s, he, rfl, rfl⟩ := hexec
    exact ⟨a, s, rfl, hadmissible, he, rfl⟩
  | _ => cases hexec

theorem storeExec_tenantExec {op : StoreOp} {r : op.Resp} {data : Bytes}
    (hop : putsPage tenant data op) (h : storeExec tenant pipeline run op c t = some (r, t')) :
    ∃ a, tenantExec tenant false op a t.world.store = some (r, t'.world.store) := by
  obtain ⟨a, s, rfl, hadmissible, he, rfl⟩ := storeExec_some h
  rw [observe_world]
  have hunder : underTenant tenant a = true := by
    cases op with
    | getOrCreateRecord r => exact hop.elim
    | _ => exact hadmissible
  exact ⟨a, by simp [Exec.only, hunder, he]⟩

/-- The page is being stored: its object is there. -/
def Storing (page : StoredPage) (t : Watched) : Prop := t.storing = some page ∧ page ∈ t.stored

theorem storeExec_reads {op : StoreOp} {r : op.Resp} (hop : op = .tenantUuid ∨ ∃ key, op = .headObject key)
    (h : storeExec tenant pipeline run op c t = some (r, t')) : t' = t := by
  obtain ⟨a, s, rfl, -, he, rfl⟩ := storeExec_some h
  rcases hop with rfl | ⟨key, rfl⟩
  · rw [(execStore_tenantUuid he).2]
    rfl
  · rw [(execStore_headObject he).1]
    rfl

theorem storeExec_writes {op : StoreOp} {r : op.Resp} {key : Text} {object : S3Object}
    (hop : op = .putIfAbsent key object ∨ op = .putObject key object)
    (h : storeExec tenant pipeline run op c t = some (r, t')) :
    ∃ s : StoreWorld, s.records = t.records ∧
      (s.bucket = t.world.store.bucket ∨
        s.bucket = Function.update t.world.store.bucket key (some object)) ∧
      t' = t.written key ⟨run, t.world.sequence run, object.body⟩ { t.world with store := s } := by
  obtain ⟨a, s, rfl, -, he, rfl⟩ := storeExec_some h
  refine ⟨s, ?_, ?_, by rcases hop with rfl | rfl <;> rfl⟩
  · rcases hop with rfl | rfl
    · rcases execStore_putIfAbsent he with ⟨_, _, _, _, rfl⟩ | ⟨_, _, _, _, _, rfl⟩ |
        ⟨_, _, _, rfl⟩ | ⟨_, _, _, rfl⟩
      · rfl
      · rfl
      · rfl
      · rcases writeIfAbsent_cases t.world.store key object with heq | ⟨-, heq⟩ <;> rw [heq] <;> rfl
    · rcases execStore_putObject he with ⟨_, _, _, rfl⟩ | ⟨_, _, _, rfl⟩ | ⟨_, _, _, rfl⟩ <;> rfl
  · refine (execStore_bucket he).imp_right ?_
    rintro ⟨key', object', hop', hbucket⟩
    rcases hop with rfl | rfl <;> rcases hop' with ⟨⟨⟩⟩ | ⟨⟨⟩⟩ <;> exact hbucket

theorem Pages.written (h : Pages platform tenant chain copy t) {key : Text} {object : S3Object}
    {s : StoreWorld} (hname : (tenantObjects {tenant}).WellNamed key object)
    (hrecords : s.records = t.records)
    (hbucket : s.bucket = t.world.store.bucket ∨
      s.bucket = Function.update t.world.store.bucket key (some object)) (page : StoredPage) :
    Pages platform tenant chain copy (t.written key page { t.world with store := s }) := by
  have haddressed : (tenantObjects {tenant}).Addressed s.bucket := by
    rcases hbucket with heq | heq
    · rw [heq]
      exact h.addressed
    · rw [heq]
      exact h.addressed.update hname
  unfold Watched.written
  split_ifs
  · refine h.congr rfl hrecords haddressed ?_ rfl rfl
    show Versions chain s.records (t.stored ++ [page]) (t.unrecorded ++ [page]) t.loads _
    rw [hrecords]
    exact h.versions.store page
  · refine h.congr rfl hrecords haddressed ?_ rfl rfl
    show Versions chain s.records t.stored t.unrecorded t.loads _
    rw [hrecords]
    exact h.versions

/-- Where there is an object under the key, the page is being stored. -/
def PlacedStoring (key : Text) (page : StoredPage) (t : Watched) : Prop :=
  (t.world.store.bucket key).isSome = true → Storing page t

theorem written_storing {key : Text} {page : StoredPage} {w : World}
    (h : (w.store.bucket key).isSome = true) : Storing page (t.written key page w) := by
  rw [Watched.written, if_pos h]
  exact ⟨rfl, List.mem_append_right _ (.head _)⟩

theorem written_world (t : Watched) (key : Text) (page : StoredPage) (w : World) :
    (t.written key page w).world = w := by
  unfold Watched.written
  split_ifs <;> rfl

theorem Pages.putCall (h : Pages platform tenant chain copy t) {op : StoreOp} {r : op.Resp}
    {data : Bytes} (hop : putsPage tenant data op)
    (he : storeExec tenant pipeline run op c t = some (r, t')) :
    Pages platform tenant chain copy t' ∧ t'.received = t.received := by
  have hwrite : ∀ {key object}, (op = .putIfAbsent key object ∨ op = .putObject key object) →
      (tenantObjects {tenant}).WellNamed key object →
        Pages platform tenant chain copy t' ∧ t'.received = t.received := by
    intro key object hop hname
    obtain ⟨s, hrecords, hbucket, rfl⟩ := storeExec_writes hop he
    refine ⟨h.written hname hrecords hbucket _, ?_⟩
    unfold Watched.written
    split_ifs <;> rfl
  cases op with
  | tenantUuid =>
    rw [storeExec_reads (.inl rfl) he]
    exact ⟨h, rfl⟩
  | headObject key =>
    rw [storeExec_reads (.inr ⟨key, rfl⟩) he]
    exact ⟨h, rfl⟩
  | putIfAbsent key object => exact hwrite (.inl rfl) hop.1
  | putObject key object => exact hwrite (.inr rfl) hop.1
  | _ => exact hop.elim

theorem PlacedStoring.call {key : Text} {data : Bytes} {n : Nat}
    (hsequence : t.world.sequence run = n) (h : PlacedStoring key ⟨run, n, data⟩ t) {op : StoreOp}
    {r : op.Resp} (hop : putsPage tenant data op)
    (he : storeExec tenant pipeline run op c t = some (r, t')) :
    t'.world.sequence run = n ∧ PlacedStoring key ⟨run, n, data⟩ t' := by
  have hwrite : ∀ {key' object}, (op = .putIfAbsent key' object ∨ op = .putObject key' object) →
      object.body = data → t'.world.sequence run = n ∧ PlacedStoring key ⟨run, n, data⟩ t' := by
    rintro key' object hwrite rfl
    obtain ⟨s, -, hbucket, rfl⟩ := storeExec_writes hwrite he
    rw [hsequence]
    refine ⟨by rw [written_world]; exact hsequence, fun hplaced => ?_⟩
    by_cases hpresent : (s.bucket key').isSome = true
    · exact written_storing hpresent
    · have hsame : s.bucket = t.world.store.bucket := by
        refine hbucket.resolve_right fun heq => hpresent ?_
        rw [heq, Function.update_self]
        rfl
      rw [written_world, hsame] at hplaced
      rw [Watched.written, if_neg hpresent]
      exact h hplaced
  cases op with
  | tenantUuid =>
    rw [storeExec_reads (.inl rfl) he]
    exact ⟨hsequence, h⟩
  | headObject key =>
    rw [storeExec_reads (.inr ⟨key, rfl⟩) he]
    exact ⟨hsequence, h⟩
  | putIfAbsent key object => exact hwrite (.inl rfl) hop.2
  | putObject key object => exact hwrite (.inr rfl) hop.2
  | _ => exact hop.elim

theorem putsPage_put (bucket : BucketName) (page : RawPage) :
    (put bucket page.key page.data page.contentType).Issues (putsPage tenant page.data) := by
  refine issues_put trivial fun u => ?_
  have hname : (tenantObjects {tenant}).WellNamed (tenantKey u page.key)
      ⟨page.data, some page.contentType⟩ := wellNamed_logicalKey u page.pipeline page.run
    page.sequence ⟨page.data, some page.contentType⟩
  exact ⟨⟨hname, rfl⟩, ⟨hname, rfl⟩, trivial⟩

/-- After `put`, a page with an object under its key is being stored. -/
theorem put_storing (bucket : BucketName) (page : RawPage) :
    (put bucket page.key page.data page.contentType).Safe (storeExec tenant pipeline run) Eq
      (fun _ _ => True) (fun out t' => ∀ uri, out = .ok uri →
        PlacedStoring (tenantKey tenant page.key) ⟨run, t.world.sequence run, page.data⟩ t') t := by
  have hissues := @putsPage_put tenant bucket page
  refine safe_storeCall fun v hv c answer v₁ he => ⟨trivial, ?_⟩
  subst hv
  obtain rfl := storeExec_reads (.inl rfl) he
  cases answer with
  | error e => exact fun _ _ => nofun
  | ok u =>
    obtain rfl : u = tenant := by
      obtain ⟨a, s, rfl, hadmissible, ha, -⟩ := storeExec_some he
      rw [(execStore_tenantUuid ha).1] at hadmissible
      exact of_decide_eq_true hadmissible
    -- the first write tells whether there is an object under the key
    refine safe_storeCall fun v hv c answer v₂ he => ⟨trivial, ?_⟩
    subst hv
    obtain ⟨s, -, -, rfl⟩ := storeExec_writes (.inl rfl) he
    refine Prog.Safe.weaken (fun _ _ h uri _ => h.2) (Prog.Safe.frame
      (K := fun t' => t'.world.sequence run = v₁.world.sequence run ∧
        PlacedStoring (tenantKey u page.key) ⟨run, v₁.world.sequence run, page.data⟩ t')
      (fun v v' hv (heq : v = v') => heq ▸ hv)
      (fun op hop v c r v' hv he => ⟨trivial, hv.2.call hv.1 hop he⟩)
      ((hissues.2 (.ok u)).2 answer) ⟨by rw [written_world]; rfl, fun hplaced => ?_⟩)
    rw [written_world] at hplaced
    exact written_storing hplaced

theorem put_pages (h : Pages platform tenant chain copy t) (page : RawPage) :
    (put platform.bucket page.key page.data page.contentType).Safe
      (storeExec tenant pipeline copy.id) Eq (PageGuards platform tenant copy.id chain)
      (fun out t' => (Pages platform tenant chain copy t' ∧ t'.received = t.received) ∧
        ∀ uri, out = .ok uri → uri = storageUri platform.bucket (tenantKey tenant page.key) ∧
          Stored (tenantKey tenant page.key) page.data t'.world.store ∧
          Storing ⟨copy.id, copy.pagesExtracted + 1, page.data⟩ t') t := by
  -- Under another tenant's key nothing is written, and it would not matter.
  have hissues := @putsPage_put tenant platform.bucket page
  have hframe : (put platform.bucket page.key page.data page.contentType).Safe
      (storeExec tenant pipeline copy.id) Eq (PageGuards platform tenant copy.id chain)
      (fun _ t' => Pages platform tenant chain copy t' ∧ t'.received = t.received) t := by
    refine Prog.Safe.frame (K := fun t' => Pages platform tenant chain copy t' ∧
      t'.received = t.received) (fun v v' hv (heq : v = v') => heq ▸ hv) (fun op hop v c r v' hv he => ?_)
      hissues ⟨h, rfl⟩
    have hnext := hv.1.putCall hop he
    exact ⟨hnext.1.moment, hnext.1, hnext.2.trans hv.2⟩
  have hput : (put platform.bucket page.key page.data page.contentType).Safe
      (storeExec tenant pipeline copy.id) Eq (fun _ _ => True)
      (fun out t' => True ∧
        PutEnds platform.bucket tenant false page.key page.data out t'.world.store) t :=
    Prog.Safe.project (fun t : Watched => t.world.store) (fun v w hvw => hvw ▸ .inl rfl)
      (fun op hop c t r t' he => storeExec_tenantExec hop he) hissues
      (put_safe (placer _ _) trivial)
  have hstoring := @put_storing tenant copy.id pipeline t platform.bucket page
  rw [h.sequence] at hstoring
  refine (((hframe.and hput).and hstoring).guarantee fun _ _ hG => hG.1.1).weaken
    fun out t' hout => ?_
  refine ⟨hout.1.1, fun uri huri => ?_⟩
  subst huri
  obtain ⟨huri, o, ho, hlength⟩ := hout.1.2.2
  exact ⟨huri, ⟨o, ho, hlength⟩, hout.2 uri rfl (Option.isSome_iff_exists.mpr ⟨o, ho⟩)⟩

theorem getOrCreate_cases (w : StoreWorld) (defaults : RawPayloadRecord) (fresh : Uuid) :
    (∃ r ∈ w.records, r.version = defaults.version ∧ w.getOrCreate defaults fresh = (r, w)) ∨
    (defaults.version ∉ w.records.map RawPayloadRecord.version ∧
      w.getOrCreate defaults fresh = ({ defaults with id := fresh },
        { w with records := w.records ++ [{ defaults with id := fresh }] })) := by
  unfold StoreWorld.getOrCreate
  cases hfind : w.records.find? fun r => r.version = defaults.version with
  | some found =>
    exact .inl ⟨found, List.mem_of_find?_eq_some hfind, by simpa using List.find?_some hfind, rfl⟩
  | none =>
    refine .inr ⟨fun hmem => ?_, rfl⟩
    obtain ⟨x, hx, hversion⟩ := List.mem_map.mp hmem
    exact List.find?_eq_none.mp hfind x hx (by simpa using hversion)

/-- The table stays, and a row that is returned is in it; or a row is added, and returned if the
caller hears of it. -/
theorem execStore_getOrCreateRecord {defaults : RawPayloadRecord}
    {answer : Except Exc RawPayloadRecord} {a : StoreAnswer} {s s' : StoreWorld}
    (h : execStore (.getOrCreateRecord defaults) a s = some (answer, s')) :
    (s' = s ∧ ∀ r, answer = .ok r → r ∈ s.records ∧ r.version = defaults.version) ∨
    ∃ fresh, (a = .done fresh ∨ ∃ err, a = .unheard fresh err) ∧
      (∀ r, answer = .ok r → r = { defaults with id := fresh }) ∧
      defaults.version ∉ s.records.map RawPayloadRecord.version ∧
      s' = { s with records := s.records ++ [{ defaults with id := fresh }] } := by
  cases a with
  | done fresh =>
    cases h
    rcases getOrCreate_cases s defaults fresh with ⟨r, hr, hversion, heq⟩ | ⟨hnew, heq⟩
    · rw [heq]
      refine .inl ⟨rfl, ?_⟩
      rintro _ ⟨⟩
      exact ⟨hr, hversion⟩
    · rw [heq]
      refine .inr ⟨fresh, .inl rfl, ?_, hnew, rfl⟩
      rintro _ ⟨⟩
      rfl
  | refused err =>
    cases h
    exact .inl ⟨rfl, nofun⟩
  | unheard fresh err =>
    cases h
    rcases getOrCreate_cases s defaults fresh with ⟨_, _, _, heq⟩ | ⟨hnew, heq⟩
    · rw [heq]
      exact .inl ⟨rfl, nofun⟩
    · rw [heq]
      exact .inr ⟨fresh, .inr ⟨err, rfl⟩, nofun, hnew, rfl⟩
  | _ => cases h

structure Prepared (platform : Platform) (tenant : Uuid) (chain : List Uuid) (copy : PipelineRun)
    (page : Int) (response : Response) (record : RawPayloadRecord) (t : Watched) : Prop where
  pages : Pages platform tenant chain copy t
  received : t.received = some (page, response)
  mem : record ∈ t.records
  version : record.version = (copy.id, copy.pagesExtracted + 1, sha256hex response.body)
  uri : record.storageUri = storageUri platform.bucket (tenantKey tenant (expectedLogicalKey record))
  object : ∃ o, t.world.store.bucket (tenantKey tenant (expectedLogicalKey record)) = some o ∧
    (o.body = response.body ∨ Collide o.body response.body)

theorem same_or_collide {data data' : Bytes} (h : sha256hex data = sha256hex data') :
    data = data' ∨ Collide data data' := by
  by_cases heq : data = data'
  · exact .inl heq
  · exact .inr ⟨heq, h⟩

variable {page : Int} {response : Response} {record : RawPayloadRecord} {result : FetchResult}

/-- The row of a page that is being stored is added. -/
theorem Pages.addRow {fresh : Uuid} {defaults : RawPayloadRecord}
    (h : Pages platform tenant chain copy t)
    (hstoring : Storing ⟨copy.id, copy.pagesExtracted + 1, response.body⟩ t)
    (hversion : defaults.version = (copy.id, copy.pagesExtracted + 1, sha256hex response.body))
    (hpipeline : defaults.pipeline = copy.pipeline)
    (huri : defaults.storageUri =
      storageUri platform.bucket (tenantKey tenant (expectedLogicalKey defaults)))
    (hflag : defaults.loadedSuccessfully = false)
    (hfresh : fresh ∉ t.records.map RawPayloadRecord.id)
    (hnew : defaults.version ∉ t.records.map RawPayloadRecord.version) :
    Pages platform tenant chain copy { t with world := { t.world with store :=
      { t.world.store with records := t.records ++ [{ defaults with id := fresh }] } } } := by
  have hrun : defaults.run = copy.id := congrArg Prod.fst hversion
  have hmem : ∀ r ∈ t.records ++ [{ defaults with id := fresh }], r ∈ t.records ∨
      r = { defaults with id := fresh } := fun r hr =>
    (List.mem_append.mp hr).imp id List.mem_singleton.mp
  exact {
    versions := h.versions.create hfresh hnew hflag hstoring.2 hversion
    backed := h.backed
    addressed := h.addressed
    known := by
      intro r hr
      rcases hmem r hr with hr | rfl
      · exact h.known r hr
      · exact (congrArg (· ∈ t.world.runs.map PipelineRun.id) hrun).mpr
          (h.chain.known _ h.chain.mem)
    chain := h.chain
    row := h.row
    counted := h.counted
    bounded := by
      intro r hr hr' hflagged
      rcases hmem r hr with hr | rfl
      · exact h.bounded r hr hr' hflagged
      · rw [show ({ defaults with id := fresh } : RawPayloadRecord).loadedSuccessfully = false
          from hflag] at hflagged
        cases hflagged
    own := by
      intro r hr hr'
      rcases hmem r hr with hr | rfl
      · exact h.own r hr hr'
      · exact ⟨hpipeline, huri⟩
    settled := h.settled }

/-- A page with a row is not being stored any more. -/
theorem Pages.settle {p : StoredPage} (h : Pages platform tenant chain copy t)
    (hstoring : Storing p t) (hrow : p.version ∈ t.records.map RawPayloadRecord.version) :
    Pages platform tenant chain copy { t with storing := none } := by
  refine h.congr rfl rfl h.addressed ?_ rfl rfl
  refine h.versions.settle fun q hq => ?_
  rw [Watched.unrecorded, hstoring.1] at hq
  rcases List.mem_append.mp hq with hq | hq
  · exact .inl (List.mem_append_left _ hq)
  · rw [List.mem_singleton.mp hq]
    exact .inr hrow

/-- The request for a row: it can fail, whether or not the row is then there. -/
theorem Pages.create {defaults : RawPayloadRecord} {answer : Except Exc RawPayloadRecord}
    (h : Pages platform tenant chain copy t) (hreceived : t.received = some (page, response))
    (hstoring : Storing ⟨copy.id, copy.pagesExtracted + 1, response.body⟩ t)
    (hversion : defaults.version = (copy.id, copy.pagesExtracted + 1, sha256hex response.body))
    (hpipeline : defaults.pipeline = copy.pipeline)
    (huri : defaults.storageUri =
      storageUri platform.bucket (tenantKey tenant (expectedLogicalKey defaults)))
    (hflag : defaults.loadedSuccessfully = false)
    (hobject : ∃ o, t.world.store.bucket (tenantKey tenant (expectedLogicalKey defaults)) = some o)
    (he : storeExec tenant pipeline copy.id (.getOrCreateRecord defaults) c t = some (answer, t')) :
    Pages platform tenant chain copy t' ∧ ∀ record, answer = .ok record →
      Prepared platform tenant chain copy page response record t' := by
  obtain ⟨a, s, rfl, hadmissible, hexec, rfl⟩ := storeExec_some he
  have hrows : Pages platform tenant chain copy { t with world := { t.world with store := s } } ∧
      s.bucket = t.world.store.bucket ∧
      ∀ record, answer = .ok record → record ∈ s.records ∧ record.version = defaults.version := by
    rcases execStore_getOrCreateRecord hexec with ⟨rfl, hfound⟩ | ⟨fresh, ha, hfound, hnew, rfl⟩
    · exact ⟨h, rfl, hfound⟩
    · have hfresh : fresh ∉ t.records.map RawPayloadRecord.id := by
        rcases ha with rfl | ⟨err, rfl⟩ <;> exact of_decide_eq_true hadmissible
      refine ⟨h.addRow hstoring hversion hpipeline huri hflag hfresh hnew, rfl, fun record hrecord => ?_⟩
      rw [hfound record hrecord]
      exact ⟨List.mem_append_right _ (.head _), rfl⟩
  obtain ⟨hpages, hbucket, hfound⟩ := hrows
  cases answer with
  | error e => exact ⟨hpages, nofun⟩
  | ok record =>
    obtain ⟨hmem, hsame⟩ := hfound record rfl
    have hsame' := hsame.trans hversion
    have hsettled := hpages.settle hstoring (List.mem_map.mpr ⟨record, hmem, hsame'⟩)
    refine ⟨hsettled, ?_⟩
    rintro _ ⟨⟩
    have hrun : record.run = copy.id := congrArg Prod.fst hsame'
    obtain ⟨hpipeline', huri'⟩ := hpages.own record hmem hrun
    have hkey : expectedLogicalKey record = expectedLogicalKey defaults := by
      obtain ⟨hrun', hsequence, hsum⟩ : record.run = defaults.run ∧
          record.sequence = defaults.sequence ∧ record.checksumSha256 = defaults.checksumSha256 := by
        simpa [RawPayloadRecord.version] using hsame
      rw [expectedLogicalKey, expectedLogicalKey, hrun', hsequence, hsum, hpipeline', hpipeline]
    obtain ⟨o, ho⟩ := hobject
    have hsum : defaults.checksumSha256 = sha256hex response.body :=
      congrArg (fun x => x.2.2) hversion
    have hnamed := named_pageKey tenant ⟨defaults.run, defaults.pipeline, defaults.sequence,
      response.body, [], none, none, 0, [], none⟩
    rw [RawPage.key, RawPage.checksum, ← hsum] at hnamed
    exact {
      pages := hsettled
      received := hreceived
      mem := hmem
      version := hsame'
      uri := huri'
      object := ⟨o, by rw [hkey]; exact (congrFun hbucket _).trans ho,
        same_or_collide ((h.addressed _ o ho _ hnamed).trans hsum)⟩ }

theorem storeRawPayload_pages (h : Pages platform tenant chain copy t)
    (hreceived : t.received = some (page, response)) (hdata : result.rawPayload = response.body) :
    (rawCall (storeRawPayload platform.bucket (rawPage copy result))).Safe
      (execWatched tenant pipeline copy.id) Eq (PageGuards platform tenant copy.id chain)
      (fun out t' => match out with
        | .ok record => Prepared platform tenant chain copy page response record t'
        | .error _ => Pages platform tenant chain copy t') t := by
  have hstore : (storeRawPayload platform.bucket (rawPage copy result)).Safe
      (storeExec tenant pipeline copy.id) Eq (PageGuards platform tenant copy.id chain)
      (fun out t' => match out with
        | .ok record => Prepared platform tenant chain copy page response record t'
        | .error _ => Pages platform tenant chain copy t') t := by
    refine (put_pages h (rawPage copy result)).handle (fun _ => rfl) (fun uri v hv => ?_)
      fun e v hv => ?_
    · obtain ⟨⟨hpages, hreceived'⟩, huri⟩ := hv
      obtain ⟨huri, ⟨o, ho, -⟩, hstoring⟩ := huri uri rfl
      refine safe_storeCall fun v' hv' c answer t' he => ?_
      subst hv'
      have hcreated := hpages.create (hreceived'.trans hreceived) (hdata ▸ hstoring) (by
        rw [← hdata]; rfl) rfl huri rfl (by exact ⟨o, ho⟩) he
      refine ⟨hcreated.1.moment, ?_⟩
      cases answer with
      | ok record => exact fun u hu => hu ▸ hcreated.2 record rfl
      | error e => exact fun u hu => hu ▸ hcreated.1
    · exact fun u hu => hu ▸ hv.1.1
  refine (Prog.Safe.embed (T := RunSig) (f := RunOp.raw) (g := fun _ r => r) (K := fun _ => True)
    (fun _ _ _ _ => trivial) (fun op c w r v _ he => ⟨he, trivial⟩) trivial
    hstore).weaken fun out v hv => ?_
  cases out <;> exact hv.2

/-! The page is loaded, and its version flagged. -/

theorem Pages.load (h : Pages platform tenant chain copy t) {l : PageLoad}
    (hbacked : Backed platform tenant l) (rows : List Row) :
    Pages platform tenant chain copy
      { t.left with world := { t.world with rows }, loads := t.loads ++ [l] } where
  versions := by
    show Versions chain t.records t.stored t.left.unrecorded (t.loads ++ [l]) copy.pagesExtracted
    rw [unrecorded_left]
    exact h.versions.load l
  backed := by
    intro l' hl'
    rcases List.mem_append.mp hl' with hl' | hl'
    · exact h.backed l' hl'
    · exact List.mem_singleton.mp hl' ▸ hbacked
  addressed := h.addressed
  known := h.known
  chain := h.chain
  row := h.row
  counted := h.counted
  bounded := h.bounded
  own := h.own
  settled := h.settled

theorem execWatched_load {rows : List Row} {answer : Except Exc Nat}
    (h : execWatched tenant pipeline run (.load rows) c t = some (answer, t')) :
    ∃ rows' completed, (∀ n, answer = .ok n → completed = true) ∧
      t' = { t.left with
        world := { t.world with rows := rows' }
        loads := t.loads ++ [{
          pipeline, run, rows, completed
          sequence := t.world.sequence run
          received := t.received
          before := t.world.store }] } := by
  obtain ⟨-, w, hexec, rfl⟩ := execWatched_some h
  rcases execRun_load hexec with ⟨rfl, rfl⟩ | ⟨e, rfl, rfl⟩
  · exact ⟨_, true, fun _ _ => rfl, rfl⟩
  · exact ⟨_, false, fun _ h => (by cases h), rfl⟩

theorem execWatched_saveLoaded {record : RawPayloadRecord} {r : Unit}
    (hloaded : record.loadedSuccessfully = true)
    (h : execWatched tenant pipeline run (.raw (.saveLoaded record)) c t = some (r, t')) :
    t' = { t with
      world := { t.world with
        store := { t.world.store with records := t.records.map (flag record.id) } }
      flagging := true } := by
  obtain ⟨-, w, hexec, rfl⟩ := execWatched_some h
  cases c with
  | raw a =>
    cases a with
    | done fresh =>
      simp only [execRun, execStore, Option.map_some, Option.some.injEq, Prod.mk.injEq,
        hloaded] at hexec
      obtain ⟨-, rfl⟩ := hexec
      rfl
    | _ => cases hexec
  | _ => cases hexec

theorem execWatched_saveProgress {copy : PipelineRun} {r : Unit}
    (h : execWatched tenant pipeline run (.saveRun .progress copy) c t = some (r, t')) :
    t' = { t.left with
      world := { t.world with runs := saveFields .progress copy t.world.runs }
      flagging := false } := by
  obtain ⟨-, w, hexec, rfl⟩ := execWatched_some h
  rw [execRun_saveRun hexec]
  rfl

theorem flag_cases (id : Uuid) (r : RawPayloadRecord) :
    (flag id r).run = r.run ∧ (flag id r).sequence = r.sequence ∧
      (flag id r).pipeline = r.pipeline ∧ (flag id r).storageUri = r.storageUri ∧
      expectedLogicalKey (flag id r) = expectedLogicalKey r ∧
      ((flag id r).loadedSuccessfully = true → r.id = id ∨ r.loadedSuccessfully = true) := by
  unfold flag
  split_ifs with hid
  · exact ⟨rfl, rfl, rfl, rfl, rfl, fun _ => .inl hid⟩
  · exact ⟨rfl, rfl, rfl, rfl, rfl, .inr⟩

theorem Pages.flagged (h : Pages platform tenant chain copy t) (hmem : record ∈ t.records)
    (hrun : record.run = copy.id) (hsequence : record.sequence = copy.pagesExtracted + 1)
    (hload : ∃ l ∈ t.loads, Completes l record) :
    Versions chain (t.records.map (flag record.id)) t.stored t.unrecorded t.loads
      (copy.pagesExtracted + 1) := by
  refine h.versions.flag hmem (hrun ▸ h.chain.mem) hload fun r hr hflagged hrun' heq => ?_
  have hle := h.bounded r hr (hrun'.trans hrun) (by
    simp only [flaggedIn, Bool.and_eq_true] at hflagged
    exact hflagged.2)
  omega

theorem Pages.advance (h : Pages platform tenant chain copy t) (hmem : record ∈ t.records)
    (hrun : record.run = copy.id) (hsequence : record.sequence = copy.pagesExtracted + 1)
    (hload : ∃ l ∈ t.loads, Completes l record) (result : FetchResult) (loaded : Nat) :
    Pages platform tenant chain (withPage copy result loaded) { t.left with
      world := { t.world with
        runs := DataLake.saveFields .progress (withPage copy result loaded) t.world.runs
        store := { t.world.store with records := t.records.map (flag record.id) } }
      flagging := false } where
  versions := by
    show Versions chain (t.records.map (flag record.id)) t.stored t.left.unrecorded t.loads
      (copy.pagesExtracted + 1)
    rw [unrecorded_left]
    exact h.flagged hmem hrun hsequence hload
  backed := h.backed
  addressed := h.addressed
  known := by
    intro r hr
    obtain ⟨x, hx, rfl⟩ := List.mem_map.mp hr
    rw [saveFields_ids, (flag_cases record.id x).1]
    exact h.known x hx
  chain := h.chain.saveFields _ _
  row := by
    obtain ⟨row, hrow, -, -, hpipeline⟩ := h.row
    refine ⟨RunFields.progress.write (withPage copy result loaded) row, ?_, rfl, ?_, hpipeline⟩
    · show findRun (DataLake.saveFields .progress (withPage copy result loaded) t.world.runs)
        copy.id = _
      rw [findRun_saveFields, hrow]
      exact congrArg some (if_pos rfl)
    · exact congrArg (· + 1) h.counted
  counted := congrArg (· + 1) h.counted
  bounded := by
    intro r hr hrun' hflagged
    obtain ⟨x, hx, rfl⟩ := List.mem_map.mp hr
    obtain ⟨hsame, hseq, -, -, -, hcases⟩ := flag_cases record.id x
    rw [hsame] at hrun'
    rw [hseq]
    rcases hcases hflagged with hid | hwas
    · rw [List.inj_on_of_nodup_map h.versions.ids hx hmem hid, hsequence]
      exact le_refl _
    · exact (h.bounded x hx hrun' hwas).trans (Nat.le_succ _)
  own := by
    intro r hr hrun'
    obtain ⟨x, hx, rfl⟩ := List.mem_map.mp hr
    obtain ⟨hsame, -, hpipeline, huri, hkey, -⟩ := flag_cases record.id x
    rw [hsame] at hrun'
    rw [hpipeline, huri, hkey]
    exact h.own x hx hrun'
  settled := rfl

/-- How a stretch of the attempt ends: the run has its pages, with a copy in hand or not. -/
def PagesEnd (platform : Platform) (tenant run : Uuid) (chain : List Uuid)
    (out : Except Exc PipelineRun) (t : Watched) : Prop :=
  match out with
  | .ok copy => copy.id = run ∧ Pages platform tenant chain copy t
  | .error _ => ∃ copy, copy.id = run ∧ Pages platform tenant chain copy t

theorem readPage_body {config : RestApiConfig} {loads : Bytes → Except String Json}
    {stop : Bool} (h : readPage config loads page response = .ok ⟨some result, stop⟩) :
    result.rawPayload = response.body := by
  unfold readPage at h
  cases hdata : parseJson loads response.body with
  | error e => rw [hdata] at h; cases h
  | ok data =>
    rw [hdata] at h
    cases hrecords : extractRecords data config.records with
    | error e => simp [hrecords, bind, Except.bind] at h
    | ok records =>
      simp only [hrecords, bind, Except.bind] at h
      split_ifs at h <;> cases h <;> rfl

theorem Prepared.backed (h : Prepared platform tenant chain copy page response record t)
    {stop : Bool} {rows : List Row} (completed : Bool)
    (hread : readPage pipeline.sourceConfig platform.loads page response = .ok ⟨some result, stop⟩)
    (hrows : mapRecords result.records pipeline.destinationMapping pipeline.strictMapping =
      .ok rows) :
    Backed platform tenant {
      pipeline, run := copy.id, rows, completed
      sequence := t.world.sequence copy.id
      received := t.received
      before := t.world.store } := by
  obtain ⟨o, ho, hbody⟩ := h.object
  exact ⟨page, response, result, stop, record, o, h.received, hread, hrows, h.mem,
    by rw [h.pages.sequence, h.version], h.uri, ho, hbody⟩

theorem processPage_pages {stop : Bool} (h : Pages platform tenant chain copy t)
    (hreceived : t.received = some (page, response))
    (hread : readPage pipeline.sourceConfig platform.loads page response =
      .ok ⟨some result, stop⟩) :
    (processPage platform pipeline copy result).Safe (execWatched tenant pipeline copy.id) Eq
      (PageGuards platform tenant copy.id chain) (PagesEnd platform tenant copy.id chain) t := by
  have hfailed : ∀ (e : Exc) v, Pages platform tenant chain copy v →
      (Prog.raise e : RunProg PipelineRun).Safe (execWatched tenant pipeline copy.id) Eq
        (PageGuards platform tenant copy.id chain) (PagesEnd platform tenant copy.id chain) v :=
    fun e v hv u hu => hu ▸ ⟨copy, rfl, hv⟩
  refine (storeRawPayload_pages h hreceived (readPage_body hread)).handle (fun _ => rfl)
    (fun record v hv => ?_) fun e v hv => hfailed e v hv
  cases hrows : mapRecords result.records pipeline.destinationMapping pipeline.strictMapping with
  | error e => exact hfailed _ v hv.pages
  | ok rows =>
    rw [show (Except.ok rows : Except DataLakeError (List Row)).mapError Exc.dataLake = .ok rows
      from rfl, orRaise_ok]
    refine safe_runCall fun c answer t₁ he => ?_
    obtain ⟨rows', completed, hcompleted, rfl⟩ := execWatched_load he
    have hloaded := hv.pages.load (hv.backed completed hread hrows) rows'
    refine ⟨hloaded.moment, ?_⟩
    cases answer with
    | error e => exact hfailed e _ hloaded
    | ok loaded =>
      obtain rfl := hcompleted loaded rfl
      obtain ⟨hrun, hsequence, hsum⟩ : record.run = copy.id ∧
          record.sequence = copy.pagesExtracted + 1 ∧
          record.checksumSha256 = sha256hex response.body := by
        simpa [RawPayloadRecord.version] using hv.version
      have hload : ∃ l ∈ v.loads ++ [({
          pipeline, run := copy.id, rows, completed := true
          sequence := v.world.sequence copy.id
          received := v.received
          before := v.world.store } : PageLoad)], Completes l record :=
        ⟨_, List.mem_append_right _ (List.mem_singleton.mpr rfl), rfl, hrun.symm,
          hv.pages.sequence.trans hsequence.symm, page, response, hv.received, hsum.symm⟩
      have hflagged := hloaded.flagged hv.mem hrun hsequence hload
      have hnext := hloaded.advance hv.mem hrun hsequence hload result loaded
      rw [orRaise_ok]
      refine safe_runCall fun c r t₂ he => ?_
      obtain rfl := execWatched_saveLoaded rfl he
      refine ⟨⟨hloaded.chain, hloaded.backed, _, hflagged, fun h => by cases h⟩, safe_runCall fun c r t₃ he => ?_⟩
      obtain rfl := execWatched_saveProgress he
      exact ⟨hnext.moment, fun u hu => hu ▸ ⟨rfl, hnext⟩⟩

/-! The loop over the pages. -/

/-- What a request leaves: the response is the one that was received last. -/
def Answers (platform : Platform) (tenant : Uuid) (chain : List Uuid) (copy : PipelineRun)
    (page : Int) (out : Except Exc Response) (t : Watched) : Prop :=
  Pages platform tenant chain copy t ∧
    ∀ response, out = .ok response → t.received = some (page, response)

theorem send_pages (page : Int) (h : Pages platform tenant chain copy t) :
    (send page).Safe (execWatched tenant pipeline copy.id) Eq
      (PageGuards platform tenant copy.id chain) (Answers platform tenant chain copy page) t := by
  refine safe_runCall fun c answer t₁ he => ?_
  obtain ⟨hpages, -⟩ := h.call he trivial
  obtain ⟨-, w, hexec, rfl⟩ := execWatched_some he
  refine ⟨hpages.moment, ?_⟩
  cases answer with
  | ok response =>
    rintro _ rfl
    exact ⟨hpages, fun response' hout => by cases hout; rfl⟩
  | error e =>
    rintro _ rfl
    exact ⟨hpages, nofun⟩

theorem sendWithAuthRetry_pages (provider : Bool) (page : Int)
    (h : Pages platform tenant chain copy t) :
    (sendWithAuthRetry provider page).Safe (execWatched tenant pipeline copy.id) Eq
      (PageGuards platform tenant copy.id chain) (Answers platform tenant chain copy page) t := by
  have hraised : ∀ e v, Answers platform tenant chain copy page (.error e) v →
      (Prog.raise e : RunProg Response).Safe (execWatched tenant pipeline copy.id) Eq
        (PageGuards platform tenant copy.id chain) (Answers platform tenant chain copy page) v :=
    fun e v hv u hu => hu ▸ hv
  have hcheck : ∀ response v, Answers platform tenant chain copy page (.ok response) v →
      (orRaise (checkStatus response)).Safe (execWatched tenant pipeline copy.id) Eq
        (PageGuards platform tenant copy.id chain) (Answers platform tenant chain copy page) v := by
    intro response v hv
    cases hchecked : checkStatus response with
    | error e => exact fun u hu => hu ▸ ⟨hv.1, nofun⟩
    | ok response' =>
      obtain rfl := checkStatus_ok hchecked
      exact fun u hu => hu ▸ hv
  refine (send_pages page h).handle (fun _ => rfl) (fun response v hv => ?_) hraised
  dsimp only
  split_ifs
  · exact (send_pages page hv.1).handle (fun _ => rfl) hcheck hraised
  · exact hcheck response v hv

theorem fetchTurn_pages {provider : Bool} {next : PipelineRun → RunProg PipelineRun}
    (hnext : ∀ copy t, copy.id = run → Pages platform tenant chain copy t →
      (next copy).Safe (execWatched tenant pipeline run) Eq (PageGuards platform tenant run chain)
        (PagesEnd platform tenant run chain) t)
    (page : Int) (hrun : copy.id = run) (h : Pages platform tenant chain copy t) :
    (do
      let response ← sendWithAuthRetry provider page
      let step ← orRaise (readPage pipeline.sourceConfig platform.loads page response)
      let copy ← match step.page with
        | some result => processPage platform pipeline copy result
        | none => pure copy
      if step.stop then return copy else next copy : RunProg PipelineRun).Safe
      (execWatched tenant pipeline run) Eq (PageGuards platform tenant run chain)
      (PagesEnd platform tenant run chain) t := by
  subst hrun
  have hraised : ∀ e v, PagesEnd platform tenant copy.id chain (.error e) v →
      (Prog.raise e : RunProg PipelineRun).Safe (execWatched tenant pipeline copy.id) Eq
        (PageGuards platform tenant copy.id chain) (PagesEnd platform tenant copy.id chain) v :=
    fun e v hv u hu => hu ▸ hv
  refine (sendWithAuthRetry_pages provider page h).handle (fun _ => rfl) (fun response v hv => ?_)
    fun e v hv => hraised e v ⟨copy, rfl, hv.1⟩
  obtain ⟨hpages, hreceived⟩ := hv
  cases hread : readPage pipeline.sourceConfig platform.loads page response with
  | error e => exact hraised e v ⟨copy, rfl, hpages⟩
  | ok step =>
    obtain ⟨found, stop⟩ := step
    rw [orRaise_ok]
    have hend : ∀ copy' u, PagesEnd platform tenant copy.id chain (.ok copy') u →
        (if stop then pure copy' else next copy' : RunProg PipelineRun).Safe
          (execWatched tenant pipeline copy.id) Eq (PageGuards platform tenant copy.id chain)
          (PagesEnd platform tenant copy.id chain) u := by
      intro copy' u hu
      split_ifs
      · exact fun v hv => hv ▸ hu
      · exact hnext copy' u hu.1 hu.2
    cases found with
    | none => exact hend copy v ⟨rfl, hpages⟩
    | some result =>
      exact (processPage_pages hpages (hreceived response rfl) hread).handle (fun _ => rfl) hend
        hraised

theorem fetchPages_pages {maxPages : Int} {provider : Bool} (remaining : Nat) (page : Int)
    (hrun : copy.id = run) (h : Pages platform tenant chain copy t) :
    (fetchPages pipeline.sourceConfig platform.loads maxPages provider
      (processPage platform pipeline) remaining page copy).Safe (execWatched tenant pipeline run) Eq
      (PageGuards platform tenant run chain) (PagesEnd platform tenant run chain) t := by
  induction remaining generalizing page copy t with
  | zero =>
    refine fetchTurn_pages (fun copy t hrun h => ?_) page hrun h
    rintro _ rfl
    exact ⟨copy, hrun, h⟩
  | succ remaining ih =>
    exact fetchTurn_pages (fun copy t hrun h => ih (page + 1) hrun h) page hrun h

theorem execute_pages (h : Pages platform tenant chain copy t) :
    (execute platform pipeline copy).Safe (execWatched tenant pipeline copy.id) Eq
      (PageGuards platform tenant copy.id chain) (PagesEnd platform tenant copy.id chain) t := by
  have hfailed : ∀ (e : Exc) v, Pages platform tenant chain copy v →
      (Prog.raise e : RunProg PipelineRun).Safe (execWatched tenant pipeline copy.id) Eq
        (PageGuards platform tenant copy.id chain) (PagesEnd platform tenant copy.id chain) v :=
    fun e v hv u hu => hu ▸ ⟨copy, rfl, hv⟩
  unfold execute
  split_ifs
  · exact hfailed _ t h
  · refine safe_runCall fun c source t₁ he => ?_
    obtain ⟨h₁, -⟩ := h.call he trivial
    refine ⟨h₁.moment, ?_⟩
    cases source with
    | error e => exact hfailed e t₁ h₁
    | ok _ =>
      rw [orRaise_ok]
      refine safe_runCall fun c destination t₂ he => ?_
      obtain ⟨h₂, -⟩ := h₁.call he trivial
      refine ⟨h₂.moment, ?_⟩
      cases destination with
      | error e => exact hfailed e t₂ h₂
      | ok _ =>
        rw [orRaise_ok, extractAndLoad, fetch]
        cases pipeline.sourceConfig.validate.mapError Exc.dataLake with
        | error e => exact hfailed e t₂ h₂
        | ok limits =>
          obtain ⟨maxPages, startPage⟩ := limits
          rw [orRaise_ok]
          dsimp only
          cases firstPage copy.lastSuccessfulCursor startPage with
          | error e => exact hfailed e t₂ h₂
          | ok page =>
            rw [orRaise_ok]
            cases resolveAuthProvider pipeline.sourceConfig with
            | error e => exact hfailed e t₂ h₂
            | ok provider => exact fetchPages_pages _ page rfl h₂

/-! The whole attempt. -/

variable {task : TaskExecution} {isFinal : Bool}

theorem recordSuccess_keepsPages :
    (recordSuccess copy task).Issues keepsPages := by
  refine ⟨trivial, fun _ => ⟨trivial, fun finishedAt => ?_⟩⟩
  refine (issues_orRaise _ _).bind fun run => ⟨nofun, fun _ => ⟨trivial, fun _ => trivial⟩⟩

theorem recordFailure_keepsPages (e : DataLakeError) :
    (recordFailure platform copy task e isFinal).Issues keepsPages := by
  unfold recordFailure
  dsimp only
  split_ifs
  · refine ⟨trivial, fun finishedAt => (issues_orRaise _ _).bind fun run => ?_⟩
    exact ⟨nofun, fun _ => ⟨trivial, fun _ => ⟨trivial, fun _ => trivial⟩⟩⟩
  · exact ⟨nofun, fun _ => ⟨trivial, fun _ => trivial⟩⟩

theorem keepsPages_safe {α : Type} {p : RunProg α} (hp : p.Issues keepsPages)
    (hid : copy.id = run) (h : Pages platform tenant chain copy t) :
    p.Safe (execWatched tenant pipeline run) Eq (PageGuards platform tenant run chain)
      (fun _ t' => ∃ copy, copy.id = run ∧ Pages platform tenant chain copy t') t := by
  subst hid
  refine Prog.Safe.weaken (fun _ _ h => ⟨copy, rfl, h⟩) ?_
  refine Prog.Safe.frame (fun v v' hv (heq : v = v') => heq ▸ hv)
    (fun op hop v c r v' hv he => ?_) hp h
  have hpages := (hv.call he hop).1
  exact ⟨hpages.moment, hpages⟩

variable (pipeline isFinal) in
theorem runBody_pages {claimed : PipelineRun} (h : Pages platform tenant chain claimed t) :
    (runBody platform pipeline claimed isFinal).Safe (execWatched tenant pipeline claimed.id) Eq
      (PageGuards platform tenant claimed.id chain)
      (fun _ t' => ∃ copy, copy.id = claimed.id ∧ Pages platform tenant chain copy t') t := by
  refine safe_runCall fun c startedAt t₁ he => ?_
  have h₁ := (h.call he trivial).1
  refine ⟨h₁.moment, safe_runCall fun c r t₂ he => ?_⟩
  have h₂ := (h₁.call he trivial).1
  refine ⟨h₂.moment, (execute_pages h₂).handle (fun _ => rfl) (fun copy v hv => ?_)
    fun e v hv => ?_⟩
  · exact keepsPages_safe recordSuccess_keepsPages hv.1 hv.2
  · obtain ⟨copy, hid, hpages⟩ := hv
    exact keepsPages_safe ((recordFailure_keepsPages e.wrapped).bind fun _ => trivial) hid hpages

end DataLake
