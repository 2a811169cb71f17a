import DataLake.LonePass

/-! A whole pass on its own, in a world that notes the progress it reports. -/

namespace DataLake

open Foundation

/-- What is noted of a pass: the results that it reports on its way. -/
def snapshot : StoreOp → Option MigrationInspectionResult
  | .progressCallback result => some result
  | _ => none

abbrev watchedExec (tenant : Uuid) (calm : Bool) :
    Exec StoreSig StoreAnswer (StoreWorld × List MigrationInspectionResult) :=
  (tenantExec tenant calm).noting snapshot

namespace RecordTable

def tally (t : RecordTable) (dryRun : Bool) (contents : Bucket)
    (result : MigrationInspectionResult) (xs : List RawPayloadRecord) :
    MigrationInspectionResult :=
  xs.foldl (fun result x => result.inspected dryRun x (t.finding contents x)) result

def settleAll (t : RecordTable) (dryRun : Bool) (contents : Bucket) (w : StoreWorld)
    (xs : List RawPayloadRecord) : StoreWorld := xs.foldl (t.settle dryRun contents) w

/-- What is reported on the way through `xs`. -/
def reports (t : RecordTable) (options : MigrationOptions) (contents : Bucket) :
    List RawPayloadRecord → Nat → MigrationInspectionResult → List MigrationInspectionResult
  | [], _, _ => []
  | x :: xs, since, result =>
    let result := result.inspected options.dryRun x (t.finding contents x)
    if since + 1 ≥ options.batchSize then
      (if options.progressCallback then [result] else []) ++ t.reports options contents xs 0 result
    else t.reports options contents xs (since + 1) result

/-- A real pass meets no clash in `xs`. -/
def Clear (t : RecordTable) (dryRun : Bool) (contents : Bucket) (xs : List RawPayloadRecord) :
    Prop := dryRun = true ∨ ∀ x ∈ xs, t.clash contents x = false

/-- The state once the loop has got through `ys`. -/
structure Through (t : RecordTable) (options : MigrationOptions) (contents : Bucket)
    (since : Nat) (result : MigrationInspectionResult)
    (w : StoreWorld × List MigrationInspectionResult) (ys : List RawPayloadRecord)
    (v : StoreWorld × List MigrationInspectionResult) : Prop where
  clear : t.Clear options.dryRun contents ys
  store : v.1 = t.settleAll options.dryRun contents w.1 ys
  noted : v.2 = w.2 ++ t.reports options contents ys since result

/-- What the loop over `xs` leaves: it got through all of them, or through the first ones
and was told to stop, or it failed at one. -/
def Looped (t : RecordTable) (calm : Bool) (options : MigrationOptions) (contents : Bucket)
    (since : Nat) (result : MigrationInspectionResult)
    (w : StoreWorld × List MigrationInspectionResult) (xs : List RawPayloadRecord) :
    Except Exc MigrationInspectionResult → StoreWorld × List MigrationInspectionResult → Prop
  | .ok result', v => ∃ ys zs, xs = ys ++ zs ∧ (calm = true → zs = []) ∧
      result' = t.tally options.dryRun contents result ys ∧
      t.Through options contents since result w ys v
  | .error _, v => ∃ ys x zs u, xs = ys ++ x :: zs ∧ t.Through options contents since result w ys u ∧
      t.FailedAt calm options.dryRun contents x u.1 v.1 ∧ v.2 = u.2

variable {t : RecordTable} {contents : Bucket} {dryRun calm : Bool} {x r : RawPayloadRecord}
  {key : Text} {w : StoreWorld} {o : S3Object}

theorem settle_bucket (hne : ∀ o, t.source contents x = some o → key ≠ t.targetKey x) :
    (t.settle dryRun contents w x).bucket key = w.bucket key := by
  unfold settle
  cases hs : t.source contents x with
  | none => rfl
  | some o =>
    cases dryRun with
    | true => rfl
    | false =>
      rcases writeIfAbsent_cases w (t.targetKey x) (Migration.copied o) with h | ⟨-, h⟩
      · simp [repoint, h]
      · simp [repoint, h, hne o hs]

theorem targetKey_inj (hx : x ∈ t.records) (hr : r ∈ t.records)
    (h : t.targetKey x = t.targetKey r) : x = r :=
  Migration.targetKey_inj (m := t.emptied) hx hr h

theorem legacyKey_ne_targetKey (hx : x ∈ t.records) (hkey : t.legacyKey x = some key)
    (hsource : t.source contents r = some o) : key ≠ t.targetKey r := by
  obtain ⟨-, -, -, hsum⟩ := source_spec hsource
  exact Migration.legacyKey_ne_targetKey_of_column (m := t.emptied) (t.columns x hx) hkey hsum

theorem Agrees.settle (hagree : t.Agrees contents r w) (hr : r ∈ t.records) (hx : x ∈ t.records)
    (hne : r ≠ x) : t.Agrees contents r (t.settle dryRun contents w x) := by
  refine ⟨fun key hkey => ?_, ?_⟩
  · rw [settle_bucket fun o ho => legacyKey_ne_targetKey hr hkey ho]
    exact hagree.1 key hkey
  · rw [settle_bucket fun o _ h => hne (targetKey_inj hr hx h)]
    exact hagree.2

section Loop

variable {options : MigrationOptions} {since : Nat} {result : MigrationInspectionResult}
  {u v : StoreWorld × List MigrationInspectionResult} {xs : List RawPayloadRecord}

/-- A program without callbacks takes no notes. -/
theorem watched {α : Type} {p : StoreProg α} {Q : Except Exc α → StoreWorld → Prop}
    (hissues : p.Issues fun op : StoreOp => op.isCallback = false)
    (hp : p.Safe (tenantExec t.tenant calm) Eq (fun _ _ => True) Q u.1) :
    p.Safe (watchedExec t.tenant calm) Eq (fun _ _ => True) (fun out v => v.2 = u.2 ∧ Q out v.1)
      u := by
  have hquiet : p.Safe (watchedExec t.tenant calm) Eq (fun _ _ => True) (fun _ v => v.2 = u.2) u := by
    refine Prog.Safe.frame (fun v v' hv hvv' => hvv' ▸ hv) (fun op hop v c r v' hv he => ?_)
      hissues rfl
    obtain ⟨-, hnoted⟩ := Exec.of_noting he
    have hnone : snapshot op = none := by
      cases op with
      | progressCallback _ => cases hop
      | _ => rfl
    exact ⟨trivial, by rw [hnoted, hnone, hv]; exact List.append_nil _⟩
  have hproject : p.Safe (watchedExec t.tenant calm) Eq (fun _ _ => True)
      (fun out v => Q out v.1) u :=
    hp.project Prod.fst (fun _ _ h => congrArg Prod.fst h)
      (fun (op : StoreOp) (_ : op.isCallback = false) c w r v he => ⟨c, (Exec.of_noting he).1⟩) hissues
  exact (hquiet.and hproject).guarantee fun _ _ _ => trivial

theorem reportProgress_watched :
    (reportProgress options result).Safe (watchedExec t.tenant calm) Eq (fun _ _ => True)
      (fun out v => (∃ y, out = .ok y) ∧ v.1 = u.1 ∧
        v.2 = u.2 ++ if options.progressCallback then [result] else []) u := by
  unfold reportProgress
  split_ifs
  · intro v hv c y v' he
    subst hv
    obtain ⟨he, hnoted⟩ := Exec.of_noting he
    obtain ⟨-, -, he⟩ := tenantExec_spec he
    have hstore := Migration.execStore_readOp
      (show Migration.readOp (.progressCallback result) from trivial) he
    exact ⟨trivial, fun s hs => ⟨⟨y, rfl⟩, hs ▸ hstore, hs ▸ hnoted⟩⟩
  · rintro v rfl
    exact ⟨⟨(), rfl⟩, rfl, (List.append_nil _).symm⟩

theorem pollCancel_watched :
    (pollCancel options).Safe (watchedExec t.tenant calm) Eq (fun _ _ => True)
      (fun out v => (∃ b, out = .ok b ∧ (calm = true → b = false)) ∧ v = u) u := by
  unfold pollCancel
  split_ifs
  · intro v hv c b v' he
    subst hv
    obtain ⟨he, hnoted⟩ := Exec.of_noting he
    obtain ⟨-, hcalm, he⟩ := tenantExec_spec he
    have hstore := Migration.execStore_readOp (show Migration.readOp .cancelCheck from trivial) he
    refine ⟨trivial, fun s hs => ⟨⟨b, rfl, fun hc => ?_⟩, ?_⟩⟩
    · cases c with
      | cancel _ =>
        obtain ⟨rfl, -⟩ : _ = b ∧ _ := by simpa [execStore] using he
        simpa [undisturbed] using hcalm hc
      | _ => cases he
    · rw [← hs]
      exact Prod.ext hstore (hnoted.trans (List.append_nil _))
  · rintro v rfl
    exact ⟨⟨false, rfl, fun _ => rfl⟩, rfl⟩

theorem Looped.cons {head : List MigrationInspectionResult} {since' : Nat}
    {s : StoreWorld × List MigrationInspectionResult} {out : Except Exc MigrationInspectionResult}
    (hclear : options.dryRun = true ∨ t.clash contents x = false)
    (hstore : s.1 = t.settle options.dryRun contents u.1 x) (hnoted : s.2 = u.2 ++ head)
    (hreports : ∀ ys, t.reports options contents (x :: ys) since result =
      head ++ t.reports options contents ys since'
        (result.inspected options.dryRun x (t.finding contents x)))
    (h : t.Looped calm options contents since'
      (result.inspected options.dryRun x (t.finding contents x)) s xs out v) :
    t.Looped calm options contents since result u (x :: xs) out v := by
  have through : ∀ {ys v}, t.Through options contents since'
      (result.inspected options.dryRun x (t.finding contents x)) s ys v →
      t.Through options contents since result u (x :: ys) v := by
    intro ys v hys
    refine ⟨?_, ?_, ?_⟩
    · rcases hclear with hdry | hx
      · exact .inl hdry
      · exact hys.clear.imp_right fun hall => List.forall_mem_cons.mpr ⟨hx, hall⟩
    · rw [hys.store, hstore]
      rfl
    · rw [hys.noted, hnoted, hreports, List.append_assoc]
  cases out with
  | ok result' =>
    obtain ⟨ys, zs, rfl, hall, rfl, hys⟩ := h
    exact ⟨x :: ys, zs, rfl, hall, rfl, through hys⟩
  | error e =>
    obtain ⟨ys, y, zs, a, rfl, hys, hfailed⟩ := h
    exact ⟨x :: ys, y, zs, a, rfl, through hys, hfailed⟩

theorem migrateRecords_alone (xs : List RawPayloadRecord) (hnodup : xs.Nodup)
    (hxs : ∀ x ∈ xs, x ∈ t.records ∧ t.Agrees contents x u.1) (since : Nat)
    (result : MigrationInspectionResult) :
    (migrateRecords t.bucket t.tenant.text t.schemaName options xs since result).Safe
      (watchedExec t.tenant calm) Eq (fun _ _ => True)
      (t.Looped calm options contents since result u xs) u := by
  induction xs generalizing u since result with
  | nil =>
    rintro v rfl
    exact ⟨[], [], rfl, fun _ => rfl, rfl, .inr nofun, rfl, (List.append_nil _).symm⟩
  | cons x xs ih =>
    obtain ⟨hx, hagree⟩ := hxs x List.mem_cons_self
    obtain ⟨hnotMem, hnodup⟩ := List.nodup_cons.mp hnodup
    have hinspect := @inspectRecord_alone _ contents options.dryRun calm _ _ hagree result
    have hrecord := watched (u := u)
      ((issues_inspectRecord t.bucket t.tenant.text t.schemaName options.dryRun x result).mono
        fun op hop => recordOp_isCallback hop) hinspect
    refine hrecord.handle (fun _ => rfl) (fun next v hv => ?_) fun e v hv => ?_
    · obtain ⟨hnoted, hclear, hstore, rfl⟩ := hv
      -- The rest of the loop, from any later state with the same store.
      have rest : ∀ (s : StoreWorld × List MigrationInspectionResult) (since' : Nat)
          (head : List MigrationInspectionResult), s.1 = v.1 → s.2 = u.2 ++ head →
          (∀ ys, t.reports options contents (x :: ys) since result =
            head ++ t.reports options contents ys since'
              (result.inspected options.dryRun x (t.finding contents x))) →
          (migrateRecords t.bucket t.tenant.text t.schemaName options xs since'
            (result.inspected options.dryRun x (t.finding contents x))).Safe
            (watchedExec t.tenant calm) Eq (fun _ _ => True)
            (t.Looped calm options contents since result u (x :: xs)) s := by
        intro s since' head hs hhead hreports
        have hlater : ∀ y ∈ xs, y ∈ t.records ∧ t.Agrees contents y s.1 := by
          intro y hy
          obtain ⟨hmem, hyagree⟩ := hxs y (List.mem_cons_of_mem _ hy)
          refine ⟨hmem, ?_⟩
          rw [hs, hstore]
          exact hyagree.settle hmem hx fun heq => hnotMem (heq ▸ hy)
        exact (ih hnodup hlater since' _).weaken fun out a ha =>
          ha.cons hclear (hs.trans hstore) hhead hreports
      split_ifs with hbatch
      · have hreports : ∀ ys, t.reports options contents (x :: ys) since result =
            (if options.progressCallback then
              [result.inspected options.dryRun x (t.finding contents x)] else []) ++
              t.reports options contents ys 0
                (result.inspected options.dryRun x (t.finding contents x)) := fun ys => by
          rw [reports, if_pos hbatch]
        refine reportProgress_watched.handle (fun _ => rfl) (fun _ s hs => ?_) fun e s hs => ?_
        · obtain ⟨-, hs, hhead⟩ := hs
          rw [hnoted] at hhead
          refine pollCancel_watched.handle (fun _ => rfl) (fun b a ha => ?_) fun e a ha => ?_
          · obtain ⟨⟨b', hb, hcalm⟩, rfl⟩ := ha
            obtain rfl : b = b' := by simpa using hb
            cases b with
            | false => exact rest a 0 _ hs hhead hreports
            | true =>
              rintro a' rfl
              refine Looped.cons hclear (hs.trans hstore) hhead hreports
                ⟨[], xs, rfl, fun hc => ?_, rfl, .inr nofun, rfl, (List.append_nil _).symm⟩
              cases hcalm hc
          · obtain ⟨⟨b, hb, -⟩, -⟩ := ha
            cases hb
        · obtain ⟨⟨y, hy⟩, -⟩ := hs
          cases hy
      · refine rest v (since + 1) [] rfl (by rw [hnoted, List.append_nil]) fun ys => ?_
        rw [reports, if_neg hbatch, List.nil_append]
    · obtain ⟨hnoted, hfailed⟩ := hv
      rintro s rfl
      exact ⟨[], x, xs, u, rfl, ⟨.inr nofun, rfl, (List.append_nil _).symm⟩, hfailed, hnoted⟩

theorem mem_sorted : x ∈ t.sorted ↔ x ∈ t.records := List.mem_insertionSort _

theorem sorted_nodup (t : RecordTable) : t.sorted.Nodup :=
  (List.perm_insertionSort _ t.records).nodup_iff.mpr t.ids.of_map

/-- What a whole pass leaves: the last report is the result itself. -/
def PassLeaves (t : RecordTable) (calm : Bool) (options : MigrationOptions) (contents : Bucket) :
    Except Exc MigrationInspectionResult → StoreWorld × List MigrationInspectionResult → Prop
  | .ok result, v => ∃ ys zs, t.sorted = ys ++ zs ∧ (calm = true → zs = []) ∧
      t.Clear options.dryRun contents ys ∧
      result = (t.tally options.dryRun contents {} ys).skipped ∧
      v.1 = t.settleAll options.dryRun contents ⟨contents, t.records⟩ ys ∧
      v.2 = t.reports options contents ys 0 {} ++ if options.progressCallback then [result] else []
  | .error _, v =>
      (calm = false ∧ v.1 = ⟨contents, t.records⟩ ∧ v.2 = []) ∨
      ∃ ys x zs, t.sorted = ys ++ x :: zs ∧ t.Clear options.dryRun contents ys ∧
        t.FailedAt calm options.dryRun contents x
          (t.settleAll options.dryRun contents ⟨contents, t.records⟩ ys) v.1 ∧
        v.2 = t.reports options contents ys 0 {}

theorem runRawPayloadMigration_alone (t : RecordTable) (calm : Bool) (options : MigrationOptions)
    (contents : Bucket) :
    (runRawPayloadMigration t.bucket t.schemaName options).Safe (watchedExec t.tenant calm) Eq
      (fun _ _ => True) (t.PassLeaves calm options contents) (⟨contents, t.records⟩, []) := by
  refine safe_storeCall fun v hv c tenant v' he => ⟨trivial, ?_⟩
  subst hv
  obtain ⟨he, hnoted⟩ := Exec.of_noting he
  obtain ⟨hstore, htenant⟩ := tenantExec_tenantUuid he
  rcases htenant with rfl | ⟨hcalm, e, rfl⟩
  · refine safe_storeCall fun u hu c xs u' he => ⟨trivial, ?_⟩
    subst hu
    obtain ⟨he, hnoted'⟩ := Exec.of_noting he
    obtain ⟨-, -, he⟩ := tenantExec_spec he
    rw [hstore] at he
    obtain ⟨rfl, hstore'⟩ : xs = t.sorted ∧ u'.1 = ⟨contents, t.records⟩ := by
      cases c with
      | done _ =>
        simp only [execStore, Option.some.injEq, Prod.mk.injEq] at he
        exact ⟨he.1.symm, he.2.symm⟩
      | _ => cases he
    obtain rfl : u' = (⟨contents, t.records⟩, []) :=
      Prod.ext hstore' (by rw [hnoted', hnoted]; rfl)
    have hmem : ∀ x ∈ t.sorted, x ∈ t.records ∧ t.Agrees contents x ⟨contents, t.records⟩ :=
      fun x hx => ⟨mem_sorted.mp hx, fun _ _ => rfl, rfl⟩
    refine (migrateRecords_alone t.sorted t.sorted_nodup hmem 0 {}).handle (fun _ => rfl)
      (fun result s hs => ?_) fun e s hs => ?_
    · obtain ⟨ys, zs, hsplit, hall, rfl, hthrough⟩ := hs
      refine reportProgress_watched.handle (fun _ => rfl) (fun _ a ha => ?_) fun e a ha => ?_
      · obtain ⟨-, ha, hlast⟩ := ha
        rintro b rfl
        refine ⟨ys, zs, hsplit, hall, hthrough.clear, rfl, ha.trans hthrough.store, ?_⟩
        rw [hlast, hthrough.noted, List.nil_append]
      · obtain ⟨⟨y, hy⟩, -⟩ := ha
        cases hy
    · obtain ⟨ys, x, zs, a, hsplit, hthrough, hfailed, hsame⟩ := hs
      rintro b rfl
      refine .inr ⟨ys, x, zs, hsplit, hthrough.clear, ?_, ?_⟩
      · rw [← hthrough.store]
        exact hfailed
      · rw [hsame, hthrough.noted, List.nil_append]
  · rintro b rfl
    exact .inl ⟨hcalm, hstore, hnoted⟩

end Loop

end RecordTable

end DataLake
