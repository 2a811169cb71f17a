import DataLake.Chain
import DataLake.LoadedFlags

/-! The migration that sets the flag of the records that are older than the flag. It selects
them by the status of their run, so that it finds younger records as well. -/

namespace DataLake

open Foundation

def Succeeded (runs : List PipelineRun) (run : Uuid) : Prop :=
  ∃ row, findRun runs run = some row ∧ row.status = .succeeded

def isSucceeded (runs : List PipelineRun) (run : Uuid) : Bool :=
  (findRun runs run).any fun row => row.status = .succeeded

theorem isSucceeded_iff {runs : List PipelineRun} {run : Uuid} :
    isSucceeded runs run = true ↔ Succeeded runs run := by
  simp [isSucceeded, Succeeded, Option.any_eq_true]

def flagOfSucceeded (runs : List PipelineRun) (r : RawPayloadRecord) : RawPayloadRecord :=
  if isSucceeded runs r.run = true ∧ r.loadedSuccessfully = false then
    { r with loadedSuccessfully := true }
  else r

/-- `backfill_loaded_successfully` -/
def backfillLoadedSuccessfully (w : World) : World :=
  { w with store := { w.store with records := w.store.records.map (flagOfSucceeded w.runs) } }

theorem flagOfSucceeded_eq (runs : List PipelineRun) (r : RawPayloadRecord) :
    flagOfSucceeded runs r =
      { r with loadedSuccessfully := r.loadedSuccessfully || isSucceeded runs r.run } := by
  unfold flagOfSucceeded
  split_ifs with h
  · rw [h.1, Bool.or_true]
  · cases hflag : r.loadedSuccessfully with
    | true => rw [Bool.true_or, ← hflag]
    | false => rw [Bool.eq_false_iff.mpr fun hs => h ⟨hs, hflag⟩, Bool.or_false, ← hflag]

/-- Two versions of one page are flagged. -/
def TwoFlagged (records : List RawPayloadRecord) (run : Uuid) (sequence : Nat) : Prop :=
  ∃ r ∈ records, ∃ r' ∈ records, r.id ≠ r'.id ∧ (r.run = run ∧ r'.run = run) ∧
    (r.sequence = sequence ∧ r'.sequence = sequence) ∧
    r.loadedSuccessfully = true ∧ r'.loadedSuccessfully = true

/-- The flags of a table after the migration, when it was `before` it: a record that is none of
the old ones was loaded if it is flagged, and a page of a successful run has two flagged
versions only if it had them before. -/
structure Faithful (platform : Platform) (s : Deployment) (old : List Uuid)
    (records : List RawPayloadRecord) : Prop where
  loaded : ∀ r ∈ records, r.id ∉ old → r.loadedSuccessfully = true → WasLoaded platform s r.version
  single : ∀ run sequence, Succeeded s.world.runs run → TwoFlagged records run sequence →
    TwoFlagged s.world.store.records run sequence

/-- The migration finds no version that was left behind: what it selects and is younger than
the flag was loaded, and a page of a successful run has one version, unless two of them are
flagged already. -/
structure NothingLeft (platform : Platform) (s : Deployment) (old : List Uuid) : Prop where
  loaded : ∀ r ∈ s.world.store.records, Succeeded s.world.runs r.run →
    r.loadedSuccessfully = false → r.id ∉ old → WasLoaded platform s r.version
  single : ∀ r ∈ s.world.store.records, ∀ r' ∈ s.world.store.records,
    Succeeded s.world.runs r.run → r.id ≠ r'.id → r.run = r'.run → r.sequence = r'.sequence →
      TwoFlagged s.world.store.records r.run r.sequence

variable {platform : Platform} {tenant : Uuid} {s : Deployment} {old : List Uuid}

theorem mem_backfill {w : World} {r' : RawPayloadRecord} :
    r' ∈ (backfillLoadedSuccessfully w).store.records ↔ ∃ r ∈ w.store.records,
      r' = { r with loadedSuccessfully := r.loadedSuccessfully || isSucceeded w.runs r.run } := by
  simp only [backfillLoadedSuccessfully, List.mem_map, flagOfSucceeded_eq, eq_comm]

/-- In every database that old records and any workers have led to, the migration keeps the
meaning of the flag if and only if nothing was left. -/
theorem backfill_faithful_iff (platform : Platform) (tenant : Uuid) {w : World}
    (hids : (w.store.records.map RawPayloadRecord.id).Nodup)
    (hflags : ∀ r ∈ w.store.records, r.loadedSuccessfully = false) {s : Deployment}
    (h : Reaches (Deployment.next platform tenant) (fun _ _ => True) (Sessions.idle w) s) :
    Faithful platform s (w.store.records.map RawPayloadRecord.id)
        (backfillLoadedSuccessfully s.world).store.records ↔
      NothingLeft platform s (w.store.records.map RawPayloadRecord.id) := by
  have hrecorded : FlagsKept platform s :=
    h.invariant (recorded_idle hids hflags) fun _ _ _ hs _ he => hs.next he
  have hflagged : ∀ r ∈ s.world.store.records, Succeeded s.world.runs r.run →
      { r with loadedSuccessfully := true } ∈ (backfillLoadedSuccessfully s.world).store.records := by
    intro r hr hsucceeded
    exact mem_backfill.mpr ⟨r, hr, by rw [isSucceeded_iff.mpr hsucceeded, Bool.or_true]⟩
  constructor
  · intro hfaithful
    refine ⟨fun r hr hsucceeded _ hold => ?_, fun r hr r' hr' hsucceeded hne hrun hsequence => ?_⟩
    · have hloaded := hfaithful.loaded _ (hflagged r hr hsucceeded) hold rfl
      exact hloaded
    · exact hfaithful.single r.run r.sequence hsucceeded ⟨_, hflagged r hr hsucceeded, _,
        hflagged r' hr' (hrun ▸ hsucceeded), hne, ⟨rfl, hrun.symm⟩, ⟨rfl, hsequence.symm⟩, rfl, rfl⟩
  · intro hleft
    refine ⟨fun r' hr' hold hflag => ?_, fun run sequence hsucceeded htwo => ?_⟩
    · obtain ⟨r, hr, rfl⟩ := mem_backfill.mp hr'
      cases hbefore : r.loadedSuccessfully with
      | true => exact hrecorded.flagged r hr hbefore
      | false =>
        rw [hbefore, Bool.false_or] at hflag
        exact hleft.loaded r hr (isSucceeded_iff.mp hflag) hbefore hold
    · obtain ⟨a, ha, b, hb, hne, ⟨rfl, hrun⟩, ⟨rfl, hsequence⟩, -, -⟩ := htwo
      obtain ⟨r, hr, rfl⟩ := mem_backfill.mp ha
      obtain ⟨r', hr', rfl⟩ := mem_backfill.mp hb
      exact hleft.single r hr r' hr' hsucceeded hne hrun.symm hsequence.symm

/-! A page that is stored, is not loaded, and comes with other bytes the next time. -/

def changingSync : Sync :=
  { smallSync (some 2) with
    platform := { (smallSync (some 2)).platform with loads := fun _ => .ok (.arr [.obj []]) } }

def failedAttempt : List DeploymentEvent :=
  .claim 0 ⟨1⟩ ⟨5⟩ changingSync.pipeline false 1 ::
  [RunAnswer.clock 1, .done, .done, .done, .response ⟨200, none, oneRecord⟩,
    .raw (.tenant (.ok ⟨3⟩)), .raw (.done ⟨0⟩), .raw (.done ⟨40⟩),
    .fail (.dataLake (fetchFailed "the warehouse does not answer" true)), .done, .done].map
      (DeploymentEvent.answer 0)

def loadedAttempt : List DeploymentEvent :=
  .claim 1 ⟨1⟩ ⟨5⟩ changingSync.pipeline false 2 ::
  [RunAnswer.clock 2, .done, .done, .done, .response ⟨200, none, noRecord⟩,
    .raw (.tenant (.ok ⟨3⟩)), .raw (.done ⟨0⟩), .raw (.done ⟨41⟩), .done, .raw (.done ⟨0⟩), .done,
    .clock 3, .clock 3, .done, .done].map (DeploymentEvent.answer 1)

/-- The migration flags the version that was not loaded, beside the one that was. -/
theorem left_version_flagged : ∃ s : Deployment,
    Reaches (Deployment.next changingSync.platform ⟨3⟩) (fun _ _ => True)
      (Sessions.idle smallWorld) s ∧
    ¬ Faithful changingSync.platform s [] (backfillLoadedSuccessfully s.world).store.records := by
  have hfinal : (replay (Deployment.next changingSync.platform ⟨3⟩) (fun _ _ => True)
      (Sessions.idle smallWorld) (failedAttempt ++ loadedAttempt)).map (fun s =>
        (isSucceeded s.world.runs ⟨1⟩,
          s.world.store.records.all fun r => r.run = ⟨1⟩ && r.sequence = 1,
          s.world.store.records.map fun r => (r.id, r.loadedSuccessfully))) =
      some (true, true, [(⟨40⟩, false), (⟨41⟩, true)]) := by
    decide +kernel
  obtain ⟨s, hs, hsummary⟩ := Option.map_eq_some_iff.mp hfinal
  simp only [Prod.mk.injEq, List.all_eq_true, Bool.and_eq_true, decide_eq_true_eq] at hsummary
  obtain ⟨hrun, hpage, hrecords⟩ := hsummary
  refine ⟨s, Reaches.of_replay _ hs, fun hfaithful => ?_⟩
  obtain ⟨a, others, hothers, ha, hrest⟩ := List.map_eq_cons_iff.mp hrecords
  obtain ⟨b, none, rfl, hb, hnone⟩ := List.map_eq_cons_iff.mp hrest
  obtain rfl := List.map_eq_nil_iff.mp hnone
  simp only [Prod.mk.injEq] at ha hb
  rw [hothers] at hpage
  have htwo : TwoFlagged (backfillLoadedSuccessfully s.world).store.records ⟨1⟩ 1 := by
    have hmem : ∀ r ∈ [a, b], { r with loadedSuccessfully := true } ∈
        (backfillLoadedSuccessfully s.world).store.records := by
      intro r hr
      exact mem_backfill.mpr ⟨r, hothers ▸ hr, by rw [(hpage r hr).1, hrun, Bool.or_true]⟩
    obtain ⟨haRun, haSequence⟩ := hpage a (.head _)
    obtain ⟨hbRun, hbSequence⟩ := hpage b (.tail _ (.head _))
    refine ⟨_, hmem a (.head _), _, hmem b (.tail _ (.head _)), ?_, ⟨haRun, hbRun⟩,
      ⟨haSequence, hbSequence⟩, rfl, rfl⟩
    show a.id ≠ b.id
    rw [ha.1, hb.1]
    decide
  obtain ⟨r, hr, r', hr', hne, -, -, hflag, hflag'⟩ :=
    hfaithful.single ⟨1⟩ 1 (isSucceeded_iff.mp hrun) htwo
  have hflagged : ∀ r ∈ [a, b], r.loadedSuccessfully = true → r = b := by
    intro r hr hflag
    rcases List.mem_cons.mp hr with rfl | hr
    · rw [ha.2] at hflag
      cases hflag
    · exact List.mem_singleton.mp hr
  rw [hothers] at hr hr'
  exact hne (by rw [hflagged r hr hflag, hflagged r' hr' hflag'])

/-- A page of a run that succeeded before there was a flag. -/
def oldPage : RawPayloadRecord :=
  { id := ⟨30⟩, run := ⟨2⟩, pipeline := ⟨7⟩, sequence := 1
    storageUri := storageUri smallBucket
      (tenantKey ⟨3⟩ (logicalKey ⟨7⟩ ⟨2⟩ 1 (sha256hex oneRecord)))
    contentType := "application/json".toList, sizeBytes := 4
    checksumSha256 := sha256hex oneRecord }

def oldWorld : World :=
  { runs := [smallRun, { smallRun with
      id := ⟨2⟩, idempotencyKey := "second".toList, status := .succeeded }]
    store := ⟨fun _ => none, [oldPage]⟩ }

theorem backfill_faithful_single : ∃ s : Deployment,
    Reaches (Deployment.next changingSync.platform ⟨3⟩) (fun _ _ => True)
      (Sessions.idle oldWorld) s ∧
    Succeeded s.world.runs ⟨1⟩ ∧ Succeeded s.world.runs ⟨2⟩ ∧ oldPage ∈ s.world.store.records ∧
    { oldPage with loadedSuccessfully := true } ∈
      (backfillLoadedSuccessfully s.world).store.records ∧
    Faithful changingSync.platform s [⟨30⟩] (backfillLoadedSuccessfully s.world).store.records := by
  have hfinal : (replay (Deployment.next changingSync.platform ⟨3⟩) (fun _ _ => True)
      (Sessions.idle oldWorld) loadedAttempt).map (fun s =>
        ((isSucceeded s.world.runs ⟨1⟩, isSucceeded s.world.runs ⟨2⟩),
          s.world.store.records.head?,
          s.world.store.records.map fun r => (r.id, r.run, r.loadedSuccessfully))) =
      some ((true, true), some oldPage, [(⟨30⟩, ⟨2⟩, false), (⟨41⟩, ⟨1⟩, true)]) := by
    decide +kernel
  obtain ⟨s, hs, hsummary⟩ := Option.map_eq_some_iff.mp hfinal
  simp only [Prod.mk.injEq] at hsummary
  obtain ⟨⟨hrun, hold⟩, hhead, hrecords⟩ := hsummary
  obtain ⟨a, others, htwo, ha, hrest⟩ := List.map_eq_cons_iff.mp hrecords
  obtain ⟨b, none, rfl, hb, hnone⟩ := List.map_eq_cons_iff.mp hrest
  obtain rfl := List.map_eq_nil_iff.mp hnone
  simp only [Prod.mk.injEq] at ha hb
  rw [htwo, List.head?_cons, Option.some.injEq] at hhead
  subst hhead
  have hreach := Reaches.of_replay _ hs
  have hmem : oldPage ∈ s.world.store.records := by
    rw [htwo]
    exact List.mem_cons_self
  have hids : (oldWorld.store.records.map RawPayloadRecord.id).Nodup := List.nodup_singleton _
  have hflags : ∀ r ∈ oldWorld.store.records, r.loadedSuccessfully = false := by
    intro r hr
    rw [List.mem_singleton.mp hr]
    rfl
  have hleft : NothingLeft changingSync.platform s [⟨30⟩] := by
    have hcases : ∀ r ∈ s.world.store.records, r = oldPage ∨ r = b := by
      intro r hr
      rw [htwo] at hr
      exact (List.mem_cons.mp hr).imp_right List.mem_singleton.mp
    have hruns : oldPage.run ≠ b.run := by
      rw [hb.2.1]
      decide
    refine ⟨fun r hr _ hflag hyoung => ?_, fun r hr r' hr' _ hne hsame => ?_⟩
    · rcases hcases r hr with rfl | rfl
      · exact absurd (List.mem_singleton_self _) hyoung
      · rw [hb.2.2] at hflag
        cases hflag
    · rcases hcases r hr with rfl | rfl <;> rcases hcases r' hr' with rfl | rfl
      · exact absurd rfl hne
      · exact absurd hsame hruns
      · exact absurd hsame.symm hruns
      · exact absurd rfl hne
  have hflag : (oldPage.loadedSuccessfully || isSucceeded s.world.runs oldPage.run) = true := hold
  refine ⟨s, hreach, isSucceeded_iff.mp hrun, isSucceeded_iff.mp hold, hmem,
    mem_backfill.mpr ⟨_, hmem, ?_⟩,
    (backfill_faithful_iff changingSync.platform ⟨3⟩ hids hflags hreach).mpr hleft⟩
  rw [hflag]

end DataLake
