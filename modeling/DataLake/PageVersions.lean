import DataLake.Attempts
import DataLake.RoundTrip
import Mathlib.Data.List.Dedup
import Mathlib.Data.List.Nodup

/-! The versions of the pages of a run and of the runs that it continues: what was stored
for a page, and which version of it was loaded. -/

namespace DataLake

open Foundation

/-- The run with this identifier, the run that it continues, and so on to the first. -/
inductive ContinuedFrom (runs : List PipelineRun) : Uuid → List Uuid → Prop
  | first {id : Uuid} {row : PipelineRun} : findRun runs id = some row →
    row.continuedFrom = none → ContinuedFrom runs id [id]
  | next {id prior : Uuid} {row : PipelineRun} {chain : List Uuid} : findRun runs id = some row →
    row.continuedFrom = some prior → ContinuedFrom runs prior chain →
    ContinuedFrom runs id (id :: chain)

/-- Different bytes with one hash. -/
def Collide (data data' : Bytes) : Prop := data ≠ data' ∧ sha256hex data = sha256hex data'

/-- The rows of the load are those of the response that was received last, and a record and
an object of exactly its bytes were there before. -/
def Backed (platform : Platform) (tenant : Uuid) (l : PageLoad) : Prop :=
  ∃ page response result stop record o, l.received = some (page, response) ∧
    readPage l.pipeline.sourceConfig platform.loads page response = .ok ⟨some result, stop⟩ ∧
    mapRecords result.records l.pipeline.destinationMapping l.pipeline.strictMapping = .ok l.rows ∧
    record ∈ l.before.records ∧
    record.version = (l.run, l.sequence, sha256hex response.body) ∧
    record.storageUri = storageUri platform.bucket (tenantKey tenant (expectedLogicalKey record)) ∧
    l.before.bucket (tenantKey tenant (expectedLogicalKey record)) = some o ∧
    (o.body = response.body ∨ Collide o.body response.body)

/-- The load has completed, and what it loaded is this version of the page. -/
def Completes (l : PageLoad) (r : RawPayloadRecord) : Prop :=
  l.completed = true ∧ l.run = r.run ∧ l.sequence = r.sequence ∧
    ∃ page response, l.received = some (page, response) ∧
      sha256hex response.body = r.checksumSha256

def flaggedIn (chain : List Uuid) (r : RawPayloadRecord) : Bool :=
  decide (r.run ∈ chain) && r.loadedSuccessfully

/-- The versions of a page, and the bytes that were stored for it. -/
def versionsOf (records : List RawPayloadRecord) (run : Uuid) (sequence : Nat) :
    List RawPayloadRecord :=
  records.filter fun r => r.run = run && r.sequence = sequence

def storedFor (stored : List StoredPage) (run : Uuid) (sequence : Nat) : List Bytes :=
  (stored.filter fun p => p.run = run && p.sequence = sequence).map StoredPage.data

/-- The version that a stored page becomes. -/
def StoredPage.version (p : StoredPage) : Uuid × Nat × Text :=
  (p.run, p.sequence, sha256hex p.data)

/-- What the table says about the pages of the runs of a chain, after `stored` was stored and
`loads` were loaded. The rows of `unrecorded` may be missing. -/
structure Versions (chain : List Uuid) (records : List RawPayloadRecord)
    (stored unrecorded : List StoredPage) (loads : List PageLoad) (flagged : Nat) : Prop where
  ids : (records.map RawPayloadRecord.id).Nodup
  versions : (records.map RawPayloadRecord.version).Nodup
  completed : ∀ r ∈ records, flaggedIn chain r = true → ∃ l ∈ loads, Completes l r
  one : ∀ r ∈ records, ∀ r' ∈ records, flaggedIn chain r = true → flaggedIn chain r' = true →
    r.run = r'.run → r.sequence = r'.sequence → r.id = r'.id
  kept : ∀ r ∈ records, r.run ∈ chain → ∃ p ∈ stored, r.version = p.version
  recorded : ∀ p ∈ stored, p.version ∈ records.map RawPayloadRecord.version ∨ p ∈ unrecorded
  count : records.countP (flaggedIn chain) = flagged

variable {chain : List Uuid} {records : List RawPayloadRecord}
  {stored unrecorded unrecorded' : List StoredPage}
  {loads : List PageLoad} {flagged : Nat} {r : RawPayloadRecord} {p : StoredPage}

namespace Versions

theorem store (h : Versions chain records stored unrecorded loads flagged) (p : StoredPage) :
    Versions chain records (stored ++ [p]) (unrecorded ++ [p]) loads flagged where
  ids := h.ids
  versions := h.versions
  completed := h.completed
  one := h.one
  kept r hr hrun := by
    obtain ⟨q, hq, hversion⟩ := h.kept r hr hrun
    exact ⟨q, List.mem_append_left _ hq, hversion⟩
  recorded q hq := by
    rcases List.mem_append.mp hq with hq | hq
    · exact (h.recorded q hq).imp_right (List.mem_append_left _)
    · exact .inr (List.mem_append_right _ hq)
  count := h.count

/-- What has a row is not missing. -/
theorem settle (h : Versions chain records stored unrecorded loads flagged)
    (hrows : ∀ p ∈ unrecorded, p ∈ unrecorded' ∨
      p.version ∈ records.map RawPayloadRecord.version) :
    Versions chain records stored unrecorded' loads flagged where
  ids := h.ids
  versions := h.versions
  completed := h.completed
  one := h.one
  kept := h.kept
  recorded p hp := (h.recorded p hp).elim .inl fun hp => (hrows p hp).symm
  count := h.count

theorem create (h : Versions chain records stored unrecorded loads flagged)
    (hfresh : r.id ∉ records.map RawPayloadRecord.id)
    (hnew : r.version ∉ records.map RawPayloadRecord.version)
    (hflag : r.loadedSuccessfully = false) (hp : p ∈ stored) (hversion : r.version = p.version) :
    Versions chain (records ++ [r]) stored unrecorded loads flagged := by
  have hnone : flaggedIn chain r = false := by simp [flaggedIn, hflag]
  have hmem : ∀ r' ∈ records ++ [r], flaggedIn chain r' = true → r' ∈ records := by
    intro r' hr' hflagged
    rcases List.mem_append.mp hr' with hr' | hr'
    · exact hr'
    · rw [List.mem_singleton.mp hr', hnone] at hflagged
      cases hflagged
  refine ⟨?_, ?_, fun r' hr' hflagged => h.completed r' (hmem r' hr' hflagged) hflagged,
    fun a ha b hb hflagged hflagged' => h.one a (hmem a ha hflagged) b (hmem b hb hflagged')
      hflagged hflagged', fun r' hr' hrun => ?_, fun q hq => ?_, ?_⟩
  · rw [List.map_append, List.map_singleton]
    exact h.ids.append (List.nodup_singleton _) (List.disjoint_singleton.mpr hfresh)
  · rw [List.map_append, List.map_singleton]
    exact h.versions.append (List.nodup_singleton _) (List.disjoint_singleton.mpr hnew)
  · rcases List.mem_append.mp hr' with hr' | hr'
    · exact h.kept r' hr' hrun
    · rw [List.mem_singleton.mp hr']
      exact ⟨p, hp, hversion⟩
  · rw [List.map_append]
    exact (h.recorded q hq).imp_left (List.mem_append_left _)
  · rw [List.countP_append, h.count]
    simp [hnone]

theorem load (h : Versions chain records stored unrecorded loads flagged) (l : PageLoad) :
    Versions chain records stored unrecorded (loads ++ [l]) flagged where
  ids := h.ids
  versions := h.versions
  completed r hr hflagged := by
    obtain ⟨l', hl', hcompletes⟩ := h.completed r hr hflagged
    exact ⟨l', List.mem_append_left _ hl', hcompletes⟩
  one := h.one
  kept := h.kept
  recorded := h.recorded
  count := h.count

end Versions

/-- The flag of a version is saved. -/
def flag (id : Uuid) (r : RawPayloadRecord) : RawPayloadRecord :=
  if r.id = id then { r with loadedSuccessfully := true } else r

@[simp] theorem flag_id (id : Uuid) (r : RawPayloadRecord) : (flag id r).id = r.id := by
  unfold flag
  split_ifs <;> rfl

@[simp] theorem flag_version (id : Uuid) (r : RawPayloadRecord) :
    (flag id r).version = r.version := by
  unfold flag
  split_ifs <;> rfl

theorem flag_of_ne {id : Uuid} (h : r.id ≠ id) : flag id r = r := if_neg h

theorem countP_flag (hids : (records.map RawPayloadRecord.id).Nodup) (hr : r ∈ records)
    (hrun : r.run ∈ chain) (hnone : flaggedIn chain r = false) :
    (records.map (flag r.id)).countP (flaggedIn chain) =
      records.countP (flaggedIn chain) + 1 := by
  induction records with
  | nil => cases hr
  | cons x xs ih =>
    rw [List.map_cons, List.nodup_cons] at hids
    rw [List.map_cons, List.countP_cons, List.countP_cons]
    rcases List.mem_cons.mp hr with rfl | hr
    · have hrest : xs.map (flag r.id) = xs := by
        have hid : ∀ y ∈ xs, flag r.id y = id y := fun y hy =>
          flag_of_ne fun heq => hids.1 (heq ▸ List.mem_map_of_mem hy)
        rw [List.map_congr_left hid, List.map_id]
      have hflagged : flaggedIn chain (flag r.id r) = true := by simp [flaggedIn, flag, hrun]
      simp [hrest, hflagged, hnone]
    · have hne : x.id ≠ r.id := fun heq => hids.1 (heq ▸ List.mem_map_of_mem hr)
      rw [ih hids.2 hr, flag_of_ne hne]
      omega

namespace Versions

theorem flag (h : Versions chain records stored unrecorded loads flagged) (hr : r ∈ records)
    (hrun : r.run ∈ chain) (hload : ∃ l ∈ loads, Completes l r)
    (hnone : ∀ r' ∈ records, flaggedIn chain r' = true → r'.run = r.run →
      r'.sequence ≠ r.sequence) :
    Versions chain (records.map (flag r.id)) stored unrecorded loads (flagged + 1) := by
  have hsame : ∀ a, (DataLake.flag r.id a).run = a.run ∧
      (DataLake.flag r.id a).sequence = a.sequence ∧
      (DataLake.flag r.id a).checksumSha256 = a.checksumSha256 := by
    intro a
    unfold DataLake.flag
    split_ifs <;> exact ⟨rfl, rfl, rfl⟩
  -- A flagged record was flagged before, or it is the one.
  have hcases : ∀ a ∈ records, flaggedIn chain (DataLake.flag r.id a) = true →
      a = r ∨ flaggedIn chain a = true := by
    intro a ha hflagged
    by_cases hid : a.id = r.id
    · exact .inl (List.inj_on_of_nodup_map h.ids ha hr hid)
    · rw [flag_of_ne hid] at hflagged
      exact .inr hflagged
  have hversions : (records.map (DataLake.flag r.id)).map RawPayloadRecord.version =
      records.map RawPayloadRecord.version := by
    rw [List.map_map]
    exact List.map_congr_left fun a _ => flag_version r.id a
  refine ⟨?_, hversions ▸ h.versions, fun a' ha' hflagged => ?_,
    fun a' ha' b' hb' hflagged hflagged' hrun' hseq => ?_, fun a' ha' hrun' => ?_, fun p hp => ?_, ?_⟩
  · rw [List.map_map]
    exact (List.map_congr_left fun a _ => flag_id r.id a) ▸ h.ids
  · obtain ⟨a, ha, rfl⟩ := List.mem_map.mp ha'
    obtain ⟨hrun', hseq, hsum⟩ := hsame a
    have hcompleted : ∃ l ∈ loads, Completes l a := by
      rcases hcases a ha hflagged with rfl | hflagged
      · exact hload
      · exact h.completed a ha hflagged
    obtain ⟨l, hl, hcompleted, hlrun, hlseq, hbody⟩ := hcompleted
    exact ⟨l, hl, hcompleted, by rw [hrun', hlrun], by rw [hseq, hlseq], by rwa [hsum]⟩
  · obtain ⟨a, ha, rfl⟩ := List.mem_map.mp ha'
    obtain ⟨b, hb, rfl⟩ := List.mem_map.mp hb'
    rw [(hsame a).1, (hsame b).1] at hrun'
    rw [(hsame a).2.1, (hsame b).2.1] at hseq
    rw [flag_id, flag_id]
    rcases hcases a ha hflagged with rfl | hwas <;>
      rcases hcases b hb hflagged' with rfl | hwas'
    · rfl
    · exact absurd hseq.symm (hnone b hb hwas' hrun'.symm)
    · exact absurd hseq (hnone a ha hwas hrun')
    · exact h.one a ha b hb hwas hwas' hrun' hseq
  · obtain ⟨a, ha, rfl⟩ := List.mem_map.mp ha'
    rw [(hsame a).1] at hrun'
    rw [flag_version]
    exact h.kept a ha hrun'
  · rw [hversions]
    exact h.recorded p hp
  · have hunflagged : flaggedIn chain r = false := by
      cases hflagged : flaggedIn chain r with
      | false => rfl
      | true => exact absurd rfl (hnone r hr hflagged rfl)
    rw [countP_flag h.ids hr hrun hunflagged, h.count]

theorem continued (h : Versions chain records stored unrecorded loads flagged) {run : Uuid}
    (hrecords : ∀ r ∈ records, r.run ≠ run) :
    Versions (run :: chain) records stored unrecorded loads flagged := by
  have hflagged : ∀ r ∈ records, flaggedIn (run :: chain) r = flaggedIn chain r := by
    intro r hr
    simp [flaggedIn, hrecords r hr]
  refine ⟨h.ids, h.versions, fun r hr hr' => h.completed r hr (hflagged r hr ▸ hr'),
    fun r hr r' hr' hfr hfr' => h.one r hr r' hr' (hflagged r hr ▸ hfr) (hflagged r' hr' ▸ hfr'),
    fun r hr hrun => ?_, h.recorded, ?_⟩
  · exact h.kept r hr ((List.mem_cons.mp hrun).resolve_left (hrecords r hr))
  · rw [← h.count]
    exact List.countP_congr fun r hr => by rw [hflagged r hr]

variable {run : Uuid} {sequence : Nat}

theorem flagged_eq (h : Versions chain records stored unrecorded loads flagged) (hrun : run ∈ chain)
    {r r' : RawPayloadRecord} (hr : r ∈ versionsOf records run sequence)
    (hr' : r' ∈ versionsOf records run sequence) (hflag : r.loadedSuccessfully = true)
    (hflag' : r'.loadedSuccessfully = true) : r = r' := by
  simp only [versionsOf, List.mem_filter, Bool.and_eq_true, decide_eq_true_eq] at hr hr'
  obtain ⟨hmem, rfl, rfl⟩ := hr
  obtain ⟨hmem', hrun', hsequence'⟩ := hr'
  refine List.inj_on_of_nodup_map h.ids hmem hmem' (h.one r hmem r' hmem' ?_ ?_ hrun'.symm
    hsequence'.symm)
  · simp [flaggedIn, hrun, hflag]
  · simp [flaggedIn, hrun', hrun, hflag']

theorem version_of_mem {r : RawPayloadRecord} (hr : r ∈ versionsOf records run sequence) :
    r ∈ records ∧ r.version = (run, sequence, r.checksumSha256) := by
  simp only [versionsOf, List.mem_filter, Bool.and_eq_true, decide_eq_true_eq] at hr
  obtain ⟨hmem, rfl, rfl⟩ := hr
  exact ⟨hmem, rfl⟩

theorem checksums_nodup (h : Versions chain records stored unrecorded loads flagged) :
    ((versionsOf records run sequence).map RawPayloadRecord.checksumSha256).Nodup := by
  have hnodup : (versionsOf records run sequence).Nodup := (List.Nodup.of_map _ h.ids).filter _
  refine hnodup.map_on fun r hr r' hr' hsum => ?_
  obtain ⟨hmem, hr⟩ := version_of_mem hr
  obtain ⟨hmem', hr'⟩ := version_of_mem hr'
  exact List.inj_on_of_nodup_map h.versions hmem hmem' (by rw [hr, hr', hsum])

/-- Every version is one of bytes that were stored. -/
theorem checksums_subset (h : Versions chain records stored unrecorded loads flagged)
    (hrun : run ∈ chain) : (versionsOf records run sequence).map RawPayloadRecord.checksumSha256 ⊆
      (storedFor stored run sequence).dedup.map sha256hex := by
  intro checksum hmem
  obtain ⟨r, hr, rfl⟩ := List.mem_map.mp hmem
  obtain ⟨hr, hversion⟩ := version_of_mem hr
  obtain ⟨p, hp, hversion'⟩ := h.kept r hr (by rwa [show r.run = run from congrArg Prod.fst hversion])
  obtain ⟨hprun, hsequence, hsum⟩ : run = p.run ∧ sequence = p.sequence ∧
      r.checksumSha256 = sha256hex p.data := by
    simpa [StoredPage.version] using hversion.symm.trans hversion'
  refine List.mem_map.mpr ⟨p.data, List.mem_dedup.mpr (List.mem_map.mpr ⟨p, ?_, rfl⟩), hsum.symm⟩
  simp [hp, hprun, hsequence]

theorem length_le (h : Versions chain records stored unrecorded loads flagged)
    (hrun : run ∈ chain) : (versionsOf records run sequence).length ≤
      (storedFor stored run sequence).dedup.length := by
  have hnodup : ((versionsOf records run sequence).map RawPayloadRecord.checksumSha256).Nodup :=
    h.checksums_nodup
  have hsubperm := List.subperm_of_subset hnodup (h.checksums_subset hrun)
  simpa using hsubperm.length_le

/-- Where no row is missing, there is one version for each of the bytes stored. -/
theorem length_eq (h : Versions chain records stored unrecorded loads flagged) (hrun : run ∈ chain)
    (hinj : ∀ data ∈ storedFor stored run sequence, ∀ data' ∈ storedFor stored run sequence,
      sha256hex data = sha256hex data' → data = data')
    (hrecorded : ∀ p ∈ unrecorded, p.run = run → p.sequence = sequence →
      p.version ∈ records.map RawPayloadRecord.version) :
    (versionsOf records run sequence).length = (storedFor stored run sequence).dedup.length := by
  have hhashes : ((storedFor stored run sequence).dedup.map sha256hex).Nodup :=
    (List.nodup_dedup _).map_on fun data hdata data' hdata' heq =>
      hinj data (List.mem_dedup.mp hdata) data' (List.mem_dedup.mp hdata') heq
  have hsubset : (storedFor stored run sequence).dedup.map sha256hex ⊆
      (versionsOf records run sequence).map RawPayloadRecord.checksumSha256 := by
    intro checksum hmem
    obtain ⟨data, hdata, rfl⟩ := List.mem_map.mp hmem
    obtain ⟨p, hp, rfl⟩ := List.mem_map.mp (List.mem_dedup.mp hdata)
    simp only [List.mem_filter, Bool.and_eq_true, decide_eq_true_eq] at hp
    obtain ⟨hp, rfl, rfl⟩ := hp
    have hversion : p.version ∈ records.map RawPayloadRecord.version :=
      (h.recorded p hp).elim id fun hmissing => hrecorded p hmissing rfl rfl
    obtain ⟨r, hr, hversion⟩ := List.mem_map.mp hversion
    obtain ⟨hr', hsequence, hsum⟩ : r.run = p.run ∧ r.sequence = p.sequence ∧
        r.checksumSha256 = sha256hex p.data := by
      simpa [RawPayloadRecord.version, StoredPage.version] using hversion
    exact List.mem_map.mpr ⟨r, by simp [versionsOf, hr, hr', hsequence], hsum⟩
  have hlength := (List.subperm_of_subset hhashes hsubset).length_le
  rw [List.length_map, List.length_map] at hlength
  exact le_antisymm (h.length_le hrun) hlength

end Versions

end DataLake
