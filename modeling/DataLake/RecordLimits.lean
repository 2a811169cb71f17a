import DataLake.Chain
import DataLake.LoadedFlags
import DataLake.Pagination

/-! The limits of the columns of the record table, and which pages respect them. Nothing on the
way from the response to the row checks a length or a range. -/

namespace DataLake

open Foundation

/-- What the database accepts: the lengths and the ranges that the columns declare. -/
structure RawPayloadRecord.Fits (r : RawPayloadRecord) : Prop where
  storageUri : r.storageUri.length ≤ 1024
  contentType : r.contentType.length ≤ 100
  sizeBytes : r.sizeBytes < 2 ^ 63
  checksumSha256 : r.checksumSha256.length ≤ 64
  sequence : r.sequence < 2 ^ 31
  cursorUsed : ∀ cursor ∈ r.cursorUsed, cursor.length ≤ 255
  nextCursor : ∀ cursor ∈ r.nextCursor, cursor.length ≤ 255
  itemCount : r.itemCount < 2 ^ 31
  sourcePath : r.sourcePath.length ≤ 500
  httpStatus : ∀ status ∈ r.httpStatus, status < 2 ^ 15

/-- The page that the attempt asks for first. -/
def Delivery.first (d : Delivery) : Int :=
  match d.pipeline.sourceConfig.validate with
  | .ok limits => ((firstPage d.claimed.lastSuccessfulCursor limits.2).toOption).getD limits.2
  | .error _ => 0

/-- The place of a page in the run, counted from the pages that were extracted before. -/
def Delivery.sequence (d : Delivery) (page : Int) : Nat :=
  d.claimed.pagesExtracted + (page - d.first).toNat + 1

/-- The page can be recorded, as far as the source, the settings and the run decide it. -/
structure Recordable (platform : Platform) (d : Delivery) (page : Int) (response : Response) :
    Prop where
  bucket : platform.bucket.name.length + (zeroPad 6 (d.sequence page)).length ≤ 838
  contentType : (response.contentType.getD "application/json".toList).length ≤ 100
  body : response.body.length < 2 ^ 63
  sequence : d.sequence page < 2 ^ 31
  cursor : -10 ^ 254 < page ∧ page < 10 ^ 255
  nextCursor : ∀ records, recordsOf d.pipeline.sourceConfig platform.loads response = .ok records →
    records ≠ [] → d.pipeline.sourceConfig.short records = false → page + 1 < 10 ^ 255
  itemCount : ∀ records, recordsOf d.pipeline.sourceConfig platform.loads response = .ok records →
    records.length < 2 ^ 31
  path : d.pipeline.sourceConfig.path.length ≤ 500

theorem checkStatus_lt {response : Response} (h : checkStatus response = .ok response) :
    response.status < 400 := by
  unfold checkStatus at h
  split_ifs at h with hretry hclient
  exact Nat.lt_of_not_le hclient

theorem pageOf_some {config : RestApiConfig} {page : Int} {response : Response}
    {records : List Json} {result : FetchResult}
    (h : pageOf config page response records = some result) :
    result = fetchResult config page response records
      (if records = [] ∨ config.short records = true then none else some (str (page + 1))) := by
  unfold pageOf at h
  cases records with
  | nil =>
    simp only [List.isEmpty_nil, if_true] at h
    split_ifs at h
    simpa using h.symm
  | cons record records =>
    simp only [List.isEmpty_cons, Bool.false_eq_true, if_false] at h
    simpa using h.symm

variable {platform : Platform} {d : Delivery} {page : Int} {response : Response}

/-- The row of a page respects the limits if and only if the page can be recorded. -/
theorem record_fits_iff {run : PipelineRun} {result : FetchResult} {stop : Bool}
    (hstatus : checkStatus response = .ok response)
    (hread : readPage d.pipeline.sourceConfig platform.loads page response =
      .ok ⟨some result, stop⟩)
    (hsequence : run.pagesExtracted + 1 = d.sequence page) (tenant : Uuid) :
    ((rawPage run result).record (storageUri platform.bucket
      (tenantKey tenant (rawPage run result).key))).Fits ↔ Recordable platform d page response := by
  have huri : (storageUri platform.bucket (tenantKey tenant (rawPage run result).key)).length =
      platform.bucket.name.length + (zeroPad 6 (d.sequence page)).length + 64 + 122 := by
    rw [RawPage.key, length_storageUri, RawPage.checksum, length_sha256hex, ← hsequence]
    rfl
  rw [readPage_eq] at hread
  cases hrecords : recordsOf d.pipeline.sourceConfig platform.loads response with
  | error e =>
    rw [hrecords] at hread
    cases hread
  | ok records =>
    rw [hrecords] at hread
    obtain ⟨hpage, -⟩ := PageStep.mk.inj (Except.ok.inj hread)
    obtain rfl := pageOf_some hpage
    have hnumeral : ∀ n : Int, (str n).length ≤ 255 ↔ -10 ^ 254 < n ∧ n < 10 ^ 255 := fun n =>
      length_str_le_iff (k := 254) (by decide)
    constructor
    · intro hfits
      have hthis := (hnumeral page).mp (hfits.cursorUsed _ rfl)
      refine ⟨?_, hfits.contentType, hfits.sizeBytes, hsequence ▸ hfits.sequence, hthis, ?_, ?_,
        hfits.sourcePath⟩
      · have hlength := huri.symm.le.trans hfits.storageUri
        omega
      · intro records' hrecords' hne hshort
        obtain rfl := Except.ok.inj (hrecords.symm.trans hrecords')
        have hnext := hfits.nextCursor (str (page + 1)) (by
          simp [RawPage.record, rawPage, fetchResult, hne, hshort])
        exact ((hnumeral (page + 1)).mp hnext).2
      · intro records' hrecords'
        obtain rfl := Except.ok.inj (hrecords.symm.trans hrecords')
        exact hfits.itemCount
    · intro h
      have hpath := h.path
      refine ⟨?_, h.contentType, h.body, (length_sha256hex _).le, ?_, ?_, ?_, h.itemCount _ hrecords,
        hpath, ?_⟩
      · refine huri.le.trans ?_
        have hbucket := h.bucket
        omega
      · exact (show run.pagesExtracted + 1 < 2 ^ 31 from hsequence ▸ h.sequence)
      · rintro _ ⟨⟩
        exact (hnumeral page).mpr h.cursor
      · intro cursor hcursor
        simp only [RawPage.record, rawPage, fetchResult, Option.mem_def, Option.ite_none_left_eq_some,
          not_or, Bool.not_eq_true, Option.some.injEq] at hcursor
        obtain ⟨⟨hne, hshort⟩, rfl⟩ := hcursor
        have hnext := h.nextCursor _ hrecords hne hshort
        have hthis := h.cursor.1
        exact (hnumeral (page + 1)).mpr ⟨by omega, hnext⟩
      · rintro _ ⟨⟩
        have hlt := checkStatus_lt hstatus
        omega

/-! The rows that an attempt asks for. -/

/-- A row is asked for after the response of its page, with nothing but calls of the store
between them, and fits if and only if that page can be recorded. -/
def FitsAsRecordable (platform : Platform) (d : Delivery) (calls : List (Call RunSig))
    (op : RunOp) : Prop :=
  ∀ defaults, op = .raw (.getOrCreateRecord defaults) → ∃ before page response between,
    calls = before ++ ⟨.send page, .ok response⟩ :: between ∧
    (∀ call ∈ between, ∃ op, call.1 = RunOp.raw op) ∧
    (defaults.Fits ↔ Recordable platform d page response)

/-- The copy of the run counts the pages before this one. -/
def Delivery.Counts (d : Delivery) (page : Int) (run : PipelineRun) : Prop :=
  d.first ≤ page ∧ run.pagesExtracted + 1 = d.sequence page

theorem Delivery.Counts.next {run : PipelineRun} (h : d.Counts page run) (result : FetchResult)
    (loaded : Nat) : d.Counts (page + 1) (withPage run result loaded) := by
  obtain ⟨hfirst, hsequence⟩ := h
  refine ⟨by omega, ?_⟩
  simp only [withPage, Delivery.sequence] at hsequence ⊢
  omega

theorem counts_first {limits : Int × Int} (hvalid : d.pipeline.sourceConfig.validate = .ok limits)
    (hfirst : firstPage d.claimed.lastSuccessfulCursor limits.2 = .ok page) :
    d.Counts page d.claimed := by
  have heq : d.first = page := by
    simp only [Delivery.first, hvalid, hfirst]
    rfl
  exact ⟨heq.le, by simp [Delivery.sequence, heq]⟩

theorem processPage_records {run : PipelineRun} {result : FetchResult} {stop : Bool}
    {before : List (Call RunSig)} (h : d.Counts page run)
    (hstatus : checkStatus response = .ok response)
    (hread : readPage d.pipeline.sourceConfig platform.loads page response =
      .ok ⟨some result, stop⟩) :
    Abides (FitsAsRecordable platform d)
      (fun _ out => ∀ run', out = .ok run' → d.Counts (page + 1) run')
      (before ++ [⟨.send page, .ok response⟩]) (processPage platform d.pipeline run result) := by
  have hput : ∀ calls op, touchesNoRecord op → FitsAsRecordable platform d calls (.raw op) :=
    fun calls op hop defaults heq => absurd (RunOp.raw.inj heq) (hop defaults).2
  refine (storeRawPayload_abides hput fun between tenant hbetween => ?_).handle
    (fun calls' record _ => ?_) fun _ _ _ => nofun
  · rintro _ ⟨⟩
    exact ⟨before, page, response, between, by simp, hbetween,
      record_fits_iff hstatus hread h.2 tenant⟩
  refine Prog.along_ofExcept (fun _ _ => nofun) fun rows _ => ⟨nofun, fun answer _ => ?_⟩
  refine Prog.along_ofExcept (fun _ _ => nofun) fun loaded _ =>
    ⟨nofun, fun _ _ => ⟨nofun, fun _ _ => ?_⟩⟩
  rintro _ ⟨⟩
  exact h.next result loaded

theorem program_records (platform : Platform) (d : Delivery) :
    Abides (FitsAsRecordable platform d) (fun _ _ => True) [] (d.program platform) := by
  have hother : ∀ calls op, noStoreCall op → FitsAsRecordable platform d calls op :=
    fun calls op hop defaults heq => absurd heq (hop _)
  refine runBody_abides hother (fun calls => ?_) d.isFinal
  refine execute_abides (K := d.Counts) hother (fun limits page => counts_first) ?_
  intro run page response result stop before h hstatus hread
  exact processPage_records h hstatus hread

/-- Whatever any workers have done, the row that a worker asks for fits if and only if the page
that it has just got can be recorded. -/
theorem row_fits_iff (platform : Platform) (tenant : Uuid) {w : World} {s : Deployment}
    (h : Reaches (Deployment.next platform tenant) (fun _ _ => True) (Sessions.idle w) s) {i : Nat}
    {x : Session RunSig Exc Unit Delivery} (hx : s.sessions i = some x)
    {defaults : RawPayloadRecord} {k : Except Exc RawPayloadRecord → RunProg Unit}
    (hprog : x.prog = .call (.raw (.getOrCreateRecord defaults)) k) :
    ∃ before page response between,
      x.log = before ++ ⟨.send page, .ok response⟩ :: between ∧
      (∀ call ∈ between, ∃ op, call.1 = RunOp.raw op) ∧
      (defaults.Fits ↔ Recordable platform x.request page response) :=
  (Deployment.conform (program_records platform) h).rule hx hprog defaults rfl

/-! A response that says more about its content type than the column holds. -/

instance (r : RawPayloadRecord) : Decidable r.Fits :=
  decidable_of_iff (r.storageUri.length ≤ 1024 ∧ r.contentType.length ≤ 100 ∧
      r.sizeBytes < 2 ^ 63 ∧ r.checksumSha256.length ≤ 64 ∧ r.sequence < 2 ^ 31 ∧
      (∀ cursor ∈ r.cursorUsed, cursor.length ≤ 255) ∧
      (∀ cursor ∈ r.nextCursor, cursor.length ≤ 255) ∧ r.itemCount < 2 ^ 31 ∧
      r.sourcePath.length ≤ 500 ∧ ∀ status ∈ r.httpStatus, status < 2 ^ 15)
    ⟨fun ⟨h₁, h₂, h₃, h₄, h₅, h₆, h₇, h₈, h₉, h₁₀⟩ => ⟨h₁, h₂, h₃, h₄, h₅, h₆, h₇, h₈, h₉, h₁₀⟩,
      fun ⟨h₁, h₂, h₃, h₄, h₅, h₆, h₇, h₈, h₉, h₁₀⟩ => ⟨h₁, h₂, h₃, h₄, h₅, h₆, h₇, h₈, h₉, h₁₀⟩⟩

def longContentType : Text := "application/json; profile=".toList ++ List.replicate 80 'a'

/-- A worker that has stored the bytes of a page and now asks for the row. -/
def storedAttempt (contentType : Option Text) : List DeploymentEvent :=
  .claim 0 ⟨1⟩ ⟨5⟩ (smallSync (some 2)).pipeline false 1 ::
  [RunAnswer.clock 1, .done, .done, .done, .response ⟨200, contentType, oneRecord⟩,
    .raw (.tenant (.ok ⟨3⟩)), .raw (.done ⟨0⟩)].map (DeploymentEvent.answer 0)

def askedRow : RunProg Unit → Option RawPayloadRecord
  | .call (.raw (.getOrCreateRecord defaults)) _ => some defaults
  | _ => none

theorem askedRow_some {p : RunProg Unit} {defaults : RawPayloadRecord}
    (h : askedRow p = some defaults) :
    ∃ k, p = .call (.raw (.getOrCreateRecord defaults)) k := by
  unfold askedRow at h
  split at h
  · cases h
    exact ⟨_, rfl⟩
  · cases h

def responses (calls : List (Call RunSig)) : List (Int × Response) :=
  calls.filterMap fun
    | ⟨.send page, .ok response⟩ => some (page, response)
    | _ => none

theorem mem_responses {calls : List (Call RunSig)} {page : Int} {response : Response}
    (h : (page, response) ∈ responses calls) : ⟨.send page, .ok response⟩ ∈ calls := by
  obtain ⟨call, hcall, heq⟩ := List.mem_filterMap.mp h
  split at heq
  · cases heq
    exact hcall
  · cases heq

def storedKey : Text := tenantKey ⟨3⟩ (logicalKey ⟨7⟩ ⟨1⟩ 1 (sha256hex oneRecord))

/-- The object of the first page is stored, its row does not fit. -/
theorem long_content_type_rejected : ∃ (s : Deployment) (x : Session RunSig Exc Unit Delivery)
    (defaults : RawPayloadRecord) (k : Except Exc RawPayloadRecord → RunProg Unit),
    Reaches (Deployment.next (smallSync (some 2)).platform ⟨3⟩) (fun _ _ => True)
      (Sessions.idle smallWorld) s ∧ s.sessions 0 = some x ∧
    x.prog = .call (.raw (.getOrCreateRecord defaults)) k ∧
    ⟨.send 1, .ok ⟨200, some longContentType, oneRecord⟩⟩ ∈ x.log ∧
    s.world.store.bucket storedKey = some ⟨oneRecord, some longContentType⟩ ∧ ¬ defaults.Fits := by
  have hfinal : ((replay (Deployment.next (smallSync (some 2)).platform ⟨3⟩) (fun _ _ => True)
      (Sessions.idle smallWorld) (storedAttempt (some longContentType))).bind fun s =>
        (s.sessions 0).bind fun x => (askedRow x.prog).map fun defaults =>
          (decide defaults.Fits, responses x.log, s.world.store.bucket storedKey)) =
      some (false, [(1, ⟨200, some longContentType, oneRecord⟩)],
        some ⟨oneRecord, some longContentType⟩) := by
    decide +kernel
  obtain ⟨s, hs, hfinal⟩ := Option.bind_eq_some_iff.mp hfinal
  obtain ⟨x, hx, hfinal⟩ := Option.bind_eq_some_iff.mp hfinal
  obtain ⟨defaults, hasked, hsummary⟩ := Option.map_eq_some_iff.mp hfinal
  obtain ⟨k, hprog⟩ := askedRow_some hasked
  simp only [Prod.mk.injEq, decide_eq_false_iff_not] at hsummary
  obtain ⟨hfits, hresponses, hobject⟩ := hsummary
  exact ⟨s, x, defaults, k, Reaches.of_replay _ hs, hx, hprog,
    mem_responses (hresponses ▸ List.mem_singleton_self _), hobject, hfits⟩

theorem small_page_recordable : ∃ (s : Deployment) (x : Session RunSig Exc Unit Delivery)
    (page : Int) (response : Response),
    Reaches (Deployment.next (smallSync (some 2)).platform ⟨3⟩) (fun _ _ => True)
      (Sessions.idle smallWorld) s ∧ s.sessions 0 = some x ∧
    ⟨.send page, .ok response⟩ ∈ x.log ∧
    Recordable (smallSync (some 2)).platform x.request page response := by
  have hfinal : ((replay (Deployment.next (smallSync (some 2)).platform ⟨3⟩) (fun _ _ => True)
      (Sessions.idle smallWorld) (storedAttempt none)).bind fun s =>
        (s.sessions 0).bind fun x => (askedRow x.prog).map fun defaults =>
          decide defaults.Fits) = some true := by
    decide +kernel
  obtain ⟨s, hs, hfinal⟩ := Option.bind_eq_some_iff.mp hfinal
  obtain ⟨x, hx, hfinal⟩ := Option.bind_eq_some_iff.mp hfinal
  obtain ⟨defaults, hasked, hfits⟩ := Option.map_eq_some_iff.mp hfinal
  obtain ⟨k, hprog⟩ := askedRow_some hasked
  have hreach := Reaches.of_replay _ hs
  obtain ⟨before, page, response, between, hlog, -, hiff⟩ :=
    row_fits_iff (smallSync (some 2)).platform ⟨3⟩ hreach hx hprog
  exact ⟨s, x, page, response, hreach, hx, by simp [hlog],
    hiff.mp (of_decide_eq_true hfits)⟩

end DataLake
