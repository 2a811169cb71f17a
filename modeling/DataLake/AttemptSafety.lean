import DataLake.Attempt

/-! The invariant of an attempt, call by call: one page, the loop over the pages, and
the record of how the attempt ended. -/

namespace DataLake

open Foundation

variable {y : Sync} {claimed copy : PipelineRun} {base : Int} {first t : Traced} {n : Nat}
  {l : Loaded} {extra : List PageEvent}

theorem pyOr_str (n : Int) (b : Option Text) : pyOr (some (str n)) b = some (str n) := by
  cases h : str n with
  | nil => exact absurd h (str_ne_nil n)
  | cons c cs => rfl

theorem firstPage_str (n start : Int) : firstPage (some (str n)) start = .ok n := by
  have hint := int_str n
  cases h : str n with
  | nil => exact absurd h (str_ne_nil n)
  | cons c cs =>
    rw [h] at hint
    simp [firstPage, hint]

theorem Copy.withPage {l' : Loaded} {result : FetchResult} {rows : List Row}
    (h : Copy claimed base n l copy) (hrows : l'.rows = l.rows ++ rows)
    (hrecords : l'.records = l.records + result.records.length)
    (hused : result.cursorUsed = some (str (base + n)))
    (hnext : result.nextCursor = if l'.ended then none else some (str (base + n + 1))) :
    Copy claimed base (n + 1) l' (withPage copy result rows.length) where
  pages := by simp [DataLake.withPage, h.pages, Nat.add_assoc]
  extracted := by simp [DataLake.withPage, h.extracted, hrecords, Nat.add_assoc]
  loaded := by simp [DataLake.withPage, h.loaded, hrows, Nat.add_assoc]
  payloads := by simp [DataLake.withPage, h.payloads, Nat.add_assoc]
  cursor := by
    cases hended : l'.ended with
    | true => simp [DataLake.withPage, hused, hnext, hended, cursorAfter, pyOr]
    | false => simp [DataLake.withPage, hused, hnext, hended, cursorAfter, pyOr_str]
  id := h.id
  status := h.status

theorem Progress.write {row : PipelineRun} (h : Progress claimed base n l copy) :
    Progress claimed base n l (RunFields.progress.write copy row) :=
  ⟨h.pages, h.extracted, h.loaded, h.payloads, h.cursor⟩

theorem processPage_safe {result : FetchResult} {stop : Bool} (maxPages : Int)
    (hcopy : Copy claimed base n l copy) (ht : AtPage y claimed base first n l [] t)
    (hpage : t.page = base + n) (hopen : l.ended = false)
    (hread : y.read (base + n) = .ok ⟨some result, stop⟩)
    (hused : result.cursorUsed = some (str (base + n)))
    (hnext : result.nextCursor = if stop then none else some (str (base + n + 1))) :
    (processPage y.platform (y.pipeline.withMaxPages maxPages) copy result).Safe
      (execSource y.source) Eq (Moments y claimed base first)
      (fun out t' => match out with
        | .ok copy' => ∃ l', l'.ended = stop ∧ AtPage y claimed base first (n + 1) l' [] t' ∧
          Copy claimed base (n + 1) l' copy'
        | .error _ => ∃ extra, Unsaved base n l extra ∧
          AtPage y claimed base first n l extra t') t := by
  have hstore : (rawCall (storeRawPayload y.platform.bucket (rawPage copy result))).Issues
      fun op : RunOp => op.quiet = true :=
    Prog.Issues.embed ((Prog.issues_true _).mono fun _ _ => rfl)
  refine (quiet_safe hstore (ht.moments (.inl rfl))).handle (fun _ => rfl)
    (fun record v hv => ?_) fun e v hv => ?_
  · obtain ⟨hsame, hpagev⟩ := hv
    have hv := ht.same hsame
    change Prog.Safe _ _ _ _ (orRaise (y.mapped result) >>= _) v
    cases hmapped : y.mapped result with
    | error e =>
      rintro _ rfl
      exact ⟨[], .inl rfl, hv⟩
    | ok rows =>
      obtain ⟨row, hrow, hprogress, hrunning⟩ := hv.row
      let l' : Loaded := ⟨l.rows ++ rows, l.records + result.records.length, stop⟩
      have hadd : y.add l (base + n) = some l' := by
        simp [Sync.add, hopen, hread, hmapped, l']
      have hunsaved : Unsaved base n l [.passed (base + n)] := .inr ⟨rfl, hopen⟩
      rw [orRaise_ok]
      refine safe_runCall fun c answer t₁ he => ?_
      obtain ⟨hruns₁, hevents₁, hpage₁, hload⟩ := execSource_load he
      rw [hpagev, hpage, hv.events, List.append_nil] at hevents₁
      have hrow₁ : findRun t₁.world.runs claimed.id = some row := by rw [hruns₁, hrow]
      rcases hload with ⟨rfl, hrows₁⟩ | ⟨e, rfl, hrows₁⟩
      · -- The rows are in the destination, and the run does not say so yet.
        rw [hv.rows, List.append_assoc] at hrows₁
        have hmoment : ∀ u, Same t₁ u → Moments y claimed base first t₁ u := by
          intro u hu
          exact ⟨n, l, hv.loaded, .inr ⟨l', hadd, hu.rows.trans hrows₁⟩,
            ⟨row, by rw [hu.runs, hrow₁], hprogress, fun hs => by simp [hrunning] at hs⟩,
            ⟨_, hunsaved, hu.events.trans hevents₁⟩⟩
        refine ⟨hmoment t₁ ⟨rfl, rfl, rfl⟩, ?_⟩
        rw [orRaise_ok]
        refine safe_runCall fun c r t₂ he => ?_
        obtain ⟨hsame₂, hpage₂⟩ := execSource_quiet rfl he
        refine ⟨hmoment t₂ hsame₂, safe_runCall fun c r t₃ he => ?_⟩
        obtain ⟨hruns₃, hrows₃, -, hevents₃⟩ := execSource_saveRun he
        have hcopy' : Copy claimed base (n + 1) l' (withPage copy result rows.length) :=
          hcopy.withPage rfl rfl hused hnext
        have hat : AtPage y claimed base first (n + 1) l' [] t₃ := by
          refine ⟨Sync.pages_of_add hv.loaded hadd, ?_, ?_, ?_⟩
          · rw [hrows₃, hsame₂.rows, hrows₁]
          · refine ⟨_, ?_, hcopy'.write, hrunning⟩
            rw [hruns₃, findRun_saveFields, hsame₂.runs, hrow₁]
            simp [hcopy'.id]
          · rw [hevents₃, hsame₂.events, hevents₁, hpage₂, hpage₁, hpagev, hpage]
            simp [pageEvents]
        refine ⟨⟨n + 1, l', hat.moment (.inl rfl)⟩, ?_⟩
        rintro _ rfl
        exact ⟨l', rfl, hat, hcopy'⟩
      · have hat : AtPage y claimed base first n l [.passed (base + n)] t₁ :=
          ⟨hv.loaded, hrows₁.trans hv.rows, ⟨row, hrow₁, hprogress, hrunning⟩, hevents₁⟩
        refine ⟨⟨n, l, hat.moment hunsaved⟩, ?_⟩
        rintro _ rfl
        exact ⟨_, hunsaved, hat⟩
  · rintro _ rfl
    exact ⟨[], .inl rfl, ht.same hv.1⟩

theorem send_safe (page : Int) (ht : AtPage y claimed base first n l [] t) :
    (send page).Safe (execSource y.source) Eq (Moments y claimed base first)
      (fun out t' => AtPage y claimed base first n l [] t' ∧ match out with
        | .ok response => t'.page = page ∧ response = y.source page
        | .error _ => True) t := by
  refine safe_runCall fun c answer t₁ he => ?_
  obtain ⟨hsame, hpage, rfl | ⟨e, rfl⟩⟩ := execSource_send he
  · refine ⟨ht.moments (.inl rfl) t₁ hsame, ?_⟩
    rintro _ rfl
    exact ⟨ht.same hsame, hpage, rfl⟩
  · refine ⟨ht.moments (.inl rfl) t₁ hsame, ?_⟩
    rintro _ rfl
    exact ⟨ht.same hsame, trivial⟩

/-- A second request for a page gets the same response. -/
theorem sendWithAuthRetry_safe (provider : Bool) (page : Int)
    (ht : AtPage y claimed base first n l [] t) :
    (sendWithAuthRetry provider page).Safe (execSource y.source) Eq
      (Moments y claimed base first)
      (fun out t' => AtPage y claimed base first n l [] t' ∧ match out with
        | .ok response => t'.page = page ∧ response = y.source page ∧
          checkStatus (y.source page) = .ok response
        | .error _ => True) t := by
  have hcheck : ∀ response v, AtPage y claimed base first n l [] v → v.page = page →
      response = y.source page → Prog.Safe (execSource y.source) Eq
        (Moments y claimed base first)
        (fun out t' => AtPage y claimed base first n l [] t' ∧ match out with
          | .ok response => t'.page = page ∧ response = y.source page ∧
            checkStatus (y.source page) = .ok response
          | .error _ => True) (orRaise (checkStatus response)) v := by
    rintro response v hv hpage rfl
    cases hstatus : checkStatus (y.source page) with
    | error e =>
      rintro _ rfl
      exact ⟨hv, trivial⟩
    | ok r =>
      rintro _ rfl
      exact ⟨hv, hpage, checkStatus_ok hstatus, rfl⟩
  refine (send_safe page ht).handle (fun _ => rfl) (fun response v hv => ?_) fun e v hv => ?_
  · obtain ⟨hat, hpage, hresponse⟩ := hv
    dsimp only
    split_ifs
    · refine (send_safe page hat).handle (fun _ => rfl) (fun response' u hu => ?_) fun e u hu => ?_
      · exact hcheck response' u hu.1 hu.2.1 hu.2.2
      · rintro _ rfl
        exact ⟨hu.1, trivial⟩
    · exact hcheck response v hat hpage hresponse
  · rintro _ rfl
    exact ⟨hv.1, trivial⟩

/-- How the loop over the pages ends: at the end of the source, or with an exception
while pages may remain. -/
def LoopEnd (y : Sync) (claimed : PipelineRun) (base : Int) (first : Traced)
    (out : Except Exc PipelineRun) (t : Traced) : Prop :=
  match out with
  | .ok copy => ∃ n l, AtPage y claimed base first n l [] t ∧ Copy claimed base n l copy ∧
    y.Complete base n
  | .error _ => ∃ n l extra, AtPage y claimed base first n l extra t ∧ Unsaved base n l extra ∧
    l.ended = false

theorem AtPage.loopEnd_error (ht : AtPage y claimed base first n l extra t)
    (hextra : Unsaved base n l extra) (hopen : l.ended = false) (e : Exc) :
    (Prog.raise e : RunProg PipelineRun).Safe (execSource y.source) Eq
      (Moments y claimed base first) (LoopEnd y claimed base first) t := by
  rintro _ rfl
  exact ⟨n, l, extra, ht, hextra, hopen⟩

theorem turn_safe (maxPages : Int) (provider : Bool) {next : PipelineRun → RunProg PipelineRun}
    (hcopy : Copy claimed base n l copy) (ht : AtPage y claimed base first n l [] t)
    (hopen : l.ended = false)
    (hnext : ∀ l' copy' t', Copy claimed base (n + 1) l' copy' →
      AtPage y claimed base first (n + 1) l' [] t' → l'.ended = false →
      (next copy').Safe (execSource y.source) Eq (Moments y claimed base first)
        (LoopEnd y claimed base first) t') :
    (do
      let response ← sendWithAuthRetry provider (base + n)
      let step ← orRaise (readPage (y.pipeline.withMaxPages maxPages).sourceConfig
        y.platform.loads (base + n) response)
      let copy ← match step.page with
        | some result =>
          processPage y.platform (y.pipeline.withMaxPages maxPages) copy result
        | none => pure copy
      if step.stop then return copy else next copy : RunProg PipelineRun).Safe
      (execSource y.source) Eq (Moments y claimed base first) (LoopEnd y claimed base first) t := by
  refine (sendWithAuthRetry_safe provider (base + n) ht).handle (fun _ => rfl)
    (fun response v hv => ?_) fun e v hv => hv.1.loopEnd_error (.inl rfl) hopen e
  obtain ⟨hat, hpage, rfl, hstatus⟩ := hv
  have hread : y.read (base + n) = readPage (y.pipeline.withMaxPages maxPages).sourceConfig
      y.platform.loads (base + n) (y.source (base + n)) := by
    simp only [Sync.read, hstatus]
    rfl
  cases hstep : readPage (y.pipeline.withMaxPages maxPages).sourceConfig y.platform.loads
      (base + n) (y.source (base + n)) with
  | error e => exact hat.loopEnd_error (.inl rfl) hopen e
  | ok step =>
    obtain ⟨page, stop⟩ := step
    have hcursor := readPage_ok hstep
    rw [hstep] at hread
    rw [orRaise_ok]
    cases page with
    | none =>
      obtain rfl : stop = true := hcursor
      rintro _ rfl
      exact ⟨n, l, hat, hcopy, l, hat.loaded, .inr hread⟩
    | some result =>
      refine (processPage_safe maxPages hcopy hat hpage hopen hread hcursor.1 hcursor.2).handle
        (fun _ => rfl) (fun copy' u hu => ?_) fun e u hu => ?_
      · obtain ⟨l', rfl, hat', hcopy'⟩ := hu
        cases hended : l'.ended with
        | true =>
          rintro _ rfl
          exact ⟨n + 1, l', hat', hcopy', l', hat'.loaded, .inl hended⟩
        | false => exact hnext l' copy' u hcopy' hat' hended
      · obtain ⟨extra, hextra, hat'⟩ := hu
        exact hat'.loopEnd_error hextra hopen e

theorem fetchPages_safe (maxPages : Int) (provider : Bool) (remaining : Nat)
    (hcopy : Copy claimed base n l copy) (ht : AtPage y claimed base first n l [] t)
    (hopen : l.ended = false) :
    (fetchPages (y.pipeline.withMaxPages maxPages).sourceConfig y.platform.loads maxPages provider
      (processPage y.platform (y.pipeline.withMaxPages maxPages)) remaining (base + n) copy).Safe
      (execSource y.source) Eq (Moments y claimed base first) (LoopEnd y claimed base first) t := by
  induction remaining generalizing n l copy t with
  | zero =>
    exact turn_safe maxPages provider hcopy ht hopen fun l' copy' t' _ hat hopen' =>
      hat.loopEnd_error (.inl rfl) hopen' _
  | succ remaining ih =>
    refine turn_safe maxPages provider hcopy ht hopen fun l' copy' t' hcopy' hat hopen' => ?_
    have hpage : base + n + 1 = base + ((n + 1 : Nat) : Int) := by push_cast; omega
    rw [hpage]
    exact ih hcopy' hat hopen'

/-- The page that the cursor of a claimed run names; without one, the start page. -/
def Pipeline.basePage (pipeline : Pipeline) (cursor : Option Text) : Int :=
  match firstPage cursor pipeline.start with
  | .ok page => page
  | .error _ => pipeline.start

theorem execute_safe (maxPages : Int) (hbase : base = y.pipeline.basePage copy.lastSuccessfulCursor)
    (hcopy : Copy claimed base 0 {} copy) (ht : AtPage y claimed base first 0 {} [] t) :
    (execute y.platform (y.pipeline.withMaxPages maxPages) copy).Safe (execSource y.source) Eq
      (Moments y claimed base first)
      (fun out t' => LoopEnd y claimed base first out t' ∧ ∀ copy', out = .ok copy' → y.Runnable)
      t := by
  have herror : ∀ e u, AtPage y claimed base first 0 {} [] u →
      (Prog.raise e : RunProg PipelineRun).Safe (execSource y.source) Eq
        (Moments y claimed base first) (fun out t' => LoopEnd y claimed base first out t' ∧
          ∀ copy', out = .ok copy' → y.Runnable) u := fun e u hu v hv =>
    ⟨hu.loopEnd_error (.inl rfl) rfl e v hv, fun _ h => by cases h⟩
  unfold execute
  split_ifs with hmapping
  · exact herror _ _ ht
  refine safe_runCall fun c source t₁ he => ?_
  obtain ⟨hsame₁, -⟩ := execSource_quiet rfl he
  have ht₁ := ht.same hsame₁
  refine ⟨ht.moments (.inl rfl) t₁ hsame₁, ?_⟩
  cases source with
  | error e => exact herror _ _ ht₁
  | ok _ =>
    refine safe_runCall fun c destination t₂ he => ?_
    obtain ⟨hsame₂, -⟩ := execSource_quiet rfl he
    have ht₂ := ht₁.same hsame₂
    refine ⟨ht₁.moments (.inl rfl) t₂ hsame₂, ?_⟩
    cases destination with
    | error e => exact herror _ _ ht₂
    | ok _ =>
      change Prog.Safe _ _ _ _ (fetch _ _ _ _ _) _
      unfold fetch
      cases hvalid : (y.pipeline.withMaxPages maxPages).sourceConfig.validate with
      | error e => exact herror _ _ ht₂
      | ok limits =>
        obtain ⟨hmax, hstart⟩ := validate_ok hvalid
        obtain rfl : limits.1 = maxPages := by
          simp only [Pipeline.withMaxPages, RestApiConfig.withMaxPages, Json.positiveInt,
            Option.ite_none_right_eq_some, Option.some.injEq] at hmax
          exact hmax.2.symm
        have hstart : y.pipeline.start = limits.2 := by
          simp only [Pipeline.start]
          exact congrArg (Option.getD · 1) hstart
        change Prog.Safe _ _ _ _ (orRaise (firstPage copy.lastSuccessfulCursor limits.2) >>= _) _
        cases hfirst : firstPage copy.lastSuccessfulCursor limits.2 with
        | error e => exact herror _ _ ht₂
        | ok page =>
          obtain rfl : base = page := by
            rw [hbase, Pipeline.basePage, hstart, hfirst]
          rw [orRaise_ok]
          cases hprovider : resolveAuthProvider
              (y.pipeline.withMaxPages limits.1).sourceConfig with
          | error e => exact herror _ _ ht₂
          | ok provider =>
            have hloop := fetchPages_safe limits.1 provider (limits.1.toNat - 1) hcopy ht₂ rfl
            rw [Int.natCast_zero, Int.add_zero] at hloop
            refine hloop.weaken fun out t' h => ⟨h, fun _ _ => ?_⟩
            refine ⟨by simpa [Pipeline.withMaxPages] using hmapping, fun m hm => ?_, provider, hprovider⟩
            rw [hstart]
            exact validate_maxPages (y.pipeline.withMaxPages limits.1).sourceConfig hvalid hm

/-! The record of the attempt. -/

/-- What an attempt leaves, and with which outcome. -/
def BodyEnd (y : Sync) (claimed : PipelineRun) (base : Int) (first : Traced)
    (out : Except Exc Unit) (t : Traced) : Prop :=
  ∃ n l row, Ended y claimed base first n l t row ∧ (out = .ok () → row.status = .succeeded)

theorem Ended.same {row : PipelineRun} {t' : Traced} (h : Ended y claimed base first n l t row)
    (hs : Same t t') : Ended y claimed base first n l t' row where
  loaded := h.loaded
  rows := hs.rows.trans h.rows
  found := by rw [hs.runs, h.found]
  progress := h.progress
  events := by
    rw [hs.events]
    exact h.events
  complete := h.complete
  unended := h.unended

theorem Progress.of_fields {row row' : PipelineRun} (h : Progress claimed base n l row)
    (hfields : row'.pagesExtracted = row.pagesExtracted ∧
      row'.recordsExtracted = row.recordsExtracted ∧ row'.recordsLoaded = row.recordsLoaded ∧
      row'.rawPayloadCount = row.rawPayloadCount ∧
      row'.lastSuccessfulCursor = row.lastSuccessfulCursor) :
    Progress claimed base n l row' := by
  obtain ⟨hpages, hextracted, hloaded, hpayloads, hcursor⟩ := hfields
  exact ⟨hpages.trans h.pages, hextracted.trans h.extracted, hloaded.trans h.loaded,
    hpayloads.trans h.payloads, hcursor.trans h.cursor⟩

theorem AtPage.close {fields : RunFields} {t' : Traced} {c : RunAnswer} {r : Unit}
    (ht : AtPage y claimed base first n l extra t) (hextra : Unsaved base n l extra)
    (hid : copy.id = claimed.id) (hfields : fields = .outcome ∨ fields = .error)
    (hcomplete : fields = .outcome → copy.status = .succeeded → y.Runnable ∧ y.Complete base n)
    (hunended : ¬ (fields = .outcome ∧ copy.status = .succeeded) → l.ended = false)
    (he : execSource y.source (.saveRun fields copy) c t = some (r, t')) :
    ∃ row, Ended y claimed base first n l t' row ∧
      (fields = .outcome → row.status = copy.status) := by
  obtain ⟨row, hrow, hprogress, hrunning⟩ := ht.row
  obtain ⟨hruns, hrows, -, hevents⟩ := execSource_saveRun he
  have hfound : findRun t'.world.runs claimed.id = some (fields.write copy row) := by
    rw [hruns, findRun_saveFields, hrow]
    simp [hid]
  have hextra' : t'.events = first.events ++ pageEvents base n ++ extra := by
    rw [hevents, ht.events]
    rcases hfields with rfl | rfl <;> simp
  refine ⟨fields.write copy row, ⟨⟨ht.loaded, hrows.trans ht.rows, hfound, ?_, ?_, ?_⟩,
    ⟨extra, hextra, hextra'⟩⟩, ?_⟩
  · rcases hfields with rfl | rfl <;> exact hprogress.of_fields ⟨rfl, rfl, rfl, rfl, rfl⟩
  · rcases hfields with rfl | rfl
    · exact hcomplete rfl
    · intro h
      have hstatus : row.status = .succeeded := h
      simp [hrunning] at hstatus
  · rcases hfields with rfl | rfl
    · exact fun h => hunended fun hs => h hs.2
    · exact fun _ => hunended (by simp)
  · rcases hfields with rfl | rfl
    · exact fun _ => rfl
    · exact fun h => by cases h

theorem Ended.rest_safe {α : Type} {p : RunProg α} {row : PipelineRun}
    (ht : Ended y claimed base first n l t row)
    (hp : p.Issues fun op : RunOp => op.quiet = true) :
    p.Safe (execSource y.source) Eq (Moments y claimed base first)
      (fun _ t' => Ended y claimed base first n l t' row) t :=
  (quiet_safe hp fun _ hs => ⟨n, l, (ht.same hs).moment⟩).weaken fun _ _ h => ht.same h.1

theorem recordSuccess_safe (task : TaskExecution) (hcopy : Copy claimed base n l copy)
    (ht : AtPage y claimed base first n l [] t) (hcomplete : y.Runnable ∧ y.Complete base n) :
    (recordSuccess copy task).Safe (execSource y.source) Eq (Moments y claimed base first)
      (BodyEnd y claimed base first) t := by
  refine safe_runCall fun c now t₁ he => ?_
  obtain ⟨hsame₁, -⟩ := execSource_quiet rfl he
  have ht₁ := ht.same hsame₁
  refine ⟨ht.moments (.inl rfl) t₁ hsame₁, safe_runCall fun c finishedAt t₂ he => ?_⟩
  obtain ⟨hsame₂, -⟩ := execSource_quiet rfl he
  have ht₂ := ht₁.same hsame₂
  refine ⟨ht₁.moments (.inl rfl) t₂ hsame₂, ?_⟩
  simp only [markRunSucceeded, hcopy.status, ne_eq, not_true_eq_false, if_false, Except.mapError]
  rw [orRaise_ok]
  refine safe_runCall fun c r t₃ he => ?_
  obtain ⟨row, hend, hrow⟩ := ht₂.close (.inl rfl) (by exact hcopy.id) (.inl rfl)
    (fun _ _ => hcomplete) (fun h => absurd ⟨rfl, rfl⟩ h) he
  refine ⟨⟨n, l, hend.moment⟩, (hend.rest_safe ?_).weaken fun _ _ h =>
    ⟨n, l, row, h, fun _ => hrow rfl⟩⟩
  exact ⟨rfl, fun _ => trivial⟩

theorem recordFailure_safe (task : TaskExecution) (e : DataLakeError) (isFinal : Bool)
    (hid : copy.id = claimed.id) (hstatus : copy.status = .running)
    (ht : AtPage y claimed base first n l extra t) (hextra : Unsaved base n l extra)
    (hopen : l.ended = false) :
    (recordFailure y.platform copy task e isFinal).Safe (execSource y.source) Eq
      (Moments y claimed base first)
      (fun _ t' => ∃ n l row, Ended y claimed base first n l t' row) t := by
  unfold recordFailure
  dsimp only
  split_ifs
  · refine safe_runCall fun c now t₁ he => ?_
    obtain ⟨hsame₁, -⟩ := execSource_quiet rfl he
    have ht₁ := ht.same hsame₁
    refine ⟨ht.moments hextra t₁ hsame₁, ?_⟩
    simp only [markRunFailed, hstatus, ne_eq, not_true_eq_false, if_false, Except.mapError]
    rw [orRaise_ok]
    refine safe_runCall fun c r t₂ he => ?_
    obtain ⟨row, hend, -⟩ := ht₁.close hextra (by exact hid) (.inl rfl) (fun _ h => by cases h)
      (fun _ => hopen) he
    refine ⟨⟨n, l, hend.moment⟩, (hend.rest_safe ?_).weaken fun _ _ h => ⟨n, l, row, h⟩⟩
    exact ⟨rfl, fun _ => ⟨rfl, fun _ => trivial⟩⟩
  · refine safe_runCall fun c r t₁ he => ?_
    obtain ⟨row, hend, -⟩ := ht.close hextra (by exact hid) (.inr rfl) (fun h => by cases h)
      (fun _ => hopen) he
    refine ⟨⟨n, l, hend.moment⟩, (hend.rest_safe ?_).weaken fun _ _ h => ⟨n, l, row, h⟩⟩
    exact ⟨rfl, fun _ => trivial⟩

theorem atPage_start (hstatus : claimed.status = .running)
    (hrow : findRun first.world.runs claimed.id = some claimed) :
    AtPage y claimed base first 0 {} [] first :=
  ⟨rfl, by simp, ⟨claimed, hrow, ⟨rfl, rfl, rfl, rfl, rfl⟩, hstatus⟩, by simp [pageEvents]⟩

theorem moments_start (hstatus : claimed.status = .running)
    (hrow : findRun first.world.runs claimed.id = some claimed) :
    Moments y claimed base first first first :=
  ⟨0, {}, (atPage_start hstatus hrow).moment (.inl rfl)⟩

theorem runBody_safe (maxPages : Int) (isFinal : Bool)
    (hbase : base = y.pipeline.basePage claimed.lastSuccessfulCursor)
    (hstatus : claimed.status = .running)
    (hrow : findRun first.world.runs claimed.id = some claimed) :
    (runBody y.platform (y.pipeline.withMaxPages maxPages) claimed isFinal).Safe
      (execSource y.source) Eq (Moments y claimed base first) (BodyEnd y claimed base first)
      first := by
  have hcopy : Copy claimed base 0 {} claimed := ⟨⟨rfl, rfl, rfl, rfl, rfl⟩, rfl, hstatus⟩
  have ht : AtPage y claimed base first 0 {} [] first := atPage_start hstatus hrow
  refine safe_runCall fun c startedAt t₁ he => ?_
  obtain ⟨hsame₁, -⟩ := execSource_quiet rfl he
  have ht₁ := ht.same hsame₁
  refine ⟨ht.moments (.inl rfl) t₁ hsame₁, safe_runCall fun c r t₂ he => ?_⟩
  obtain ⟨hsame₂, -⟩ := execSource_quiet rfl he
  have ht₂ := ht₁.same hsame₂
  refine ⟨ht₁.moments (.inl rfl) t₂ hsame₂, ?_⟩
  refine (execute_safe maxPages hbase hcopy ht₂).handle (fun _ => rfl) (fun copy u hu => ?_)
    fun e u hu => ?_
  · obtain ⟨⟨n, l, hat, hcopy', hcomplete⟩, hrunnable⟩ := hu
    exact recordSuccess_safe _ hcopy' hat ⟨hrunnable _ rfl, hcomplete⟩
  · obtain ⟨⟨n, l, extra, hat, hextra, hopen⟩, -⟩ := hu
    refine (recordFailure_safe _ e.wrapped isFinal rfl hstatus hat hextra hopen).handle
      (fun _ => rfl) (fun _ v hv => ?_) fun e v hv => ?_
    · rintro _ rfl
      obtain ⟨n, l, row, hend⟩ := hv
      exact ⟨n, l, row, hend, fun h => by cases h⟩
    · rintro _ rfl
      obtain ⟨n, l, row, hend⟩ := hv
      exact ⟨n, l, row, hend, fun h => by cases h⟩

end DataLake
