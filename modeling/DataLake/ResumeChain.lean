import DataLake.Chain
import DataLake.SingleSync

/-! A chain of runs that continue one another loads what one uninterrupted sync would
load: the invariant over attempts and over runs. -/

namespace DataLake

open Foundation

/-- A run that has not started and continues none. -/
structure Fresh (row : PipelineRun) : Prop where
  status : row.status = .pending
  cursor : row.lastSuccessfulCursor = none
  pages : row.pagesExtracted = 0
  extracted : row.recordsExtracted = 0
  loaded : row.recordsLoaded = 0
  payloads : row.rawPayloadCount = 0

variable {y : Sync} {w : World} {origin claimed row : PipelineRun} {start : Int} {n m : Nat}
  {l l' : Loaded} {first : Traced}

theorem cursorAfter_append (cursor : Option Text) (hzero : m = 0 → l'.ended = false) :
    cursorAfter (cursorAfter cursor start n false) (start + n) m l'.ended =
      cursorAfter cursor start (n + m) l'.ended := by
  cases m with
  | zero => simp [cursorAfter, hzero]
  | succ m =>
    have hpage : start + n + m = start + ((n + m : Nat) : Int) := by push_cast; omega
    cases l'.ended <;> simp [cursorAfter, hpage]

theorem Progress.trans (h : Progress origin start n l claimed) (hopen : l.ended = false)
    (hzero : m = 0 → l'.ended = false) (h' : Progress claimed (start + n) m l' row) :
    Progress origin start (n + m) (Sync.Loaded.append l l') row where
  pages := by rw [h'.pages, h.pages, Nat.add_assoc]
  extracted := by rw [h'.extracted, h.extracted, Nat.add_assoc]; rfl
  loaded := by simp [h'.loaded, h.loaded, Sync.Loaded.append, Nat.add_assoc]
  payloads := by rw [h'.payloads, h.payloads, Nat.add_assoc]
  cursor := by
    rw [h'.cursor, h.cursor, hopen]
    exact cursorAfter_append _ hzero

theorem pages_zero (h : y.pages start m = some l') (hm : m = 0) : l'.ended = false := by
  subst hm
  obtain rfl : {} = l' := Option.some.inj h
  rfl

theorem basePage_eq (h : Progress origin y.pipeline.start n l row)
    (horigin : origin.lastSuccessfulCursor = none) (hopen : l.ended = false) :
    y.pipeline.basePage row.lastSuccessfulCursor = y.pipeline.start + n := by
  rw [h.cursor, horigin, hopen]
  cases n with
  | zero => simp [cursorAfter, Pipeline.basePage, firstPage]
  | succ n =>
    simp only [cursorAfter, Pipeline.basePage, firstPage_str]
    push_cast
    omega

/-- A run from which an attempt starts. -/
structure Resumed (y : Sync) (w : World) (origin : PipelineRun) (run : Uuid) (n : Nat) (l : Loaded)
    (claimed : PipelineRun) (first : Traced) : Prop where
  loaded : y.pages y.pipeline.start n = some l
  unended : l.ended = false
  rows : first.world.rows = w.rows ++ l.rows
  progress : Progress origin y.pipeline.start n l claimed
  id : claimed.id = run

/-- The chain between two attempts, and in one. -/
def ChainInv (y : Sync) (w : World) (origin : PipelineRun) (s : Chain) : Prop :=
  match s.attempt with
  | none => ∃ n l row, Between y w.rows origin y.pipeline.start s.run n l s.traced row
  | some p => ∃ n l claimed first, Resumed y w origin s.run n l claimed first ∧
    Moments y claimed (y.pipeline.start + n) first first s.traced ∧
    p.Safe (execSource y.source) Eq (Moments y claimed (y.pipeline.start + n) first)
      (BodyEnd y claimed (y.pipeline.start + n) first) s.traced

theorem Resumed.rows_append {run : Uuid} {s : Traced}
    (h : Resumed y w origin run n l claimed first)
    (hr : s.world.rows = first.world.rows ++ l'.rows) :
    s.world.rows = w.rows ++ (Sync.Loaded.append l l').rows := by
  rw [hr, h.rows, List.append_assoc]
  rfl

theorem Resumed.ended {run : Uuid} {t : Traced} (h : Resumed y w origin run n l claimed first)
    (he : Ended y claimed (y.pipeline.start + n) first m l' t row) :
    Between y w.rows origin y.pipeline.start run (n + m) (Sync.Loaded.append l l') t row where
  loaded := Sync.pages_append h.loaded h.unended he.loaded
  rows := h.rows_append he.rows
  found := by rw [← h.id, he.found]
  progress := h.progress.trans h.unended (pages_zero he.loaded) he.progress
  complete hs := (he.complete hs).imp_right fun hc => hc.append h.loaded h.unended
  unended hs := he.unended hs

variable {s t : Chain}

theorem Between.claim {run : Uuid} {u : Traced}
    (hb : Between y w.rows origin y.pipeline.start run n l u row) (task : Uuid) (now : Nat)
    (horigin : origin.lastSuccessfulCursor = none) (hopen : l.ended = false)
    (hclaimed : claimed = claimedRow row task now)
    (hfirst : first = u.withRuns (saveFields .claim claimed u.world.runs)) (maxPages : Int)
    (isFinal : Bool) :
    Resumed y w origin run n l claimed first ∧
    Moments y claimed (y.pipeline.start + n) first first first ∧
    (runBody y.platform (y.pipeline.withMaxPages maxPages) claimed isFinal).Safe
      (execSource y.source) Eq (Moments y claimed (y.pipeline.start + n) first)
      (BodyEnd y claimed (y.pipeline.start + n) first) first := by
  subst hclaimed hfirst
  have hid : row.id = run := findRun_id hb.found
  have hfound := findRun_claim hb.found task now
  refine ⟨⟨hb.loaded, hopen, hb.rows, hb.progress.of_fields ⟨rfl, rfl, rfl, rfl, rfl⟩, hid⟩,
    moments_start rfl hfound, ?_⟩
  exact runBody_safe maxPages isFinal (basePage_eq hb.progress horigin hopen).symm rfl hfound

theorem ChainInv.deliver {task : Uuid} {maxPages : Int} {isFinal : Bool} {now : Nat}
    (horigin : origin.lastSuccessfulCursor = none)
    (hs : ChainInv y w origin s) (h : s.next y (.deliver task maxPages isFinal now) = some t) :
    ChainInv y w origin t := by
  obtain ⟨hattempt, row, hrow, rfl | ⟨claimed, hclaim, rfl⟩⟩ := Chain.next_deliver h
  · exact hs
  · simp only [ChainInv, hattempt] at hs
    obtain ⟨n, l, row', hb⟩ := hs
    obtain rfl : row = row' := Option.some.inj (hrow.symm.trans hb.found)
    obtain ⟨hstatus, hclaimed⟩ := claimRun_ok hclaim
    have hopen : l.ended = false := hb.unended fun h => by simp [h] at hstatus
    exact ⟨n, l, claimed, _, hb.claim task now horigin hopen hclaimed rfl maxPages isFinal⟩

theorem ChainInv.answer {c : RunAnswer} (hs : ChainInv y w origin s)
    (h : s.next y (.answer c) = some t) : ChainInv y w origin t := by
  obtain ⟨p, p', traced, hattempt, hp, rfl⟩ := Chain.next_answer h
  simp only [ChainInv, hattempt] at hs
  obtain ⟨n, l, claimed, first, hresumed, -, hsafe⟩ := hs
  obtain ⟨hmoment, hsafe'⟩ := hsafe.step (fun _ => rfl) hp
  exact ⟨n, l, claimed, first, hresumed, hmoment, hsafe'⟩

theorem ChainInv.finish (hs : ChainInv y w origin s) (h : s.next y .finish = some t) :
    ChainInv y w origin t := by
  obtain ⟨⟨out, hattempt⟩, rfl⟩ := Chain.next_finish h
  simp only [ChainInv, hattempt] at hs
  obtain ⟨n, l, claimed, first, hresumed, -, hsafe⟩ := hs
  obtain ⟨m, l', row, hend, -⟩ := hsafe.ended fun _ => rfl
  exact ⟨n + m, _, row, hresumed.ended hend⟩

theorem findRun_fresh {runs : List PipelineRun} {new : PipelineRun}
    (hnew : new.id ∉ runs.map PipelineRun.id) : findRun (runs ++ [new]) new.id = some new := by
  have hnone : findRun runs new.id = none := by
    refine List.find?_eq_none.mpr fun row hrow => ?_
    have hne : row.id ≠ new.id := fun h => hnew (List.mem_map.mpr ⟨row, hrow, h⟩)
    simpa using hne
  simp only [findRun] at hnone
  simp [findRun, List.find?_append, hnone]

theorem ChainInv.continueRun {key : Option Text} {policy : DispatchOp → DispatchAnswer}
    (hs : ChainInv y w origin s) (h : s.next y (.continueRun key policy) = some t) :
    ChainInv y w origin t := by
  obtain ⟨hattempt, row, hrow, rfl | ⟨key, fresh, hcontinuable, hfresh, rfl⟩⟩ :=
    Chain.next_continueRun h
  · exact hs
  · simp only [ChainInv, hattempt] at hs ⊢
    obtain ⟨n, l, row', hb⟩ := hs
    obtain rfl : row = row' := Option.some.inj (hrow.symm.trans hb.found)
    have hfailed : row.status = .failed := by
      simp only [isContinuable, Bool.and_eq_true, decide_eq_true_eq] at hcontinuable
      exact hcontinuable.1
    have hopen : l.ended = false := hb.unended (by simp [hfailed])
    exact ⟨n, l, _, hb.loaded, hb.rows, findRun_fresh hfresh,
      hb.progress.of_fields ⟨rfl, rfl, rfl, rfl, rfl⟩, fun h => (by cases h), fun _ => hopen⟩

def ChainEvent.alive : ChainEvent → Bool
  | .die => false
  | _ => true

abbrev Chain.Alive (_ : Chain) (e : ChainEvent) : Prop := e.alive = true

theorem ChainInv.step {e : ChainEvent} (horigin : origin.lastSuccessfulCursor = none)
    (hs : ChainInv y w origin s) (hok : s.Alive e) (h : s.next y e = some t) :
    ChainInv y w origin t := by
  cases e with
  | deliver task maxPages isFinal now => exact hs.deliver horigin h
  | answer c => exact hs.answer h
  | finish => exact hs.finish h
  | die => cases hok
  | continueRun key policy => exact hs.continueRun h

theorem Fresh.between (hrow : findRun w.runs origin.id = some origin) (hfresh : Fresh origin) :
    Between y w.rows origin y.pipeline.start origin.id 0 {} (Chain.start w origin.id).traced
      origin where
  loaded := rfl
  rows := by simp [Chain.start]
  found := hrow
  progress := ⟨rfl, rfl, rfl, rfl, rfl⟩
  complete h := by simp [hfresh.status] at h
  unended _ := rfl

theorem chainInv_reaches (hrow : findRun w.runs origin.id = some origin) (hfresh : Fresh origin)
    (h : Reaches (Chain.next y) Chain.Alive (Chain.start w origin.id) s) :
    ChainInv y w origin s := by
  have hstart : ChainInv y w origin (Chain.start w origin.id) :=
    ⟨0, {}, origin, hfresh.between hrow⟩
  exact h.invariant hstart fun _ _ _ ht hok he => ht.step hfresh.cursor hok he

theorem ChainInv.firstPages (hs : ChainInv y w origin s) :
    ∃ n l, y.pages y.pipeline.start n = some l ∧ s.traced.world.rows = w.rows ++ l.rows := by
  unfold ChainInv at hs
  split at hs
  · obtain ⟨n, l, row, hb⟩ := hs
    exact ⟨n, l, hb.loaded, hb.rows⟩
  · obtain ⟨n, l, claimed, first, hresumed, ⟨m, l', hmoment⟩, -⟩ := hs
    rcases hmoment.rows with hr | ⟨l'', hadd, hr⟩
    · exact ⟨n + m, _, Sync.pages_append hresumed.loaded hresumed.unended hmoment.loaded,
        hresumed.rows_append hr⟩
    · have hloaded := Sync.pages_of_add hmoment.loaded hadd
      exact ⟨n + (m + 1), _, Sync.pages_append hresumed.loaded hresumed.unended hloaded,
        hresumed.rows_append hr⟩

/-- What a run that has succeeded has loaded and counted. -/
structure Synced (y : Sync) (w : World) (origin : PipelineRun) (rows : List Row) (n : Nat)
    (l : Loaded) (row : PipelineRun) : Prop where
  loaded : y.pages y.pipeline.start n = some l
  complete : y.Complete y.pipeline.start n
  runnable : y.Runnable
  rows : rows = w.rows ++ l.rows
  progress : Progress origin y.pipeline.start n l row

theorem ChainInv.synced (hs : ChainInv y w origin s) (hrow : s.row = some row)
    (hsucceeded : row.status = .succeeded) :
    ∃ n l, Synced y w origin s.traced.world.rows n l row := by
  unfold ChainInv at hs
  split at hs
  · obtain ⟨n, l, row', hb⟩ := hs
    obtain rfl : row = row' := Option.some.inj (hrow.symm.trans hb.found)
    obtain ⟨hrunnable, hcomplete⟩ := hb.complete hsucceeded
    exact ⟨n, l, hb.loaded, hcomplete, hrunnable, hb.rows, hb.progress⟩
  · obtain ⟨n, l, claimed, first, hresumed, ⟨m, l', hmoment⟩, -⟩ := hs
    obtain ⟨row', hrow', hprogress, hdone⟩ := hmoment.row
    rw [hresumed.id] at hrow'
    obtain rfl : row = row' := Option.some.inj (hrow.symm.trans hrow')
    obtain ⟨hrunnable, hcomplete, hr⟩ := hdone hsucceeded
    exact ⟨n + m, _, Sync.pages_append hresumed.loaded hresumed.unended hmoment.loaded,
      hcomplete.append hresumed.loaded hresumed.unended, hrunnable, hresumed.rows_append hr,
      hresumed.progress.trans hresumed.unended (pages_zero hmoment.loaded) hprogress⟩

def claimedWorld (w : World) (claimed : PipelineRun) : Traced :=
  (Chain.start w claimed.id).traced.withRuns (saveFields .claim claimed w.runs)

/-- The run claimed and executed in one attempt, in which no call fails. -/
def SingleRun (y : Sync) (w : World) (origin : PipelineRun) (maxPages : Int)
    (out : Except Exc Unit) (t : Traced) : Prop :=
  ∃ task now isFinal, (runBody y.platform (y.pipeline.withMaxPages maxPages)
    (claimedRow origin task now) isFinal).Runs (calmSource y.source)
      (claimedWorld w (claimedRow origin task now)) out t

def Unstored (run : Uuid) (w : World) : Prop :=
  ∀ tenant pipeline sequence checksum,
    w.store.bucket (tenantKey tenant (logicalKey pipeline run sequence checksum)) = none

theorem SingleRun.synced {maxPages : Int} {out : Except Exc Unit} {u : Traced}
    (h : SingleRun y w origin maxPages out u) (hrow : findRun w.runs origin.id = some origin)
    (hfresh : Fresh origin) (hstore : Unstored origin.id w) (hrunnable : y.Runnable)
    (hend : y.Complete y.pipeline.start n) (hroom : (n : Int) < maxPages) :
    out = .ok () ∧ ∃ m l row, findRun u.world.runs origin.id = some row ∧
      row.status = .succeeded ∧ Synced y w origin u.world.rows m l row := by
  obtain ⟨task, now, isFinal, hrun⟩ := h
  have hcalm : Calm origin.id (claimedRow origin task now)
      (claimedWorld w (claimedRow origin task now)) :=
    ⟨rfl, rfl, fun tenant pipeline sequence checksum _ => hstore tenant pipeline sequence checksum⟩
  have hout := (runBody_calm hrunnable hend hroom isFinal (by exact hfresh.cursor) hcalm).runs
    (fun _ => rfl) hrun
  have hbetween := hfresh.between (y := y) hrow
  obtain ⟨hresumed, -, hsafe⟩ := hbetween.claim task now hfresh.cursor rfl rfl rfl
    maxPages isFinal
  obtain ⟨m, l, row, hended, hsucceeded⟩ := hsafe.runs (fun _ => rfl) hrun.of_only
  have hb := hresumed.ended hended
  have hs := hsucceeded hout
  obtain ⟨hrunnable', hcomplete⟩ := hb.complete hs
  exact ⟨hout, _, _, row, hb.found, hs, hb.loaded, hcomplete, hrunnable', hb.rows, hb.progress⟩

/-- A chain of continued runs, with any failures and any page limits, holds the rows of
a first part of the source's pages at every moment; and where its last run succeeds, it
has loaded and counted what the first run would have in one attempt. -/
theorem resume_equals_single_sync (y : Sync) {w : World} {origin : PipelineRun} {s : Chain}
    (hrow : findRun w.runs origin.id = some origin) (hfresh : Fresh origin)
    (hstore : Unstored origin.id w)
    (h : Reaches (Chain.next y) Chain.Alive (Chain.start w origin.id) s) :
    (∃ n l, y.pages y.pipeline.start n = some l ∧ s.traced.world.rows = w.rows ++ l.rows) ∧
    ∀ row, s.row = some row → row.status = .succeeded →
      ∀ maxPages : Int, row.pagesExtracted < maxPages →
        (∃ out u, SingleRun y w origin maxPages out u) ∧
        ∀ out u, SingleRun y w origin maxPages out u →
          out = .ok () ∧ u.world.rows = s.traced.world.rows ∧
          ∃ single, findRun u.world.runs origin.id = some single ∧ single.status = .succeeded ∧
            single.pagesExtracted = row.pagesExtracted ∧
            single.recordsExtracted = row.recordsExtracted ∧
            single.recordsLoaded = row.recordsLoaded ∧
            single.rawPayloadCount = row.rawPayloadCount := by
  have hinv := chainInv_reaches hrow hfresh h
  refine ⟨hinv.firstPages, fun row hrow' hsucceeded maxPages hroom => ⟨?_, fun out u hu => ?_⟩⟩
  · obtain ⟨out, u, hrun⟩ := exists_calm_run (runBody y.platform
      (y.pipeline.withMaxPages maxPages) (claimedRow origin ⟨0⟩ 0) true) y.source
      (claimedWorld w (claimedRow origin ⟨0⟩ 0))
    exact ⟨out, u, ⟨0⟩, 0, true, hrun⟩
  · obtain ⟨n, l, hsynced⟩ := hinv.synced hrow' hsucceeded
    have hn : row.pagesExtracted = n := by rw [hsynced.progress.pages, hfresh.pages, Nat.zero_add]
    rw [hn] at hroom
    obtain ⟨hout, m, l', single, hsingle, hstatus, hsynced'⟩ :=
      hu.synced hrow hfresh hstore hsynced.runnable hsynced.complete hroom
    obtain rfl : m = n := hsynced'.complete.unique hsynced.complete
    obtain rfl : l' = l := Option.some.inj (hsynced'.loaded.symm.trans hsynced.loaded)
    refine ⟨hout, hsynced'.rows.trans hsynced.rows.symm, single, hsingle, hstatus, ?_, ?_, ?_, ?_⟩
    · rw [hsynced'.progress.pages, hsynced.progress.pages]
    · rw [hsynced'.progress.extracted, hsynced.progress.extracted]
    · rw [hsynced'.progress.loaded, hsynced.progress.loaded]
    · rw [hsynced'.progress.payloads, hsynced.progress.payloads]

/-! Under a page limit of one, the run of a single page fails at the limit, and the run
that continues it finds the end. -/

def limitAnswers : List RunAnswer := [.clock 2, .done, .clock 3, .done]

def secondAnswers : List RunAnswer :=
  [.clock 1, .done, .done, .done, .response ⟨200, none, noRecord⟩, .clock 2, .clock 3, .done, .done]

def smallPolicy : DispatchOp → DispatchAnswer
  | .uuid4 => .uuid ⟨20⟩
  | .getOrCreate _ _ => .uuid ⟨2⟩
  | .delay _ => .uuid ⟨6⟩
  | _ => .done

def smallChain : List ChainEvent :=
  .deliver ⟨5⟩ 1 false 0 :: (loadAnswers ++ saveAnswers ++ limitAnswers).map ChainEvent.answer ++
    .finish :: .continueRun none smallPolicy :: .deliver ⟨6⟩ 1 false 0 ::
    secondAnswers.map ChainEvent.answer ++ [.finish]

theorem resume_equals_single_sync_small : ∃ (s : Chain) (row : PipelineRun) (u : Traced),
    Reaches (Chain.next (smallSync none)) Chain.Alive (Chain.start smallWorld ⟨1⟩) s ∧
    s.run = ⟨2⟩ ∧ s.row = some row ∧ row.status = .succeeded ∧
    SingleRun (smallSync none) smallWorld smallRun 2 (.ok ()) u ∧
    u.world.rows = s.traced.world.rows ∧ u.world.rows.length = 1 := by
  have hfinal : (replay (Chain.next (smallSync none)) Chain.Alive (Chain.start smallWorld ⟨1⟩)
      smallChain).map (fun s => (s.run, s.row.map fun r => (r.status, r.pagesExtracted),
        s.traced.world.rows.length)) = some (⟨2⟩, some (.succeeded, 1), 1) := by
    decide +kernel
  obtain ⟨s, hs, hsummary⟩ := Option.map_eq_some_iff.mp hfinal
  simp only [Prod.mk.injEq, Option.map_eq_some_iff] at hsummary
  obtain ⟨hrun, ⟨row, hrow, hstatus, hpages⟩, hrows⟩ := hsummary
  have hreach := Reaches.of_replay smallChain hs
  obtain ⟨-, hsingle⟩ := resume_equals_single_sync (smallSync none)
    (rfl : findRun smallWorld.runs smallRun.id = some smallRun) ⟨rfl, rfl, rfl, rfl, rfl, rfl⟩ (fun _ _ _ _ => rfl) hreach
  obtain ⟨⟨out, u, hu⟩, hall⟩ := hsingle row hrow hstatus 2 (by rw [hpages]; decide)
  obtain ⟨rfl, heq, -⟩ := hall out u hu
  exact ⟨s, row, u, hreach, hrun, hrow, hstatus, hu, heq, by rw [heq, hrows]⟩

end DataLake
