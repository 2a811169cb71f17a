import DataLake.Chain
import DataLake.Continuations

/-! A continuation request that brings its own idempotency key: which run it is
answered with. -/

namespace DataLake

open Foundation

/-- The row was made as a continuation of the run asked for, or as no continuation. -/
def Seeded (continueFrom : Option PipelineRun) (created : PipelineRun) : Prop :=
  match continueFrom with
  | none => created.continuedFrom = none
  | some prior =>
    created.continuedFrom = some prior.id ∧
    created.lastSuccessfulCursor = prior.lastSuccessfulCursor ∧
    created.pagesExtracted = prior.pagesExtracted ∧
    created.recordsExtracted = prior.recordsExtracted ∧
    created.recordsLoaded = prior.recordsLoaded ∧
    created.rawPayloadCount = prior.rawPayloadCount

/-- The row as it was inserted; a run that the log does not know has just been. -/
def createdAs (inserted : List PipelineRun) (run : PipelineRun) : PipelineRun :=
  (findRun inserted run.id).getD run

/-- `uuid4` draws an identifier whose key no run has. -/
def execFresh (pipeline : Pipeline) : Exec DispatchSig DispatchAnswer DispatchWorld
  | .uuid4, .uuid u, w =>
    if findKey w.runs (freshKey pipeline u) = none then some (u, w) else none
  | op, c, w => execDispatch op c w

/-- A run that has the key already was made the way this request asks for. -/
def KeyFits (inserted : List PipelineRun) (w : DispatchWorld) (key : Option Text)
    (continueFrom : Option PipelineRun) : Prop :=
  ∀ c cs row, key = some (c :: cs) → findKey w.runs (c :: cs) = some row →
    Seeded continueFrom (createdAs inserted row)

theorem newRun_seeded (pipeline : Pipeline) (key : Text) (continueFrom : Option PipelineRun)
    (fresh : Uuid) : Seeded continueFrom { newRun pipeline key continueFrom with id := fresh } := by
  cases continueFrom with
  | none => rfl
  | some prior => exact ⟨rfl, rfl, rfl, rfl, rfl, rfl⟩

/-- A call is answered with the run that has the key given, or with a new one where no
run has it. -/
def Answered (pipeline : Pipeline) (continueFrom : Option PipelineRun) (w : DispatchWorld)
    (key : Option Text) (run : PipelineRun) : Prop :=
  (∃ c cs, key = some (c :: cs) ∧ findKey w.runs (c :: cs) = some run) ∨
    ((∀ c cs, key = some (c :: cs) → findKey w.runs (c :: cs) = none) ∧
      ∃ k fresh, fresh ∉ w.runs.map PipelineRun.id ∧
        run = { newRun pipeline k continueFrom with id := fresh })

variable {pipeline : Pipeline} {continueFrom : Option PipelineRun} {w : DispatchWorld}

def ReturnsOnly (run : PipelineRun) (out : Except Exc (PipelineRun × Bool)) : Prop :=
  ∀ new sent, out = .ok (new, sent) → new = run

theorem enqueue_answer (key : Text) (run : PipelineRun) (created : Bool) :
    (enqueue pipeline key run created).Must (fun _ => False) (ReturnsOnly run) := by
  unfold enqueue
  split_ifs
  · exact fun _ _ h => by cases h
  · exact fun _ _ h => by cases h; rfl
  · refine .inr fun sent => ?_
    cases sent with
    | error e => exact fun _ _ h => by cases h
    | ok _ => exact fun _ _ h => by cases h; rfl

theorem createAndEnqueue_answer {key : Text} {w' : DispatchWorld} {run : PipelineRun} {sent : Bool}
    (h : (createAndEnqueue pipeline continueFrom key).Runs (execFresh pipeline) w
      (.ok (run, sent)) w') :
    findKey w.runs key = some run ∨
      (findKey w.runs key = none ∧ ∃ fresh, fresh ∉ w.runs.map PipelineRun.id ∧
        run = { newRun pipeline key continueFrom with id := fresh }) := by
  cases h with
  | @call _ _ c r _ v _ _ he hrest =>
    obtain rfl : run = r.1 := (enqueue_answer key r.1 r.2).runs hrest run sent rfl
    cases c with
    | uuid fresh =>
      simp only [execFresh, execDispatch] at he
      split at he
      · rename_i row hkey
        cases he
        exact .inl hkey
      · rename_i hkey
        split_ifs at he with hfresh
        cases he
        exact .inr ⟨hkey, fresh, hfresh, rfl⟩
    | _ => cases he

theorem triggerManualRun_answer {key : Option Text} {w' : DispatchWorld} {run : PipelineRun}
    {sent : Bool} (h : (triggerManualRun pipeline key continueFrom).Runs (execFresh pipeline) w
      (.ok (run, sent)) w') : Answered pipeline continueFrom w key run := by
  have hkeyed (h : (createKeyed pipeline continueFrom key).Runs (execFresh pipeline) w
      (.ok (run, sent)) w') : Answered pipeline continueFrom w key run := by
    unfold createKeyed at h
    split at h
    · rename_i _ c cs _
      rcases createAndEnqueue_answer h with hkey | ⟨hnone, fresh, hfresh, rfl⟩
      · exact .inl ⟨c, cs, rfl, hkey⟩
      · refine .inr ⟨fun c' cs' h' => ?_, _, fresh, hfresh, rfl⟩
        cases h'
        exact hnone
    · rename_i hempty
      cases h with
      | @call _ _ c r _ v _ _ he hrest =>
        cases c with
        | uuid u =>
          simp only [execFresh] at he
          split_ifs at he with hunused
          cases he
          rcases createAndEnqueue_answer hrest with hkey | ⟨-, fresh, hfresh, rfl⟩
          · cases hunused.symm.trans hkey
          · exact .inr ⟨fun c cs h' => absurd h' (hempty c cs), _, fresh, hfresh, rfl⟩
        | _ => cases he
  unfold triggerManualRun at h
  split_ifs at h
  · cases h
  · cases continueFrom with
    | none => exact hkeyed h
    | some prior =>
      dsimp only at h
      cases hcheck : checkContinueFrom pipeline prior with
      | error e =>
        rw [hcheck] at h
        cases h
      | ok _ =>
        rw [hcheck] at h
        exact hkeyed h

/-- A call that returns a run answers the request with the run it asks for exactly when
the key does not name a run that was made in another way. -/
theorem answer_seeded_iff {inserted : List PipelineRun} {key : Option Text} {w' : DispatchWorld}
    {run : PipelineRun} {sent : Bool}
    (hlog : ∀ id, findRun inserted id ≠ none → id ∈ w.runs.map PipelineRun.id)
    (h : (triggerManualRun pipeline key continueFrom).Runs (execFresh pipeline) w
      (.ok (run, sent)) w') :
    Seeded continueFrom (createdAs inserted run) ↔ KeyFits inserted w key continueFrom := by
  rcases triggerManualRun_answer h with ⟨c, cs, rfl, hkey⟩ | ⟨hunused, k, fresh, hfresh, rfl⟩
  · refine ⟨fun hseeded c' cs' row hc hrow => ?_, fun hfits => hfits c cs run rfl hkey⟩
    cases hc
    obtain rfl := Option.some.inj (hkey.symm.trans hrow)
    exact hseeded
  · have hcreated : createdAs inserted { newRun pipeline k continueFrom with id := fresh } =
        { newRun pipeline k continueFrom with id := fresh } := by
      have hnone : findRun inserted fresh = none := by
        by_contra hne
        exact hfresh (hlog fresh hne)
      simp [createdAs, hnone]
    rw [hcreated]
    refine ⟨fun _ c cs row hc hrow => ?_, fun _ => newRun_seeded pipeline k continueFrom fresh⟩
    cases (hunused c cs hc).symm.trans hrow

def stoppedRun : PipelineRun :=
  { id := ⟨4⟩, pipeline := ⟨7⟩, idempotencyKey := "earlier".toList, status := .failed
    lastSuccessfulCursor := some "4".toList, pagesExtracted := 3, recordsExtracted := 3
    recordsLoaded := 3, rawPayloadCount := 3, errorCategory := some continuableErrorCategory }

def keyedWorld : DispatchWorld := { runs := [smallRun, stoppedRun] }

def keyedPolicy : DispatchOp → DispatchAnswer
  | .getOrCreate _ _ => .uuid ⟨9⟩
  | _ => .uuid ⟨5⟩

def continuedRun : PipelineRun :=
  { newRun (smallSync none).pipeline "again".toList (some stoppedRun) with id := ⟨9⟩ }

theorem keyedWorld_log (id : Uuid) (h : findRun [smallRun] id ≠ none) :
    id ∈ keyedWorld.runs.map PipelineRun.id := by
  obtain ⟨row, hrow⟩ := Option.ne_none_iff_exists'.mp h
  obtain rfl : row = smallRun := by simpa using findRun_mem hrow
  rw [← findRun_id hrow]
  simp [keyedWorld]

theorem answer_seeded_iff_unused : ∃ (run : PipelineRun) (sent : Bool) (w' : DispatchWorld),
    (triggerManualRun (smallSync none).pipeline (some "again".toList) (some stoppedRun)).Runs
      (execFresh (smallSync none).pipeline) keyedWorld (.ok (run, sent)) w' ∧
    Seeded (some stoppedRun) (createdAs [smallRun] run) := by
  have heval : ∃ w', (triggerManualRun (smallSync none).pipeline (some "again".toList)
      (some stoppedRun)).eval (execFresh (smallSync none).pipeline) keyedPolicy keyedWorld =
      some (.ok (continuedRun, true), w') := ⟨_, rfl⟩
  obtain ⟨w', heval⟩ := heval
  have hruns : (triggerManualRun (smallSync none).pipeline (some "again".toList)
      (some stoppedRun)).Runs (execFresh (smallSync none).pipeline) keyedWorld
      (.ok (continuedRun, true)) w' := Prog.Runs.of_eval keyedPolicy heval
  refine ⟨continuedRun, true, w', hruns, (answer_seeded_iff keyedWorld_log hruns).mpr fun c cs row hc hrow => ?_⟩
  cases hc
  cases hrow

/-- A key in use: the continuation asked for is answered with the run that has the key,
which starts from the first page, and that run is enqueued. -/
theorem plain_run_answered : ¬ ∀ (pipeline : Pipeline) (key : Option Text) (prior : PipelineRun)
    (inserted : List PipelineRun) (w w' : DispatchWorld) (run : PipelineRun) (sent : Bool),
    (∀ id, findRun inserted id ≠ none → id ∈ w.runs.map PipelineRun.id) →
    isContinuable prior = true → prior.pipeline = pipeline.id →
    (triggerManualRun pipeline key (some prior)).Runs (execFresh pipeline) w
      (.ok (run, sent)) w' → Seeded (some prior) (createdAs inserted run) := by
  intro hclaim
  have heval : ∃ w', (triggerManualRun (smallSync none).pipeline (some "first".toList)
      (some stoppedRun)).eval (execFresh (smallSync none).pipeline) keyedPolicy keyedWorld =
      some (.ok (smallRun, true), w') := ⟨_, rfl⟩
  obtain ⟨w', heval⟩ := heval
  have hseeded := hclaim (smallSync none).pipeline (some "first".toList) stoppedRun [smallRun]
    keyedWorld w' smallRun true keyedWorld_log (by decide) rfl
    (Prog.Runs.of_eval keyedPolicy heval)
  cases hseeded.1

end DataLake
