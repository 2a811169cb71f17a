import DataLake.Orchestration
import DataLake.StoreService

/-! How the database, the source and the destination answer the calls of a run. -/

namespace DataLake

open Foundation

structure World where
  runs : List PipelineRun
  taskExecutions : List TaskExecution := []
  store : StoreWorld := ⟨fun _ => none, []⟩
  rows : List Row := []

def findRun (runs : List PipelineRun) (id : Uuid) : Option PipelineRun :=
  runs.find? fun row => row.id = id

/-- What the environment decides about a call. A call that is failed has committed
nothing. -/
inductive RunAnswer where
  | done
  | clock (now : Nat)
  | response (r : Response)
  | raw (a : StoreAnswer)
  | fail (e : Exc)

def execRun : Exec RunSig RunAnswer World
  | .now, .clock now, w => some (now, w)
  | .createTaskExecution t, .done, w =>
    some ((), { w with taskExecutions := w.taskExecutions ++ [t] })
  | .resolveCredential _, .done, w => some (.ok (), w)
  | .resolveCredential _, .fail e, w => some (.error e, w)
  | .send _, .response r, w => some (.ok r, w)
  | .send _, .fail e, w => some (.error e, w)
  | .raw op, .raw a, w =>
    (execStore op a w.store).map fun x => (x.1, { w with store := x.2 })
  | .load rows, .done, w => some (.ok rows.length, { w with rows := w.rows ++ rows })
  | .load _, .fail e, w => some (.error e, w)
  | .saveRun fields copy, .done, w => some ((), { w with runs := saveFields fields copy w.runs })
  | .saveTaskExecution t, .done, w =>
    some ((), { w with taskExecutions := w.taskExecutions.map fun row =>
      if row.run = t.run ∧ row.attempt = t.attempt then t else row })
  | _, _, _ => none

/-! What each call can do. -/

variable {c : RunAnswer} {w w' : World}

theorem execRun_now {r : Nat} (h : execRun .now c w = some (r, w')) :
    c = .clock r ∧ w' = w := by
  cases c <;> simp_all [execRun]

theorem execRun_resolveCredential {kind : ConnectionKind} {r : Except Exc Unit}
    (h : execRun (.resolveCredential kind) c w = some (r, w')) : w' = w := by
  cases c <;> simp_all [execRun]

theorem execRun_send {page : Int} {r : Except Exc Response}
    (h : execRun (.send page) c w = some (r, w')) :
    w' = w ∧ ((∃ response, c = .response response ∧ r = .ok response) ∨
      ∃ e, c = .fail e ∧ r = .error e) := by
  cases c <;> simp_all [execRun]

theorem execRun_load {rows : List Row} {r : Except Exc Nat}
    (h : execRun (.load rows) c w = some (r, w')) :
    (r = .ok rows.length ∧ w' = { w with rows := w.rows ++ rows }) ∨
    (∃ e, r = .error e ∧ w' = w) := by
  cases c with
  | done => cases h; exact .inl ⟨rfl, rfl⟩
  | fail e => cases h; exact .inr ⟨e, rfl, rfl⟩
  | _ => cases h

theorem execRun_saveRun {fields : RunFields} {copy : PipelineRun} {r : Unit}
    (h : execRun (.saveRun fields copy) c w = some (r, w')) :
    w' = { w with runs := saveFields fields copy w.runs } := by
  cases c with
  | done => cases h; rfl
  | _ => cases h

def RunOp.quiet : RunOp → Bool
  | .send _ | .saveRun _ _ | .load _ => false
  | _ => true

theorem execRun_quiet {op : RunOp} {r : op.Resp} (hop : op.quiet = true)
    (h : execRun op c w = some (r, w')) : w'.runs = w.runs ∧ w'.rows = w.rows := by
  cases op with
  | now =>
    obtain ⟨-, rfl⟩ := execRun_now h
    exact ⟨rfl, rfl⟩
  | createTaskExecution t =>
    cases c with
    | done => cases h; exact ⟨rfl, rfl⟩
    | _ => cases h
  | resolveCredential kind =>
    obtain rfl := execRun_resolveCredential h
    exact ⟨rfl, rfl⟩
  | send page => cases hop
  | raw op =>
    cases c with
    | raw a =>
      simp only [execRun, Option.map_eq_some_iff, Prod.mk.injEq] at h
      obtain ⟨x, -, -, rfl⟩ := h
      exact ⟨rfl, rfl⟩
    | _ => cases h
  | load rows => cases hop
  | saveRun fields copy => cases hop
  | saveTaskExecution t =>
    cases c with
    | done => cases h; exact ⟨rfl, rfl⟩
    | _ => cases h

theorem execRun_runs {op : RunOp} {r : op.Resp} (h : execRun op c w = some (r, w')) :
    w'.runs = w.runs ∨
      ∃ fields copy, op = .saveRun fields copy ∧ w'.runs = saveFields fields copy w.runs := by
  cases hop : op.quiet with
  | true => exact .inl (execRun_quiet hop h).1
  | false =>
    cases op with
    | send page => exact .inl (by rw [(execRun_send h).1])
    | load rows =>
      rcases execRun_load h with ⟨-, rfl⟩ | ⟨_, -, rfl⟩ <;> exact .inl rfl
    | saveRun fields copy => exact .inr ⟨fields, copy, rfl, by rw [execRun_saveRun h]⟩
    | _ => cases hop

theorem execRun_store {op : RunOp} {r : op.Resp} (hop : ∀ o, op ≠ .raw o)
    (h : execRun op c w = some (r, w')) : w'.store = w.store := by
  cases op with
  | raw o => exact absurd rfl (hop o)
  | _ => cases c <;> cases h <;> rfl

theorem safe_runCall {α W : Type} {exec : Exec RunSig RunAnswer W} {G : W → W → Prop}
    {Q : Except Exc α → W → Prop} {op : RunOp} {f : op.Resp → RunProg α} {t : W}
    (h : ∀ c r t', exec op c t = some (r, t') → G t t' ∧ (f r).Safe exec Eq G Q t') :
    (runCall op >>= f).Safe exec Eq G Q t := by
  intro v hv c r t' he
  subst hv
  exact h c r t' he

/-! The table of runs after a save. -/

theorem findRun_id {runs : List PipelineRun} {id : Uuid} {row : PipelineRun}
    (h : findRun runs id = some row) : row.id = id := by
  simpa using List.find?_some h

theorem findRun_mem {runs : List PipelineRun} {id : Uuid} {row : PipelineRun}
    (h : findRun runs id = some row) : row ∈ runs := List.mem_of_find?_eq_some h

theorem findRun_saveFields (fields : RunFields) (copy : PipelineRun) (runs : List PipelineRun)
    (id : Uuid) :
    findRun (saveFields fields copy runs) id =
      (findRun runs id).map fun row => if id = copy.id then fields.write copy row else row := by
  induction runs with
  | nil => rfl
  | cons row rest ih =>
    by_cases hid : row.id = id
    · subst hid
      by_cases hcopy : row.id = copy.id <;> simp [findRun, saveFields, hcopy]
    · have hhead : (if row.id = copy.id then fields.write copy row else row).id ≠ id := by
        split_ifs <;> simpa using hid
      simp only [findRun, saveFields, List.map_cons, List.find?_cons, hid, hhead,
        decide_false] at ih ⊢
      exact ih

theorem findRun_claim {runs : List PipelineRun} {id : Uuid} {row : PipelineRun}
    (h : findRun runs id = some row) (task : Uuid) (now : Nat) :
    findRun (saveFields .claim (claimedRow row task now) runs) row.id =
      some (claimedRow row task now) := by
  have hid := findRun_id h
  rw [findRun_saveFields, hid, h]
  simp [claimedRow, hid, RunFields.write]

theorem findRun_saveFields_other (fields : RunFields) {copy : PipelineRun}
    {runs : List PipelineRun} {id : Uuid} (h : id ≠ copy.id) :
    findRun (saveFields fields copy runs) id = findRun runs id := by
  rw [findRun_saveFields]
  simp [h]

theorem findRun_append {runs : List PipelineRun} {new : PipelineRun} {id : Uuid}
    (hfresh : new.id ∉ runs.map PipelineRun.id) :
    findRun (runs ++ [new]) id = if id = new.id then some new else findRun runs id := by
  split_ifs with hid
  · subst hid
    have hnone : findRun runs new.id = none := by
      rw [findRun, List.find?_eq_none]
      intro row hrow h
      exact hfresh (List.mem_map.mpr ⟨row, hrow, by simpa using h⟩)
    simp only [findRun] at hnone
    simp [findRun, List.find?_append, hnone]
  · simp [findRun, List.find?_append, Ne.symm hid]

theorem findRun_append_of_some {runs new : List PipelineRun} {id : Uuid} {row : PipelineRun}
    (h : findRun runs id = some row) : findRun (runs ++ new) id = some row := by
  simp only [findRun, List.find?_append] at h ⊢
  simp [h]

end DataLake
