import DataLake.Foundation.Generator
import DataLake.MultiStep

/-! The outputs of the steps as later steps read them, by placeholders. -/

namespace DataLake

open Foundation

variable {Request : Type}

section Outputs

variable {lib : AuthLibrary Request} {credential : Fields} {outputs outputs' : Outputs}
  {name value : Text}

/-- The loop over all steps is that over the first ones, and then that over the others. -/
theorem runSteps_append (first rest : List (Fields × Nat)) (outputs : Outputs)
    (finalBody : Option Bytes) :
    runSteps lib credential (first ++ rest) outputs finalBody =
      runSteps lib credential first outputs finalBody >>= fun result =>
        runSteps lib credential rest result.1 result.2 := by
  induction first generalizing outputs finalBody with
  | nil => rfl
  | cons x first ih =>
    simp only [List.cons_append, runSteps, Prog.bind_assoc]
    refine congrArg _ (funext fun answer => ?_)
    split_ifs
    · rfl
    · rw [Prog.bind_assoc]
      exact congrArg _ (funext fun outputs' => ih outputs' _)

end Outputs

end DataLake
