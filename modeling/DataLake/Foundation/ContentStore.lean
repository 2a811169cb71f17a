import Mathlib.Data.Set.Function

/-! Content-addressed stores. A key may name the digest of what is stored under
it; writers that respect the names keep every named object for good. -/

namespace Foundation

/-- What is hashed of an object, and the digest a key names. -/
structure Addressing (K O B H : Type*) where
  body : O → B
  digest : B → H
  named : K → H → Prop

namespace Addressing

variable {K O B H : Type*} (A : Addressing K O B H)

def WellNamed (k : K) (o : O) : Prop := ∀ h, A.named k h → A.digest (A.body o) = h

/-- Every stored object has the digest its key names. -/
def Addressed (s : K → Option O) : Prop := ∀ k o, s k = some o → A.WellNamed k o

def Within (contents : Set B) (s : K → Option O) : Prop :=
  ∀ k o, s k = some o → A.body o ∈ contents

/-- No object under a naming key is removed or given other contents. -/
def Keeps (s t : K → Option O) : Prop :=
  ∀ k h o, A.named k h → s k = some o → ∃ o', t k = some o' ∧ A.body o' = A.body o

variable {A} {s t u : K → Option O} {contents : Set B} {k : K} {o : O}

theorem Keeps.refl (s : K → Option O) : A.Keeps s s := fun _ _ o _ ho => ⟨o, ho, rfl⟩

theorem Keeps.trans (hst : A.Keeps s t) (htu : A.Keeps t u) : A.Keeps s u := by
  intro k h o hk ho
  obtain ⟨o', ho', hb⟩ := hst k h o hk ho
  obtain ⟨o'', ho'', hb'⟩ := htu k h o' hk ho'
  exact ⟨o'', ho'', hb'.trans hb⟩

variable [DecidableEq K]

theorem update_cases {k' : K} {o' : O} (h : Function.update s k (some o) k' = some o') :
    (k' = k ∧ o' = o) ∨ s k' = some o' := by
  by_cases hk : k' = k
  · subst hk
    exact .inl ⟨rfl, by simpa using h.symm⟩
  · exact .inr (by simpa [hk] using h)

theorem Addressed.update (hs : A.Addressed s) (ho : A.WellNamed k o) :
    A.Addressed (Function.update s k (some o)) := by
  intro k' o' h
  rcases update_cases h with ⟨rfl, rfl⟩ | h
  · exact ho
  · exact hs k' o' h

theorem Within.update (hs : A.Within contents s) (ho : A.body o ∈ contents) :
    A.Within contents (Function.update s k (some o)) := by
  intro k' o' h
  rcases update_cases h with ⟨-, rfl⟩ | h
  · exact ho
  · exact hs k' o' h

/-- Overwriting a named object with a well-named one leaves its contents alone,
since the digest decides the contents. -/
theorem Keeps.update (hinj : Set.InjOn A.digest contents) (hs : A.Addressed s)
    (hin : A.Within contents s) (hk : A.WellNamed k o) (ho : A.body o ∈ contents) :
    A.Keeps s (Function.update s k (some o)) := by
  intro k' h o' hk' ho'
  by_cases heq : k' = k
  · subst heq
    refine ⟨o, by simp, hinj ho (hin _ _ ho') ?_⟩
    rw [hk h hk', hs _ _ ho' h hk']
  · exact ⟨o', by simpa [heq] using ho', rfl⟩

end Addressing

end Foundation
