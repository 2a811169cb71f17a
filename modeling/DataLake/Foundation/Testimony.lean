import DataLake.Foundation.Sessions

/-! What the sessions have been told, and what the world says of it later. -/

namespace Foundation

namespace Sessions

variable {S : Signature} {ε α ρ C W : Type} {program : ρ → Prog S ε α} {exec : Exec S C W}
  {F : ρ → W → Call S → Prop} {s t : Sessions S ε α ρ W}

/-- The world bears out the calls that the sessions have made. -/
def BorneOut (F : ρ → W → Call S → Prop) (s : Sessions S ε α ρ W) : Prop :=
  ∀ i x, s.sessions i = some x → ∀ call ∈ x.log, F x.request s.world call

theorem borneOut_idle (w : W) : (idle w : Sessions S ε α ρ W).BorneOut F := by
  intro i x hx
  cases hx

/-- What is borne out once stays so, and a call is borne out when it is answered. -/
theorem BorneOut.next {e : SessionEvent C ρ} (h : s.BorneOut F)
    (hkept : ∀ i c x op k r w, e = .step i c → s.sessions i = some x → x.prog = .call op k →
      exec op c s.world = some (r, w) → ∀ request call, F request s.world call → F request w call)
    (hnew : ∀ i c x op k r w, e = .step i c → s.sessions i = some x → x.prog = .call op k →
      exec op c s.world = some (r, w) → F x.request w ⟨op, r⟩)
    (he : Sessions.next program exec s e = some t) : t.BorneOut F := by
  rcases next_cases he with ⟨i, request, rfl, -, rfl⟩ |
    ⟨i, c, x, op, k, r, w, rfl, hx, -, hprog, hexec, rfl⟩ | ⟨i, x, rfl, hx, rfl⟩
  · intro j y hy call hcall
    rcases set_sessions hy with ⟨rfl, rfl⟩ | ⟨-, hy⟩
    · cases hcall
    · exact h j y hy call hcall
  · have hold := hkept i c x op k r w rfl hx hprog hexec
    intro j y hy call hcall
    rcases set_sessions hy with ⟨rfl, rfl⟩ | ⟨-, hy⟩
    · rcases List.mem_append.mp hcall with hcall | hcall
      · exact hold _ _ (h j x hx call hcall)
      · obtain rfl := List.mem_singleton.mp hcall
        exact hnew j c x op k r w rfl hx hprog hexec
    · exact hold _ _ (h j y hy call hcall)
  · intro j y hy call hcall
    rcases set_sessions hy with ⟨rfl, rfl⟩ | ⟨-, hy⟩
    · exact h j x hx call hcall
    · exact h j y hy call hcall

/-- A call that was made was allowed after some of the other calls, and answered as it should be. -/
theorem Conform.made {A : ρ → ∀ op, S.Resp op → Prop} {P : ρ → List (Call S) → S.Op → Prop}
    {Q : ρ → List (Call S) → Except ε α → Prop} (hs : s.Conform A P Q) {i : Nat}
    {x : Session S ε α ρ} (hx : s.sessions i = some x) {call : Call S} (hcall : call ∈ x.log) :
    ∃ l, (∀ z ∈ l, z ∈ x.log) ∧ P x.request l call.1 ∧ A x.request call.1 call.2 := by
  obtain ⟨l, l', hsplit⟩ := List.append_of_mem hcall
  obtain ⟨hP, hA⟩ := (hs i x hx).2 l call.1 call.2 l' hsplit
  refine ⟨l, fun z hz => ?_, hP, hA⟩
  rw [hsplit]
  exact List.mem_append_left _ hz

/-- What there is in the world has been put there by a call of some session. -/
def Vouched {E : Type} (G : W → E → Prop) (F : ρ → E → Call S → Prop)
    (s : Sessions S ε α ρ W) : Prop :=
  ∀ e, G s.world e → ∃ i x call, s.sessions i = some x ∧ call ∈ x.log ∧ F x.request e call

theorem Vouched.next {E : Type} {G : W → E → Prop} {F : ρ → E → Call S → Prop}
    {event : SessionEvent C ρ} (h : s.Vouched G F)
    (hnew : ∀ i c x op k r w, event = .step i c → s.sessions i = some x → x.prog = .call op k →
      exec op c s.world = some (r, w) → ∀ e, G w e → G s.world e ∨ F x.request e ⟨op, r⟩)
    (he : Sessions.next program exec s event = some t) : t.Vouched G F := by
  have hkept : ∀ w j y, (∀ x, s.sessions j = some x → x.request = y.request ∧
        ∀ call ∈ x.log, call ∈ y.log) →
      ∀ e, G s.world e →
        ∃ i x call, (s.set w j y).sessions i = some x ∧ call ∈ x.log ∧ F x.request e call := by
    intro w j y hy e hG
    obtain ⟨i, x, call, hx, hcall, hF⟩ := h e hG
    by_cases hij : i = j
    · subst hij
      obtain ⟨hrequest, hlog⟩ := hy x hx
      exact ⟨i, y, call, set_self, hlog call hcall, hrequest ▸ hF⟩
    · exact ⟨i, x, call, by simpa [set, hij] using hx, hcall, hF⟩
  rcases next_cases he with ⟨i, request, rfl, hi, rfl⟩ |
    ⟨i, c, x, op, k, r, w, rfl, hx, -, hprog, hexec, rfl⟩ | ⟨i, x, rfl, hx, rfl⟩
  · intro e hG
    apply hkept _ _ _ _ e hG
    intro y hy
    cases hi.symm.trans hy
  · intro e hG
    rcases hnew i c x op k r w rfl hx hprog hexec e hG with hold | hF
    · apply hkept _ _ _ _ e hold
      intro y hy
      obtain rfl := Option.some.inj (hx.symm.trans hy)
      exact ⟨rfl, fun call hcall => List.mem_append_left _ hcall⟩
    · exact ⟨i, _, ⟨op, r⟩, set_self, List.mem_concat_self, hF⟩
  · intro e hG
    apply hkept _ _ _ _ e hG
    intro y hy
    obtain rfl := Option.some.inj (hx.symm.trans hy)
    exact ⟨rfl, fun call hcall => hcall⟩

/-- The calls that were made since `s` are of this kind. -/
def Since (s : Sessions S ε α ρ W) (F : Call S → Prop) (t : Sessions S ε α ρ W) : Prop :=
  ∀ i y, t.sessions i = some y → ∀ call ∈ y.log,
    (∃ x, s.sessions i = some x ∧ call ∈ x.log) ∨ F call

theorem Since.refl (s : Sessions S ε α ρ W) (F : Call S → Prop) : Since s F s :=
  fun _ x hx _ hcall => .inl ⟨x, hx, hcall⟩

theorem Since.next {F : Call S → Prop} {u : Sessions S ε α ρ W} {e : SessionEvent C ρ}
    (h : Since s F t)
    (hnew : ∀ c op r w, exec op c t.world = some (r, w) → F ⟨op, r⟩)
    (he : Sessions.next program exec t e = some u) : Since s F u := by
  rcases next_cases he with ⟨i, request, rfl, -, rfl⟩ |
    ⟨i, c, x, op, k, r, w, rfl, hx, -, -, hexec, rfl⟩ | ⟨i, x, rfl, hx, rfl⟩
  · intro j y hy call hcall
    rcases set_sessions hy with ⟨rfl, rfl⟩ | ⟨-, hy⟩
    · cases hcall
    · exact h j y hy call hcall
  · intro j y hy call hcall
    rcases set_sessions hy with ⟨rfl, rfl⟩ | ⟨-, hy⟩
    · rcases List.mem_append.mp hcall with hcall | hcall
      · exact h j x hx call hcall
      · obtain rfl := List.mem_singleton.mp hcall
        exact .inr (hnew c op r w hexec)
    · exact h j y hy call hcall
  · intro j y hy call hcall
    rcases set_sessions hy with ⟨rfl, rfl⟩ | ⟨-, hy⟩
    · exact h j x hx call hcall
    · exact h j y hy call hcall

end Sessions

end Foundation
