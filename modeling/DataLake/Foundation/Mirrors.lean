import DataLake.Foundation.Runs

/-! Two programs, each in its own world, of which either does what the other does: each run of
one has its like among the runs of the other. -/

namespace Foundation

namespace Prog

variable {S T U : Signature} {ε ε' ε'' ε₀ α α' β β' C D W V : Type} {exec : Exec S C W}
  {exec' : Exec T D V}

/-- What follows an outcome. -/
def resume (f : α → Prog S ε' β) (g : ε → Prog S ε' β) : Except ε α → Prog S ε' β
  | .ok a => f a
  | .error e => g e

/-- Each run of either program has a run of the other that ends as `Q` relates the two. -/
structure Mirrors (exec : Exec S C W) (exec' : Exec T D V)
    (Q : Except ε α → Except ε' β → W → V → Prop) (p : Prog S ε α) (q : Prog T ε' β) (w : W)
    (v : V) : Prop where
  there : ∀ out w', p.Runs exec w out w' → ∃ out' v', q.Runs exec' v out' v' ∧ Q out out' w' v'
  back : ∀ out' v', q.Runs exec' v out' v' → ∃ out w', p.Runs exec w out w' ∧ Q out out' w' v'

/-- Each answer to either call has an answer to the other that is related by `K`. -/
structure Answered (exec : Exec S C W) (exec' : Exec T D V) (op : S.Op) (op' : T.Op)
    (K : S.Resp op → T.Resp op' → W → V → Prop) (w : W) (v : V) : Prop where
  there : ∀ c r w', exec op c w = some (r, w') →
    ∃ d r' v', exec' op' d v = some (r', v') ∧ K r r' w' v'
  back : ∀ d r' v', exec' op' d v = some (r', v') →
    ∃ c r w', exec op c w = some (r, w') ∧ K r r' w' v'

theorem runs_call {op : S.Op} {k : S.Resp op → Prog S ε α} {out : Except ε α} {w w' : W} :
    (call op k).Runs exec w out w' ↔
      ∃ c r u, exec op c w = some (r, u) ∧ (k r).Runs exec u out w' := by
  constructor
  · intro h
    cases h with
    | call he hrest => exact ⟨_, _, _, he, hrest⟩
  · intro h
    obtain ⟨c, r, u, he, hrest⟩ := h
    exact .call he hrest

theorem runs_resume {p : Prog S ε α} {f : α → Prog S ε' β} {g : ε → Prog S ε' β} {w w' : W}
    {out : Except ε' β} : (p.handle f g).Runs exec w out w' ↔
      ∃ mid u, p.Runs exec w mid u ∧ (resume f g mid).Runs exec u out w' := by
  rw [runs_handle]
  constructor
  · intro h
    rcases h with ⟨a, u, hp, hf⟩ | ⟨e, u, hp, hg⟩
    · exact ⟨.ok a, u, hp, hf⟩
    · exact ⟨.error e, u, hp, hg⟩
  · intro h
    obtain ⟨mid, u, hp, hrest⟩ := h
    cases mid with
    | ok a => exact .inl ⟨a, u, hp, hrest⟩
    | error e => exact .inr ⟨e, u, hp, hrest⟩

namespace Mirrors

variable {Q : Except ε α → Except ε' β → W → V → Prop} {p : Prog S ε α} {q : Prog T ε' β} {w : W}
  {v : V}

theorem ret {a : α} {b : β} (h : Q (.ok a) (.ok b) w v) :
    Mirrors exec exec' Q (.ret a) (.ret b) w v where
  there out w' hrun := by
    cases hrun
    exact ⟨.ok b, v, .ret b v, h⟩
  back out v' hrun := by
    cases hrun
    exact ⟨.ok a, w, .ret a w, h⟩

theorem raise {e : ε} {e' : ε'} (h : Q (.error e) (.error e') w v) :
    Mirrors exec exec' Q (.raise e) (.raise e') w v where
  there out w' hrun := by
    cases hrun
    exact ⟨.error e', v, .raise e' v, h⟩
  back out v' hrun := by
    cases hrun
    exact ⟨.error e, w, .raise e w, h⟩

/-- An end that is an exception on one side only. -/
theorem ret_raise {a : α} {e' : ε'} (h : Q (.ok a) (.error e') w v) :
    Mirrors exec exec' Q (.ret a) (.raise e') w v where
  there out w' hrun := by
    cases hrun
    exact ⟨.error e', v, .raise e' v, h⟩
  back out v' hrun := by
    cases hrun
    exact ⟨.ok a, w, .ret a w, h⟩

/-- Both make a call. -/
theorem call {op : S.Op} {op' : T.Op} {k : S.Resp op → Prog S ε α} {k' : T.Resp op' → Prog T ε' β}
    (h : Answered exec exec' op op' (fun r r' => Mirrors exec exec' Q (k r) (k' r')) w v) :
    Mirrors exec exec' Q (.call op k) (.call op' k') w v where
  there out w' hrun := by
    obtain ⟨c, r, u, he, hrest⟩ := runs_call.mp hrun
    obtain ⟨d, r', u', he', hk⟩ := h.there c r u he
    obtain ⟨out', v', hrun', hQ⟩ := hk.there out w' hrest
    exact ⟨out', v', .call he' hrun', hQ⟩
  back out v' hrun := by
    obtain ⟨d, r', u', he, hrest⟩ := runs_call.mp hrun
    obtain ⟨c, r, u, he', hk⟩ := h.back d r' u' he
    obtain ⟨out', w', hrun', hQ⟩ := hk.back out v' hrest
    exact ⟨out', w', .call he' hrun', hQ⟩

/-- Only the first makes a call, one that is always answered. -/
theorem call_left {op : S.Op} {k : S.Resp op → Prog S ε α}
    (hanswer : ∃ c x, exec op c w = some x)
    (h : ∀ c r w', exec op c w = some (r, w') → Mirrors exec exec' Q (k r) q w' v) :
    Mirrors exec exec' Q (.call op k) q w v where
  there out w' hrun := by
    obtain ⟨c, r, u, he, hrest⟩ := runs_call.mp hrun
    exact (h c r u he).there out w' hrest
  back out v' hrun := by
    obtain ⟨c, ⟨r, u⟩, he⟩ := hanswer
    obtain ⟨out', w', hrun', hQ⟩ := (h c r u he).back out v' hrun
    exact ⟨out', w', .call he hrun', hQ⟩

theorem call_right {op : T.Op} {k : T.Resp op → Prog T ε' β}
    (hanswer : ∃ d x, exec' op d v = some x)
    (h : ∀ d r v', exec' op d v = some (r, v') → Mirrors exec exec' Q p (k r) w v') :
    Mirrors exec exec' Q p (.call op k) w v where
  there out w' hrun := by
    obtain ⟨d, ⟨r, u⟩, he⟩ := hanswer
    obtain ⟨out', v', hrun', hQ⟩ := (h d r u he).there out w' hrun
    exact ⟨out', v', .call he hrun', hQ⟩
  back out v' hrun := by
    obtain ⟨d, r, u, he, hrest⟩ := runs_call.mp hrun
    exact (h d r u he).back out v' hrest

theorem handle {Q' : Except ε'' α' → Except ε₀ β' → W → V → Prop} {f : α → Prog S ε'' α'}
    {g : ε → Prog S ε'' α'} {f' : β → Prog T ε₀ β'} {g' : ε' → Prog T ε₀ β'}
    (hpq : Mirrors exec exec' Q p q w v)
    (hrest : ∀ mid mid' u u', Q mid mid' u u' →
      Mirrors exec exec' Q' (resume f g mid) (resume f' g' mid') u u') :
    Mirrors exec exec' Q' (p.handle f g) (q.handle f' g') w v where
  there out w' hrun := by
    obtain ⟨mid, u, hp, hout⟩ := runs_resume.mp hrun
    obtain ⟨mid', u', hq, hQ⟩ := hpq.there mid u hp
    obtain ⟨out', v', hrun', hQ'⟩ := (hrest mid mid' u u' hQ).there out w' hout
    exact ⟨out', v', runs_resume.mpr ⟨mid', u', hq, hrun'⟩, hQ'⟩
  back out v' hrun := by
    obtain ⟨mid', u', hq, hout⟩ := runs_resume.mp hrun
    obtain ⟨mid, u, hp, hQ⟩ := hpq.back mid' u' hq
    obtain ⟨out', w', hrun', hQ'⟩ := (hrest mid mid' u u' hQ).back out v' hout
    exact ⟨out', w', runs_resume.mpr ⟨mid, u, hp, hrun'⟩, hQ'⟩

end Mirrors

/-- The two ended alike, in worlds that are related. -/
def Alike (K : W → V → Prop) (out out' : Except ε α) (w : W) (v : V) : Prop := out = out' ∧ K w v

/-- A sequence of two steps, each the mirror of the other's. -/
theorem Mirrors.bind {K : W → V → Prop} {p : Prog S ε α} {q : Prog T ε α} {f : α → Prog S ε β}
    {f' : α → Prog T ε β} {w : W} {v : V} (hpq : Mirrors exec exec' (Alike K) p q w v)
    (hrest : ∀ a u u', K u u' → Mirrors exec exec' (Alike K) (f a) (f' a) u u') :
    Mirrors exec exec' (Alike K) (p >>= f) (q >>= f') w v := by
  apply hpq.handle
  intro mid mid' u u' hmid
  obtain ⟨rfl, hK⟩ := hmid
  cases mid with
  | ok a => exact hrest a u u' hK
  | error e => exact .raise ⟨rfl, hK⟩

/-- One program, whose calls are carried to two signatures. -/
theorem Mirrors.embed {K : W → V → Prop} {P : U.Op → Prop} {f : U.Op → S.Op}
    {g : ∀ op, S.Resp (f op) → U.Resp op} {f' : U.Op → T.Op}
    {g' : ∀ op, T.Resp (f' op) → U.Resp op}
    (hcall : ∀ op w v, P op → K w v →
      Answered exec exec' (f op) (f' op) (fun r r' w v => g op r = g' op r' ∧ K w v) w v)
    {p : Prog U ε α} (hp : p.Issues P) {w : W} {v : V} (hK : K w v) :
    Mirrors exec exec' (Alike K) (p.embed f g) (p.embed f' g') w v := by
  induction p generalizing w v with
  | ret a => exact .ret ⟨rfl, hK⟩
  | raise e => exact .raise ⟨rfl, hK⟩
  | call op k ih =>
    have hanswers := hcall op w v hp.1 hK
    apply Mirrors.call
    constructor
    · intro c r w' he
      obtain ⟨d, r', v', he', hr, hK'⟩ := hanswers.there c r w' he
      refine ⟨d, r', v', he', ?_⟩
      rw [← hr]
      exact ih (g op r) (hp.2 _) hK'
    · intro d r' v' he
      obtain ⟨c, r, w', he', hr, hK'⟩ := hanswers.back d r' v' he
      refine ⟨c, r, w', he', ?_⟩
      rw [← hr]
      exact ih (g op r) (hp.2 _) hK'

end Prog

end Foundation
