-- SUMMARY: More fuel and a higher limit change no answer but one that ran out of them.
import Egg.Proofs.Eval.Handlers

/-!
# Fuel and limit

Two evaluations of an expression agree, whether the second one has more fuel or a higher
limit than the first, up to the point where the first one runs out. So more fuel keeps
every result. A higher limit keeps every result but a limit that was reached, provided
that no form catches errors: a caught limit would show in the result.
-/

namespace Egg

open Egg.Basis

variable {forms : Forms} {allowed : Form → Prop} {p : Pairing}

/-- Evaluations agree if the guards count the same, the second limit is no lower, and
    there is as much fuel, or more where running out of it cuts. -/
theorem Pairing.agree_evaluate (hforms : forms.FromBasis allowed)
    (hcatch : allowed .attempt → ∀ e, ¬ p.cut (.error e))
    (hdepth : p.first.depth = p.second.depth) (hlimit : p.first.limit ≤ p.second.limit)
    (hstop : p.cut (.error (.recursionLimit p.first.limit)) ∨
      (p.second = p.first ∧ p.shared (.recursionLimit p.first.limit)))
    {fuel₁ fuel₂ : Nat} (hfuel : fuel₁ = fuel₂ ∨ (fuel₁ ≤ fuel₂ ∧ p.cut .outOfFuel))
    (e : Expr) (scope : ScopeId) :
    p.Agree (evaluate forms fuel₁ e scope) (evaluate forms fuel₂ e scope) := by
  induction fuel₁ generalizing p fuel₂ e scope with
  | zero =>
    rcases hfuel with rfl | ⟨-, hcut⟩
    · exact .throw nofun
    · exact fun w _ => .cut hcut
  | succ fuel₁ ih =>
    obtain ⟨fuel₂, rfl⟩ : ∃ n, fuel₂ = n + 1 := by
      refine Nat.exists_eq_succ_of_ne_zero ?_
      rcases hfuel with rfl | ⟨hle, -⟩ <;> omega
    have hfuel' : fuel₁ = fuel₂ ∨ (fuel₁ ≤ fuel₂ ∧ p.cut .outOfFuel) :=
      hfuel.imp Nat.succ.inj fun ⟨hle, hcut⟩ => ⟨Nat.le_of_succ_le_succ hle, hcut⟩
    have hengines : p.deeper.Engines (forms.engine fuel₁) (forms.engine fuel₂) := by
      have hstop' : p.deeper.cut (.error (.recursionLimit p.deeper.first.limit)) ∨
          (p.deeper.second = p.deeper.first ∧
            p.deeper.shared (.recursionLimit p.deeper.first.limit)) := by
        refine hstop.imp id fun ⟨hsame, hshared⟩ => ⟨?_, hshared⟩
        simp only [deeper, hsame]
      refine ⟨fun e scope => ?_, hfuel'⟩
      exact ih (p := p.deeper) hcatch (congrArg Nat.succ hdepth) hlimit hstop' hfuel' e scope
    refine .descend (fun hlt => ⟨by omega, ?_⟩) fun _ => hstop
    exact hengines.enter hforms hcatch e scope

/-! ## Fuel -/

namespace Pairing

/-- Two runs under one guard. -/
def same (g : Guard) (cut : Halt → Prop) : Pairing where
  first := g
  second := g
  shared := fun _ => True
  shared_of_ordinary := fun _ _ => trivial
  cut := cut

theorem admits_same {cut : Halt → Prop} (w : World) : (same w.guard cut).Admits w :=
  ⟨rfl, fun f _ => f.obeys_of_forall (fun _ => trivial) (fun _ => trivial)⟩

end Pairing

/-- With more fuel than a run needs, the result does not depend on the fuel. -/
theorem evaluate_eq_of_le (hforms : forms.FromBasis allowed) {fuel fuel' : Nat}
    (hle : fuel ≤ fuel') (e : Expr) (scope : ScopeId) (w : World)
    (hends : ∀ w', evaluate forms fuel e scope w ≠ .error .outOfFuel w') :
    evaluate forms fuel' e scope w = evaluate forms fuel e scope w := by
  have hagree : (Pairing.same w.guard (· = .outOfFuel)).Agree
      (evaluate forms fuel e scope) (evaluate forms fuel' e scope) :=
    Pairing.agree_evaluate hforms (by rintro - e ⟨⟩) rfl (Nat.le_refl _)
      (.inr ⟨rfl, trivial⟩) (.inr ⟨hle, rfl⟩) e scope
  rcases (hagree w (Pairing.admits_same w)).cut_or with ⟨halt, w', hcut, rfl⟩ | ⟨hsame, hw, -⟩
  · exact absurd hcut (hends w')
  · exact hsame.trans (Finish.under_eq_self hw.guard_eq)

/-! ## Limit -/

/-- Two runs under limits of their own, of which the first one may be reached before
    the second one. -/
def Pairing.limits (limit limit' : Nat) : Pairing where
  first := .idle limit
  second := .idle limit'
  shared := EvalError.Ordinary
  shared_of_ordinary := fun _ h => h
  cut := (· = .error (.recursionLimit limit))

/-- Without a form that catches errors, a higher limit changes a result only if the
    lower limit was reached. A result that is no reached limit is the same under a
    higher limit, and so are the scopes that it leaves. A higher limit that is reached
    was reached under the lower limit already. -/
theorem evaluate_raise_limit (hforms : forms.FromBasis (· ≠ .attempt)) {limit limit' : Nat}
    (hle : limit ≤ limit') (fuel : Nat) (e : Expr) (scope : ScopeId) (w : World)
    (hw : ∀ f ∈ w.functions, f.Obeys (fun _ => True) EvalError.Ordinary) :
    ((∀ n w', evaluate forms fuel e scope (w.under (.idle limit)) ≠
        .error (.error (.recursionLimit n)) w') →
      evaluate forms fuel e scope (w.under (.idle limit')) =
        Finish.under (.idle limit') (evaluate forms fuel e scope (w.under (.idle limit)))) ∧
    (∀ w', evaluate forms fuel e scope (w.under (.idle limit')) =
        .error (.error (.recursionLimit limit')) w' →
      ∃ w'', evaluate forms fuel e scope (w.under (.idle limit)) =
        .error (.error (.recursionLimit limit)) w'') := by
  have hagree : (Pairing.limits limit limit').Agree
      (evaluate forms fuel e scope) (evaluate forms fuel e scope) :=
    Pairing.agree_evaluate hforms (fun h => absurd rfl h) rfl hle (.inl rfl) (.inl rfl) e scope
  have halike := (hagree (w.under (.idle limit)) ⟨rfl, hw⟩).cut_or
  constructor
  · intro hends
    rcases halike with ⟨halt, w', hcut, rfl⟩ | ⟨hsame, -, -⟩
    · exact absurd hcut (hends limit w')
    · exact hsame
  · intro w' hreached
    rcases halike with ⟨halt, w'', hcut, rfl⟩ | ⟨hsame, -, hshared⟩
    · exact ⟨w'', hcut⟩
    · have hreached' := hsame.symm.trans hreached
      cases hend : evaluate forms fuel e scope (w.under (.idle limit)) with
      | ok v w'' => rw [hend] at hreached'; cases hreached'
      | error halt w'' =>
        rw [hend] at hreached'
        cases hreached'
        exact absurd rfl (hshared _ w'' hend limit')

/-- The forms of a small imperative language without exceptions, under their usual names. -/
def imperative : Forms :=
  .ofBasis ([.cond, .sequence, .define, .set, .loop, .function].map fun f => (f.name, f))

theorem fromBasis_imperative : imperative.FromBasis (· ≠ .attempt) :=
  Forms.fromBasis_ofBasis (List.forall_mem_map.mpr (by simp))

/-- A world with one scope, in which `type` is bound to the function of the basis. -/
def typing : World :=
  { World.fresh 0 with
    scopes := (Scopes.empty.create none).2.define 0 "type" (.function ⟨"type", 0⟩)
    functions := #[Native.type.callable] }

/-- A definition of a function ends the same under the limits 2 and 7. -/
theorem evaluate_define_raise_limit :
    imperative.FromBasis (· ≠ .attempt) ∧ 2 ≤ 7 ∧
    (∀ f ∈ typing.functions, f.Obeys (fun _ => True) EvalError.Ordinary) ∧
    evaluate imperative 9
        (.apply (.word "define") [.word "id", .apply (.word "fun") [.word "x", .word "x"]]) 0
        (typing.under (.idle 7)) =
      .ok (.function ⟨"fun", 1⟩) { typing with
        guard := .idle 7
        scopes := typing.scopes.define 0 "id" (.function ⟨"fun", 1⟩)
        functions := typing.functions.push (.closure ["x"] (.word "x") 0) } := by
  have hfunctions : ∀ f ∈ typing.functions, f.Obeys (fun _ => True) EvalError.Ordinary := by
    intro f hf
    obtain rfl : f = Native.type.callable := by simpa [typing] using hf
    exact Native.fair_callable (p := .limits 2 7) .type
  have hle : 2 ≤ 7 := by decide
  refine ⟨fromBasis_imperative, hle, hfunctions, ?_⟩
  rw [(evaluate_raise_limit fromBasis_imperative hle 9 _ 0 typing hfunctions).1]
  · rfl
  · rintro n w' ⟨⟩

end Egg
