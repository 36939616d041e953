-- SUMMARY: The guard counts the active evaluations, and an interpreter keeps nothing else.
import Egg.Proofs.Eval.Limit

/-!
# The count of active evaluations

Every evaluation counts as one level of the guard, from where its expression is entered
to where it ends, with a result or with an error. To say so of every moment of a run, the
run is repeated under watch: it carries the number of active evaluations along, apart from
the guard, and compares the two whenever that number changes. A watched run may do
anything at all after a comparison that fails. As it ends like the plain run, none does.
-/

namespace Egg

open Egg.Basis

variable {forms : Forms} {allowed : Form → Prop}

/-! ## Runs under watch -/

/-- The guard counts this many active evaluations, and they are within the limit. -/
def Guard.Counts (g : Guard) (limit active : Nat) : Prop :=
  g = ⟨active, limit⟩ ∧ active ≤ limit

instance (g : Guard) (limit active : Nat) : Decidable (g.Counts limit active) :=
  inferInstanceAs (Decidable (_ ∧ _))

/-- Run the body while `active` evaluations are active, and look at the guard before and
    after it. If the guard counts anything else, go on with `otherwise`. -/
def Run.watched (otherwise : Run Value) (limit active : Nat) (body : Run Value) : Run Value :=
  fun w =>
    if w.guard.Counts limit active then
      let r : Finish Value := body w
      if r.world.guard.Counts limit active then r else otherwise r.world
    else otherwise w

/-- Evaluation under watch, with `active` evaluations around it. The guard is looked at
    before the expression is entered, when it has been entered, before it is left, and
    when it has been left. -/
def evaluateWatched (otherwise : Run Value) (limit : Nat) (forms : Forms) :
    Nat → Nat → Expr → ScopeId → Run Value
  | 0, _, _, _ => throw .outOfFuel
  | fuel + 1, active, e, scope =>
    Run.watched otherwise limit active <| descend Halt.tooDeep <|
      Run.watched otherwise limit (active + 1) <|
        Engine.enter ⟨evaluateWatched otherwise limit forms fuel (active + 1), fuel⟩ forms e scope

namespace Pairing

/-- Two runs under one guard, compared up to every end. -/
abbrev whole (g : Guard) : Pairing :=
  same g fun _ => False

/-- Looking at the guard changes nothing as long as the guard counts. -/
theorem Agree.watched {limit active : Nat} (hactive : active ≤ limit) (otherwise : Run Value)
    {m₁ m₂ : Run Value} (hm : (whole ⟨active, limit⟩).Agree m₁ m₂) :
    (whole ⟨active, limit⟩).Agree m₁ (Run.watched otherwise limit active m₂) := by
  intro w hw
  have halike : Alike _ _ (m₂ (w.under ⟨active, limit⟩)) := hm w hw
  rcases halike.cut_or with ⟨halt, w', -, hcut⟩ | ⟨hends, -, -⟩
  · exact hcut.elim
  have hafter : (Finish.world (m₂ (w.under ⟨active, limit⟩))).guard = ⟨active, limit⟩ := by
    rw [hends]
    cases m₁ w <;> rfl
  have hwatched : Run.watched otherwise limit active m₂ (w.under ⟨active, limit⟩) =
      m₂ (w.under ⟨active, limit⟩) := by
    unfold Run.watched
    rw [if_pos ⟨rfl, hactive⟩]
    exact if_pos ⟨hafter, hactive⟩
  show Alike _ _ (Run.watched otherwise limit active m₂ (w.under ⟨active, limit⟩))
  rw [hwatched]
  exact halike

theorem agree_evaluateWatched (hforms : forms.FromBasis allowed) (otherwise : Run Value)
    {limit active : Nat} (hactive : active ≤ limit) (fuel : Nat) (e : Expr) (scope : ScopeId) :
    (whole ⟨active, limit⟩).Agree (evaluate forms fuel e scope)
      (evaluateWatched otherwise limit forms fuel active e scope) := by
  induction fuel generalizing active e scope with
  | zero => exact .throw nofun
  | succ fuel ih =>
    refine .watched hactive otherwise ?_
    refine .descend (fun hlt => ⟨hlt, ?_⟩) fun _ => .inr ⟨rfl, trivial⟩
    -- from here on one more evaluation is active
    have hengines : (whole ⟨active + 1, limit⟩).Engines (forms.engine fuel)
        ⟨evaluateWatched otherwise limit forms fuel (active + 1), fuel⟩ :=
      ⟨fun e scope => ih hlt e scope, .inl rfl⟩
    exact .watched hlt otherwise (hengines.enter hforms (fun _ _ => id) e scope)

end Pairing

/-! ## One evaluation -/

/-- The guard counts at every moment of a run, and it is left as it was found. -/
theorem evaluateWatched_eq (hforms : forms.FromBasis allowed) (otherwise : Run Value) (fuel : Nat)
    (e : Expr) (scope : ScopeId) {w : World} (hw : w.guard.depth ≤ w.guard.limit) :
    evaluateWatched otherwise w.guard.limit forms fuel w.guard.depth e scope w =
        evaluate forms fuel e scope w ∧
      (Finish.world (evaluate forms fuel e scope w)).guard = w.guard := by
  have halike := Pairing.agree_evaluateWatched hforms otherwise hw fuel e scope w
    (Pairing.admits_same w)
  rcases halike.cut_or with ⟨halt, w', -, hcut⟩ | ⟨hends, hafter, -⟩
  · exact hcut.elim
  · have hguard : (Finish.world (evaluate forms fuel e scope w)).guard = w.guard :=
      hafter.guard_eq
    exact ⟨hends.trans (Finish.under_eq_self hguard), hguard⟩

theorem guard_evaluate (hforms : forms.FromBasis allowed) (fuel : Nat) (e : Expr) (scope : ScopeId)
    {w : World} (hw : w.guard.depth ≤ w.guard.limit) :
    (Finish.world (evaluate forms fuel e scope w)).guard = w.guard :=
  (evaluateWatched_eq hforms (throw .outOfFuel) fuel e scope hw).2

theorem evaluate_of_depth_eq (forms : Forms) (fuel : Nat) (e : Expr) (scope : ScopeId) {w : World}
    (hw : w.guard.depth = w.guard.limit) :
    evaluate forms (fuel + 1) e scope w = .error (.error (.recursionLimit w.guard.limit)) w :=
  (Run.enters_descend _).eq_of_le w (Nat.le_of_eq hw.symm)

theorem evaluate_of_depth_lt (hforms : forms.FromBasis allowed) (fuel : Nat) (e : Expr)
    (scope : ScopeId) {w : World} (hw : w.guard.depth < w.guard.limit) :
    evaluate forms (fuel + 1) e scope w =
      Finish.under w.guard ((forms.engine fuel).enter forms e scope
        (w.under w.guard.deeper)) := by
  have hguard := guard_evaluate hforms (fuel + 1) e scope (Nat.le_of_lt hw)
  rw [← Finish.under_eq_self hguard]
  show Finish.under _ (descend Halt.tooDeep ((forms.engine fuel).enter forms e scope) w) = _
  rw [Run.descend_apply, if_pos hw]
  cases (forms.engine fuel).enter forms e scope _ <;> rfl

/-- A word that is bound comes to its value, and it changes nothing. -/
theorem evaluate_word_of_lookup {fuel : Nat} {name : String} {scope : ScopeId} {w : World}
    {v : Value} (h : w.scopes.lookup scope name = some v) (hw : w.guard.depth < w.guard.limit) :
    evaluate forms (fuel + 1) (.word name) scope w = .ok v w := by
  show descend Halt.tooDeep (Engine.evaluateWord name scope) w = _
  rw [(Run.enters_descend _).eq_of_lt w hw, Engine.evaluateWord, Run.get_bind_apply,
    World.scopes_under, h]
  rfl

/-! ## One evaluation after the other -/

/-- What a host asks an interpreter for: an expression in a scope, with scopes, functions
    and a log of the host's own. -/
structure Request where
  fuel : Nat
  expr : Expr
  scope : ScopeId
  world : World

/-- The guard of an interpreter after these evaluations. Each one finds it as the one
    before left it, however that one ended. -/
def Forms.guardAfter (forms : Forms) (g : Guard) (earlier : List Request) : Guard :=
  earlier.foldl (fun g r =>
    (Finish.world (evaluate forms r.fuel r.expr r.scope (r.world.under g))).guard) g

theorem guardAfter_eq (hforms : forms.FromBasis allowed) {g : Guard} (hg : g.depth ≤ g.limit)
    (earlier : List Request) : forms.guardAfter g earlier = g := by
  induction earlier with
  | nil => rfl
  | cons r earlier ih =>
    have hr : (Finish.world (evaluate forms r.fuel r.expr r.scope (r.world.under g))).guard = g :=
      guard_evaluate hforms r.fuel r.expr r.scope hg
    unfold Forms.guardAfter at ih ⊢
    rw [List.foldl_cons, hr, ih]

/-- An evaluation leaves the guard as it found it. At every moment of the run the guard
    counts the active evaluations, and they are within the limit: no comparison under watch
    ever fails. At the limit the evaluation is refused, whatever the table is, and the world
    stays as it is; below the limit the expression is entered. So nothing depends on what
    the interpreter evaluated earlier. -/
theorem evaluate_balanced (hforms : forms.FromBasis allowed) (fuel : Nat) (e : Expr)
    (scope : ScopeId) {w : World} (hw : w.guard.depth ≤ w.guard.limit) :
    (Finish.world (evaluate forms fuel e scope w)).guard = w.guard ∧
    (∀ otherwise, evaluateWatched otherwise w.guard.limit forms fuel w.guard.depth e scope w =
      evaluate forms fuel e scope w) ∧
    (w.guard.depth = w.guard.limit → ∀ forms' : Forms,
      evaluate forms' (fuel + 1) e scope w =
        .error (.error (.recursionLimit w.guard.limit)) w) ∧
    (w.guard.depth < w.guard.limit →
      evaluate forms (fuel + 1) e scope w =
        Finish.under w.guard ((forms.engine fuel).enter forms e scope
          (w.under w.guard.deeper))) ∧
    (∀ earlier : List Request,
      evaluate forms fuel e scope (w.under (forms.guardAfter w.guard earlier)) =
        evaluate forms fuel e scope w) := by
  refine ⟨guard_evaluate hforms fuel e scope hw, fun otherwise => ?_, fun heq forms' => ?_,
    evaluate_of_depth_lt hforms fuel e scope, fun earlier => ?_⟩
  · exact (evaluateWatched_eq hforms otherwise fuel e scope hw).1
  · exact evaluate_of_depth_eq forms' fuel e scope heq
  · rw [guardAfter_eq hforms hw, World.under_guard]

/-- The forms of a small imperative language with exceptions, under their usual names. -/
def catching : Forms :=
  .ofBasis ([.cond, .sequence, .define, .set, .loop, .function, .attempt].map fun f => (f.name, f))

/-- The expression `try(do(do()), "caught")`. -/
def caughtCall : Expr :=
  .apply (.word "try") [.apply (.word "do") [.apply (.word "do") []], .literal (.text "caught")]

theorem evaluate_caughtCall :
    evaluate catching 9 caughtCall 0 (typing.under ⟨1, 3⟩) =
      .ok (.text "caught") { typing with
        guard := ⟨1, 3⟩
        log := #[(EvalError.recursionLimit 3).message] } :=
  rfl

/-- A limit that is reached inside `try` leaves the guard as it was. -/
theorem guard_evaluate_caught_limit :
    catching.FromBasis (fun _ => True) ∧ 1 ≤ 3 ∧
    (Finish.world (evaluate catching 9 caughtCall 0 (typing.under ⟨1, 3⟩))).guard = ⟨1, 3⟩ ∧
    ∀ otherwise, evaluateWatched otherwise 3 catching 9 1 caughtCall 0 (typing.under ⟨1, 3⟩) =
      .ok (.text "caught") { typing with
        guard := ⟨1, 3⟩
        log := #[(EvalError.recursionLimit 3).message] } := by
  have hforms : catching.FromBasis (fun _ => True) :=
    Forms.fromBasis_ofBasis fun _ _ => trivial
  have hle : (typing.under ⟨1, 3⟩).guard.depth ≤ (typing.under ⟨1, 3⟩).guard.limit := by decide
  obtain ⟨hguard, hwatched, -⟩ := evaluate_balanced hforms 9 caughtCall 0 hle
  exact ⟨hforms, hle, hguard, fun otherwise => (hwatched otherwise).trans evaluate_caughtCall⟩

end Egg
