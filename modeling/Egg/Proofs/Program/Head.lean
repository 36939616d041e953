-- SUMMARY: What a program comes to is decided by the head of its outermost chain of calls.
import Mathlib.Data.List.Induction
import Egg.Program.Arguments
import Egg.Program.Run
import Egg.Proofs.Eval.Agreement
import Egg.Proofs.Scope.Store

/-!
# The head of a program

A program is an atom, its head, that is called with lists of arguments in turn. It is
evaluated without forms, and its bindings are constants. So the head comes to a constant at
most, and a constant cannot be called: no argument is ever evaluated, and apart from the head
only the number of the calls matters.
-/

namespace Egg

/-! ## Calls in turn -/

/-- The expression that calls `head` with each of these lists of arguments in turn. -/
def Expr.called (head : Expr) (argss : List (List Expr)) : Expr :=
  argss.foldl .apply head

theorem Expr.called_concat (head : Expr) (argss : List (List Expr)) (args : List Expr) :
    head.called (argss ++ [args]) = .apply (head.called argss) args := by
  rw [called, called, List.foldl_append]
  rfl

/-- What `calls` calls of a head come to, with `level` evaluations around them, where the
    head itself comes to `result`. The limit may be reached before the head, and the head
    cannot be called. -/
def verdict (limit level calls : Nat) (result : Except EvalError Value) : Except EvalError Value :=
  if limit ≤ level + calls then .error (.recursionLimit limit)
  else
    match result with
    | .error e => .error e
    | .ok v => if calls = 0 then .ok v else .error (.notCallable v.typeName)

section Verdict

variable {limit level calls : Nat} {result : Except EvalError Value} {v : Value} {e : EvalError}

theorem verdict_of_le (h : limit ≤ level + calls) :
    verdict limit level calls result = .error (.recursionLimit limit) :=
  if_pos h

theorem verdict_error (h : level + calls < limit) :
    verdict limit level calls (.error e) = .error e :=
  if_neg (Nat.not_le_of_lt h)

theorem verdict_ok (h : level + calls < limit) (hcalls : calls ≠ 0) :
    verdict limit level calls (.ok v) = .error (.notCallable v.typeName) :=
  (if_neg (Nat.not_le_of_lt h)).trans (if_neg hcalls)

theorem verdict_zero (h : level < limit) : verdict limit level 0 result = result := by
  unfold verdict
  rw [Nat.add_zero, if_neg (Nat.not_le_of_lt h)]
  cases result <;> rfl

/-- One more call looks at what the other calls come to one level below. -/
theorem verdict_succ :
    verdict limit level (calls + 1) result =
      match verdict limit (level + 1) calls result with
      | .ok v => .error (.notCallable v.typeName)
      | .error e => .error e := by
  have hsum : level + (calls + 1) = level + 1 + calls := by omega
  unfold verdict
  rw [hsum]
  split
  · rfl
  · cases result with
    | error e => rfl
    | ok v => by_cases hcalls : calls = 0 <;> simp [hcalls]

theorem eq_of_verdict_eq_ok (h : verdict limit level calls result = .ok v) : result = .ok v := by
  unfold verdict at h
  split at h
  · cases h
  · cases result with
    | error e => cases h
    | ok u => by_cases hcalls : calls = 0 <;> simp_all

theorem verdict_eq_error (h : verdict limit level calls result = .error e) :
    e = .recursionLimit limit ∨ result = .error e ∨ ∃ typeName, e = .notCallable typeName := by
  unfold verdict at h
  split at h
  · cases h
    exact .inl rfl
  · cases result with
    | error e => exact .inr (.inl h)
    | ok u =>
      dsimp only at h
      split at h <;> cases h
      exact .inr (.inr ⟨_, rfl⟩)

end Verdict

/-! ## Evaluation of operators -/

/-- What an evaluation without forms does with the value of an operator, where the arguments
    go to `arguments`, with the fuel that is left. -/
def applyValue (arguments : Nat → List Expr → ScopeId → Run (List Value)) (fuel : Nat)
    (args : List Expr) (scope : ScopeId) : Value → Run Value
  | .function f => do
    let vs ← arguments fuel args scope
    (Forms.engine .empty fuel).call f vs
  | v => Run.fail (.notCallable v.typeName)

/-- Evaluation without forms, in which the arguments of a call go to `arguments`. -/
def evaluateOperators (arguments : Nat → List Expr → ScopeId → Run (List Value)) :
    Nat → Expr → ScopeId → Run Value
  | 0, _, _ => throw .outOfFuel
  | fuel + 1, e, scope =>
    descend Halt.tooDeep <|
      match e with
      | .literal value => pure (.ofLiteral value)
      | .word name => Engine.evaluateWord name scope
      | .apply operator args => do
        let v ← evaluateOperators arguments fuel operator scope
        applyValue arguments fuel args scope v

theorem evaluate_eq_evaluateOperators (fuel : Nat) (e : Expr) (scope : ScopeId) :
    evaluate .empty fuel e scope =
      evaluateOperators (fun fuel => (Forms.engine .empty fuel).evaluateAll) fuel e scope := by
  induction fuel generalizing e with
  | zero => rfl
  | succ fuel ih =>
    cases e with
    | literal | word => rfl
    | apply operator args =>
      rw [evaluate, Engine.enter_empty_apply, evaluateOperators, ← ih]
      rfl

variable {arguments : Nat → List Expr → ScopeId → Run (List Value)} {head : Expr}
  {result : Except EvalError Value} {scope : ScopeId} {w : World}

theorem evaluateOperators_of_le {g : Guard} (h : g.limit ≤ g.depth) (fuel : Nat) (e : Expr) :
    evaluateOperators arguments (fuel + 1) e scope (w.under g) =
      .error (.error (.recursionLimit g.limit)) (w.under g) := by
  unfold evaluateOperators
  rw [Run.descend_apply]
  exact if_neg (Nat.not_lt_of_le h)

/-- An operator that comes to no function fails its application, whatever would evaluate the
    arguments. -/
theorem evaluateOperators_apply {operator : Expr} {g : Guard} {fuel : Nat} (hlt : g.depth < g.limit)
    (hop : evaluateOperators arguments fuel operator scope (w.under g.deeper) =
      Run.check result (w.under g.deeper))
    (hresult : ∀ f, result ≠ .ok (.function f)) (args : List Expr) :
    evaluateOperators arguments (fuel + 1) (.apply operator args) scope (w.under g) =
      Run.check (match result with
        | .ok v => (.error (.notCallable v.typeName) : Except EvalError Value)
        | .error e => .error e) (w.under g) := by
  rw [evaluateOperators, Run.descend_apply, World.guard_under, if_pos hlt, World.under_under,
    Run.bind_apply, hop]
  match result with
  | .error _ => rfl
  | .ok (.function f) => exact absurd rfl (hresult f)
  | .ok (.text _) | .ok (.number _) => rfl

/-- A head that comes to no function decides what calls of it come to, whatever would
    evaluate the arguments. -/
theorem evaluateOperators_called
    (hhead : ∀ fuel g, g.depth < g.limit →
      evaluateOperators arguments (fuel + 1) head scope (w.under g) = Run.check result (w.under g))
    (hresult : ∀ f, result ≠ .ok (.function f)) (argss : List (List Expr)) {fuel : Nat} {g : Guard}
    (hfuel : g.limit - g.depth < fuel) :
    evaluateOperators arguments fuel (head.called argss) scope (w.under g) =
      Run.check (verdict g.limit g.depth argss.length result) (w.under g) := by
  induction argss using List.reverseRecOn generalizing fuel g with
  | nil =>
    obtain ⟨fuel, rfl⟩ := Nat.exists_eq_add_one_of_ne_zero (Nat.ne_zero_of_lt hfuel)
    by_cases hlt : g.depth < g.limit
    · rw [List.length_nil, verdict_zero hlt]
      exact hhead _ g hlt
    · rw [verdict_of_le (Nat.le_add_right_of_le (Nat.le_of_not_lt hlt))]
      exact evaluateOperators_of_le (Nat.le_of_not_lt hlt) _ _
  | append_singleton argss args ih =>
    obtain ⟨fuel, rfl⟩ := Nat.exists_eq_add_one_of_ne_zero (Nat.ne_zero_of_lt hfuel)
    by_cases hlt : g.depth < g.limit
    · have hdeeper : g.deeper.limit - g.deeper.depth < fuel := by
        show g.limit - (g.depth + 1) < fuel
        omega
      rw [Expr.called_concat, List.length_append, List.length_singleton, verdict_succ]
      refine evaluateOperators_apply hlt (ih hdeeper) (fun f h => ?_) args
      exact hresult f (eq_of_verdict_eq_ok h)
    · rw [verdict_of_le (Nat.le_add_right_of_le (Nat.le_of_not_lt hlt))]
      exact evaluateOperators_of_le (Nat.le_of_not_lt hlt) _ _

/-! ## Heads -/

/-- What the head of a program comes to: a literal to its constant, and a word to the value
    that it is bound to last. -/
inductive HeadIs (bindings : List (String × Value)) : Expr → Except EvalError Value → Prop where
  | literal (value : Literal) : HeadIs bindings (.literal value) (.ok (.ofLiteral value))
  | bound {before after : List (String × Value)} {name : String} {v : Value} :
      bindings = before ++ (name, v) :: after → (∀ b ∈ after, b.1 ≠ name) →
      HeadIs bindings (.word name) (.ok v)
  | unbound {name : String} : (∀ b ∈ bindings, b.1 ≠ name) →
      HeadIs bindings (.word name) (.error (.undefinedBinding name))

theorem parseBinding_eq_ok {text name : String} {v : Value}
    (h : parseBinding text = .ok (name, v)) : ∃ value, v = .ofLiteral value := by
  unfold parseBinding at h
  split at h
  · cases h
  · dsimp only at h
    split at h
    · split at h <;> cases h
      exact ⟨_, rfl⟩
    · cases h

namespace Program

variable {path source : String} {bindings : List (String × Value)} {h : Expr}
  {r : Except EvalError Value}

/-- The first entry of a name from behind is the one that none of this name follows. -/
theorem lookup_reverse_eq_some_iff {name : String} {v : Value} :
    bindings.reverse.lookup name = some v ↔
      ∃ before after, bindings = before ++ (name, v) :: after ∧ ∀ b ∈ after, b.1 ≠ name := by
  rw [List.lookup_eq_some_iff]
  constructor
  · rintro ⟨after, before, hsplit, hafter⟩
    refine ⟨before.reverse, after.reverse, ?_, fun b hb => ?_⟩
    · rw [List.reverse_eq_append_iff.mp hsplit, List.reverse_cons, List.append_assoc]
      rfl
    · exact (bne_iff_ne.mp (hafter b (List.mem_reverse.mp hb))).symm
  · rintro ⟨before, after, rfl, hafter⟩
    refine ⟨after.reverse, before.reverse, ?_, fun b hb => ?_⟩
    · rw [List.reverse_append, List.reverse_cons, List.append_assoc]
      rfl
    · exact bne_iff_ne.mpr (hafter b (List.mem_reverse.mp hb)).symm

theorem lookup_reverse_eq_none_iff {name : String} :
    bindings.reverse.lookup name = none ↔ ∀ b ∈ bindings, b.1 ≠ name := by
  rw [List.lookup_eq_none_iff]
  constructor
  · exact fun hnone b hb => (bne_iff_ne.mp (hnone b (List.mem_reverse.mpr hb))).symm
  · exact fun hnone b hb => bne_iff_ne.mpr (hnone b (List.mem_reverse.mp hb)).symm

theorem lookup_world (bindings : List (String × Value)) (name : String) :
    (world bindings).2.scopes.lookup (world bindings).1 name = bindings.reverse.lookup name := by
  have hord : (Scopes.empty.create none).2.Ordered := by
    intro id parent hlink
    cases id <;> cases hlink
  have hroot : 0 < (Scopes.empty.create none).2.cells.size := by decide
  show ((Scopes.empty.create none).2.defineAll 0 bindings).lookup 0 name = _
  rw [Scopes.lookup_eq (hord.defineAll bindings), Scopes.own_defineAll hroot,
    Dict.get?_insertAll, Scopes.parent?_defineAll]
  cases bindings.reverse.lookup name <;> rfl

/-- What a word comes to in the world of a program. -/
def wordResult (bindings : List (String × Value)) (name : String) : Except EvalError Value :=
  match bindings.reverse.lookup name with
  | some v => .ok v
  | none => .error (.undefinedBinding name)

theorem evaluateWord_world (bindings : List (String × Value)) (name : String) (g : Guard) :
    Engine.evaluateWord name (world bindings).1 ((world bindings).2.under g) =
      Run.check (wordResult bindings name) ((world bindings).2.under g) := by
  show (match (world bindings).2.scopes.lookup (world bindings).1 name with
    | some v => (pure v : Run Value)
    | none => Run.fail (.undefinedBinding name)) ((world bindings).2.under g) = _
  rw [lookup_world, wordResult]
  cases bindings.reverse.lookup name <;> rfl

theorem headIs_word_iff {name : String} :
    HeadIs bindings (.word name) r ↔ r = wordResult bindings name := by
  constructor
  · intro hhead
    unfold wordResult
    cases hhead with
    | bound hsplit hafter => rw [lookup_reverse_eq_some_iff.mpr ⟨_, _, hsplit, hafter⟩]
    | unbound hnone => rw [lookup_reverse_eq_none_iff.mpr hnone]
  · rintro rfl
    unfold wordResult
    split
    · next v hlookup =>
      obtain ⟨before, after, hsplit, hafter⟩ := lookup_reverse_eq_some_iff.mp hlookup
      exact .bound hsplit hafter
    · next hlookup => exact .unbound (lookup_reverse_eq_none_iff.mp hlookup)

/-- Every program is calls of a head. -/
theorem exists_called (bindings : List (String × Value)) (e : Expr) :
    ∃ h argss r, e = .called h argss ∧ HeadIs bindings h r := by
  cases e with
  | literal value => exact ⟨.literal value, [], _, rfl, .literal value⟩
  | word name => exact ⟨.word name, [], _, rfl, headIs_word_iff.mpr rfl⟩
  | apply operator args =>
    obtain ⟨h, argss, r, rfl, hr⟩ := exists_called bindings operator
    exact ⟨h, argss ++ [args], r, (h.called_concat argss args).symm, hr⟩

theorem evaluateOperators_head (hhead : HeadIs bindings h r)
    (arguments : Nat → List Expr → ScopeId → Run (List Value)) (fuel : Nat) (g : Guard)
    (hlt : g.depth < g.limit) :
    evaluateOperators arguments (fuel + 1) h (world bindings).1 ((world bindings).2.under g) =
      Run.check r ((world bindings).2.under g) := by
  cases h with
  | literal value =>
    cases hhead
    rw [evaluateOperators, Run.descend_apply, World.guard_under, if_pos hlt]
    rfl
  | word name =>
    obtain rfl := headIs_word_iff.mp hhead
    rw [evaluateOperators, Run.descend_apply, World.guard_under, if_pos hlt, World.under_under,
      evaluateWord_world]
    cases wordResult bindings name <;> rfl
  | apply => cases hhead

/-- Bindings from a command line bind constants, so no head comes to a function. -/
theorem HeadIs.eq_ofLiteral {v : Value} (hhead : HeadIs bindings h (.ok v))
    (hbindings : ∀ b ∈ bindings, ∃ text, parseBinding text = .ok b) :
    ∃ value, v = .ofLiteral value := by
  cases h with
  | literal value =>
    cases hhead
    exact ⟨value, rfl⟩
  | word name =>
    cases hhead with
    | bound hsplit _ =>
      obtain ⟨text, htext⟩ := hbindings (name, v) (by simp [hsplit])
      exact parseBinding_eq_ok htext
  | apply => cases hhead

theorem HeadIs.eq_undefinedBinding {e : EvalError} (hhead : HeadIs bindings h (.error e)) :
    ∃ name, e = .undefinedBinding name := by
  cases hhead
  exact ⟨_, rfl⟩

theorem HeadIs.ne_function (hhead : HeadIs bindings h r)
    (hbindings : ∀ b ∈ bindings, ∃ text, parseBinding text = .ok b) (f : FunctionRef) :
    r ≠ .ok (.function f) := by
  rintro rfl
  obtain ⟨value, hvalue⟩ := HeadIs.eq_ofLiteral hhead hbindings
  cases value <;> cases hvalue

/-! ## Programs -/

theorem eval_of_parse_error {e : ParseError} (hparse : Expr.parse source = .error e) :
    eval path source bindings = .error (.parse path (e.span.place source.toList) e) := by
  rw [eval, parse, hparse]
  rfl

theorem eval_of_parse {e : Expr} (hparse : Expr.parse source = .ok e) :
    eval path source bindings =
      match evaluate .empty ample e (world bindings).1 (world bindings).2 with
      | .ok v _ => .ok v
      | .error halt _ => .error (.eval path halt.report) := by
  rw [eval, parse, hparse]
  rfl

theorem evaluateOperators_world (hhead : HeadIs bindings h r)
    (hbindings : ∀ b ∈ bindings, ∃ text, parseBinding text = .ok b)
    (arguments : Nat → List Expr → ScopeId → Run (List Value)) (argss : List (List Expr)) :
    evaluateOperators arguments ample (h.called argss) (world bindings).1 (world bindings).2 =
      Run.check (verdict evaluationLimit 0 argss.length r) (world bindings).2 :=
  evaluateOperators_called (evaluateOperators_head hhead arguments)
    (HeadIs.ne_function hhead hbindings) argss (g := .idle evaluationLimit) (by decide)

theorem eval_eq_verdict (hhead : HeadIs bindings h r)
    (hbindings : ∀ b ∈ bindings, ∃ text, parseBinding text = .ok b) {argss : List (List Expr)}
    (hparse : Expr.parse source = .ok (h.called argss)) :
    eval path source bindings =
      (verdict evaluationLimit 0 argss.length r).mapError (.eval path) := by
  rw [eval_of_parse hparse, evaluate_eq_evaluateOperators,
    evaluateOperators_world hhead hbindings]
  cases verdict evaluationLimit 0 argss.length r <;> rfl

/-- What can go wrong in a program is its text, the limit, an unbound head or a call of a
    constant. -/
theorem eval_eq_error {e : ProgramError}
    (hbindings : ∀ b ∈ bindings, ∃ text, parseBinding text = .ok b)
    (heval : eval path source bindings = .error e) :
    (∃ place e', e = .parse path place e') ∨
    (∃ e', e = .eval path e' ∧ (e' = .recursionLimit 1024 ∨
      (∃ name, e' = .undefinedBinding name) ∨ ∃ typeName, e' = .notCallable typeName)) := by
  cases hparse : Expr.parse source with
  | error e' =>
    rw [eval_of_parse_error hparse] at heval
    cases heval
    exact .inl ⟨_, _, rfl⟩
  | ok tree =>
    obtain ⟨h, argss, r, rfl, hhead⟩ := exists_called bindings tree
    rw [eval_eq_verdict hhead hbindings hparse] at heval
    cases hverdict : verdict evaluationLimit 0 argss.length r with
    | ok v =>
      rw [hverdict] at heval
      cases heval
    | error e' =>
      rw [hverdict] at heval
      cases heval
      refine .inr ⟨e', rfl, ?_⟩
      rcases verdict_eq_error hverdict with hlimit | rfl | hcallable
      · exact .inl hlimit
      · exact .inr (.inl (HeadIs.eq_undefinedBinding hhead))
      · exact .inr (.inr hcallable)

/-- A source that is not parsed has the error of the parser. Any other one is calls of a
    head, and the number of the calls and what the head comes to decide the outcome: from 1024
    calls on the limit is reached, below that an unbound head fails, a bound or literal head
    without calls is the value, and with calls it is not callable. What the arguments are
    makes no difference, and nothing ever evaluates them. -/
theorem eval_called (path source : String)
    (hbindings : ∀ b ∈ bindings, ∃ text, parseBinding text = .ok b) :
    (∀ e, Expr.parse source = .error e →
      eval path source bindings = .error (.parse path (e.span.place source.toList) e)) ∧
    (∀ e, Expr.parse source = .ok e → ∃ h argss r, e = .called h argss ∧ HeadIs bindings h r) ∧
    (∀ h argss r, Expr.parse source = .ok (h.called argss) → HeadIs bindings h r →
      (1024 ≤ argss.length →
        eval path source bindings = .error (.eval path (.recursionLimit 1024))) ∧
      (argss.length < 1024 → ∀ e, r = .error e →
        eval path source bindings = .error (.eval path e)) ∧
      (argss.length < 1024 → ∀ v, r = .ok v →
        (argss = [] → eval path source bindings = .ok v) ∧
        (argss ≠ [] →
          eval path source bindings = .error (.eval path (.notCallable v.typeName)))) ∧
      (∀ arguments,
        evaluateOperators arguments ample (h.called argss) (world bindings).1 (world bindings).2 =
          evaluate .empty ample (h.called argss) (world bindings).1 (world bindings).2) ∧
      (∀ source' argss', Expr.parse source' = .ok (h.called argss') →
        argss'.length = argss.length →
        eval path source' bindings = eval path source bindings)) ∧
    (∀ e, eval path source bindings = .error e →
      (∃ place e', e = .parse path place e') ∨
      (∃ e', e = .eval path e' ∧ (e' = .recursionLimit 1024 ∨
        (∃ name, e' = .undefinedBinding name) ∨ ∃ typeName, e' = .notCallable typeName))) := by
  refine ⟨fun e => eval_of_parse_error, fun e _ => exists_called bindings e,
    fun h argss r hparse hhead => ⟨?_, ?_, ?_, ?_, ?_⟩, ?_⟩
  · intro hcalls
    rw [eval_eq_verdict hhead hbindings hparse, evaluationLimit,
      verdict_of_le (Nat.le_add_left_of_le hcalls)]
    rfl
  · rintro hcalls e rfl
    rw [eval_eq_verdict hhead hbindings hparse, evaluationLimit,
      verdict_error (by rwa [Nat.zero_add])]
    rfl
  · rintro hcalls v rfl
    rw [eval_eq_verdict hhead hbindings hparse, evaluationLimit]
    constructor
    · rintro rfl
      rw [List.length_nil, verdict_zero (Nat.zero_lt_of_lt hcalls)]
      rfl
    · intro hne
      rw [verdict_ok (by rwa [Nat.zero_add]) (mt List.length_eq_zero_iff.mp hne)]
      rfl
  · intro arguments
    rw [evaluate_eq_evaluateOperators, evaluateOperators_world hhead hbindings,
      evaluateOperators_world hhead hbindings]
  · intro source' argss' hparse' hlength
    rw [eval_eq_verdict hhead hbindings hparse', eval_eq_verdict hhead hbindings hparse, hlength]
  · exact fun e => eval_eq_error hbindings

/-- Two bindings of `f`. -/
def rebound : List (String × Value) :=
  [("f", .text "a"), ("f", .text "b")]

/-- The last binding of `f` is its value, and a call of it fails, although `g` is not bound. -/
theorem eval_called_rebound :
    (∀ b ∈ rebound, ∃ text, parseBinding text = .ok b) ∧
    eval "path" "f" rebound = .ok (.text "b") ∧
    eval "path" "f(g)" rebound = .error (.eval "path" (.notCallable "string")) := by
  have hbindings : ∀ b ∈ rebound, ∃ text, parseBinding text = .ok b := by
    rw [rebound, List.forall_mem_cons, List.forall_mem_singleton]
    exact ⟨⟨"f=\"a\"", by decide +kernel⟩, "f=\"b\"", by decide +kernel⟩
  have hhead : HeadIs rebound (.word "f") (.ok (.text "b")) :=
    HeadIs.bound (show rebound = [_] ++ _ :: [] from rfl) nofun
  have hword : Expr.parse "f" = .ok ((Expr.word "f").called []) := by
    decide +kernel
  have hcall : Expr.parse "f(g)" = .ok ((Expr.word "f").called [[.word "g"]]) := by
    decide +kernel
  obtain ⟨-, -, hwordEnd, -⟩ := eval_called "path" "f" hbindings
  obtain ⟨-, -, hcallEnd, -⟩ := eval_called "path" "f(g)" hbindings
  exact ⟨hbindings, ((hwordEnd _ _ _ hword hhead).2.2.1 (by decide) _ rfl).1 rfl,
    ((hcallEnd _ _ _ hcall hhead).2.2.1 (by decide) _ rfl).2 nofun⟩

end Program

end Egg
