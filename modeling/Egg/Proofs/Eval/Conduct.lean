-- SUMMARY: Calls, the forms of the basis and whole evaluations keep to every policy.
import Egg.Proofs.Eval.Policy
import Egg.Proofs.Eval.Handlers

/-!
# Evaluation under a policy

A call, and a form of the basis, evaluates through its engine only, so on engines that
coincide it coincides, and it keeps to what they keep to. By induction on the fuel so do
evaluations, under two tables of forms that agree on every word that the policy does not
avoid.
-/

namespace Egg

open Egg.Basis

namespace Policy

variable {p : Policy} {scope : ScopeId} {E₁ E₂ : Engine}

/-! ## Values -/

namespace Coincide

theorem receive (g : Given) : p.Coincide scope (Run.receive g) (Run.receive g) := by
  cases g with
  | text | number => exact modifyGet (fun _ hw => hw) fun _ => p.may_aside rfl rfl
  | counter name => exact make_of_obeys name Native.tame_count
  | native f => exact make_of_obeys f.name f.tame_callable

theorem perform {r : Reply} (hr : r.Obeys (¬ ·.IsClosure) fun _ => True) :
    p.Coincide scope r.perform r.perform := by
  match r with
  | .value v => exact pure v
  | .error e => exact fail e
  | .logging text r => exact bind (log text) fun _ => perform (r := r) hr
  | .making name f => exact make_of_obeys name hr

end Coincide

/-! ## Calls -/

/-- Two engines coincide in every scope, on expressions that avoid the words. -/
structure Engines (p : Policy) (E₁ E₂ : Engine) : Prop where
  evaluate : ∀ e, e.Avoids p.avoided → ∀ scope,
    p.Coincide scope (E₁.evaluate e scope) (E₂.evaluate e scope)
  rounds : E₂.rounds = E₁.rounds

namespace Engines

theorem evaluateAll (hE : p.Engines E₁ E₂) {es : List Expr} (hes : ∀ e ∈ es, e.Avoids p.avoided)
    (scope : ScopeId) :
    p.Coincide scope (E₁.evaluateAll es scope) (E₂.evaluateAll es scope) := by
  induction es with
  | nil => exact .pure []
  | cons e es ih =>
    obtain ⟨he, hes⟩ := List.forall_mem_cons.mp hes
    exact .bind (hE.evaluate e he scope) fun v => .bind (ih hes) fun vs => .pure (v :: vs)

/-- The body is evaluated in a scope of its own, inside the home of the function. -/
theorem callClosure (hE : p.Engines E₁ E₂) {params : List String} {body : Expr} {home : ScopeId}
    {w : World} (hw : p.Admits w) (hscope : p.holds scope w)
    (hf : .closure params body home ∈ w.functions) (args : List Value) :
    p.Alike scope w (E₁.callClosure params body home args w)
      (E₂.callClosure params body home args w) := by
  have hopened : p.Alike scope w
      ((Run.openScope home >>= fun inner =>
        Run.defineAll inner (params.zip args) >>= fun _ => E₁.evaluate body inner) w)
      ((Run.openScope home >>= fun inner =>
        Run.defineAll inner (params.zip args) >>= fun _ => E₂.evaluate body inner) w) := by
    refine .inner (.inr ⟨params, body, hf⟩) (fun inner => ?_) hw hscope
    exact .bind (.defineAll _) fun _ => hE.evaluate body (hw _ hf) inner
  unfold Engine.callClosure
  cases checkArity "fun" params.length args.length with
  | error e => exact .error _ hw
  | ok => exact hopened

theorem call (hE : p.Engines E₁ E₂) (f : FunctionRef) (args : List Value) (scope : ScopeId) :
    p.Coincide scope (E₁.call f args) (E₂.call f args) := by
  unfold Engine.call
  refine .get_bind fun w hw hscope => ?_
  have havoids := hw.avoids_callable f.id
  cases hc : w.callable f.id with
  | closure params body home =>
    exact hE.callClosure hw hscope (World.mem_functions_of_callable_eq hc) args
  | native run =>
    rw [hc] at havoids
    exact Coincide.perform (havoids args) w hw hscope
  | forward =>
    cases args with
    | nil => exact Coincide.fail _ w hw hscope
    | cons v rest =>
      exact Coincide.bind (.check v.asFunction) (fun g => hE.call g rest scope) w hw hscope
termination_by args.length

theorem evaluateWord (name : String) (scope : ScopeId) :
    p.Coincide scope (Engine.evaluateWord name scope) (Engine.evaluateWord name scope) := by
  unfold Engine.evaluateWord
  refine .get_bind fun w hw hscope => ?_
  cases w.scopes.lookup scope name with
  | none => exact Coincide.fail _ w hw hscope
  | some v => exact .ok v hw

theorem evaluateCall (hE : p.Engines E₁ E₂) {operator : Expr} (hop : operator.Avoids p.avoided)
    {args : List Expr} (hargs : ∀ e ∈ args, e.Avoids p.avoided) (scope : ScopeId) :
    p.Coincide scope (E₁.evaluateCall operator args scope)
      (E₂.evaluateCall operator args scope) := by
  refine .bind (hE.evaluate operator hop scope) fun v => ?_
  cases v with
  | text | number => exact .fail _
  | function f => exact .bind (hE.evaluateAll hargs scope) fun vs => hE.call f vs scope

end Engines

/-! ## Forms -/

/-- A form coincides on engines that coincide, and it keeps to the policy. -/
def Handles (p : Policy) (handler : Handler) : Prop :=
  ∀ E₁ E₂, p.Engines E₁ E₂ → ∀ args : List Expr, (∀ e ∈ args, e.Avoids p.avoided) →
    ∀ scope, p.Coincide scope (handler E₁ args scope) (handler E₂ args scope)

theorem handles_cond : p.Handles Form.runCond := by
  intro E₁ E₂ hE args hargs scope
  unfold Form.runCond
  split
  · next test yes no =>
    simp only [List.forall_mem_cons] at hargs
    obtain ⟨htest, hyes, hno, -⟩ := hargs
    refine .bind (hE.evaluate test htest scope) fun v => .bind (.check v.isTrue) fun b => ?_
    cases b with
    | true => exact hE.evaluate yes hyes scope
    | false => exact hE.evaluate no hno scope
  · exact .fail _

theorem handles_sequence : p.Handles Form.runSequence := by
  intro E₁ E₂ hE args hargs scope
  exact .bind (hE.evaluateAll hargs scope) fun vs => .pure _

theorem handles_reversed : p.Handles Form.runReversed := by
  intro E₁ E₂ hE args hargs scope
  exact handles_sequence E₁ E₂ hE args.reverse
    (fun e he => hargs e (List.mem_reverse.mp he)) scope

theorem coincide_runRounds (hE : p.Engines E₁ E₂) {test body : Expr}
    (htest : test.Avoids p.avoided) (hbody : body.Avoids p.avoided) (scope : ScopeId)
    (rounds : Nat) :
    p.Coincide scope (Form.runRounds E₁ test body scope rounds)
      (Form.runRounds E₂ test body scope rounds) := by
  induction rounds with
  | zero => exact .throw _
  | succ rounds ih =>
    refine .bind (hE.evaluate test htest scope) fun v => .bind (.check v.isTrue) fun b => ?_
    cases b with
    | true => exact .bind (hE.evaluate body hbody scope) fun _ => ih
    | false => exact .pure _

theorem handles_loop : p.Handles Form.runLoop := by
  intro E₁ E₂ hE args hargs scope
  unfold Form.runLoop
  split
  · next test body =>
    simp only [List.forall_mem_cons] at hargs
    obtain ⟨htest, hbody, -⟩ := hargs
    rw [hE.rounds]
    exact coincide_runRounds hE htest hbody scope E₁.rounds
  · exact .fail _

theorem handles_attempt : p.Handles Form.runAttempt := by
  intro E₁ E₂ hE args hargs scope
  unfold Form.runAttempt
  split
  · next first second =>
    simp only [List.forall_mem_cons] at hargs
    obtain ⟨hfirst, hsecond, -⟩ := hargs
    refine .tryCatch (hE.evaluate first hfirst scope) fun h => ?_
    cases h with
    | error e => exact .bind (.log e.message) fun _ => hE.evaluate second hsecond scope
    | outOfFuel => exact .throw _
  · exact .fail _

theorem handles_define : p.Handles Form.runDefine := by
  intro E₁ E₂ hE args hargs scope
  unfold Form.runDefine
  split
  · next target e =>
    simp only [List.forall_mem_cons] at hargs
    obtain ⟨-, he, -⟩ := hargs
    refine .bind (.check (Form.wordArgument _ target)) fun name => ?_
    refine .bind (hE.evaluate e he scope) fun v => ?_
    exact .bind (.define name v) fun _ => .pure v
  · exact .fail _

theorem handles_set (hset : p.allowed .set) : p.Handles Form.runSet := by
  intro E₁ E₂ hE args hargs scope
  unfold Form.runSet
  split
  · next target e =>
    simp only [List.forall_mem_cons] at hargs
    obtain ⟨-, he, -⟩ := hargs
    refine .bind (.check (Form.wordArgument _ target)) fun name => ?_
    refine .bind (hE.evaluate e he scope) fun v => ?_
    exact .bind (.assign hset name v) fun _ => .pure v
  · exact .fail _

theorem handles_block : p.Handles Form.runBlock := by
  intro E₁ E₂ hE args hargs scope
  unfold Form.runBlock
  split
  · next e =>
    refine ⟨fun w hw hscope => .inner (.inl rfl) (fun inner => ?_) hw hscope⟩
    exact hE.evaluate e (hargs e List.mem_cons_self) inner
  · exact .fail _

theorem handles_names : p.Handles Form.runNames := by
  intro E₁ E₂ hE args hargs scope
  exact .get_bind fun w hw _ => .ok _ hw

theorem handles_has : p.Handles Form.runHas := by
  intro E₁ E₂ hE args hargs scope
  unfold Form.runHas
  split
  · next target =>
    refine .bind (.check (Form.wordArgument _ target)) fun name => ?_
    exact .get_bind fun w hw _ => .ok _ hw
  · exact .fail _

/-- The function avoids the words as its body is one of the arguments, and its home is
    the scope of the application. -/
theorem handles_function : p.Handles Form.runFunction := by
  intro E₁ E₂ hE args hargs scope
  unfold Form.runFunction
  cases hlast : args.getLast? with
  | none => exact .fail _
  | some body =>
    refine .bind (.check (Form.wordArguments _ _)) fun params => ?_
    refine .make "fun" (hargs body (List.mem_of_getLast? hlast)) ?_
    rintro _ _ _ ⟨⟩
    rfl

theorem handles_quote : p.Handles Form.runQuote := by
  intro E₁ E₂ hE args hargs scope
  unfold Form.runQuote
  refine .bind ?_ fun _ => .pure _
  clear hargs
  induction args with
  | nil => exact .pure _
  | cons arg args ih =>
    rw [List.forIn_cons]
    refine .bind (.bind (.log arg.print) fun _ => .pure _) fun step => ?_
    cases step with
    | done => exact .pure _
    | yield => exact ih

theorem handles_const (v : Given) : p.Handles (Form.runConst v) := by
  intro E₁ E₂ hE args hargs scope
  exact .receive v

/-- Every form of the basis that the policy allows keeps to it. -/
theorem handles_handler {f : Form} (hf : p.allowed f) : p.Handles f.handler := by
  cases f with
  | cond => exact handles_cond
  | sequence => exact handles_sequence
  | reversed => exact handles_reversed
  | define => exact handles_define
  | set => exact handles_set hf
  | loop => exact handles_loop
  | function => exact handles_function
  | block => exact handles_block
  | attempt => exact handles_attempt
  | quote => exact handles_quote
  | names => exact handles_names
  | has => exact handles_has
  | const v => exact handles_const v

/-! ## Evaluation -/

/-- The tables agree on every word that is not avoided, and what it names there is an
    allowed form. -/
structure Tables (p : Policy) (forms₁ forms₂ : Forms) : Prop where
  same : ∀ name, ¬ p.avoided name → forms₂.get? name = forms₁.get? name
  allowed : ∀ name, ¬ p.avoided name → ∀ handler, forms₁.get? name = some handler →
    ∃ f, p.allowed f ∧ handler = f.handler

variable {forms₁ forms₂ : Forms}

/-- Where one name is avoided, only what stands under the other ones counts. -/
theorem tables_of_erase {name : String} (havoided : p.avoided = (· = name))
    (hforms : Forms.FromBasis (forms₁.erase name) p.allowed)
    (hsame : ∀ other, other ≠ name → forms₂.get? other = forms₁.get? other) :
    p.Tables forms₁ forms₂ := by
  have hne {other : String} (h : ¬ p.avoided other) : other ≠ name := by rwa [havoided] at h
  refine ⟨fun other h => hsame other (hne h), fun other h handler hget => ?_⟩
  refine hforms other handler ?_
  rwa [Dict.get?_erase, if_neg (hne h)]

/-- An operator leads to the same form in both tables, and the policy allows it. -/
theorem Tables.forOperator? (htables : p.Tables forms₁ forms₂) {operator : Expr}
    (hop : ∀ name, operator.word? = some name → ¬ p.avoided name) :
    forms₂.forOperator? operator = forms₁.forOperator? operator ∧
    ∀ handler, forms₁.forOperator? operator = some handler → p.Handles handler := by
  unfold Forms.forOperator?
  cases hword : operator.word? with
  | none => exact ⟨rfl, nofun⟩
  | some name =>
    refine ⟨htables.same name (hop name hword), fun handler hget => ?_⟩
    obtain ⟨f, hf, rfl⟩ := htables.allowed name (hop name hword) handler hget
    exact handles_handler hf

theorem Engines.enter (hE : p.Engines E₁ E₂) (htables : p.Tables forms₁ forms₂) {e : Expr}
    (he : e.Avoids p.avoided) (scope : ScopeId) :
    p.Coincide scope (E₁.enter forms₁ e scope) (E₂.enter forms₂ e scope) := by
  cases e with
  | literal value => exact .pure _
  | word name => exact evaluateWord name scope
  | apply operator args =>
    obtain ⟨hword, hop, hargs⟩ := he
    rw [Expr.avoidsAll_iff] at hargs
    obtain ⟨hsame, hhandles⟩ := htables.forOperator? hword
    simp only [Engine.enter, hsame]
    cases hform : forms₁.forOperator? operator with
    | none => exact hE.evaluateCall hop hargs scope
    | some handler => exact hhandles handler hform E₁ E₂ hE args hargs scope

/-- Evaluations coincide, and they keep to the policy. -/
theorem Tables.engines (htables : p.Tables forms₁ forms₂) (fuel : Nat) :
    p.Engines (forms₁.engine fuel) (forms₂.engine fuel) := by
  refine ⟨?_, rfl⟩
  induction fuel with
  | zero => exact fun e he scope => .throw _
  | succ fuel ih =>
    have hE : p.Engines (forms₁.engine fuel) (forms₂.engine fuel) := ⟨ih, rfl⟩
    exact fun e he scope => .descend (hE.enter htables he scope)

end Policy

end Egg
