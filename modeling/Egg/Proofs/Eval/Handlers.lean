-- SUMMARY: Calls and the forms of the basis agree on engines that agree.
import Egg.Proofs.Eval.Natives
import Egg.Basis.Forms

/-!
# Forms side by side

A call and a form of the basis evaluate through their engine only, and read nothing of
the guard. So on engines that agree they agree. Only the form that catches errors may
not go with a pairing that is cut by an error.
-/

namespace Egg

open Egg.Basis

variable {α : Type} {p : Pairing}

/-- The function, and every function that it makes, fails only with errors that both
    runs may end with. -/
abbrev Pairing.Fair (p : Pairing) (f : Callable) : Prop :=
  f.Obeys (fun _ => True) p.shared

/-- No function of the basis fails because of a limit. -/
theorem Basis.Native.fair_callable (f : Native) : p.Fair f.callable :=
  Callable.Obeys.mono (fun _ _ => trivial) p.shared_of_ordinary f.callable f.tame_callable

namespace Pairing

/-! ## Changes of the world -/

namespace Agree

theorem log (text : String) : p.Agree (Run.log text) (Run.log text) :=
  modifyGet (fun _ _ => rfl) fun _ hw => ⟨hw.guard_eq, hw.fair⟩

theorem openScope (parent : ScopeId) : p.Agree (Run.openScope parent) (Run.openScope parent) :=
  modifyGet (fun _ _ => rfl) fun _ hw => ⟨hw.guard_eq, hw.fair⟩

theorem define (scope : ScopeId) (name : String) (v : Value) :
    p.Agree (Run.define scope name v) (Run.define scope name v) :=
  modifyGet (fun _ _ => rfl) fun _ hw => ⟨hw.guard_eq, hw.fair⟩

theorem defineAll (scope : ScopeId) (bindings : List (String × Value)) :
    p.Agree (Run.defineAll scope bindings) (Run.defineAll scope bindings) :=
  modifyGet (fun _ _ => rfl) fun _ hw => ⟨hw.guard_eq, hw.fair⟩

theorem make (name : String) {f : Callable} (hf : p.Fair f) :
    p.Agree (Run.make name f) (Run.make name f) := by
  refine modifyGet (fun _ _ => rfl) fun w hw => ⟨hw.guard_eq, fun g hg => ?_⟩
  rcases Array.mem_push.mp hg with hg | rfl
  · exact hw.fair g hg
  · exact hf

theorem receive (g : Given) : p.Agree (Run.receive g) (Run.receive g) := by
  cases g with
  | text | number => exact modifyGet (fun _ _ => rfl) fun _ hw => hw
  | counter name => exact make name ⟨trivial, fun _ => trivial⟩
  | native f => exact make f.name f.fair_callable

theorem perform {r : Reply} (hr : r.Obeys (fun _ => True) p.shared) :
    p.Agree r.perform r.perform := by
  match r with
  | .value v => exact pure v
  | .error e => exact fail hr
  | .logging text r => exact bind (log text) fun _ => perform (r := r) hr
  | .making name f => exact make name hr

end Agree

theorem Admits.fair_callable {w : World} (hw : p.Admits w) (id : FunctionId) :
    p.Fair (w.callable id) :=
  World.obeys_callable hw.fair ⟨trivial, fun _ => trivial⟩ id

/-! ## Calls -/

/-- Two engines evaluate alike. The second one has as many rounds as the first one,
    or more where running out of rounds cuts. -/
structure Engines (p : Pairing) (E₁ E₂ : Engine) : Prop where
  evaluate : ∀ e scope, p.Agree (E₁.evaluate e scope) (E₂.evaluate e scope)
  rounds : E₁.rounds = E₂.rounds ∨ (E₁.rounds ≤ E₂.rounds ∧ p.cut .outOfFuel)

namespace Engines

variable {E₁ E₂ : Engine}

theorem evaluateAll (hE : p.Engines E₁ E₂) (es : List Expr) (scope : ScopeId) :
    p.Agree (E₁.evaluateAll es scope) (E₂.evaluateAll es scope) := by
  induction es with
  | nil => exact .pure []
  | cons e es ih => exact .bind (hE.evaluate e scope) fun v => .bind ih fun vs => .pure (v :: vs)

theorem callClosure (hE : p.Engines E₁ E₂) (params : List String) (body : Expr) (home : ScopeId)
    (args : List Value) :
    p.Agree (E₁.callClosure params body home args) (E₂.callClosure params body home args) := by
  refine .bind (.check (.checkArity _ _ _)) fun _ => .bind (.openScope home) fun scope => ?_
  exact .bind (.defineAll scope _) fun _ => hE.evaluate body scope

theorem call (hE : p.Engines E₁ E₂) (f : FunctionRef) (args : List Value) :
    p.Agree (E₁.call f args) (E₂.call f args) := by
  unfold Engine.call
  refine .get_bind fun w hw => ?_
  have hfair := hw.fair_callable f.id
  rw [World.callable_under]
  cases hc : w.callable f.id with
  | closure params body home => exact hE.callClosure params body home args
  | native run =>
    rw [hc] at hfair
    exact .perform (hfair.2 args)
  | forward =>
    cases args with
    | nil => exact .failOrdinary (.custom _)
    | cons v rest => exact .bind (.check (.asFunction v)) fun g => hE.call g rest
termination_by args.length

theorem evaluateWord (name : String) (scope : ScopeId) :
    p.Agree (Engine.evaluateWord name scope) (Engine.evaluateWord name scope) := by
  unfold Engine.evaluateWord
  refine .get_bind fun w hw => ?_
  rw [World.scopes_under]
  cases w.scopes.lookup scope name with
  | none => exact .failOrdinary nofun
  | some v => exact .pure v

theorem evaluateCall (hE : p.Engines E₁ E₂) (operator : Expr) (args : List Expr) (scope : ScopeId) :
    p.Agree (E₁.evaluateCall operator args scope) (E₂.evaluateCall operator args scope) := by
  refine .bind (hE.evaluate operator scope) fun v => ?_
  cases v with
  | text | number => exact .failOrdinary nofun
  | function f => exact .bind (hE.evaluateAll args scope) fun vs => hE.call f vs

end Engines

/-! ## Forms -/

/-- A form agrees on engines that agree. -/
def Handles (p : Pairing) (handler : Handler) : Prop :=
  ∀ E₁ E₂, p.Engines E₁ E₂ → ∀ args scope, p.Agree (handler E₁ args scope) (handler E₂ args scope)

end Pairing

namespace Basis.Form

theorem ordinary_wordArgument (kind : String) (arg : Expr) : Ordinary (wordArgument kind arg) := by
  unfold wordArgument
  split
  · exact .ok _
  · exact .error nofun

theorem ordinary_wordArguments (kind : String) (args : List Expr) :
    Ordinary (wordArguments kind args) := by
  induction args with
  | nil => exact .ok []
  | cons arg args ih =>
    exact .bind (ordinary_wordArgument kind arg) fun name => .bind ih fun names => .ok _

theorem agree_wrongArity {kind : String} {args : List Expr} {expected : Nat} :
    p.Agree (wrongArity kind args expected) (wrongArity kind args expected) :=
  .failOrdinary nofun

theorem handles_cond : p.Handles runCond := by
  intro E₁ E₂ hE args scope
  unfold runCond
  split
  · next test yes no =>
    refine .bind (hE.evaluate test scope) fun v => .bind (.check (.isTrue v)) fun b => ?_
    cases b with
    | true => exact hE.evaluate yes scope
    | false => exact hE.evaluate no scope
  · exact agree_wrongArity

theorem handles_sequence : p.Handles runSequence := by
  intro E₁ E₂ hE args scope
  exact .bind (hE.evaluateAll args scope) fun vs => .pure _

theorem handles_reversed : p.Handles runReversed := by
  intro E₁ E₂ hE args scope
  exact handles_sequence E₁ E₂ hE args.reverse scope

theorem agree_runRounds {E₁ E₂ : Engine} (hE : p.Engines E₁ E₂) (test body : Expr)
    (scope : ScopeId) {rounds₁ rounds₂ : Nat}
    (hrounds : rounds₁ = rounds₂ ∨ (rounds₁ ≤ rounds₂ ∧ p.cut .outOfFuel)) :
    p.Agree (runRounds E₁ test body scope rounds₁) (runRounds E₂ test body scope rounds₂) := by
  induction rounds₁ generalizing rounds₂ with
  | zero =>
    rcases hrounds with rfl | ⟨-, hcut⟩
    · exact .throw nofun
    · exact fun w _ => .cut hcut
  | succ rounds₁ ih =>
    obtain ⟨rounds₂, rfl⟩ : ∃ n, rounds₂ = n + 1 := by
      refine Nat.exists_eq_succ_of_ne_zero ?_
      rcases hrounds with rfl | ⟨hle, -⟩ <;> omega
    have hrounds' : rounds₁ = rounds₂ ∨ (rounds₁ ≤ rounds₂ ∧ p.cut .outOfFuel) :=
      hrounds.imp Nat.succ.inj fun ⟨hle, hcut⟩ => ⟨Nat.le_of_succ_le_succ hle, hcut⟩
    refine .bind (hE.evaluate test scope) fun v => .bind (.check (.isTrue v)) fun b => ?_
    cases b with
    | true => exact .bind (hE.evaluate body scope) fun _ => ih hrounds'
    | false => exact .pure _

theorem handles_loop : p.Handles runLoop := by
  intro E₁ E₂ hE args scope
  unfold runLoop
  split
  · next test body => exact agree_runRounds hE test body scope hE.rounds
  · exact agree_wrongArity

/-- Catching an error goes with a pairing that no error cuts. -/
theorem handles_attempt (hcut : ∀ e, ¬ p.cut (.error e)) : p.Handles runAttempt := by
  intro E₁ E₂ hE args scope
  unfold runAttempt
  split
  · next first second =>
    refine .tryCatch (hE.evaluate first scope) (fun h => ?_) (fun h hc => ?_)
    · cases h with
      | error e => exact .bind (.log e.message) fun _ => hE.evaluate second scope
      | outOfFuel => exact .throw nofun
    · cases h with
      | error e => exact absurd hc (hcut e)
      | outOfFuel => rfl
  · exact agree_wrongArity

theorem handles_define : p.Handles runDefine := by
  intro E₁ E₂ hE args scope
  unfold runDefine
  split
  · next target e =>
    refine .bind (.check (ordinary_wordArgument _ target)) fun name => ?_
    refine .bind (hE.evaluate e scope) fun v => ?_
    exact .bind (.define scope name v) fun _ => .pure v
  · exact agree_wrongArity

theorem agree_assign (scope : ScopeId) (name : String) (v : Value) :
    p.Agree (assign scope name v) (assign scope name v) := by
  unfold assign
  refine .get_bind fun w hw => ?_
  rw [World.scopes_under]
  cases w.scopes.assign? scope name v with
  | none => exact .failOrdinary nofun
  | some scopes => exact .modifyGet (fun _ _ => rfl) fun _ hw => ⟨hw.guard_eq, hw.fair⟩

theorem handles_set : p.Handles runSet := by
  intro E₁ E₂ hE args scope
  unfold runSet
  split
  · next target e =>
    refine .bind (.check (ordinary_wordArgument _ target)) fun name => ?_
    refine .bind (hE.evaluate e scope) fun v => ?_
    exact .bind (agree_assign scope name v) fun _ => .pure v
  · exact agree_wrongArity

theorem handles_block : p.Handles runBlock := by
  intro E₁ E₂ hE args scope
  unfold runBlock
  split
  · next e => exact .bind (.openScope scope) fun inner => hE.evaluate e inner
  · exact agree_wrongArity

theorem handles_names : p.Handles runNames := by
  intro E₁ E₂ hE args scope
  exact .get_bind fun w hw => .pure _

theorem handles_has : p.Handles runHas := by
  intro E₁ E₂ hE args scope
  unfold runHas
  split
  · next target =>
    refine .bind (.check (ordinary_wordArgument _ target)) fun name => ?_
    exact .get_bind fun w hw => .pure _
  · exact agree_wrongArity

theorem handles_function : p.Handles runFunction := by
  intro E₁ E₂ hE args scope
  unfold runFunction
  cases args.getLast? with
  | none => exact .failOrdinary nofun
  | some body =>
    refine .bind (.check (ordinary_wordArguments _ _)) fun params => ?_
    exact .make "fun" trivial

theorem handles_quote : p.Handles runQuote := by
  intro E₁ E₂ hE args scope
  unfold runQuote
  refine .bind ?_ fun _ => .pure _
  induction args with
  | nil => exact .pure _
  | cons arg args ih =>
    rw [List.forIn_cons]
    refine .bind (.bind (.log arg.print) fun _ => .pure _) fun step => ?_
    cases step with
    | done => exact .pure _
    | yield => exact ih

theorem handles_const (v : Given) : p.Handles (runConst v) := by
  intro E₁ E₂ hE args scope
  exact .receive v

/-- Every form of the basis agrees on engines that agree, except that `try` asks for a
    pairing that no error cuts. -/
theorem handles_handler (f : Form) (hcut : f = .attempt → ∀ e, ¬ p.cut (.error e)) :
    p.Handles f.handler := by
  cases f with
  | cond => exact handles_cond
  | sequence => exact handles_sequence
  | reversed => exact handles_reversed
  | define => exact handles_define
  | set => exact handles_set
  | loop => exact handles_loop
  | function => exact handles_function
  | block => exact handles_block
  | attempt => exact handles_attempt (hcut rfl)
  | quote => exact handles_quote
  | names => exact handles_names
  | has => exact handles_has
  | const v => exact handles_const v

end Basis.Form

/-! ## Tables -/

/-- Every form of the table is one of the basis that is allowed, under whatever name. -/
def Forms.FromBasis (forms : Forms) (allowed : Form → Prop) : Prop :=
  ∀ name handler, forms.get? name = some handler → ∃ f, allowed f ∧ handler = f.handler

namespace Forms

variable {allowed : Form → Prop}

theorem fromBasis_empty : FromBasis .empty allowed :=
  fun _ _ hget => nomatch hget

theorem FromBasis.insert {forms : Forms} (hforms : forms.FromBasis allowed) (name : String)
    {f : Form} (hf : allowed f) : FromBasis (Dict.insert forms name f.handler) allowed := by
  intro name' handler hget
  rw [Dict.get?_insert] at hget
  split at hget
  · exact ⟨f, hf, (Option.some.inj hget).symm⟩
  · exact hforms name' handler hget

theorem FromBasis.erase {forms : Forms} (hforms : forms.FromBasis allowed) (name : String) :
    FromBasis (Dict.erase forms name) allowed := by
  intro name' handler hget
  rw [Dict.get?_erase] at hget
  split at hget
  · cases hget
  · exact hforms name' handler hget

theorem fromBasis_insertAll {forms : Forms} (hforms : forms.FromBasis allowed)
    {table : List (String × Form)} (htable : ∀ b ∈ table, allowed b.2) :
    FromBasis (forms.insertAll (table.map fun (name, f) => (name, f.handler))) allowed := by
  induction table generalizing forms with
  | nil => exact hforms
  | cons b table ih =>
    have ⟨hb, hrest⟩ := List.forall_mem_cons.mp htable
    exact ih (hforms.insert b.1 hb) hrest

/-- The table of these forms of the basis. Of two forms of one name the last counts. -/
def ofBasis (table : List (String × Form)) : Forms :=
  Dict.empty.insertAll (table.map fun (name, f) => (name, f.handler))

theorem fromBasis_ofBasis {table : List (String × Form)} (htable : ∀ b ∈ table, allowed b.2) :
    (ofBasis table).FromBasis allowed :=
  fromBasis_insertAll fromBasis_empty htable

end Forms

namespace Pairing.Engines

theorem enter {E₁ E₂ : Engine} (hE : p.Engines E₁ E₂) {forms : Forms} {allowed : Form → Prop}
    (hforms : forms.FromBasis allowed) (hcut : allowed .attempt → ∀ e, ¬ p.cut (.error e))
    (e : Expr) (scope : ScopeId) :
    p.Agree (E₁.enter forms e scope) (E₂.enter forms e scope) := by
  cases e with
  | literal value => exact .pure _
  | word name => exact evaluateWord name scope
  | apply operator args =>
    simp only [Engine.enter]
    cases hform : forms.forOperator? operator with
    | none => exact hE.evaluateCall operator args scope
    | some handler =>
      obtain ⟨name, -, hget⟩ := Option.bind_eq_some_iff.mp hform
      obtain ⟨f, hf, rfl⟩ := hforms name handler hget
      exact Form.handles_handler f (fun h => hcut (h ▸ hf)) E₁ E₂ hE args scope

end Pairing.Engines

end Egg
