-- SUMMARY: In every world that a host can come to, no evaluation and no scope operation meets a scope in use.
import Mathlib.Data.List.Basic
import Egg.Proofs.Eval.Reachable
import Egg.Proofs.Scope.Borrow

/-!
# Evaluation that borrows

An evaluation borrows a scope for each of its operations on scopes, and gives it back before
anything else is evaluated. To say that it is never refused, the evaluation is repeated with
the borrows: one that is refused may do anything at all from there on. Whoever evaluates says
what it holds meanwhile, and no word is evaluated in a scope that is held to write to it. In a
world where every parent is older than its children, and with nothing held, the evaluation ends
like the plain one. Such are all worlds that a host can come to, since a parent and the scope in
which a function is made are there before what refers to them. That a scope binds a function
that was made in this very scope makes no difference, as no operation goes from a function to
its scope.
-/

namespace Egg

open Egg.Basis

/-! ## Runs that borrow -/

/-- The form that an application with this operator goes to. Of two forms of one name in the
    table the last one counts. -/
def formIn? (table : List (String × Form)) (operator : Expr) : Option Form :=
  operator.word?.bind fun name => table.reverse.lookup name

/-- The value of a word, where the scopes on the way to its binding are borrowed. -/
def evaluateWordBorrowing (otherwise : Run Value) (held : List Borrow) (name : String)
    (scope : ScopeId) : Run Value := do
  let w ← get
  match w.scopes.lookupBorrowing name w.scopes.cells.size held scope with
  | some (some v) => pure v
  | some none => Run.fail (.undefinedBinding name)
  | none => otherwise

/-- What a form or a function uses to evaluate again, while it holds these borrows. -/
structure BorrowingEngine where
  /-- Evaluate an expression in a scope. -/
  evaluate : List Borrow → Expr → ScopeId → Run Value
  /-- How many rounds a loop may take. -/
  rounds : Nat

/-- The engine of someone who holds these borrows all the while. -/
def BorrowingEngine.holding (engine : BorrowingEngine) (held : List Borrow) : Engine :=
  ⟨engine.evaluate held, engine.rounds⟩

/-- What a special form does with the arguments as they are written, while these borrows are held
    already. -/
abbrev BorrowingHandler : Type := BorrowingEngine → List Borrow → List Expr → ScopeId → Run Value

namespace Basis.Form

/-- `define`, where the scope is borrowed once the value is there. -/
def runDefineBorrowing (otherwise : Run Value) : BorrowingHandler :=
  fun engine held args scope => do
    match args with
    | [target, e] =>
      let name ← Run.check (wordArgument "define" target)
      let v ← engine.evaluate held e scope
      let w ← get
      match w.scopes.defineBorrowing name v held scope with
      | some scopes =>
        modify fun w => { w with scopes := scopes }
        pure v
      | none => otherwise
    | _ => wrongArity "define" args 2

/-- `set`, where the scopes on the way to the binding are borrowed once the value is there. -/
def runSetBorrowing (otherwise : Run Value) : BorrowingHandler :=
  fun engine held args scope => do
    match args with
    | [target, e] =>
      let name ← Run.check (wordArgument "set" target)
      let v ← engine.evaluate held e scope
      let w ← get
      match w.scopes.assignBorrowing name v w.scopes.cells.size held scope with
      | some (.ok scopes) =>
        modify fun w => { w with scopes := scopes }
        pure v
      | some (.error .undefined) => Run.fail (.custom s!"cannot set undefined binding {name}")
      | none => otherwise
    | _ => wrongArity "set" args 2

/-- A form that keeps its own scope borrowed as long as it runs, also while it evaluates. -/
def runKeeping (otherwise : Run Value) (access : Access) (handler : Handler) : BorrowingHandler :=
  fun engine held args scope =>
    match borrow? access scope held with
    | some held => handler (engine.holding held) args scope
    | none => otherwise

/-- What each form does, where the scopes that it works on are borrowed. The other forms only
    evaluate, open scopes and make functions. None of this borrows a scope: nobody else
    refers to a new scope yet. -/
def handlerBorrowing (otherwise : Run Value) : Form → BorrowingHandler
  | .define => runDefineBorrowing otherwise
  | .set => runSetBorrowing otherwise
  | .names => runKeeping otherwise .read runNames
  | .has => runKeeping otherwise .read runHas
  | f => fun engine held => f.handler (engine.holding held)

end Basis.Form

/-- Evaluation that borrows, while these borrows are held already. -/
def evaluateBorrowing (otherwise : Run Value) (table : List (String × Form)) :
    List Borrow → Nat → Expr → ScopeId → Run Value
  | _, 0, _, _ => throw .outOfFuel
  | held, fuel + 1, e, scope =>
    let engine : BorrowingEngine :=
      ⟨fun held => evaluateBorrowing otherwise table held fuel, fuel⟩
    descend Halt.tooDeep <|
      match e with
      | .literal value => pure (.ofLiteral value)
      | .word name => evaluateWordBorrowing otherwise held name scope
      | .apply operator args =>
        match formIn? table operator with
        | some f => f.handlerBorrowing otherwise engine held args scope
        | none => (engine.holding held).evaluateCall operator args scope

/-- The engine of a table of forms with this much fuel, where it borrows. -/
def borrowingEngine (otherwise : Run Value) (table : List (String × Form)) (fuel : Nat) :
    BorrowingEngine :=
  ⟨fun held => evaluateBorrowing otherwise table held fuel, fuel⟩

/-! ## Refusals -/

section Refusals

variable {held : List Borrow} {scope holder : ScopeId}

/-- A word is not read if its scope, or one on the way to its binding, cannot be borrowed. -/
theorem evaluateBorrowing_word_of_walk? {w : World} {name : String}
    (h : w.scopes.walk? .read name w.scopes.cells.size held scope = none) (otherwise : Run Value)
    (table : List (String × Form)) (fuel : Nat) :
    evaluateBorrowing otherwise table held (fuel + 1) (.word name) scope w =
      descend Halt.tooDeep otherwise w := by
  have hrefused : evaluateWordBorrowing otherwise held name scope (w.under w.guard.deeper) =
      otherwise (w.under w.guard.deeper) := by
    rw [evaluateWordBorrowing, Run.get_bind_apply, World.scopes_under, Scopes.lookupBorrowing, h]
    rfl
  rw [evaluateBorrowing, Run.descend_apply, Run.descend_apply]
  simp only [hrefused]

/-- In a scope that is held to write to it no word is evaluated. -/
theorem evaluateBorrowing_word_of_write_mem (h : ⟨scope, .write⟩ ∈ held) (otherwise : Run Value)
    (table : List (String × Form)) (fuel : Nat) (name : String) :
    evaluateBorrowing otherwise table held (fuel + 1) (.word name) scope =
      descend Halt.tooDeep otherwise :=
  funext fun w => evaluateBorrowing_word_of_walk?
    (w.scopes.walk?_of_write_mem h .read name _) otherwise table fuel

/-- Nor is a word evaluated in any scope while the scope that binds it is held to write to
    it. -/
theorem evaluateBorrowing_word_of_nearest {w : World} {name : String}
    (hnearest : w.scopes.Nearest name scope holder) (h : ⟨holder, .write⟩ ∈ held)
    (otherwise : Run Value) (table : List (String × Form)) (fuel : Nat) :
    evaluateBorrowing otherwise table held (fuel + 1) (.word name) scope w =
      descend Halt.tooDeep otherwise w :=
  evaluateBorrowing_word_of_walk? (Scopes.walk?_of_nearest hnearest h _) otherwise table fuel

/-- No form that keeps its scope borrowed starts while the scope is held to write to it. -/
theorem runKeeping_of_write_mem (h : ⟨scope, .write⟩ ∈ held) (otherwise : Run Value)
    (access : Access) (handler : Handler) (engine : BorrowingEngine) (args : List Expr) :
    Form.runKeeping otherwise access handler engine held args scope = otherwise := by
  rw [Form.runKeeping, borrow?_of_write_mem h]

/-- A form that keeps its own scope borrowed, to write to it, starts where nobody holds the scope.
    Then no word that it evaluates there is read. -/
theorem runKeeping_write (h : ∀ b ∈ held, b.cell ≠ scope) (otherwise : Run Value)
    (table : List (String × Form)) (fuel : Nat) (handler : Handler) (args : List Expr) :
    Form.runKeeping otherwise .write handler (borrowingEngine otherwise table (fuel + 1)) held
        args scope =
      handler ((borrowingEngine otherwise table (fuel + 1)).holding (⟨scope, .write⟩ :: held))
        args scope ∧
    ∀ name, ((borrowingEngine otherwise table (fuel + 1)).holding
        (⟨scope, .write⟩ :: held)).evaluate (.word name) scope =
      descend Halt.tooDeep otherwise := by
  refine ⟨?_, ?_⟩
  · rw [Form.runKeeping, borrow?_of_forall_ne h]
  · exact evaluateBorrowing_word_of_write_mem List.mem_cons_self otherwise table fuel

end Refusals

/-! ## Tables -/

theorem Forms.get?_ofBasis (table : List (String × Form)) (name : String) :
    (Forms.ofBasis table).get? name = (table.reverse.lookup name).map Form.handler := by
  have hmap (table : List (String × Form)) :
      (table.map fun b => (b.1, b.2.handler)).lookup name =
        (table.lookup name).map Form.handler := by
    induction table with
    | nil => rfl
    | cons b table ih =>
      rw [List.map_cons, List.lookup_cons, List.lookup_cons, ih]
      split <;> rfl
  rw [ofBasis, Dict.get?_insertAll, ← List.map_reverse, Dict.get?_empty, Option.or_none]
  exact hmap table.reverse

/-- A table of forms of the basis is one that can be written down. -/
theorem Forms.FromBasis.exists_table {forms : Forms} {allowed : Form → Prop}
    (hforms : forms.FromBasis allowed) :
    ∃ table : List (String × Form), ∀ name,
      (Forms.ofBasis table).get? name = forms.get? name := by
  have hform (name : String) : ∃ f : Form, ∀ handler, forms.get? name = some handler →
      handler = f.handler := by
    cases hget : forms.get? name with
    | none => exact ⟨.cond, by simp⟩
    | some handler =>
      obtain ⟨f, -, rfl⟩ := hforms name handler hget
      exact ⟨f, by simp⟩
  obtain ⟨form, hform⟩ := Classical.axiomOfChoice hform
  refine ⟨forms.names.map fun name => (name, form name), fun name => ?_⟩
  rw [Forms.get?_ofBasis, ← List.map_reverse]
  cases hget : forms.get? name with
  | none =>
    have hnames : name ∉ forms.names := by simp [Dict.mem_names_iff, Dict.contains, hget]
    have hlookup : (forms.names.reverse.map fun name => (name, form name)).lookup name = none := by
      refine List.lookup_eq_none_iff.mpr (List.forall_mem_map.mpr fun name' hname' => ?_)
      rw [bne_iff_ne]
      rintro rfl
      exact hnames (List.mem_reverse.mp hname')
    rw [hlookup]
    rfl
  | some handler =>
    have hnames : name ∈ forms.names.reverse := by
      simp [Dict.mem_names_iff, Dict.contains, hget]
    rw [List.lookup_graph form hnames, hform name handler hget]
    rfl

namespace Policy

/-! ## Rules -/

variable {p : Policy} {scope : ScopeId} {E₁ : Engine} {E₂ : BorrowingEngine}
  {otherwise : Run Value}

/-- A run that does the same as another one, in the worlds in which it may be started. -/
theorem Coincide.of_eq {α : Type} {m₁ m₂ : Run α} (hm : p.Coincide scope m₁ m₁)
    (heq : ∀ w, p.holds scope w → m₂ w = m₁ w) : p.Coincide scope m₁ m₂ := by
  refine ⟨fun w hw hscope => ?_⟩
  rw [heq w hscope]
  exact hm w hw hscope

theorem coincide_evaluateWordBorrowing (name : String) :
    sound.Coincide scope (Engine.evaluateWord name scope)
      (evaluateWordBorrowing otherwise [] name scope) := by
  refine .of_eq (Engines.evaluateWord name scope) fun w hw => ?_
  rw [evaluateWordBorrowing, Engine.evaluateWord, Run.get_bind_apply, Run.get_bind_apply,
    Scopes.lookupBorrowing_nil hw.sound.scopes.ordered hw.lt_size]
  cases w.scopes.lookup scope name <;> rfl

theorem coincide_defineBorrowing (hE : sound.Engines E₁ (E₂.holding [])) (otherwise : Run Value)
    (args : List Expr) :
    sound.Coincide scope (Form.runDefine E₁ args scope)
      (Form.runDefineBorrowing otherwise E₂ [] args scope) := by
  unfold Form.runDefine Form.runDefineBorrowing
  match args with
  | [] | [_] | _ :: _ :: _ :: _ => exact .fail _
  | [target, e] =>
    refine .bind (.check (Form.wordArgument _ target)) fun name => ?_
    refine .bind (hE.evaluate e (avoids_sound e) scope) fun v => ?_
    refine .of_eq (.bind (.define name v) fun _ => .pure v) fun w _ => ?_
    rw [Run.get_bind_apply, Scopes.defineBorrowing_nil]
    rfl

theorem coincide_assignBorrowing (hE : sound.Engines E₁ (E₂.holding [])) (otherwise : Run Value)
    (args : List Expr) :
    sound.Coincide scope (Form.runSet E₁ args scope)
      (Form.runSetBorrowing otherwise E₂ [] args scope) := by
  unfold Form.runSet Form.runSetBorrowing
  match args with
  | [] | [_] | _ :: _ :: _ :: _ => exact .fail _
  | [target, e] =>
    refine .bind (.check (Form.wordArgument _ target)) fun name => ?_
    refine .bind (hE.evaluate e (avoids_sound e) scope) fun v => ?_
    refine .of_eq (.bind (.assign trivial name v) fun _ => .pure v) fun w hw => ?_
    rw [Run.get_bind_apply, Scopes.assignBorrowing_nil hw.sound.scopes.ordered hw.lt_size,
      Form.assign, Run.bind_apply, Run.get_bind_apply]
    cases w.scopes.assign? scope name v <;> rfl

/-- A form comes to the same if it borrows what it works on. -/
theorem coincide_handlerBorrowing (hE : sound.Engines E₁ (E₂.holding [])) (f : Form)
    (args : List Expr) :
    sound.Coincide scope (f.handler E₁ args scope)
      (f.handlerBorrowing otherwise E₂ [] args scope) := by
  have hplain (f : Form) :
      sound.Coincide scope (f.handler E₁ args scope) (f.handler (E₂.holding []) args scope) :=
    handles_handler trivial E₁ (E₂.holding []) hE args (fun e _ => avoids_sound e) scope
  cases f with
  | define => exact coincide_defineBorrowing hE otherwise args
  | set => exact coincide_assignBorrowing hE otherwise args
  -- these two evaluate nothing, so it makes no difference what they hold
  | names => exact hplain .names
  | has => exact hplain .has
  | cond => exact hplain .cond
  | sequence => exact hplain .sequence
  | reversed => exact hplain .reversed
  | loop => exact hplain .loop
  | function => exact hplain .function
  | block => exact hplain .block
  | attempt => exact hplain .attempt
  | quote => exact hplain .quote
  | const v => exact hplain (.const v)

theorem forOperator?_ofBasis (table : List (String × Form)) (operator : Expr) :
    (Forms.ofBasis table).forOperator? operator = (formIn? table operator).map Form.handler := by
  unfold Forms.forOperator? formIn?
  cases operator.word? with
  | none => rfl
  | some name => exact Forms.get?_ofBasis table name

/-- An evaluation comes to the same if it borrows what it works on. -/
theorem engines_borrowingEngine (otherwise : Run Value) (table : List (String × Form))
    (fuel : Nat) :
    sound.Engines ((Forms.ofBasis table).engine fuel)
      ((borrowingEngine otherwise table fuel).holding []) := by
  refine ⟨?_, rfl⟩
  induction fuel with
  | zero => exact fun e he scope => .throw _
  | succ fuel ih =>
    have hE : sound.Engines ((Forms.ofBasis table).engine fuel)
        ((borrowingEngine otherwise table fuel).holding []) := ⟨ih, rfl⟩
    intro e _ scope
    refine .descend ?_
    cases e with
    | literal value => exact .pure _
    | word name => exact coincide_evaluateWordBorrowing name
    | apply operator args =>
      simp only [Engine.enter, forOperator?_ofBasis]
      cases formIn? table operator with
      | none => exact hE.evaluateCall (avoids_sound operator) (fun e _ => avoids_sound e) scope
      | some f => exact coincide_handlerBorrowing hE f args

end Policy

/-! ## Worlds that a host can come to -/

namespace World

variable {w : World} {id : ScopeId}

/-- In a world that a host can come to, the way outwards from every scope has an end, and its
    scopes are distinct. So a lookup and an assignment end after no more steps than there
    are scopes, and they do what they do without borrows; the scopes that an assignment
    holds, to write to them, are distinct. No borrow is ever refused, neither in an
    operation on a scope nor in an evaluation, whatever form it goes to, nor in a call of a
    function or an application of a form that the host starts directly. -/
theorem Reachable.borrows (hw : Reachable w) (hid : id < w.scopes.cells.size) :
    (∃ path, w.scopes.Way id path ∧ path.Nodup ∧
      ∀ outer, outer ∈ path ↔ w.scopes.Encloses outer id) ∧
    WellFounded (fun parent child => w.scopes.parent? child = some parent) ∧
    (∀ name steps, w.scopes.cells.size ≤ steps →
      w.scopes.lookupBorrowing name steps [] id = some (w.scopes.lookup id name)) ∧
    (∀ name v steps, w.scopes.cells.size ≤ steps →
      (∃ held, w.scopes.walk? .write name steps [] id = some held ∧
        (held.map Borrow.cell).Nodup ∧ ∀ b ∈ held, w.scopes.Encloses b.cell id) ∧
      w.scopes.assignBorrowing name v steps [] id =
        some (match w.scopes.assign? id name v with
          | some s => .ok s
          | none => .error .undefined)) ∧
    (∀ name v, w.scopes.defineBorrowing name v [] id = some (w.scopes.define id name v)) ∧
    w.scopes.copyBorrowing [] id = some (w.scopes.copy id) ∧
    (∀ otherwise table fuel e,
      evaluateBorrowing otherwise table [] fuel e id w =
        evaluate (Forms.ofBasis table) fuel e id w) ∧
    (∀ otherwise table fuel f args,
      ((borrowingEngine otherwise table fuel).holding []).call f args w =
        ((Forms.ofBasis table).engine fuel).call f args w) ∧
    ∀ otherwise table fuel (f : Form) args,
      f.handlerBorrowing otherwise (borrowingEngine otherwise table fuel) [] args id w =
        f.handler ((Forms.ofBasis table).engine fuel) args id w := by
  obtain ⟨hsound, hadmits⟩ := hw.sound
  have hfits := hw.fits hid
  have hengines := Policy.engines_borrowingEngine
  have hord := hsound.scopes.ordered
  have hway := Scopes.way_chain hord hid
  refine ⟨⟨_, hway, hway.nodup hord, hway.mem_iff⟩, hord.wellFounded, ?_, ?_,
    fun name v => Scopes.defineBorrowing_nil _ name v id, Scopes.copyBorrowing_nil _ id,
    ?_, ?_, ?_⟩
  · exact fun name steps hsteps =>
      Scopes.lookupBorrowing_nil hord (Nat.lt_of_lt_of_le hid hsteps) name
  · intro name v steps hsteps
    have hlt := Nat.lt_of_lt_of_le hid hsteps
    obtain ⟨last, inner, hwalk, hnodup, hencloses, -⟩ := Scopes.walk?_nil hord hlt name .write
    refine ⟨⟨_, hwalk, ?_, List.forall_mem_map.mpr hencloses⟩,
      Scopes.assignBorrowing_nil hord hlt name v⟩
    simpa [Function.comp_def] using hnodup
  · intro otherwise table fuel e
    exact ((hengines otherwise table fuel).evaluate e (Policy.avoids_sound e) id w hadmits hfits).eq
  · intro otherwise table fuel f args
    exact ((hengines otherwise table fuel).call f args id w hadmits hfits).eq
  · intro otherwise table fuel f args
    exact (Policy.coincide_handlerBorrowing (hengines otherwise table fuel) f args w hadmits
      hfits).eq

/-- The expression `define(f, fun(x, x))`. -/
def definesFunction : Expr :=
  .apply (.word "define") [.word "f", .apply (.word "fun") [.word "x", .word "x"]]

/-- A world with one scope, in which a function is bound that was made in this scope. -/
def selfBound : World :=
  Finish.world (evaluate imperative 9 definesFunction 0
    { World.fresh 9 with scopes := (Scopes.empty.create none).2 })

/-- The scopes of that world. -/
def binder : Scopes :=
  (Scopes.empty.create none).2.define 0 "f" (.function ⟨"fun", 0⟩)

/-- The scopes during a call of the function: one more, inside the first one. -/
def calling : Scopes :=
  (binder.create (some 0)).2.define 1 "x" (.text "a")

/-- That world during an evaluation. -/
def entered (s : Scopes) : World :=
  ⟨⟨1, 9⟩, s, #[.closure ["x"] (.word "x") 0], #[]⟩

theorem evaluate_selfBound :
    evaluate imperative 9 (.apply (.word "f") [.literal (.text "a")]) 0 selfBound =
      .ok (.text "a") { selfBound with
        scopes := (selfBound.scopes.create (some 0)).2.define 1 "x" (.text "a") } := by
  have hbinder : binder.Reachable := .defined (.created .empty nofun)
  have hcalling : calling.Reachable := .defined (.created hbinder (by rintro _ ⟨⟩; decide))
  have hf : (imperative.engine 8).evaluate (.word "f") 0 (entered binder) =
      .ok (.function ⟨"fun", 0⟩) (entered binder) := by
    refine evaluate_word_of_lookup (w := entered binder) ?_ (by decide)
    exact (Scopes.lookup_eq_some_iff hbinder.ordered).mpr ⟨0, .here (by decide), by decide⟩
  have hx : evaluate imperative 8 (.word "x") 1 (entered calling) =
      .ok (.text "a") (entered calling) := by
    refine evaluate_word_of_lookup ?_ (by decide)
    exact (Scopes.lookup_eq_some_iff hcalling.ordered).mpr ⟨1, .here (by decide), by decide⟩
  calc evaluate imperative 9 (.apply (.word "f") [.literal (.text "a")]) 0 selfBound
    _ = Finish.backTo 0 ((imperative.engine 8).evaluateCall (.word "f") [.literal (.text "a")] 0
          (entered binder)) := (Run.enters_descend _).eq_of_lt selfBound (by decide)
    _ = Finish.backTo 0 ((imperative.engine 8).call ⟨"fun", 0⟩ [.text "a"] (entered binder)) := by
        rw [Engine.evaluateCall, Run.bind_apply, hf]
        rfl
    _ = Finish.backTo 0 (evaluate imperative 8 (.word "x") 1 (entered calling)) := by
        rw [Engine.call_of_closure rfl]
        rfl
    _ = .ok (.text "a") { selfBound with
          scopes := (selfBound.scopes.create (some 0)).2.define 1 "x" (.text "a") } := by
        rw [hx]
        rfl

/-- The scope binds a function that refers to the scope. A call of it opens a scope inside
    that one, and reads there. -/
theorem borrows_selfBound :
    selfBound.Reachable ∧ 0 < selfBound.scopes.cells.size ∧
    (selfBound.scopes.own 0).get? "f" = some (.function ⟨"fun", 0⟩) ∧
    selfBound.callable 0 = .closure ["x"] (.word "x") 0 ∧
    ∀ otherwise, evaluateBorrowing otherwise
        ([.cond, .sequence, .define, .set, .loop, .function].map fun f => (f.name, f)) [] 9
        (.apply (.word "f") [.literal (.text "a")]) 0 selfBound =
      .ok (.text "a") { selfBound with
        scopes := (selfBound.scopes.create (some 0)).2.define 1 "x" (.text "a") } := by
  have hempty : Reachable { World.fresh 9 with scopes := (Scopes.empty.create none).2 } :=
    .created (.fresh 9) nofun
  have hw : selfBound.Reachable :=
    .ran hempty (by decide) (.evaluate (Forms.fromBasis_ofBasis fun _ _ => trivial) 9 _)
  have hid : 0 < selfBound.scopes.cells.size := by decide
  refine ⟨hw, hid, by decide, rfl, fun otherwise => ?_⟩
  rw [(hw.borrows hid).2.2.2.2.2.2.1]
  exact evaluate_selfBound

end World

end Egg
