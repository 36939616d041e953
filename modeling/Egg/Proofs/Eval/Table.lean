-- SUMMARY: The table of forms is what the last steps left in it, and applications are dispatched to it.
import Mathlib.Data.List.Induction
import Egg.Basis.Forms
import Egg.Proofs.Eval.Agreement
import Egg.Proofs.Text.ByteOrder

/-!
# The history of a table

An interpreter is set up in any number of steps, some of which replace its whole table of forms,
and afterwards forms are registered and unregistered in any order. What the table says of a name
is what the last step left there that affected the name. What anybody can ask the table agrees
with that, and so does the evaluator.
-/

namespace Egg

/-! ## The last step that matters -/

section LastLeft

variable {σ τ β : Type} {leaves : τ → β → Prop} {steps : List τ} {t : τ} {b : β}

/-- Of the steps that leave something, the last one leaves `b`. -/
def LastLeft (leaves : τ → β → Prop) (steps : List τ) (b : β) : Prop :=
  ∃ before step after, steps = before ++ step :: after ∧ leaves step b ∧
    ∀ later ∈ after, ∀ b', ¬leaves later b'

theorem LastLeft.of_leaves (h : leaves t b) : LastLeft leaves (steps ++ [t]) b :=
  ⟨steps, t, [], rfl, h, nofun⟩

theorem LastLeft.concat (h : LastLeft leaves steps b) (ht : ∀ b', ¬leaves t b') :
    LastLeft leaves (steps ++ [t]) b := by
  obtain ⟨before, step, after, rfl, hstep, hafter⟩ := h
  refine ⟨before, step, after ++ [t], by simp, hstep, fun later hlater => ?_⟩
  rcases List.mem_append.mp hlater with hlater | hlater
  · exact hafter later hlater
  · rwa [List.mem_singleton.mp hlater]

theorem LastLeft.cases_concat (h : LastLeft leaves (steps ++ [t]) b) :
    leaves t b ∨ LastLeft leaves steps b ∧ ∀ b', ¬leaves t b' := by
  obtain ⟨before, step, after, happ, hstep, hafter⟩ := h
  rcases List.eq_nil_or_concat after with rfl | ⟨after', last, rfl⟩
  · obtain ⟨-, hlast⟩ := List.append_inj' happ rfl
    rw [List.singleton_inj.mp hlast]
    exact .inl hstep
  · rw [List.concat_eq_append, ← List.cons_append, ← List.append_assoc] at happ
    obtain ⟨rfl, hlast⟩ := List.append_inj' happ rfl
    rw [List.singleton_inj.mp hlast]
    refine .inr ⟨⟨before, step, after', rfl, hstep, fun later hlater => ?_⟩, ?_⟩
    · exact hafter later (by simp [hlater])
    · exact hafter last (by simp)

/-- Whatever is read of a state that is changed by steps: if a step that leaves something leaves
    it there, and the other steps change nothing, then it is what the last step left, or what was
    there from the start. -/
theorem foldl_eq_iff {step : σ → τ → σ} (read : σ → β)
    (hleaves : ∀ s t b, leaves t b → read (step s t) = b)
    (hkeeps : ∀ s t, (∀ b, ¬leaves t b) → read (step s t) = read s) (s : σ) (steps : List τ)
    (b : β) :
    read (steps.foldl step s) = b ↔
      LastLeft leaves steps b ∨ (∀ t ∈ steps, ∀ b', ¬leaves t b') ∧ read s = b := by
  induction steps using List.reverseRecOn generalizing b with
  | nil => simp [LastLeft]
  | append_singleton steps t ih =>
    rw [List.foldl_append, List.foldl_cons, List.foldl_nil]
    by_cases ht : ∃ left, leaves t left
    · obtain ⟨left, ht⟩ := ht
      rw [hleaves _ t left ht]
      constructor
      · rintro rfl
        exact .inl (.of_leaves ht)
      · rintro (hlast | ⟨hnone, -⟩)
        · rcases hlast.cases_concat with hb | ⟨-, hnone⟩
          · rw [← hleaves s t left ht, hleaves s t b hb]
          · exact absurd ht (hnone left)
        · exact absurd ht (hnone t (by simp) left)
    · have hnone := not_exists.mp ht
      rw [hkeeps _ t hnone, ih]
      refine or_congr ⟨fun h => h.concat hnone, fun h => ?_⟩ (and_congr_left fun _ => ?_)
      · exact (h.cases_concat.resolve_left (hnone b)).1
      · exact ⟨fun h => List.forall_mem_append.mpr ⟨h, by simpa using hnone⟩,
          fun h => (List.forall_mem_append.mp h).1⟩

end LastLeft

/-! ## What a table is asked -/

/-- The answers of a table agree with each other. -/
structure Forms.Coherent (forms : Forms) : Prop where
  /-- The names come in the order of their bytes. -/
  ascending : forms.names.Pairwise fun s t => Text.bytes s < Text.bytes t
  nodup : forms.names.Nodup
  mem_names_iff_contains : ∀ name, name ∈ forms.names ↔ forms.contains name = true
  contains_iff : ∀ name, forms.contains name = true ↔ ∃ handler, forms.get? name = some handler
  size_eq : forms.size = forms.names.length
  isEmpty_iff : forms.isEmpty = true ↔ forms.size = 0

theorem Forms.coherent (forms : Forms) : forms.Coherent where
  ascending := forms.pairwise_names.imp Text.bytes_lt_bytes
  nodup := by
    refine forms.pairwise_names.imp ?_
    rintro name _ hlt rfl
    exact String.lt_irrefl name hlt
  mem_names_iff_contains _ := Dict.mem_names_iff
  contains_iff _ := Option.isSome_iff_exists
  size_eq := (List.length_map _).symm
  isEmpty_iff := List.isEmpty_iff_length_eq_zero

namespace Interpreter

/-! ## Histories -/

/-- A change of the table of an interpreter that is already set up. -/
inductive Change where
  | register (name : String) (handler : Handler)
  | unregister (name : String)

/-- What a change answers: the form that was there. And the table after it. -/
def Change.apply (forms : Forms) : Change → Option Handler × Forms
  | .register name handler => forms.register name handler
  | .unregister name => forms.unregister name

/-- A step in the history of an interpreter. -/
inductive Step where
  | setting (s : Setting)
  | change (c : Change)

/-- The interpreter after one more step. -/
def step (i : Interpreter) : Step → Interpreter
  | .setting s => i.apply s
  | .change c => { i with forms := (c.apply i.forms).2 }

/-- The history of an interpreter that is set up and then changed. -/
def history (settings : List Setting) (changes : List Change) : List Step :=
  settings.map .setting ++ changes.map .change

/-- The interpreter that is set up with these settings, and then changed. -/
def after (settings : List Setting) (changes : List Change) : Interpreter :=
  (changes.map .change).foldl step (build settings)

/-- The step affects what the table says of `name`, and leaves this there. -/
inductive Step.Leaves (name : String) : Step → Option Handler → Prop where
  | table (forms : Forms) : Leaves name (.setting (.forms forms)) (forms.get? name)
  | form (handler : Handler) : Leaves name (.setting (.form name handler)) (some handler)
  | register (handler : Handler) : Leaves name (.change (.register name handler)) (some handler)
  | unregister : Leaves name (.change (.unregister name)) none

/-- The step sets the limit, to this. -/
inductive Step.Limits : Step → Nat → Prop where
  | limit (n : Nat) : Limits (.setting (.limit n)) n

/-! ## One step -/

theorem after_eq (settings : List Setting) (changes : List Change) :
    after settings changes = (history settings changes).foldl step plain := by
  have hbuild : build settings = (settings.map .setting).foldl step plain := by
    rw [List.foldl_map]
    rfl
  rw [history, List.foldl_append, after, hbuild]

theorem after_concat (settings : List Setting) (changes : List Change) (c : Change) :
    after settings (changes ++ [c]) = (after settings changes).step (.change c) := by
  simp [after]

theorem get?_step_of_leaves {name : String} (i : Interpreter) (s : Step) (left : Option Handler)
    (h : s.Leaves name left) : (i.step s).forms.get? name = left := by
  cases h with
  | table forms => rfl
  | form handler => exact (Dict.get?_insert ..).trans (if_pos rfl)
  | register handler => exact (Dict.get?_insert ..).trans (if_pos rfl)
  | unregister => exact (Dict.get?_erase ..).trans (if_pos rfl)

theorem get?_step_of_not_leaves {name : String} (i : Interpreter) (s : Step)
    (h : ∀ left, ¬s.Leaves name left) : (i.step s).forms.get? name = i.forms.get? name := by
  have hne {other : String} {left : Option Handler} {s' : Step}
      (hleaves : s'.Leaves other left) (hs : s = s') : name ≠ other := by
    rintro rfl
    exact h left (hs ▸ hleaves)
  cases s with
  | setting s =>
    cases s with
    | forms table => exact absurd (.table table) (h _)
    | form other handler => exact (Dict.get?_insert ..).trans (if_neg (hne (.form handler) rfl))
    | limit n => rfl
  | change c =>
    cases c with
    | register other handler =>
      exact (Dict.get?_insert ..).trans (if_neg (hne (.register handler) rfl))
    | unregister other => exact (Dict.get?_erase ..).trans (if_neg (hne .unregister rfl))

theorem limit_step_of_limits (i : Interpreter) (s : Step) (n : Nat) (h : s.Limits n) :
    (i.step s).limit = n := by
  cases h
  rfl

theorem limit_step_of_not_limits (i : Interpreter) (s : Step) (h : ∀ n, ¬s.Limits n) :
    (i.step s).limit = i.limit := by
  cases s with
  | setting s =>
    cases s with
    | forms table => rfl
    | form name handler => rfl
    | limit n => exact absurd (.limit n) (h n)
  | change c => rfl

/-! ## Whole histories -/

variable (settings : List Setting) (changes : List Change)

theorem get?_after_eq_iff (name : String) (left : Option Handler) :
    (after settings changes).forms.get? name = left ↔
      LastLeft (Step.Leaves name) (history settings changes) left ∨
        (∀ s ∈ history settings changes, ∀ left', ¬s.Leaves name left') ∧ none = left := by
  rw [after_eq]
  exact foldl_eq_iff (fun i => i.forms.get? name) get?_step_of_leaves
    get?_step_of_not_leaves plain _ left

theorem get?_after_eq_some_iff (name : String) (handler : Handler) :
    (after settings changes).forms.get? name = some handler ↔
      LastLeft (Step.Leaves name) (history settings changes) (some handler) := by
  rw [get?_after_eq_iff]
  exact or_iff_left fun h => nomatch h.2

theorem limit_after_eq_iff (n : Nat) :
    (after settings changes).limit = n ↔
      LastLeft Step.Limits (history settings changes) n ∨
        (∀ s ∈ history settings changes, ∀ n', ¬s.Limits n') ∧ evaluationLimit = n := by
  rw [after_eq]
  exact foldl_eq_iff Interpreter.limit limit_step_of_limits limit_step_of_not_limits
    plain _ n

/-- An application of a word that names a form runs the handler on the arguments as they are
    written, one level deeper, and an application of any other word is a call. -/
theorem enters_apply_word (forms : Forms) (fuel : Nat) (name : String) (args : List Expr)
    (scope : ScopeId) :
    Run.Enters (evaluate forms (fuel + 1) (.apply (.word name) args) scope)
      (match forms.get? name with
        | some handler => handler (forms.engine fuel) args scope
        | none => (forms.engine fuel).evaluateCall (.word name) args scope) :=
  Run.enters_descend _

/-- Set up an interpreter in any way, and change its table of forms in any way. The table then
    has a form under a name exactly if the last step that affected the name left it there, so of
    what was there before the whole table was replaced nothing stays. A registration and an
    unregistration both answer with the form that was there, so they answer with one exactly if
    the name was among those of the table. All that can be asked of the table agrees. The limit is
    the last one that was set, or else the default. An application of a word goes to the form that
    the last step left under the word, whatever the scope, with the arguments as they are written;
    without a form it is a call. Below the limit the handler runs one level deeper, and its end is
    the end of the application, with the count of the guard set back. -/
theorem table_last_left :
    (∀ name handler, (after settings changes).forms.get? name = some handler ↔
      LastLeft (Step.Leaves name) (history settings changes) (some handler)) ∧
    (∀ before table later name, settings = before ++ .forms table :: later →
      (∀ s ∈ history later changes, ∀ left, ¬s.Leaves name left) →
      (after settings changes).forms.get? name = table.get? name) ∧
    (∀ name handler,
      (after settings changes).forms.register name handler =
        ((after settings changes).forms.get? name,
          (after settings (changes ++ [.register name handler])).forms) ∧
      (after settings changes).forms.unregister name =
        ((after settings changes).forms.get? name,
          (after settings (changes ++ [.unregister name])).forms) ∧
      (((after settings changes).forms.get? name).isSome = true ↔
        name ∈ (after settings changes).forms.names)) ∧
    (after settings changes).forms.Coherent ∧
    (∀ n, (after settings changes).limit = n ↔
      LastLeft Step.Limits (history settings changes) n ∨
        (∀ s ∈ history settings changes, ∀ n', ¬s.Limits n') ∧ n = 1024) ∧
    (∀ name handler, LastLeft (Step.Leaves name) (history settings changes) (some handler) →
      ∀ fuel args scope,
        Run.Enters
          (evaluate (after settings changes).forms (fuel + 1) (.apply (.word name) args) scope)
          (handler ((after settings changes).forms.engine fuel) args scope)) ∧
    (∀ name, name ∉ (after settings changes).forms.names → ∀ fuel args scope,
      Run.Enters
        (evaluate (after settings changes).forms (fuel + 1) (.apply (.word name) args) scope)
        (((after settings changes).forms.engine fuel).evaluateCall (.word name) args scope)) := by
  refine ⟨get?_after_eq_some_iff settings changes, ?_, ?_, Forms.coherent _, fun n => ?_, ?_, ?_⟩
  · rintro before table later name rfl hlater
    refine (get?_after_eq_iff ..).mpr (.inl ?_)
    refine ⟨before.map .setting, _, history later changes, ?_, .table table, hlater⟩
    simp [history]
  · intro name handler
    refine ⟨?_, ?_, Dict.mem_names_iff.symm⟩
    · rw [after_concat]
      rfl
    · rw [after_concat]
      rfl
  · rw [limit_after_eq_iff, eq_comm (a := n)]
    rfl
  · intro name handler hlast fuel args scope
    have henters := enters_apply_word (after settings changes).forms fuel name args scope
    rwa [(get?_after_eq_some_iff ..).mpr hlast] at henters
  · intro name hname fuel args scope
    have hnone : (after settings changes).forms.get? name = none := by
      rw [Dict.mem_names_iff] at hname
      exact Option.not_isSome_iff_eq_none.mp hname
    have henters := enters_apply_word (after settings changes).forms fuel name args scope
    rwa [hnone] at henters

open Egg.Basis in
/-- One form, then a table without it, and then the limit. -/
def replacing : List Setting :=
  [.form "quote" Form.runQuote, .forms (Dict.empty.insert "do" Form.runSequence), .limit 7]

open Egg.Basis in
/-- The form that was there before the table is gone, so its name is a word like any other. The
    form of the table stays, and the one that is registered afterwards is applied: it complains
    about the number of its arguments. -/
theorem table_last_left_replacing :
    (after replacing [.register "if" Form.runCond]).forms.get? "do" = some Form.runSequence ∧
    Run.Enters
      (evaluate (after replacing [.register "if" Form.runCond]).forms 3
        (.apply (.word "if") [.word "x"]) 0)
      (Form.runCond ((after replacing [.register "if" Form.runCond]).forms.engine 2)
        [.word "x"] 0) ∧
    Run.Enters
      (evaluate (after replacing [.register "if" Form.runCond]).forms 3
        (.apply (.word "quote") [.word "x"]) 0)
      (((after replacing [.register "if" Form.runCond]).forms.engine 2).evaluateCall
        (.word "quote") [.word "x"] 0) ∧
    evaluate (after replacing [.register "if" Form.runCond]).forms 3
        (.apply (.word "if") [.word "x"]) 0 (.fresh 7) =
      .error (.error (.arityMismatch "if" 3 1)) (.fresh 7) := by
  obtain ⟨-, htable, -, -, -, hform, hcall⟩ :=
    table_last_left replacing [.register "if" Form.runCond]
  have hif := hform "if" Form.runCond
    ⟨replacing.map .setting, _, [], rfl, .register Form.runCond, nofun⟩ 2 [.word "x"] 0
  refine ⟨?_, hif, hcall "quote" ?_ 2 _ 0, hif.eq_of_lt (.fresh 7) (by decide)⟩
  · refine (htable [.form "quote" Form.runQuote] _ [.limit 7] "do" rfl ?_).trans rfl
    intro s hs left hleaves
    rcases List.mem_cons.mp hs with rfl | hs
    · cases hleaves
    · have hsame {name other handler left}
          (h : Step.Leaves name (.change (.register other handler)) left) : name = other := by
        cases h
        rfl
      rw [List.mem_singleton.mp hs] at hleaves
      exact absurd (hsame hleaves) (by decide)
  · decide +kernel

end Interpreter

end Egg
