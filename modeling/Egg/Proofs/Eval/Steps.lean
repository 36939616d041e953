-- SUMMARY: The steps of a strict evaluation in their order, and what performing them does.
import Egg.Eval.Interpreter
import Mathlib.Data.List.Infix

/-!
# Steps of a strict evaluation

Without special forms an expression says in which order it is evaluated. The steps are
written down as a list, before anything is evaluated. They work on a stack of values and
keep a record of the calls. They read what the words are bound to, what the functions do
and the limit, and they cannot change any of it: what a function logs or makes is read
off the record of the calls. The first step that fails ends the evaluation.
-/

namespace Egg

/-! ## Answers of the host -/

namespace Reply

/-- The texts that the answer logs, the first one first. -/
def texts : Reply → List String
  | .value _ | .error _ | .making _ _ => []
  | .logging text reply => text :: reply.texts

/-- The functions that the answer makes. -/
def made : Reply → List Callable
  | .value _ | .error _ => []
  | .logging _ reply => reply.made
  | .making _ f => [f]

/-- The value or the error of the answer. A function that it makes gets the identity `id`. -/
def result (id : FunctionId) : Reply → Except EvalError Value
  | .value v => .ok v
  | .error e => .error e
  | .logging _ reply => reply.result id
  | .making name _ => .ok (.function ⟨name, id⟩)

end Reply

/-- What a function of the host answers. A function of another kind has no answer of its
    own, so it gets the default one. -/
def Callable.answer : Callable → List Value → Reply
  | .native run, args => run args
  | .closure _ _ _, _ | .forward, _ => default

namespace Strict

/-! ## Calls -/

/-- A call: the application it is made for, the function, the values of the arguments, and
    the answer. -/
structure Call where
  node : Expr
  function : FunctionRef
  args : List Value
  reply : Reply

/-- What the evaluation of an expression reads. -/
structure Surroundings where
  /-- What each word is bound to. -/
  look : String → Option Value
  functions : Array Callable
  limit : Nat

/-- The functions that there are after these calls. -/
def Surroundings.functionsAfter (s : Surroundings) (calls : List Call) : Array Callable :=
  s.functions ++ (calls.flatMap (·.reply.made)).toArray

/-- What a function answers after these calls. -/
def Surroundings.answer (s : Surroundings) (calls : List Call) (f : FunctionRef)
    (args : List Value) : Reply :=
  ((s.functionsAfter calls).getD f.id .count).answer args

/-! ## Steps -/

/-- One step of an evaluation. -/
inductive Step where
  /-- Enter an expression that has `level` evaluations around it. -/
  | enter (level : Nat)
  | literal (value : Literal)
  | word (name : String)
  /-- Check that the last value, that of an operator, is a function. -/
  | check
  /-- Call that function with the values that came after it. -/
  | call (operator : Expr) (args : List Expr)

/-- The application for which the step makes a call. -/
def Step.node? : Step → Option Expr
  | .call operator args => some (.apply operator args)
  | .enter _ | .literal _ | .word _ | .check => none

/-- How far an evaluation has come. -/
structure Progress where
  /-- The values that were not used yet, the last one first. -/
  stack : List Value
  /-- The calls that were made, the first one first. -/
  calls : List Call

namespace Progress

def start : Progress := ⟨[], []⟩

def push (p : Progress) (v : Value) : Progress :=
  { p with stack := v :: p.stack }

/-- The applications for which the calls were made. -/
def nodes (p : Progress) : List Expr :=
  p.calls.map Call.node

end Progress

/-- How a step ends, or several: it may fail, and what was done up to there is kept. -/
abbrev Ending : Type :=
  EStateM.Result EvalError Progress Unit

/-- How far the evaluation has come in the end. -/
def Ending.progress : Ending → Progress
  | .ok _ p => p
  | .error _ p => p

/-- From `p` on, calls were made for a first part of the applications that are due, in that
    order, and for all of them if nothing failed. -/
def Ending.Records (r : Ending) (p : Progress) (due : List Expr) : Prop :=
  ∃ nodes, nodes <+: due ∧ r.progress.nodes = p.nodes ++ nodes ∧ ∀ p', r = .ok () p' → nodes = due

namespace Surroundings

variable (s : Surroundings)

/-- Make a call, with `rest` left of the stack. -/
def make (call : Call) (rest : List Value) (p : Progress) : Ending :=
  match call.reply.result (s.functionsAfter p.calls).size with
  | .ok v => .ok () ⟨v :: rest, p.calls ++ [call]⟩
  | .error e => .error e ⟨rest, p.calls ++ [call]⟩

/-- Perform one step. -/
def perform : Step → Progress → Ending
  | .enter level, p => if level < s.limit then .ok () p else .error (.recursionLimit s.limit) p
  | .literal value, p => .ok () (p.push (.ofLiteral value))
  | .word name, p =>
    match s.look name with
    | some v => .ok () (p.push v)
    | none => .error (.undefinedBinding name) p
  | .check, p =>
    match p.stack.headD default with
    | .function _ => .ok () p
    | v => .error (.notCallable v.typeName) p
  | .call operator args, p =>
    match (p.stack.drop args.length).headD default with
    | .function f =>
      let values := (p.stack.take args.length).reverse
      let call := ⟨.apply operator args, f, values, s.answer p.calls f values⟩
      s.make call (p.stack.drop (args.length + 1)) p
    | v => .error (.notCallable v.typeName) p

/-- Perform steps in order, up to the first one that fails. -/
def performAll : List Step → Progress → Ending
  | [], p => .ok () p
  | step :: steps, p =>
    match s.perform step p with
    | .ok _ p' => performAll steps p'
    | .error e p' => .error e p'

end Surroundings

end Strict

/-! ## The steps of an expression -/

namespace Expr

open Strict

mutual
/-- The steps of an expression that has `level` evaluations around it. An application
    goes through its operator, checks it, goes through its arguments from left to right,
    and calls. -/
def steps (level : Nat) : Expr → List Step
  | .literal value => [.enter level, .literal value]
  | .word name => [.enter level, .word name]
  | .apply operator args =>
    .enter level :: (operator.steps (level + 1) ++
      .check :: (stepsAll (level + 1) args ++ [.call operator args]))

/-- The steps of expressions, from left to right. -/
def stepsAll (level : Nat) : List Expr → List Step
  | [] => []
  | e :: es => e.steps level ++ stepsAll level es
end

mutual
/-- The applications in an expression in post-order: those in the operator, those in the
    arguments from left to right, and then the application itself. -/
def applications : Expr → List Expr
  | .literal _ | .word _ => []
  | .apply operator args => operator.applications ++ applicationsAll args ++ [.apply operator args]

def applicationsAll : List Expr → List Expr
  | [] => []
  | e :: es => e.applications ++ applicationsAll es
end

mutual
/-- The words in an expression. -/
def words : Expr → List String
  | .literal _ => []
  | .word name => [name]
  | .apply operator args => operator.words ++ wordsAll args

def wordsAll : List Expr → List String
  | [] => []
  | e :: es => e.words ++ wordsAll es
end

theorem steps_eq (e : Expr) (level : Nat) :
    e.steps level = .enter level :: (e.steps level).tail := by
  cases e <;> rw [steps, List.tail_cons]

mutual
/-- Calls are due for the applications, in post-order. -/
theorem nodes_steps (level : Nat) : (e : Expr) →
    (e.steps level).filterMap Step.node? = e.applications
  | .literal _ | .word _ => by simp [steps, applications, Step.node?]
  | .apply operator args => by
    simp [steps, applications, List.filterMap_cons, Step.node?, nodes_steps (level + 1) operator,
      nodes_stepsAll (level + 1) args]

theorem nodes_stepsAll (level : Nat) : (es : List Expr) →
    (stepsAll level es).filterMap Step.node? = applicationsAll es
  | [] => rfl
  | e :: es => by
    simp [stepsAll, applicationsAll, nodes_steps level e, nodes_stepsAll level es]
end

mutual
theorem mem_words_of_mem_steps {name : String} {level : Nat} : (e : Expr) →
    .word name ∈ e.steps level → name ∈ e.words
  | .literal _, h => by simp [steps] at h
  | .word _, h => by simpa [steps, words] using h
  | .apply operator args, h => by
    simp only [steps, List.mem_cons, List.mem_append, reduceCtorEq, false_or, or_false,
      List.not_mem_nil] at h
    refine List.mem_append.mpr (h.imp ?_ ?_)
    · exact mem_words_of_mem_steps operator
    · exact mem_wordsAll_of_mem_stepsAll args

theorem mem_wordsAll_of_mem_stepsAll {name : String} {level : Nat} : (es : List Expr) →
    .word name ∈ stepsAll level es → name ∈ wordsAll es
  | [], h => nomatch h
  | e :: es, h => by
    refine List.mem_append.mpr ((List.mem_append.mp h).imp ?_ ?_)
    · exact mem_words_of_mem_steps e
    · exact mem_wordsAll_of_mem_stepsAll es
end

end Expr

namespace Strict.Surroundings

variable {s s' : Surroundings} {steps steps' : List Step} {step : Step} {p p' : Progress}
  {e : EvalError}

/-! ## Steps in order -/

theorem performAll_singleton : s.performAll [step] p = s.perform step p := by
  unfold performAll
  cases s.perform step p <;> rfl

theorem performAll_append :
    s.performAll (steps ++ steps') p =
      match s.performAll steps p with
      | .ok _ p' => s.performAll steps' p'
      | .error e p' => .error e p' := by
  induction steps generalizing p with
  | nil => rfl
  | cons step steps ih =>
    simp only [List.cons_append, performAll]
    cases s.perform step p with
    | ok _ p' => exact ih
    | error e p' => rfl

theorem performAll_enter_of_lt {level : Nat} (h : level < s.limit) :
    s.performAll (.enter level :: steps) p = s.performAll steps p := by
  simp only [performAll, perform, if_pos h]

theorem performAll_enter_of_le {level : Nat} (h : s.limit ≤ level) :
    s.performAll (.enter level :: steps) p = .error (.recursionLimit s.limit) p := by
  simp only [performAll, perform, if_neg (Nat.not_lt_of_le h)]

/-- Performing steps fails exactly where some of them are performed and the next one fails. -/
theorem performAll_eq_error_iff :
    s.performAll steps p = .error e p' ↔
      ∃ done step rest mid, steps = done ++ step :: rest ∧ s.performAll done p = .ok () mid ∧
        s.perform step mid = .error e p' := by
  constructor
  · intro h
    induction steps generalizing p with
    | nil => cases h
    | cons step steps ih =>
      cases hstep : s.perform step p with
      | error e' p'' =>
        simp only [performAll, hstep] at h
        cases h
        exact ⟨[], step, steps, p, rfl, rfl, hstep⟩
      | ok _ p'' =>
        simp only [performAll, hstep] at h
        obtain ⟨done, next, rest, mid, rfl, hdone, hnext⟩ := ih h
        refine ⟨step :: done, next, rest, mid, rfl, ?_, hnext⟩
        simpa only [performAll, hstep] using hdone
  · rintro ⟨done, step, rest, mid, rfl, hdone, hstep⟩
    rw [performAll_append, hdone]
    simp only [performAll, hstep]

/-- The steps depend on the words only through what they are bound to. -/
theorem performAll_congr (hfunctions : s.functions = s'.functions) (hlimit : s.limit = s'.limit)
    (hlook : ∀ name, .word name ∈ steps → s.look name = s'.look name) :
    s.performAll steps p = s'.performAll steps p := by
  induction steps generalizing p with
  | nil => rfl
  | cons step steps ih =>
    have hstep : s.perform step p = s'.perform step p := by
      cases step with
      | word name => simp only [perform, hlook name List.mem_cons_self]
      | literal | check => rfl
      | enter => simp only [perform, hlimit]
      | call => simp only [perform, make, answer, functionsAfter, hfunctions]
    have hrest : ∀ name, .word name ∈ steps → s.look name = s'.look name :=
      fun name h => hlook name (List.mem_cons_of_mem _ h)
    simp only [performAll, hstep, ih hrest]

/-- A call takes its arguments from the stack, and its function from below them. -/
theorem perform_call {f : FunctionRef} {vs stack : List Value} {operator : Expr}
    {args : List Expr} (hlength : vs.length = args.length)
    (hstack : p.stack = vs.reverse ++ .function f :: stack) :
    s.perform (.call operator args) p =
      s.make ⟨.apply operator args, f, vs, s.answer p.calls f vs⟩ stack p := by
  have hlength' : vs.reverse.length = args.length := List.length_reverse.trans hlength
  have hdrop : p.stack.drop args.length = .function f :: stack := by
    rw [hstack, ← hlength', List.drop_left]
  have htake : (p.stack.take args.length).reverse = vs := by
    rw [hstack, ← hlength', List.take_left, List.reverse_reverse]
  have hrest : p.stack.drop (args.length + 1) = stack := by
    rw [← List.drop_drop, hdrop]
    rfl
  simp only [perform, hdrop, List.headD_cons, htake, hrest]

/-! ## The record of the calls -/

theorem records_of_calls_eq {r : Ending} (h : r.progress.calls = p.calls) : r.Records p [] := by
  refine ⟨[], List.prefix_rfl, ?_, fun _ _ => rfl⟩
  unfold Progress.nodes
  rw [h, List.append_nil]

theorem records_perform (step : Step) (p : Progress) :
    (s.perform step p).Records p step.node?.toList := by
  cases step with
  | literal value => exact records_of_calls_eq rfl
  | enter | word | check =>
    refine records_of_calls_eq ?_
    simp only [perform]
    split <;> rfl
  | call operator args =>
    simp only [perform]
    split
    · refine ⟨_, List.prefix_rfl, ?_, fun _ _ => rfl⟩
      unfold make
      split <;> exact List.map_append
    · exact ⟨[], List.nil_prefix, (List.append_nil _).symm, nofun⟩

/-- Calls are made for the applications that the steps are for. -/
theorem records_performAll (steps : List Step) (p : Progress) :
    (s.performAll steps p).Records p (steps.filterMap Step.node?) := by
  induction steps generalizing p with
  | nil => exact records_of_calls_eq rfl
  | cons step steps ih =>
    have hdue : (step :: steps).filterMap Step.node? =
        step.node?.toList ++ steps.filterMap Step.node? := by
      cases h : step.node? <;> simp [h]
    obtain ⟨nodes, hprefix, hnodes, hall⟩ := s.records_perform step p
    rw [hdue]
    unfold performAll
    cases hstep : s.perform step p with
    | ok _ p' =>
      obtain ⟨nodes', hprefix', hnodes', hall'⟩ := ih p'
      rw [hstep] at hnodes
      obtain rfl := hall p' hstep
      refine ⟨step.node?.toList ++ nodes', (List.prefix_append_right_inj _).mpr hprefix', ?_, ?_⟩
      · rw [hnodes', ← List.append_assoc, ← hnodes]
        rfl
      · exact fun p'' h => congrArg _ (hall' p'' h)
    | error e p' =>
      rw [hstep] at hnodes
      exact ⟨nodes, hprefix.trans (List.prefix_append _ _), hnodes, nofun⟩

/-! ## What is called with what -/

/-- After the earlier calls, the call is due: the operator of its node was evaluated, then
    the arguments from left to right, and they came to the function and to the values of
    the call. The answer is the one of that function to those values. -/
def Due (s : Surroundings) (earlier : List Call) (call : Call) : Prop :=
  ∃ operator args level stack first second,
    call.node = .apply operator args ∧
    s.performAll (operator.steps level) ⟨stack, first⟩ =
      .ok () ⟨.function call.function :: stack, second⟩ ∧
    s.performAll (Expr.stepsAll level args) ⟨.function call.function :: stack, second⟩ =
      .ok () ⟨call.args.reverse ++ .function call.function :: stack, earlier⟩ ∧
    call.args.length = args.length ∧
    call.reply = s.answer earlier call.function call.args

/-- Each of the calls was due after the ones before it. -/
def Orderly (s : Surroundings) (calls : List Call) : Prop :=
  ∀ earlier call, earlier ++ [call] <+: calls → s.Due earlier call

theorem orderly_nil : s.Orderly [] := by
  intro earlier call h
  simp at h

theorem Orderly.concat {calls : List Call} {call : Call} (hcalls : s.Orderly calls)
    (hcall : s.Due calls call) : s.Orderly (calls ++ [call]) := by
  intro earlier call' h
  rcases List.prefix_concat_iff.mp h with heq | h
  · obtain ⟨rfl, hlast⟩ := List.append_inj' heq rfl
    cases hlast
    exact hcall
  · exact hcalls earlier call' h

end Strict.Surroundings

end Egg
