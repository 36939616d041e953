-- SUMMARY: Without special forms, evaluation performs the steps of a strict evaluation.
import Egg.Proofs.Eval.Agreement
import Egg.Proofs.Eval.Steps

/-!
# Strict evaluation

With an empty table of forms and functions of the host only, an evaluation performs the
steps of its expression in their order. What it leaves of the world is the world it found
and what the answers of its calls log and make. So no scope changes, and only the words
that occur in the expression matter.
-/

namespace Egg

open Strict

/-! ## The world after calls -/

namespace World

/-- The world after these calls. -/
def after (w : World) (calls : List Call) : World :=
  { w with
    functions := w.functions ++ (calls.flatMap (·.reply.made)).toArray
    log := w.log ++ (calls.flatMap (·.reply.texts)).toArray }

/-- What an evaluation in this scope reads of the world. -/
def surroundings (w : World) (scope : ScopeId) : Surroundings :=
  ⟨w.scopes.lookup scope, w.functions, w.guard.limit⟩

variable (w : World)

@[simp] theorem guard_after (calls : List Call) : (w.after calls).guard = w.guard := rfl

@[simp] theorem scopes_after (calls : List Call) : (w.after calls).scopes = w.scopes := rfl

@[simp] theorem after_nil : w.after [] = w := by
  simp [after]

/-- The world after an answer. -/
def record (reply : Reply) : World :=
  { w with functions := w.functions ++ reply.made.toArray, log := w.log ++ reply.texts.toArray }

theorem after_concat (calls : List Call) (call : Call) :
    w.after (calls ++ [call]) = (w.after calls).record call.reply := by
  simp [after, record, Array.append_assoc]

end World

namespace Reply

theorem perform_apply (reply : Reply) (w : World) :
    reply.perform w =
      match reply.result w.functions.size with
      | .ok v => .ok v (w.record reply)
      | .error e => .error (.error e) (w.record reply) := by
  match reply with
  | .value v => simp [perform, result, World.record, made, texts]; rfl
  | .error e => simp [perform, result, World.record, made, texts]; rfl
  | .making name f => simp [perform, result, World.record, made, texts]; rfl
  | .logging text reply =>
    have hlog : World.record { w with log := w.log.push text } reply =
        w.record (.logging text reply) := by
      simp [World.record, made, texts]
    have ih := perform_apply reply { w with log := w.log.push text }
    rw [hlog] at ih
    exact ih

theorem obeys_of_mem_made {kind : Callable → Prop} {fault : EvalError → Prop} {f : Callable} :
    (reply : Reply) → reply.Obeys kind fault → f ∈ reply.made → f.Obeys kind fault
  | .logging _ reply, h, hf => obeys_of_mem_made reply h hf
  | .making _ g, h, hf => by
    obtain rfl := List.mem_singleton.mp hf
    exact h

end Reply

namespace Callable

/-- The function is one of the host. -/
def IsNative (f : Callable) : Prop :=
  ∃ run, f = .native run

/-- A function of the host that makes only such functions, if it makes any. -/
abbrev Hosted (f : Callable) : Prop :=
  f.Obeys IsNative fun _ => True

end Callable

namespace Strict

variable {α β : Type} {w : World} {scope : ScopeId} {p : Progress} {steps steps' : List Step}

/-! ## Runs that follow steps -/

/-- Every function is one of the host, and every call so far was due. -/
structure Sound (w : World) (scope : ScopeId) (p : Progress) : Prop where
  hosted : ∀ f ∈ (w.after p.calls).functions, f.Hosted
  orderly : (w.surroundings scope).Orderly p.calls

theorem Sound.record {call : Call} (hp : Sound w scope p)
    (hdue : (w.surroundings scope).Due p.calls call)
    (hreply : call.reply.Obeys Callable.IsNative fun _ => True) (stack : List Value) :
    Sound w scope ⟨stack, p.calls ++ [call]⟩ where
  hosted g hg := by
    rw [World.after_concat] at hg
    rcases Array.mem_append.mp hg with hg | hg
    · exact hp.hosted g hg
    · exact Reply.obeys_of_mem_made call.reply hreply (List.mem_toArray.mp hg)
  orderly := hp.orderly.concat hdue

/-- A run and some steps end in the same way, in the world after the calls. -/
inductive Ends (w : World) (scope : ScopeId) (post : α → Progress → Prop) :
    Finish α → Ending → Prop where
  | ok {a : α} {p : Progress} : Sound w scope p → post a p →
      Ends w scope post (.ok a (w.after p.calls)) (.ok () p)
  | error {e : EvalError} {p : Progress} : (w.surroundings scope).Orderly p.calls →
      Ends w scope post (.error (.error e) (w.after p.calls)) (.error e p)

/-- From the progress `p` on, the run does what the steps do. If it has a result, the
    result and the progress are as `post` says. -/
def Follows (w : World) (scope : ScopeId) (p : Progress) (m : Run α) (steps : List Step)
    (post : α → Progress → Prop) : Prop :=
  Sound w scope p →
    Ends w scope post (m (w.after p.calls)) ((w.surroundings scope).performAll steps p)

namespace Follows

theorem pure {a : α} {post : α → Progress → Prop} (h : post a p) :
    Follows w scope p (pure a) [] post :=
  fun hp => .ok hp h

theorem bind {m : Run α} {k : α → Run β} {post : α → Progress → Prop}
    {post' : β → Progress → Prop} (hm : Follows w scope p m steps post)
    (hk : ∀ a p', (w.surroundings scope).performAll steps p = .ok () p' → post a p' →
      Follows w scope p' (k a) steps' post') :
    Follows w scope p (m >>= k) (steps ++ steps') post' := by
  intro hp
  have hends := hm hp
  rw [Run.bind_apply, Surroundings.performAll_append]
  generalize m (w.after p.calls) = r at hends
  generalize hperformed : (w.surroundings scope).performAll steps p = r' at hends
  cases hends with
  | ok hp' hpost => exact hk _ _ hperformed hpost hp'
  | error horderly => exact .error horderly

theorem map {m : Run α} {f : α → β} {post : α → Progress → Prop} {post' : β → Progress → Prop}
    (hm : Follows w scope p m steps post) (h : ∀ a p', post a p' → post' (f a) p') :
    Follows w scope p (m >>= fun a => Pure.pure (f a)) steps post' := by
  rw [← List.append_nil steps]
  exact bind hm fun a p' _ hpost => pure (h a p' hpost)

/-- The value is pushed on the stack. -/
abbrev Pushes (p : Progress) (v : Value) (p' : Progress) : Prop :=
  p'.stack = v :: p.stack

theorem literal (value : Literal) :
    Follows w scope p (Pure.pure (Value.ofLiteral value)) [.literal value] (Pushes p) :=
  fun hp => .ok (p := p.push (.ofLiteral value)) ⟨hp.hosted, hp.orderly⟩ rfl

theorem word (name : String) :
    Follows w scope p (Engine.evaluateWord name scope) [.word name] (Pushes p) := by
  intro hp
  have hget : (get : Run World) (w.after p.calls) = .ok (w.after p.calls) (w.after p.calls) := rfl
  rw [Engine.evaluateWord, Run.bind_apply, hget, Surroundings.performAll_singleton]
  simp only [Surroundings.perform, World.surroundings, World.scopes_after]
  cases w.scopes.lookup scope name with
  | some v => exact .ok (p := p.push v) ⟨hp.hosted, hp.orderly⟩ rfl
  | none => exact .error hp.orderly

theorem check {m : Run α} {post : α → Progress → Prop} {f : FunctionRef} {stack : List Value}
    (hstack : p.stack = .function f :: stack) (hm : Follows w scope p m steps post) :
    Follows w scope p m (.check :: steps) post := by
  intro hp
  simp only [Surroundings.performAll, Surroundings.perform, hstack, List.headD_cons]
  exact hm hp

theorem notCallable {post : α → Progress → Prop} {v : Value} {stack : List Value}
    (hstack : p.stack = v :: stack) (hv : v.isFunction = false) :
    Follows w scope p (Run.fail (.notCallable v.typeName) : Run α) (.check :: steps) post := by
  intro hp
  simp only [Surroundings.performAll, Surroundings.perform, hstack, List.headD_cons]
  cases v with
  | function f => cases hv
  | text | number => exact .error hp.orderly

theorem call {engine : Engine} {f : FunctionRef} {vs stack : List Value} {operator : Expr}
    {args : List Expr} (hlength : vs.length = args.length)
    (hstack : p.stack = vs.reverse ++ .function f :: stack)
    (hdue : (w.surroundings scope).Due p.calls
      ⟨.apply operator args, f, vs, (w.surroundings scope).answer p.calls f vs⟩) :
    Follows w scope p (engine.call f vs) [.call operator args]
      fun v p' => p'.stack = v :: stack := by
  intro hp
  have hhosted : ((w.after p.calls).callable f.id).Hosted :=
    World.obeys_callable hp.hosted ⟨⟨_, rfl⟩, fun _ => trivial⟩ f.id
  have hanswer : (w.surroundings scope).answer p.calls f vs =
      ((w.after p.calls).callable f.id).answer vs := rfl
  rw [Surroundings.performAll_singleton, Surroundings.perform_call hlength hstack, hanswer]
  rw [hanswer] at hdue
  cases hcallable : (w.after p.calls).callable f.id with
  | closure | forward =>
    obtain ⟨run, hrun⟩ := hcallable ▸ hhosted
    cases hrun
  | native run =>
    rw [hcallable] at hhosted hdue
    rw [Engine.call_of_native hcallable, Reply.perform_apply]
    have hsound := hp.record hdue (hhosted.2 vs)
    have hafter := w.after_concat p.calls ⟨.apply operator args, f, vs, run vs⟩
    have hsize : ((w.surroundings scope).functionsAfter p.calls).size =
        (w.after p.calls).functions.size := rfl
    simp only [Surroundings.make, Callable.answer, hsize, ← hafter]
    cases (run vs).result (w.after p.calls).functions.size with
    | ok v => exact .ok (hsound (v :: stack)) rfl
    | error e => exact .error (hsound stack).orderly

/-! ## Expressions -/

/-- The values are pushed on the stack, the first one first. -/
abbrev PushesAll (p : Progress) (length : Nat) (vs : List Value) (p' : Progress) : Prop :=
  vs.length = length ∧ p'.stack = vs.reverse ++ p.stack

variable {engine : Engine} {level : Nat}

theorem evaluateAll
    (hengine : ∀ e p, Follows w scope p (engine.evaluate e scope) (e.steps level) (Pushes p))
    (es : List Expr) (p : Progress) :
    Follows w scope p (engine.evaluateAll es scope) (Expr.stepsAll level es)
      (PushesAll p es.length) := by
  induction es generalizing p with
  | nil => exact pure ⟨rfl, rfl⟩
  | cons e es ih =>
    refine bind (hengine e p) fun v p' _ hv => map (ih p') fun vs p'' ⟨hlength, hvs⟩ => ⟨?_, ?_⟩
    · rw [List.length_cons, List.length_cons, hlength]
    · rw [hvs, hv, List.reverse_cons, List.append_assoc, List.singleton_append]

theorem evaluateCall
    (hengine : ∀ e p, Follows w scope p (engine.evaluate e scope) (e.steps level) (Pushes p))
    (operator : Expr) (args : List Expr) (p : Progress) :
    Follows w scope p (engine.evaluateCall operator args scope)
      (operator.steps level ++ .check :: (Expr.stepsAll level args ++ [.call operator args]))
      (Pushes p) := by
  refine bind (hengine operator p) fun v p₁ hfirst hv => ?_
  cases v with
  | text | number => exact notCallable hv rfl
  | function f =>
    refine check hv (bind (evaluateAll hengine args p₁) fun vs p₂ hsecond ⟨hlength, hvs⟩ => ?_)
    rw [hv] at hvs
    refine call hlength hvs ⟨operator, args, level, p.stack, p.calls, p₁.calls, rfl, ?_, ?_,
      hlength, rfl⟩
    · rw [← hv]
      exact hfirst
    · rw [← hvs, ← hv]
      exact hsecond

theorem enter
    (hengine : ∀ e p, Follows w scope p (engine.evaluate e scope) (e.steps (level + 1)) (Pushes p))
    (e : Expr) (p : Progress) :
    Follows w scope p (engine.enter .empty e scope) (e.steps level).tail (Pushes p) := by
  cases e with
  | literal value =>
    rw [Expr.steps]
    exact literal value
  | word name =>
    rw [Expr.steps]
    exact word name
  | apply operator args =>
    rw [Expr.steps, Engine.enter_empty_apply]
    exact evaluateCall hengine operator args p

theorem descend {m : Run α} {post : α → Progress → Prop}
    (hm : w.guard.depth < w.guard.limit →
      Follows (w.under w.guard.deeper) scope p m steps post) :
    Follows w scope p (descend Halt.tooDeep m) (.enter w.guard.depth :: steps) post := by
  intro hp
  rw [Run.descend_apply, World.guard_after]
  by_cases hlt : w.guard.depth < w.guard.limit
  · have hends : Ends (w.under w.guard.deeper) scope post
        (m ((w.after p.calls).under w.guard.deeper))
        ((w.surroundings scope).performAll steps p) := hm hlt ⟨hp.hosted, hp.orderly⟩
    rw [if_pos hlt, Surroundings.performAll_enter_of_lt hlt]
    generalize m _ = r at hends ⊢
    generalize (w.surroundings scope).performAll steps p = r' at hends ⊢
    cases hends with
    | ok hp' hpost => exact .ok ⟨hp'.hosted, hp'.orderly⟩ hpost
    | error horderly => exact .error horderly
  · rw [if_neg hlt, Surroundings.performAll_enter_of_le (Nat.le_of_not_lt hlt)]
    exact .error hp.orderly

end Follows

/-- Without special forms, evaluation follows the steps of its expression. -/
theorem follows_evaluate {fuel : Nat} (hfuel : w.guard.limit - w.guard.depth < fuel) (e : Expr)
    (p : Progress) :
    Follows w scope p (evaluate .empty fuel e scope) (e.steps w.guard.depth)
      (Follows.Pushes p) := by
  induction fuel generalizing w e p with
  | zero => exact absurd hfuel (Nat.not_lt_zero _)
  | succ fuel ih =>
    have hinner (hlt : w.guard.depth < w.guard.limit) (e : Expr) (p : Progress) :
        Follows (w.under w.guard.deeper) scope p
          (evaluate .empty fuel e scope) (e.steps (w.guard.depth + 1)) (Follows.Pushes p) := by
      refine ih (w := w.under w.guard.deeper) ?_ e p
      show w.guard.limit - (w.guard.depth + 1) < fuel
      omega
    rw [Expr.steps_eq]
    exact .descend fun hlt => .enter (hinner hlt) e p

/-! ## The whole evaluation -/

/-- The end of a run with this result in this world. -/
def finish (result : Except EvalError Value) (w : World) : Finish Value :=
  match result with
  | .ok v => .ok v w
  | .error e => .error (.error e) w

/-- The result that the steps have come to: the error, or the value on the stack. -/
def Ending.result : Ending → Except EvalError Value
  | .ok _ p => .ok (p.stack.headD default)
  | .error e _ => .error e

theorem Ends.eq_finish {r : Finish Value} {r' : Ending}
    (h : Ends w scope (Follows.Pushes p) r r') :
    r = finish r'.result (w.after r'.progress.calls) := by
  cases h with
  | @ok v p' hsound hv =>
    have hresult : v = p'.stack.headD default := by rw [hv, List.headD_cons]
    rw [hresult]
    rfl
  | error horderly => rfl

theorem Ends.eq_ok {r : Finish Value} {r' : Ending} {v : Value}
    (h : Ends w scope (Follows.Pushes .start) r r') (hv : r'.result = .ok v) :
    r' = .ok () ⟨[v], r'.progress.calls⟩ := by
  cases h with
  | @ok v' p hsound hstack =>
    obtain ⟨stack, calls⟩ := p
    obtain rfl : stack = [v'] := hstack
    cases hv
    rfl
  | error => cases hv

theorem Ends.orderly {post : α → Progress → Prop} {r : Finish α} {r' : Ending}
    (h : Ends w scope post r r') : (w.surroundings scope).Orderly r'.progress.calls := by
  cases h with
  | ok hsound _ => exact hsound.orderly
  | error horderly => exact horderly

theorem sound_start (hw : ∀ f ∈ w.functions, f.Hosted) : Sound w scope .start where
  hosted f hf := by
    rw [Progress.start, World.after_nil] at hf
    exact hw f hf
  orderly := Surroundings.orderly_nil

theorem ends_evaluate (hw : ∀ f ∈ w.functions, f.Hosted) {fuel : Nat}
    (hfuel : w.guard.limit - w.guard.depth < fuel) (e : Expr) (scope : ScopeId) :
    Ends w scope (Follows.Pushes .start) (evaluate .empty fuel e scope w)
      ((w.surroundings scope).performAll (e.steps w.guard.depth) .start) := by
  have hends : Ends w scope (Follows.Pushes .start) (evaluate .empty fuel e scope (w.after []))
      ((w.surroundings scope).performAll (e.steps w.guard.depth) .start) :=
    follows_evaluate hfuel e .start (sound_start hw)
  rwa [World.after_nil] at hends

/-- The end of an evaluation, also with other scopes that bind the words of the expression
    to the same values. -/
theorem evaluate_eq_finish (hw : ∀ f ∈ w.functions, f.Hosted) {fuel : Nat}
    (hfuel : w.guard.limit - w.guard.depth < fuel) {e : Expr} {scopes : Scopes} {scope' : ScopeId}
    (hlook : ∀ name ∈ e.words, scopes.lookup scope' name = w.scopes.lookup scope name)
    {r : Ending} (hr : (w.surroundings scope).performAll (e.steps w.guard.depth) .start = r) :
    evaluate .empty fuel e scope' { w with scopes := scopes } =
      finish r.result ({ w with scopes := scopes }.after r.progress.calls) := by
  have hsame : (World.surroundings { w with scopes := scopes } scope').performAll
        (e.steps w.guard.depth) .start =
      (w.surroundings scope).performAll (e.steps w.guard.depth) .start :=
    Surroundings.performAll_congr rfl rfl fun name h => hlook name (e.mem_words_of_mem_steps h)
  have hends : Ends { w with scopes := scopes } scope' (Follows.Pushes .start) _
      ((World.surroundings { w with scopes := scopes } scope').performAll _ .start) :=
    ends_evaluate (w := { w with scopes := scopes }) hw hfuel e scope'
  rw [← hr, ← hsame]
  exact hends.eq_finish

end Strict

/-- Without special forms and with functions of the host only, an evaluation ends as the
    steps of its expression do. It changes no scope; the functions and the log have grown
    by what the answers of the calls make and log. The calls are those of the applications
    in post-order, each one with what its operator and its arguments came to, and all of
    them if there is a value. An error is that of the first step that fails. Of the scopes
    only what the words of the expression are bound to matters. -/
theorem evaluate_strict {w : World} (hw : ∀ f ∈ w.functions, f.Hosted) {fuel : Nat}
    (hfuel : w.guard.limit - w.guard.depth < fuel) (e : Expr) (scope : ScopeId) :
    ∃ (result : Except EvalError Value) (calls : List Call),
      evaluate .empty fuel e scope w = finish result (w.after calls) ∧
      (Finish.world (evaluate .empty fuel e scope w)).scopes = w.scopes ∧
      calls.map Call.node <+: e.applications ∧
      (w.surroundings scope).Orderly calls ∧
      (∀ v, result = .ok v → calls.map Call.node = e.applications ∧
        (w.surroundings scope).performAll (e.steps w.guard.depth) .start = .ok () ⟨[v], calls⟩) ∧
      (∀ err, result = .error err → ∃ done step rest mid stack,
        e.steps w.guard.depth = done ++ step :: rest ∧
        (w.surroundings scope).performAll done .start = .ok () mid ∧
        (w.surroundings scope).perform step mid = .error err ⟨stack, calls⟩) ∧
      (∀ scopes scope',
        (∀ name ∈ e.words, scopes.lookup scope' name = w.scopes.lookup scope name) →
        evaluate .empty fuel e scope' { w with scopes := scopes } =
          finish result ({ w with scopes := scopes }.after calls)) := by
  have hends := ends_evaluate hw hfuel e scope
  have hrecords := (w.surroundings scope).records_performAll (e.steps w.guard.depth) .start
  rw [Expr.nodes_steps] at hrecords
  generalize hr : (w.surroundings scope).performAll (e.steps w.guard.depth) .start = r at *
  obtain ⟨nodes, hprefix, hnodes, hall⟩ := hrecords
  have hcalls : r.progress.calls.map Call.node = nodes := hnodes
  have hfinish : evaluate .empty fuel e scope w = finish r.result (w.after r.progress.calls) :=
    evaluate_eq_finish hw hfuel (fun _ _ => rfl) hr
  refine ⟨r.result, r.progress.calls, hfinish, ?_, hcalls ▸ hprefix, hends.orderly, ?_, ?_,
    fun _ _ hlook => evaluate_eq_finish hw hfuel hlook hr⟩
  · rw [hfinish]
    cases r.result <;> rfl
  · intro v hv
    have hok := hends.eq_ok hv
    exact ⟨hcalls.trans (hall _ hok), hok⟩
  · intro err herr
    cases r with
    | ok => cases herr
    | error err' p =>
      cases herr
      obtain ⟨done, step, rest, mid, hsteps, hdone, hstep⟩ :=
        Surroundings.performAll_eq_error_iff.mp hr
      exact ⟨done, step, rest, mid, p.stack, hsteps, hdone, hstep⟩

/-- A world with one scope, in which `list` is bound to a function that counts. -/
def counting : World :=
  { World.fresh 3 with
    scopes := (Scopes.empty.create none).2.define 0 "list" (.function ⟨"list", 0⟩)
    functions := #[.count] }

theorem lookup_counting : counting.scopes.lookup 0 "list" = some (.function ⟨"list", 0⟩) := by
  have hchain : counting.scopes.chain 0 = [0] := by
    rw [Scopes.chain]
    rfl
  unfold Scopes.lookup Scopes.holder?
  rw [hchain]
  decide

/-- The expression `list("a", list())`. -/
def nestedCall : Expr :=
  .apply (.word "list") [.literal (.text "a"), .apply (.word "list") []]

/-- The calls in it: the inner one comes first, and the outer one is given what it answers. -/
def nestedCalls : List Call :=
  [⟨.apply (.word "list") [], ⟨"list", 0⟩, [], .value (.number (.ofNat 0))⟩,
    ⟨nestedCall, ⟨"list", 0⟩, [.text "a", .number (.ofNat 0)], .value (.number (.ofNat 2))⟩]

theorem performAll_nestedCall :
    (counting.surroundings 0).performAll (nestedCall.steps counting.guard.depth) .start =
      .ok () ⟨[.number (.ofNat 2)], nestedCalls⟩ := by
  simp only [nestedCall, Expr.steps, Expr.stepsAll, List.cons_append, List.nil_append,
    List.append_nil, Surroundings.performAll, Surroundings.perform, World.surroundings,
    lookup_counting]
  rfl

theorem evaluate_nestedCall :
    (∀ f ∈ counting.functions, f.Hosted) ∧ counting.guard.limit - counting.guard.depth < 9 ∧
    evaluate .empty 9 nestedCall 0 counting =
      .ok (.number (.ofNat 2)) (counting.after nestedCalls) := by
  have hw : ∀ f ∈ counting.functions, f.Hosted := by
    intro f hf
    obtain rfl : f = .count := by simpa [counting] using hf
    exact ⟨⟨_, rfl⟩, fun _ => trivial⟩
  have hfuel : counting.guard.limit - counting.guard.depth < 9 := by decide
  refine ⟨hw, hfuel, ?_⟩
  obtain ⟨result, calls, hfinish, -, -, -, hok, herror, -⟩ := evaluate_strict hw hfuel nestedCall 0
  cases result with
  | ok v =>
    cases performAll_nestedCall.symm.trans (hok v rfl).2
    exact hfinish
  | error e =>
    obtain ⟨done, step, rest, mid, stack, hsteps, hdone, hstep⟩ := herror e rfl
    have hfails := Surroundings.performAll_eq_error_iff.mpr
      ⟨done, step, rest, mid, hsteps, hdone, hstep⟩
    cases performAll_nestedCall.symm.trans hfails

end Egg
