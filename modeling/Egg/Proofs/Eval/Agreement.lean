-- SUMMARY: Two runs side by side, each under a guard of its own, and the rules by which they agree.
import Egg.Eval.Interpreter

/-!
# Runs side by side

Two evaluations that differ in their limit, in their fuel or in what they check on the
way go through the same worlds but for the guard. A `Pairing` says under which guards
two runs go, with which errors both may end, and after which ends of the first one the
second one is free. Two runs agree if from worlds that differ in the guard only they
come to such worlds again. Agreement has one rule for each way to build a run.
-/

namespace Egg

/-! ## Worlds under a guard -/

/-- The guard with one more level active. -/
def Guard.deeper (g : Guard) : Guard :=
  { g with depth := g.depth + 1 }

namespace World

/-- The world under another guard. -/
def under (w : World) (g : Guard) : World :=
  { w with guard := g }

variable (w : World) (g g' : Guard)

@[simp] theorem guard_under : (w.under g).guard = g := rfl

@[simp] theorem scopes_under : (w.under g).scopes = w.scopes := rfl

@[simp] theorem under_under : (w.under g).under g' = w.under g' := rfl

@[simp] theorem under_guard : w.under w.guard = w := rfl

@[simp] theorem callable_under (id : FunctionId) : (w.under g).callable id = w.callable id := rfl

end World

/-! ## Ends of runs -/

/-- How a run ends: with a result or without one, and in which world. -/
abbrev Finish (α : Type) : Type :=
  EStateM.Result Halt World α

namespace Finish

variable {α : Type}

/-- The world in which the run ends. -/
def world : Finish α → World
  | .ok _ w => w
  | .error _ w => w

/-- The same end under another guard. -/
def under (g : Guard) : Finish α → Finish α
  | .ok a w => .ok a (w.under g)
  | .error h w => .error h (w.under g)

/-- The same end with the count of the guard set back. -/
def backTo (depth : Nat) (r : Finish α) : Finish α :=
  r.under (r.world.guard.backTo depth)

theorem under_eq_self {r : Finish α} {g : Guard} (h : r.world.guard = g) : r.under g = r := by
  subst h
  cases r <;> rfl

end Finish

/-! ## Runs, step by step -/

namespace Run

variable {α β : Type}

theorem bind_apply (m : Run α) (k : α → Run β) (w : World) :
    (m >>= k) w =
      match m w with
      | .ok a w' => k a w'
      | .error h w' => .error h w' := by
  show EStateM.bind m k w = _
  unfold EStateM.bind
  cases m w <;> rfl

theorem get_bind_apply (k : World → Run α) (w : World) : (get >>= k) w = k w w := rfl

theorem tryCatch_apply (m : Run α) (k : Halt → Run α) (w : World) :
    (tryCatch m k) w =
      match m w with
      | .ok a w' => .ok a w'
      | .error h w' => k h w' := by
  show EStateM.tryCatch m k w = _
  unfold EStateM.tryCatch
  cases m w <;> rfl

theorem descend_apply (m : Run α) (w : World) :
    descend Halt.tooDeep m w =
      if w.guard.depth < w.guard.limit then
        match m (w.under w.guard.deeper) with
        | .ok a w' => .ok a (w'.under (w'.guard.backTo w.guard.depth))
        | .error h w' => .error h (w'.under (w'.guard.backTo w.guard.depth))
      else .error (.error (.recursionLimit w.guard.limit)) w := by
  unfold descend
  by_cases h : w.guard.depth < w.guard.limit
  · have henter : (Guarded.guard w).enter = .ok w.guard.deeper := if_pos h
    rw [if_pos h]
    simp only [henter]
    have hset : Guarded.setGuard w w.guard.deeper = w.under w.guard.deeper := rfl
    rw [hset]
    cases m (w.under w.guard.deeper) <;> rfl
  · have henter : (Guarded.guard w).enter = .error ⟨w.guard.limit⟩ := if_neg h
    rw [if_neg h]
    simp only [henter]
    rfl

/-- The run is `body` one level deeper: below the limit it comes to the end of `body` in the
    world one level deeper, with the count of the guard set back, and at the limit it is
    refused. -/
structure Enters (run body : Run α) : Prop where
  eq_descend : run = descend Halt.tooDeep body
  eq_of_lt : ∀ w, w.guard.depth < w.guard.limit →
    run w = Finish.backTo w.guard.depth (body (w.under w.guard.deeper))
  eq_of_le : ∀ w, w.guard.limit ≤ w.guard.depth →
    run w = .error (.error (.recursionLimit w.guard.limit)) w

theorem enters_descend (body : Run α) : Enters (descend Halt.tooDeep body) body where
  eq_descend := rfl
  eq_of_lt w h := by
    rw [descend_apply, if_pos h]
    cases body (w.under w.guard.deeper) <;> rfl
  eq_of_le w h := by rw [descend_apply, if_neg (Nat.not_lt.mpr h)]

end Run

namespace Engine

variable {engine : Engine} {f : FunctionRef} {args : List Value} {w : World}

/-- What the function is, is read in the world in which the call is made. -/
theorem call_apply :
    engine.call f args w =
      (match w.callable f.id with
      | .closure params body home => engine.callClosure params body home args
      | .native run => (run args).perform
      | .forward =>
        match args with
        | [] => Run.fail (.custom "call needs a function")
        | v :: rest => Run.check v.asFunction >>= fun g => engine.call g rest) w := by
  rw [Engine.call.eq_def, Run.bind_apply]
  rfl

theorem call_of_closure {params : List String} {body : Expr} {home : ScopeId}
    (h : w.callable f.id = .closure params body home) :
    engine.call f args w = engine.callClosure params body home args w := by
  rw [call_apply, h]

theorem call_of_native {run : List Value → Reply} (h : w.callable f.id = .native run) :
    engine.call f args w = (run args).perform w := by
  rw [call_apply, h]

/-- Without forms every application is a call. -/
theorem enter_empty_apply (engine : Engine) (operator : Expr) (args : List Expr)
    (scope : ScopeId) : engine.enter .empty (.apply operator args) scope =
      engine.evaluateCall operator args scope := by
  cases operator <;> rfl

end Engine

/-! ## Functions and what they make -/

mutual
/-- The function is of the kind `kind`, and so is every function that a function of the
    host among them makes. Such a function fails only with errors in `fault`. -/
def Callable.Obeys (kind : Callable → Prop) (fault : EvalError → Prop) : Callable → Prop
  | .closure params body home => kind (.closure params body home)
  | .native run => kind (.native run) ∧ ∀ args, (run args).Obeys kind fault
  | .forward => kind .forward

/-- The answer of a function that obeys. -/
def Reply.Obeys (kind : Callable → Prop) (fault : EvalError → Prop) : Reply → Prop
  | .value _ => True
  | .error e => fault e
  | .logging _ reply => reply.Obeys kind fault
  | .making _ f => f.Obeys kind fault
end

mutual
theorem Callable.obeys_of_forall {kind : Callable → Prop} {fault : EvalError → Prop}
    (hkind : ∀ f, kind f) (hfault : ∀ e, fault e) : (f : Callable) → f.Obeys kind fault
  | .closure _ _ _ => hkind _
  | .native run => ⟨hkind _, fun args => (run args).obeys_of_forall hkind hfault⟩
  | .forward => hkind _

theorem Reply.obeys_of_forall {kind : Callable → Prop} {fault : EvalError → Prop}
    (hkind : ∀ f, kind f) (hfault : ∀ e, fault e) : (r : Reply) → r.Obeys kind fault
  | .value _ => trivial
  | .error e => hfault e
  | .logging _ reply => reply.obeys_of_forall hkind hfault
  | .making _ f => f.obeys_of_forall hkind hfault
end

mutual
theorem Callable.Obeys.mono {kind kind' : Callable → Prop} {fault fault' : EvalError → Prop}
    (hkind : ∀ f, kind f → kind' f) (hfault : ∀ e, fault e → fault' e) :
    (f : Callable) → f.Obeys kind fault → f.Obeys kind' fault'
  | .closure _ _ _, h => hkind _ h
  | .native run, h => ⟨hkind _ h.1, fun args => Reply.Obeys.mono hkind hfault (run args) (h.2 args)⟩
  | .forward, h => hkind _ h

theorem Reply.Obeys.mono {kind kind' : Callable → Prop} {fault fault' : EvalError → Prop}
    (hkind : ∀ f, kind f → kind' f) (hfault : ∀ e, fault e → fault' e) :
    (r : Reply) → r.Obeys kind fault → r.Obeys kind' fault'
  | .value _, _ => trivial
  | .error e, h => hfault e h
  | .logging _ reply, h => Reply.Obeys.mono hkind hfault reply h
  | .making _ f, h => Callable.Obeys.mono hkind hfault f h
end

namespace World

/-- A function is one that somebody made, or else it counts. -/
theorem callable_cases (w : World) (id : FunctionId) :
    w.callable id ∈ w.functions ∨ w.callable id = .count := by
  unfold callable
  rw [Array.getD_eq_getD_getElem?]
  cases hget : w.functions[id]? with
  | none => exact .inr rfl
  | some f => exact .inl (Array.mem_of_getElem? hget)

theorem obeys_callable {kind : Callable → Prop} {fault : EvalError → Prop} {w : World}
    (hw : ∀ f ∈ w.functions, f.Obeys kind fault) (hcount : Callable.count.Obeys kind fault)
    (id : FunctionId) : (w.callable id).Obeys kind fault := by
  rcases w.callable_cases id with hmem | hcallable
  · exact hw _ hmem
  · rw [hcallable]
    exact hcount

end World

/-! ## Errors that tell of no limit -/

/-- The error tells of no limit that was reached. -/
def EvalError.Ordinary (e : EvalError) : Prop :=
  ∀ limit, e ≠ .recursionLimit limit

theorem EvalError.Ordinary.custom (message : String) : (EvalError.custom message).Ordinary :=
  fun _ => nofun

/-- A check that fails with ordinary errors only. -/
def Ordinary {α : Type} (x : Except EvalError α) : Prop :=
  ∀ e, x = .error e → e.Ordinary

namespace Ordinary

variable {α β : Type}

theorem ok (a : α) : Ordinary (.ok a : Except EvalError α) :=
  nofun

theorem error {e : EvalError} (h : e.Ordinary) : Ordinary (.error e : Except EvalError α) := by
  rintro _ ⟨⟩
  exact h

theorem bind {x : Except EvalError α} {k : α → Except EvalError β} (hx : Ordinary x)
    (hk : ∀ a, Ordinary (k a)) : Ordinary (x >>= k) := by
  cases x with
  | ok a => exact hk a
  | error e => exact error (hx e rfl)

theorem map {x : Except EvalError α} (hx : Ordinary x) (f : α → β) : Ordinary (x.map f) := by
  cases x with
  | ok a => exact ok (f a)
  | error e => exact error (hx e rfl)

theorem checkArity (name : String) (expected got : Nat) :
    Ordinary (checkArity name expected got) := by
  unfold Egg.checkArity
  split
  · exact ok ()
  · exact error nofun

theorem asText (v : Value) : Ordinary v.asText := by
  cases v <;> first | exact ok _ | exact error nofun

theorem asNumber (v : Value) : Ordinary v.asNumber := by
  cases v <;> first | exact ok _ | exact error nofun

theorem asFunction (v : Value) : Ordinary v.asFunction := by
  cases v <;> first | exact ok _ | exact error nofun

theorem isTrue (v : Value) : Ordinary v.isTrue :=
  (asNumber v).map _

end Ordinary

/-! ## Pairings -/

/-- How two runs are compared. -/
structure Pairing where
  /-- The guard of the first run. -/
  first : Guard
  /-- The guard of the second run. -/
  second : Guard
  /-- The errors with which both runs may end. Every ordinary one is among them. -/
  shared : EvalError → Prop
  shared_of_ordinary : ∀ e, e.Ordinary → shared e
  /-- The ends of the first run after which the second one is free. -/
  cut : Halt → Prop

namespace Pairing

variable {α β : Type} {p : Pairing}

/-- The first run may go through this world. -/
structure Admits (p : Pairing) (w : World) : Prop where
  guard_eq : w.guard = p.first
  fair : ∀ f ∈ w.functions, f.Obeys (fun _ => True) p.shared

/-- Two ends of runs that are the same but for the guard, unless the first one cuts. -/
inductive Alike (p : Pairing) : Finish α → Finish α → Prop where
  | ok {a : α} {w : World} : p.Admits w → Alike p (.ok a w) (.ok a (w.under p.second))
  | error {h : Halt} {w : World} : p.Admits w → (∀ e, h = .error e → p.shared e) →
      Alike p (.error h w) (.error h (w.under p.second))
  | cut {h : Halt} {w : World} {r : Finish α} : p.cut h → Alike p (.error h w) r

theorem Alike.cut_or {r₁ r₂ : Finish α} (h : p.Alike r₁ r₂) :
    (∃ halt w, r₁ = .error halt w ∧ p.cut halt) ∨
    (r₂ = r₁.under p.second ∧ p.Admits r₁.world ∧
      ∀ e w, r₁ = .error (.error e) w → p.shared e) := by
  cases h with
  | ok hw => exact .inr ⟨rfl, hw, nofun⟩
  | @error halt w hw hshared =>
    refine .inr ⟨rfl, hw, ?_⟩
    rintro e w ⟨⟩
    exact hshared e rfl
  | cut hcut => exact .inl ⟨_, _, rfl, hcut⟩

/-- From worlds that differ in the guard only, the two runs end alike. -/
def Agree (p : Pairing) (m₁ m₂ : Run α) : Prop :=
  ∀ w, p.Admits w → p.Alike (m₁ w) (m₂ (w.under p.second))

/-- The pairing one level deeper. -/
def deeper (p : Pairing) : Pairing :=
  { p with first := p.first.deeper, second := p.second.deeper }

theorem Admits.backTo_eq {w : World} (hw : p.deeper.Admits w) :
    w.guard.backTo p.first.depth = p.first := by
  rw [hw.guard_eq]
  rfl

theorem Admits.under_first {w : World} (hw : p.deeper.Admits w) : p.Admits (w.under p.first) :=
  ⟨rfl, hw.fair⟩

/-! ## Rules -/

namespace Agree

theorem pure (a : α) : p.Agree (pure a) (pure a) :=
  fun _ hw => .ok hw

theorem throw {h : Halt} (hshared : ∀ e, h = .error e → p.shared e) :
    p.Agree (throw h : Run α) (throw h) :=
  fun _ hw => .error hw hshared

theorem fail {e : EvalError} (h : p.shared e) : p.Agree (Run.fail e : Run α) (Run.fail e) := by
  refine throw fun e' he => ?_
  cases he
  exact h

theorem bind {m₁ m₂ : Run α} {k₁ k₂ : α → Run β} (hm : p.Agree m₁ m₂)
    (hk : ∀ a, p.Agree (k₁ a) (k₂ a)) : p.Agree (m₁ >>= k₁) (m₂ >>= k₂) := by
  intro w hw
  have halike := hm w hw
  rw [Run.bind_apply, Run.bind_apply]
  generalize m₁ w = r₁ at halike
  generalize m₂ (w.under p.second) = r₂ at halike
  cases halike with
  | ok hw' => exact hk _ _ hw'
  | error hw' hshared => exact .error hw' hshared
  | cut hcut => exact .cut hcut

theorem failOrdinary {e : EvalError} (h : e.Ordinary) :
    p.Agree (Run.fail e : Run α) (Run.fail e) :=
  fail (p.shared_of_ordinary e h)

theorem check {x : Except EvalError α} (h : Ordinary x) :
    p.Agree (Run.check x) (Run.check x) := by
  cases x with
  | ok a => exact pure a
  | error e => exact failOrdinary (h e rfl)

theorem get_bind {k₁ k₂ : World → Run α}
    (h : ∀ w, p.Admits w → p.Agree (k₁ w) (k₂ (w.under p.second))) :
    p.Agree (get >>= k₁) (get >>= k₂) :=
  fun w hw => h w hw w hw

/-- Both runs change the world in the same way, whatever the guard. -/
theorem modifyGet {f : World → α × World}
    (hf : ∀ w g, f (w.under g) = ((f w).1, (f w).2.under g))
    (hadmits : ∀ w, p.Admits w → p.Admits (f w).2) :
    p.Agree (modifyGet f : Run α) (modifyGet f) := by
  intro w hw
  have hsame := hf w p.second
  show p.Alike (.ok (f w).1 (f w).2) (.ok (f (w.under p.second)).1 (f (w.under p.second)).2)
  rw [hsame]
  exact .ok (hadmits w hw)

/-- Catching agrees where the handler leaves alone what cuts. -/
theorem tryCatch {m₁ m₂ : Run α} {k₁ k₂ : Halt → Run α} (hm : p.Agree m₁ m₂)
    (hk : ∀ h, p.Agree (k₁ h) (k₂ h)) (hcut : ∀ h, p.cut h → k₁ h = MonadExcept.throw h) :
    p.Agree (tryCatch m₁ k₁) (tryCatch m₂ k₂) := by
  intro w hw
  have halike := hm w hw
  rw [Run.tryCatch_apply, Run.tryCatch_apply]
  generalize m₁ w = r₁ at halike
  generalize m₂ (w.under p.second) = r₂ at halike
  cases halike with
  | ok hw' => exact .ok hw'
  | @error h _ hw' hshared => exact hk h _ hw'
  | @cut h w' _ hc =>
    show p.Alike (k₁ h w') _
    rw [hcut h hc]
    exact .cut hc

/-- Both runs go one level deeper, or both are refused, or the first one is refused and
    that cuts. -/
theorem descend {b₁ b₂ : Run α}
    (henter : p.first.depth < p.first.limit →
      p.second.depth < p.second.limit ∧ p.deeper.Agree b₁ b₂)
    (hrefuse : p.first.limit ≤ p.first.depth →
      p.cut (.error (.recursionLimit p.first.limit)) ∨
      (p.second = p.first ∧ p.shared (.recursionLimit p.first.limit))) :
    p.Agree (descend Halt.tooDeep b₁) (descend Halt.tooDeep b₂) := by
  intro w hw
  rw [Run.descend_apply, Run.descend_apply, hw.guard_eq, World.guard_under, World.under_under]
  by_cases hlt : p.first.depth < p.first.limit
  · obtain ⟨hlt', hbody⟩ := henter hlt
    rw [if_pos hlt, if_pos hlt']
    have halike := hbody (w.under p.deeper.first) ⟨rfl, hw.fair⟩
    simp only [deeper, World.under_under] at halike
    generalize b₁ _ = r₁ at halike ⊢
    generalize b₂ _ = r₂ at halike ⊢
    cases halike with
    | @ok a w' hw' =>
      show p.Alike (.ok a (w'.under (w'.guard.backTo p.first.depth))) (.ok a (w'.under p.second))
      rw [hw'.backTo_eq]
      exact .ok hw'.under_first
    | @error h w' hw' hshared =>
      show p.Alike (.error h (w'.under (w'.guard.backTo p.first.depth)))
        (.error h (w'.under p.second))
      rw [hw'.backTo_eq]
      exact .error hw'.under_first hshared
    | cut hcut => exact .cut hcut
  · rw [if_neg hlt]
    rcases hrefuse (Nat.le_of_not_lt hlt) with hcut | ⟨hsame, hshared⟩
    · exact .cut hcut
    · rw [hsame, if_neg hlt]
      have herror : p.Alike (.error (.error (.recursionLimit p.first.limit)) w : Finish α)
          (.error (.error (.recursionLimit p.first.limit)) (w.under p.second)) :=
        .error hw (by rintro _ ⟨⟩; exact hshared)
      rwa [hsame] at herror

end Agree

end Pairing

end Egg
