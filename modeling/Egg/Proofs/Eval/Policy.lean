-- SUMMARY: What runs in a scope are held to, and the rules by which two runs coincide and keep to it.
import Egg.Proofs.Eval.Natives
import Egg.Basis.Forms

/-!
# Policies

What an evaluation does is done in a scope: it defines names there, opens scopes inside
it, and makes functions there, whose bodies are evaluated later in scopes of their own.
A `Policy` says what a run in a scope may do to the world, with one law for each way in
which a run changes it, and what the world is like where a run begins. It also says which
words no run meets as the operator of an application. So two tables of forms that differ in
these words only come to the same, provided that no function that is called, whoever made
it, has such an operator in its body. As this has to be known of every world of the run, one
induction shows that two runs coincide and that they keep to the policy.
-/

namespace Egg

open Egg.Basis

/-! ## Avoided words -/

namespace Expr

variable {avoided : String → Prop}

mutual
/-- No application in the expression has an avoided word as its operator. -/
def Avoids (avoided : String → Prop) : Expr → Prop
  | .literal _ => True
  | .word _ => True
  | .apply operator args =>
    (∀ name, operator.word? = some name → ¬ avoided name) ∧ operator.Avoids avoided ∧
      AvoidsAll avoided args

/-- No application in the expressions has an avoided word as its operator. -/
def AvoidsAll (avoided : String → Prop) : List Expr → Prop
  | [] => True
  | e :: es => e.Avoids avoided ∧ AvoidsAll avoided es
end

theorem avoidsAll_iff {es : List Expr} :
    AvoidsAll avoided es ↔ ∀ e ∈ es, e.Avoids avoided := by
  induction es with
  | nil => simp [AvoidsAll]
  | cons e es ih => rw [AvoidsAll, ih, List.forall_mem_cons]

mutual
theorem avoids_of_forall (h : ∀ name, ¬ avoided name) : (e : Expr) → e.Avoids avoided
  | .literal _ | .word _ => trivial
  | .apply operator args =>
    ⟨fun name _ => h name, avoids_of_forall h operator, avoidsAll_of_forall h args⟩

theorem avoidsAll_of_forall (h : ∀ name, ¬ avoided name) : (es : List Expr) → AvoidsAll avoided es
  | [] => trivial
  | e :: es => ⟨avoids_of_forall h e, avoidsAll_of_forall h es⟩
end

end Expr

/-- A function of the program avoids the words in its body. A function of the host makes
    no function of the program. -/
def Callable.Avoids (avoided : String → Prop) : Callable → Prop
  | .closure _ body _ => body.Avoids avoided
  | .native run => ∀ args, (run args).Obeys (¬ ·.IsClosure) fun _ => True
  | .forward => True

theorem Callable.Obeys.avoids {avoided : String → Prop} {fault : EvalError → Prop}
    {f : Callable} (h : f.Obeys (¬ ·.IsClosure) fault) : f.Avoids avoided := by
  cases f with
  | closure params body home => exact absurd trivial h
  | native run =>
    exact fun args => Reply.Obeys.mono (fun _ => id) (fun _ _ => trivial) (run args) (h.2 args)
  | forward => trivial

/-! ## Homes -/

namespace World

/-- Some function of the program was made in the scope. -/
def IsHome (w : World) (home : ScopeId) : Prop :=
  ∃ params body, Callable.closure params body home ∈ w.functions

/-- The world with one more scope, inside `home`. -/
def opened (w : World) (home : ScopeId) : World :=
  { w with scopes := (w.scopes.create (some home)).2 }

theorem mem_functions_of_callable_eq {w : World} {id : FunctionId} {params : List String}
    {body : Expr} {home : ScopeId} (h : w.callable id = .closure params body home) :
    .closure params body home ∈ w.functions := by
  rcases w.callable_cases id with hmem | hcallable
  · rwa [h] at hmem
  · rw [h] at hcallable
    cases hcallable

end World

/-! ## Policies -/

/-- What runs are held to. -/
structure Policy where
  /-- The words that are the operator of no application. -/
  avoided : String → Prop
  /-- The forms of the basis that the other words may name. -/
  allowed : Form → Prop
  /-- What the world is like whenever something runs in this scope. -/
  holds : ScopeId → World → Prop := fun _ _ => True
  /-- A run in this scope may turn the first world into the second one. -/
  may : ScopeId → World → World → Prop
  /-- The guard and the log are of no concern. -/
  may_aside {scope : ScopeId} {w w' : World} :
    w'.scopes = w.scopes → w'.functions = w.functions → may scope w w'
  may_trans {scope : ScopeId} {w₁ w₂ w₃ : World} :
    may scope w₁ w₂ → may scope w₂ w₃ → may scope w₁ w₃
  may_define {scope : ScopeId} {w : World} {name : String} {v : Value} :
    may scope w { w with scopes := w.scopes.define scope name v }
  may_assign {scope : ScopeId} {w : World} {name : String} {v : Value} {s : Scopes} :
    allowed .set → w.scopes.assign? scope name v = some s → may scope w { w with scopes := s }
  /-- A function of the program is made in the scope of the run. -/
  may_make {scope : ScopeId} {w : World} {f : Callable} :
    (∀ params body home, f = .closure params body home → home = scope) →
    may scope w { w with functions := w.functions.push f }
  /-- What is done in a new scope inside this one, or inside the home of a function, is
      done in this one. -/
  may_inner {scope home : ScopeId} {w w' : World} :
    home = scope ∨ w.IsHome home → may w.scopes.cells.size (w.opened home) w' → may scope w w'
  holds_of_may {scope : ScopeId} {w w' : World} :
    holds scope w → may scope w w' → holds scope w' := by intros; trivial
  holds_opened {scope home : ScopeId} {w : World} :
    holds scope w → home = scope ∨ w.IsHome home →
      holds w.scopes.cells.size (w.opened home) := by intros; trivial

namespace Policy

variable {α β : Type} {p : Policy} {scope home : ScopeId} {w w' : World}

theorem may_defineAll (bindings : List (String × Value)) :
    p.may scope w { w with scopes := w.scopes.defineAll scope bindings } := by
  induction bindings generalizing w with
  | nil => exact p.may_aside rfl rfl
  | cons b bs ih => exact p.may_trans p.may_define ih

/-- The functions of the world avoid the words. -/
def Admits (p : Policy) (w : World) : Prop :=
  ∀ f ∈ w.functions, f.Avoids p.avoided

theorem Admits.push {f : Callable} (hw : p.Admits w) (hf : f.Avoids p.avoided) :
    p.Admits { w with functions := w.functions.push f } := by
  intro g hg
  rcases Array.mem_push.mp hg with hg | rfl
  · exact hw g hg
  · exact hf

theorem Admits.avoids_callable (hw : p.Admits w) (id : FunctionId) :
    (w.callable id).Avoids p.avoided := by
  rcases w.callable_cases id with hmem | hcallable
  · exact hw _ hmem
  · rw [hcallable]
    exact fun _ => trivial

/-- Two runs in this scope, which began in this world, have come to the same end, and
    they have kept to the policy. -/
structure Alike (p : Policy) (scope : ScopeId) (w : World) (r₁ r₂ : Finish α) : Prop where
  eq : r₂ = r₁
  admits : p.Admits r₁.world
  may : p.may scope w r₁.world

namespace Alike

variable {r₁ r₂ : Finish α}

theorem ok (a : α) (hw : p.Admits w) : p.Alike scope w (.ok a w) (.ok a w) :=
  ⟨rfl, hw, p.may_aside rfl rfl⟩

theorem error (h : Halt) (hw : p.Admits w) :
    p.Alike scope w (.error h w : Finish α) (.error h w) :=
  ⟨rfl, hw, p.may_aside rfl rfl⟩

/-- The runs began earlier. -/
theorem after (h : p.Alike scope w' r₁ r₂) (hmay : p.may scope w w') :
    p.Alike scope w r₁ r₂ :=
  ⟨h.eq, h.admits, p.may_trans hmay h.may⟩

end Alike

/-- From every world that the policy admits, and that is as it has to be, the two runs come
    to the same end, and they keep to the policy. -/
structure Coincide (p : Policy) (scope : ScopeId) (m₁ m₂ : Run α) : Prop where
  -- a policy that asks nothing of the world need not be told so
  alike : ∀ w, p.Admits w → (_ : p.holds scope w := by trivial) → p.Alike scope w (m₁ w) (m₂ w)

instance instCoeFunCoincide {m₁ m₂ : Run α} : CoeFun (p.Coincide scope m₁ m₂) fun _ =>
    ∀ w, p.Admits w → (_ : p.holds scope w := by trivial) → p.Alike scope w (m₁ w) (m₂ w) :=
  ⟨@Coincide.alike _ _ _ _ _⟩

/-- A run in a new scope inside this one, or inside the home of a function. -/
theorem Alike.inner {m₁ m₂ : ScopeId → Run α} (hhome : home = scope ∨ w.IsHome home)
    (hm : ∀ inner, p.Coincide inner (m₁ inner) (m₂ inner)) (hw : p.Admits w)
    (hscope : p.holds scope w) :
    p.Alike scope w ((Run.openScope home >>= m₁) w) ((Run.openScope home >>= m₂) w) := by
  have halike := hm w.scopes.cells.size (w.opened home) hw (p.holds_opened hscope hhome)
  exact ⟨halike.eq, halike.admits, p.may_inner hhome halike.may⟩

/-! ## Rules -/

namespace Coincide

theorem pure (a : α) : p.Coincide scope (pure a) (pure a) :=
  ⟨fun _ hw _ => .ok a hw⟩

theorem throw (h : Halt) : p.Coincide scope (throw h : Run α) (throw h) :=
  ⟨fun _ hw _ => .error h hw⟩

theorem fail (e : EvalError) : p.Coincide scope (Run.fail e : Run α) (Run.fail e) :=
  throw _

theorem check (x : Except EvalError α) : p.Coincide scope (Run.check x) (Run.check x) := by
  cases x with
  | ok a => exact pure a
  | error e => exact fail e

theorem bind {m₁ m₂ : Run α} {k₁ k₂ : α → Run β} (hm : p.Coincide scope m₁ m₂)
    (hk : ∀ a, p.Coincide scope (k₁ a) (k₂ a)) :
    p.Coincide scope (m₁ >>= k₁) (m₂ >>= k₂) := by
  refine ⟨fun w hw hscope => ?_⟩
  have halike := hm w hw hscope
  rw [Run.bind_apply, Run.bind_apply, halike.eq]
  cases hend : m₁ w with
  | ok a w' =>
    rw [hend] at halike
    have hscope' : p.holds scope w' := p.holds_of_may hscope halike.may
    exact (hk a w' halike.admits hscope').after halike.may
  | error h w' =>
    rw [hend] at halike
    exact ⟨rfl, halike.admits, halike.may⟩

theorem get_bind {k₁ k₂ : World → Run α}
    (h : ∀ w, p.Admits w → p.holds scope w → p.Alike scope w (k₁ w w) (k₂ w w)) :
    p.Coincide scope (get >>= k₁) (get >>= k₂) :=
  ⟨h⟩

theorem modifyGet {f : World → α × World} (hadmits : ∀ w, p.Admits w → p.Admits (f w).2)
    (hmay : ∀ w, p.may scope w (f w).2) :
    p.Coincide scope (modifyGet f : Run α) (modifyGet f) :=
  ⟨fun w hw _ => ⟨rfl, hadmits w hw, hmay w⟩⟩

theorem tryCatch {m₁ m₂ : Run α} {k₁ k₂ : Halt → Run α} (hm : p.Coincide scope m₁ m₂)
    (hk : ∀ h, p.Coincide scope (k₁ h) (k₂ h)) :
    p.Coincide scope (tryCatch m₁ k₁) (tryCatch m₂ k₂) := by
  refine ⟨fun w hw hscope => ?_⟩
  have halike := hm w hw hscope
  rw [Run.tryCatch_apply, Run.tryCatch_apply, halike.eq]
  cases hend : m₁ w with
  | ok a w' =>
    rw [hend] at halike
    exact ⟨rfl, halike.admits, halike.may⟩
  | error h w' =>
    rw [hend] at halike
    have hscope' : p.holds scope w' := p.holds_of_may hscope halike.may
    exact (hk h w' halike.admits hscope').after halike.may

theorem descend {m₁ m₂ : Run α} (hm : p.Coincide scope m₁ m₂) :
    p.Coincide scope (descend Halt.tooDeep m₁) (descend Halt.tooDeep m₂) := by
  refine ⟨fun w hw hscope => ?_⟩
  rw [Run.descend_apply, Run.descend_apply]
  split
  · have henter : p.may scope w (w.under w.guard.deeper) := p.may_aside rfl rfl
    have halike := hm (w.under w.guard.deeper) hw (p.holds_of_may hscope henter)
    have hmay := p.may_trans henter halike.may
    have hadmits := halike.admits
    rw [halike.eq]
    cases hend : m₁ (w.under w.guard.deeper) with
    | ok a w' | error h w' =>
      rw [hend] at hmay hadmits
      exact ⟨rfl, hadmits, p.may_trans hmay (p.may_aside rfl rfl)⟩
  · exact .error _ hw

theorem log (text : String) : p.Coincide scope (Run.log text) (Run.log text) :=
  modifyGet (fun _ hw => hw) fun _ => p.may_aside rfl rfl

theorem define (name : String) (v : Value) :
    p.Coincide scope (Run.define scope name v) (Run.define scope name v) :=
  modifyGet (fun _ hw => hw) fun _ => p.may_define

theorem defineAll (bindings : List (String × Value)) :
    p.Coincide scope (Run.defineAll scope bindings) (Run.defineAll scope bindings) :=
  modifyGet (fun _ hw => hw) fun _ => p.may_defineAll bindings

theorem make (name : String) {f : Callable} (hf : f.Avoids p.avoided)
    (hhome : ∀ params body home, f = .closure params body home → home = scope) :
    p.Coincide scope (Run.make name f) (Run.make name f) :=
  modifyGet (fun _ hw => hw.push hf) fun _ => p.may_make hhome

/-- A function that is none of the program has no home. -/
theorem make_of_obeys (name : String) {f : Callable} {fault : EvalError → Prop}
    (hf : f.Obeys (¬ ·.IsClosure) fault) :
    p.Coincide scope (Run.make name f) (Run.make name f) := by
  refine make name hf.avoids ?_
  rintro params body home rfl
  exact absurd trivial hf

theorem assign (hset : p.allowed .set) (name : String) (v : Value) :
    p.Coincide scope (Form.assign scope name v) (Form.assign scope name v) := by
  unfold Form.assign
  refine get_bind fun w hw hscope => ?_
  cases hassign : w.scopes.assign? scope name v with
  | none => exact fail _ w hw hscope
  | some s => exact ⟨rfl, hw, p.may_assign hset hassign⟩

end Coincide

end Policy

end Egg
