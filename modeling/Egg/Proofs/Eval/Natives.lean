-- SUMMARY: The functions of the basis make no function of the program and fail with ordinary errors only.
import Egg.Proofs.Eval.Agreement
import Egg.Basis.Natives

/-!
# Functions of the basis

A function of the basis answers by its arguments alone. It makes no function of the
program, since it knows no scope in which one could be made, and no limit is the reason
why it fails. This is the most that later modules ask of a function of the host.
-/

namespace Egg

open Egg.Basis

/-- The function is one of the program. -/
def Callable.IsClosure : Callable → Prop
  | .closure _ _ _ => True
  | .native _ | .forward => False

/-- The function is one of the host, and so are those that it makes. They fail with
    ordinary errors only. -/
abbrev Callable.Tame (f : Callable) : Prop :=
  f.Obeys (¬ ·.IsClosure) EvalError.Ordinary

/-- The answer of a function that is tame. -/
abbrev Reply.Tame (r : Reply) : Prop :=
  r.Obeys (¬ ·.IsClosure) EvalError.Ordinary

namespace Basis.Native

variable {α : Type}

theorem tame_reply_bind {x : Except EvalError α} {k : α → Except EvalError Reply}
    (hx : Ordinary x) (hk : ∀ a, (reply (k a)).Tame) : (reply (x >>= k)).Tame := by
  cases x with
  | ok a => exact hk a
  | error e => exact hx e rfl

theorem tame_reply_map {x : Except EvalError α} {f : α → Reply} (hx : Ordinary x)
    (hf : ∀ a, (f a).Tame) : (reply (x.map f)).Tame := by
  cases x with
  | ok a => exact hf a
  | error e => exact hx e rfl

theorem tame_native {run : List Value → Reply} (h : ∀ args, (run args).Tame) :
    (Callable.native run).Tame :=
  ⟨id, h⟩

theorem tame_unary {name : String} {run : Value → Except EvalError Reply}
    (h : ∀ v, (reply (run v)).Tame) : (Callable.native (unary name run)).Tame := by
  refine tame_native fun args => ?_
  unfold unary
  split
  · exact h _
  · exact fun _ => nofun

theorem tame_binary {name : String} {run : Value → Value → Except EvalError Reply}
    (h : ∀ v w, (reply (run v w)).Tame) : (Callable.native (binary name run)).Tame := by
  refine tame_native fun args => ?_
  unfold binary
  split
  · exact h _ _
  · exact fun _ => nofun

theorem tame_numeric {name : String} {run : Number → Number → Value} :
    (Callable.native (numeric name run)).Tame := by
  refine tame_binary fun v w => ?_
  exact tame_reply_bind (.asNumber v) fun x => tame_reply_bind (.asNumber w) fun y => trivial

theorem ordinary_joinTexts (vs : List Value) : Ordinary (joinTexts vs) := by
  induction vs with
  | nil => exact .ok ""
  | cons v vs ih => exact .bind (.asText v) fun s => .bind ih fun t => .ok (s ++ t)

theorem tame_count : Callable.count.Tame :=
  tame_native fun _ => trivial

/-- Every function of the basis is tame. -/
theorem tame_callable (f : Native) : f.callable.Tame := by
  cases f with
  | add | sub | mul | div | less | equal => exact tame_numeric
  | same => exact tame_binary fun v w => trivial
  | log | type | str => exact tame_unary fun v => trivial
  | list => exact tame_count
  | concat => exact tame_native fun vs => tame_reply_map (ordinary_joinTexts vs) fun s => trivial
  | call => exact id
  | adder =>
    refine tame_unary fun v => tame_reply_map (.asNumber v) fun x => ?_
    exact tame_unary fun v => tame_reply_map (.asNumber v) fun y => trivial
  | fail =>
    exact tame_unary fun v => tame_reply_map (.asText v) fun s => EvalError.Ordinary.custom s

end Basis.Native

end Egg
