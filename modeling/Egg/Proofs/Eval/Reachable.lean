-- SUMMARY: The worlds that a host can come to: what holds of their scopes and functions, and what a run keeps.
import Egg.Proofs.Eval.Conduct
import Egg.Proofs.Eval.Depth
import Egg.Proofs.Scope.Store

/-!
# Worlds that a host can come to

A host opens and copies scopes, binds and overwrites names, makes functions that use nothing
of the program, and starts runs: it evaluates, and it calls functions and applies forms
directly. Whatever it does, the scopes of the world can be built by operations on scopes, so
the laws of scopes hold, and every function of the program was made in a scope that is there.
This is known of every world of a run too, as each way in which a run changes the world keeps
it. A run loses no scope, and it leaves the guard as it found it.
-/

namespace Egg

open Egg.Basis

/-! ## Sound worlds -/

namespace World

variable {w w' : World} {scope home : ScopeId} {name : String} {v : Value}

/-- The scopes can be built by operations on scopes, and every function of the program was
    made in a scope that is there. -/
structure Sound (w : World) : Prop where
  scopes : w.scopes.Reachable
  home_lt : ∀ home, w.IsHome home → home < w.scopes.cells.size

theorem Sound.of_eq (hw : w.Sound) (hscopes : w'.scopes = w.scopes)
    (hfunctions : w'.functions = w.functions) : w'.Sound where
  scopes := hscopes ▸ hw.scopes
  home_lt home hhome := by
    rw [hscopes]
    exact hw.home_lt home (by rwa [IsHome, hfunctions] at hhome)

/-- Other scopes will do, if none is lost. -/
theorem Sound.of_size_le (hw : w.Sound) {s : Scopes} (hs : s.Reachable)
    (hsize : w.scopes.cells.size ≤ s.cells.size) : Sound { w with scopes := s } where
  scopes := hs
  home_lt home hhome := Nat.lt_of_lt_of_le (hw.home_lt home hhome) hsize

theorem Sound.define (hw : w.Sound) : Sound { w with scopes := w.scopes.define scope name v } :=
  hw.of_size_le hw.scopes.defined (Nat.le_of_eq Scopes.size_define.symm)

theorem Sound.create (hw : w.Sound) {parent : Option ScopeId}
    (hparent : ∀ p, parent = some p → p < w.scopes.cells.size) :
    Sound { w with scopes := (w.scopes.create parent).2 } :=
  hw.of_size_le (hw.scopes.created hparent) (by simp)

theorem Sound.copy (hw : w.Sound) (h : scope < w.scopes.cells.size) :
    Sound { w with scopes := (w.scopes.copy scope).2 } :=
  hw.of_size_le (hw.scopes.copied h) (by simp [(Scopes.adds_copy h).size_eq])

theorem Sound.make (hw : w.Sound) {f : Callable}
    (hf : ∀ params body home, f = .closure params body home → home < w.scopes.cells.size) :
    Sound { w with functions := w.functions.push f } where
  scopes := hw.scopes
  home_lt home hhome := by
    obtain ⟨params, body, hmem⟩ := hhome
    rcases Array.mem_push.mp hmem with hmem | rfl
    · exact hw.home_lt home ⟨params, body, hmem⟩
    · exact hf params body home rfl

/-- A run in this scope finds a sound world, in which the scope is there. -/
structure Fits (w : World) (scope : ScopeId) : Prop where
  sound : w.Sound
  lt_size : scope < w.scopes.cells.size

theorem Fits.home_lt (hw : w.Fits scope) (hhome : home = scope ∨ w.IsHome home) :
    home < w.scopes.cells.size := by
  rcases hhome with rfl | hhome
  · exact hw.lt_size
  · exact hw.sound.home_lt home hhome

theorem Fits.opened (hw : w.Fits scope) (hhome : home = scope ∨ w.IsHome home) :
    (w.opened home).Fits w.scopes.cells.size where
  sound := hw.sound.create (by rintro _ ⟨⟩; exact hw.home_lt hhome)
  lt_size := by simp [World.opened]

/-- The world is sound, and no scope of the earlier one is lost. -/
structure Follows (w w' : World) : Prop where
  sound : w'.Sound
  size_le : w.scopes.cells.size ≤ w'.scopes.cells.size

theorem Follows.trans {w'' : World} (h : w.Follows w') (h' : w'.Follows w'') : w.Follows w'' :=
  ⟨h'.sound, Nat.le_trans h.size_le h'.size_le⟩

theorem Sound.follows_define (hw : w.Sound) :
    w.Follows { w with scopes := w.scopes.define scope name v } :=
  ⟨hw.define, Nat.le_of_eq Scopes.size_define.symm⟩

theorem Fits.of_follows (hw : w.Fits scope) (h : w.Follows w') : w'.Fits scope :=
  ⟨h.sound, Nat.lt_of_lt_of_le hw.lt_size h.size_le⟩

end World

/-! ## Runs of a host -/

/-- Runs in a scope of a sound world leave the world sound and lose no scope. -/
def Policy.sound : Policy where
  avoided := fun _ => False
  allowed := fun _ => True
  holds scope w := w.Fits scope
  may scope w w' := w.Fits scope → w.Follows w'
  may_aside hscopes hfunctions hw :=
    ⟨hw.sound.of_eq hscopes hfunctions, Nat.le_of_eq (by rw [hscopes])⟩
  may_trans h h' hw := (h hw).trans (h' (hw.of_follows (h hw)))
  may_define hw := hw.sound.follows_define
  may_assign _ hassign hw := by
    obtain ⟨holder, rfl⟩ := Scopes.exists_define_of_assign? hassign
    exact hw.sound.follows_define
  may_make hhome hw :=
    ⟨hw.sound.make fun _ _ _ hf => hhome _ _ _ hf ▸ hw.lt_size, Nat.le_refl _⟩
  may_inner hhome h hw := by
    have hinner := h (hw.opened hhome)
    exact ⟨hinner.sound, Nat.le_trans (by simp [World.opened]) hinner.size_le⟩
  holds_of_may hw h := hw.of_follows (h hw)
  holds_opened hw hhome := hw.opened hhome

theorem Policy.avoids_sound (e : Expr) : e.Avoids sound.avoided :=
  Expr.avoids_of_forall (fun _ => id) e

/-- A run that a host starts in a scope: it evaluates, or it calls a function or applies a form
    directly. The forms are those of the basis, under whatever names. -/
inductive Run.FromHost (scope : ScopeId) : Run Value → Prop where
  | evaluate {forms : Forms} (hforms : forms.FromBasis fun _ => True) (fuel : Nat) (e : Expr) :
      FromHost scope (Egg.evaluate forms fuel e scope)
  | call {forms : Forms} (hforms : forms.FromBasis fun _ => True) (fuel : Nat) (f : FunctionRef)
      (args : List Value) : FromHost scope ((forms.engine fuel).call f args)
  | apply {forms : Forms} (hforms : forms.FromBasis fun _ => True) (fuel : Nat) (f : Form)
      (args : List Expr) : FromHost scope (f.handler (forms.engine fuel) args scope)

namespace Run.FromHost

variable {m : Run Value} {scope : ScopeId}

theorem coincide (hm : FromHost scope m) : Policy.sound.Coincide scope m m := by
  have hengines {forms : Forms} (hforms : forms.FromBasis fun _ => True) (fuel : Nat) :
      Policy.sound.Engines (forms.engine fuel) (forms.engine fuel) :=
    Policy.Tables.engines ⟨fun _ _ => rfl, fun name _ => hforms name⟩ fuel
  cases hm with
  | evaluate hforms fuel e => exact (hengines hforms fuel).evaluate e (Policy.avoids_sound e) scope
  | call hforms fuel f args => exact (hengines hforms fuel).call f args scope
  | apply hforms fuel f args =>
    exact Policy.handles_handler trivial _ _ (hengines hforms fuel) args
      (fun e _ => Policy.avoids_sound e) scope

/-- A run of a host keeps the world sound and loses no scope. -/
theorem follows (hm : FromHost scope m) {w : World} (hw : w.Fits scope)
    (hadmits : Policy.sound.Admits w) :
    w.Follows (Finish.world (m w)) ∧ Policy.sound.Admits (Finish.world (m w)) :=
  have halike := hm.coincide w hadmits hw
  ⟨halike.may hw, halike.admits⟩

theorem agree (hm : FromHost scope m) (g : Guard) : (Pairing.whole g).Agree m m := by
  have hengines {forms : Forms} (hforms : forms.FromBasis fun _ => True) (fuel : Nat) :
      (Pairing.whole g).Engines (forms.engine fuel) (forms.engine fuel) :=
    ⟨Pairing.agree_evaluate hforms (fun _ _ => id) rfl (Nat.le_refl _) (.inr ⟨rfl, trivial⟩)
      (.inl rfl), .inl rfl⟩
  cases hm with
  | evaluate hforms fuel e => exact (hengines hforms fuel).evaluate e scope
  | call hforms fuel f args => exact (hengines hforms fuel).call f args
  | apply hforms fuel f args =>
    exact Form.handles_handler f (fun _ _ => id) _ _ (hengines hforms fuel) args scope

/-- Also a run that evaluates nothing itself, or many expressions, leaves the guard as it found
    it. -/
theorem guard_eq (hm : FromHost scope m) (w : World) : (Finish.world (m w)).guard = w.guard := by
  have halike := hm.agree w.guard w (Pairing.admits_same w)
  rcases halike.cut_or with ⟨halt, w', -, hcut⟩ | ⟨-, hafter, -⟩
  · exact hcut.elim
  · exact hafter.guard_eq

end Run.FromHost

/-! ## Worlds -/

namespace World

/-- A world that a host comes to from the empty one: it opens and copies scopes, binds and
    overwrites names, makes functions that use nothing of the program, clears the log, and
    starts runs in scopes that are there. Other evaluations may be active all the while, under
    whatever limit. -/
inductive Reachable : World → Prop where
  | fresh (limit : Nat) : Reachable (fresh limit)
  | created {w : World} {parent : Option ScopeId} : Reachable w →
      (∀ p, parent = some p → p < w.scopes.cells.size) →
      Reachable { w with scopes := (w.scopes.create parent).2 }
  | copied {w : World} {id : ScopeId} : Reachable w → id < w.scopes.cells.size →
      Reachable { w with scopes := (w.scopes.copy id).2 }
  | defined {w : World} {id : ScopeId} {name : String} {v : Value} : Reachable w →
      Reachable { w with scopes := w.scopes.define id name v }
  | assigned {w : World} {id : ScopeId} {name : String} {v : Value} {s : Scopes} :
      Reachable w → w.scopes.assign? id name v = some s → Reachable { w with scopes := s }
  | made {w : World} {f : Callable} : Reachable w → f.Obeys (¬ ·.IsClosure) (fun _ => True) →
      Reachable { w with functions := w.functions.push f }
  | guarded {w : World} (g : Guard) : Reachable w → Reachable (w.under g)
  | logged {w : World} (log : Array String) : Reachable w → Reachable { w with log := log }
  | ran {w : World} {m : Run Value} {scope : ScopeId} : Reachable w →
      scope < w.scopes.cells.size → Run.FromHost scope m → Reachable (Finish.world (m w))

variable {w : World} {id : ScopeId}

theorem Reachable.sound (hw : Reachable w) : w.Sound ∧ Policy.sound.Admits w := by
  induction hw with
  | fresh limit =>
    refine ⟨⟨.empty, ?_⟩, ?_⟩
    · rintro home ⟨params, body, hmem⟩
      exact absurd hmem (Array.not_mem_empty _)
    · intro f hf
      exact absurd hf (Array.not_mem_empty _)
  | created _ hparent ih => exact ⟨ih.1.create hparent, ih.2⟩
  | copied _ hid ih => exact ⟨ih.1.copy hid, ih.2⟩
  | defined _ ih => exact ⟨ih.1.define, ih.2⟩
  | assigned _ hassign ih =>
    obtain ⟨holder, rfl⟩ := Scopes.exists_define_of_assign? hassign
    exact ⟨ih.1.define, ih.2⟩
  | made _ hf ih =>
    refine ⟨ih.1.make ?_, ih.2.push hf.avoids⟩
    rintro params body home rfl
    exact absurd trivial hf
  | guarded g _ ih => exact ⟨ih.1.of_eq rfl rfl, ih.2⟩
  | logged log _ ih => exact ⟨ih.1.of_eq rfl rfl, ih.2⟩
  | ran _ hscope hm ih =>
    obtain ⟨hfollows, hadmits⟩ := hm.follows ⟨ih.1, hscope⟩ ih.2
    exact ⟨hfollows.sound, hadmits⟩

/-- The laws of scopes hold in every world that a host can come to. -/
theorem Reachable.scopes (hw : Reachable w) : w.scopes.Reachable :=
  hw.sound.1.scopes

theorem Reachable.fits (hw : Reachable w) (hid : id < w.scopes.cells.size) : w.Fits id :=
  ⟨hw.sound.1, hid⟩

theorem Reachable.size_le (hw : Reachable w) (hid : id < w.scopes.cells.size) {m : Run Value}
    (hm : Run.FromHost id m) :
    w.scopes.cells.size ≤ (Finish.world (m w)).scopes.cells.size :=
  (hm.follows (hw.fits hid) hw.sound.2).1.size_le

end World

end Egg
