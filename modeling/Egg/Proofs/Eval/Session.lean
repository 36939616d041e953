-- SUMMARY: Whatever a host does in a session, it comes to a world in which the laws of scopes, borrows and levels hold.
import Egg.Proofs.Eval.Borrow
import Egg.Session

/-!
# Sessions

A host drives a session step by step, and each step does one of the things that lead from one
reachable world to another. So every world of a session is reachable, however many steps the host
takes and however they end. Between two steps no evaluation is active, the table holds forms of
the basis, and every scope that the host knows by a name is there. This is all that the laws of
scopes, borrows and levels ask for.
-/

namespace Egg

open Egg.Basis

/-! ## Values from the host -/

namespace World

variable {w : World}

@[simp] theorem scopes_receive (w : World) (g : Given) : (w.receive g).2.scopes = w.scopes := by
  cases g <;> rfl

@[simp] theorem guard_receive (w : World) (g : Given) : (w.receive g).2.guard = w.guard := by
  cases g <;> rfl

@[simp] theorem scopes_receiveAll (w : World) (gs : List Given) :
    (w.receiveAll gs).2.scopes = w.scopes := by
  induction gs generalizing w with
  | nil => rfl
  | cons g gs ih => exact (ih _).trans (w.scopes_receive g)

@[simp] theorem guard_receiveAll (w : World) (gs : List Given) :
    (w.receiveAll gs).2.guard = w.guard := by
  induction gs generalizing w with
  | nil => rfl
  | cons g gs ih => exact (ih _).trans (w.guard_receive g)

theorem Reachable.createdRoot (hw : w.Reachable) :
    Reachable { w with scopes := (w.scopes.create none).2 } :=
  hw.created nofun

/-- Functions that are tame use nothing of the program. -/
theorem Reachable.madeTame (hw : w.Reachable) {f : Callable} (hf : f.Tame) :
    Reachable { w with functions := w.functions.push f } :=
  hw.made (Callable.Obeys.mono (fun _ => id) (fun _ _ => trivial) f hf)

theorem Reachable.receive (hw : w.Reachable) (g : Given) : (w.receive g).2.Reachable := by
  cases g with
  | text | number => exact hw
  | counter name => exact hw.madeTame Native.tame_count
  | native f => exact hw.madeTame f.tame_callable

theorem Reachable.receiveAll (hw : w.Reachable) (gs : List Given) :
    (w.receiveAll gs).2.Reachable := by
  induction gs generalizing w with
  | nil => exact hw
  | cons g gs ih => exact ih (hw.receive g)

theorem Reachable.definedAll (hw : w.Reachable) (id : ScopeId) (bindings : List (String × Value)) :
    Reachable { w with scopes := w.scopes.defineAll id bindings } := by
  induction bindings generalizing w with
  | nil => exact hw
  | cons b bs ih => exact ih hw.defined

end World

namespace Session

variable {s : Session} {scope : ScopeId}

/-! ## Sound sessions -/

/-- What holds of a session between two steps. -/
structure Sound (s : Session) : Prop where
  world : s.world.Reachable
  idle : s.world.guard.depth = 0
  forms : s.forms.FromBasis fun _ => True
  kept : s.kept.FromBasis fun _ => True
  handle_lt : ∀ name scope, s.handles.get? name = some scope → scope < s.world.scopes.cells.size

/-- The session goes on in another world, in which no scope is lost. -/
theorem Sound.goOn (hs : s.Sound) {w : World} (hw : w.Reachable)
    (hguard : w.guard = s.world.guard)
    (hsize : s.world.scopes.cells.size ≤ w.scopes.cells.size) : Sound { s with world := w } where
  world := hw
  idle := by rw [hguard, hs.idle]
  forms := hs.forms
  kept := hs.kept
  handle_lt name scope hget := Nat.lt_of_lt_of_le (hs.handle_lt name scope hget) hsize

theorem Sound.withForms (hs : s.Sound) {forms : Forms} (hforms : forms.FromBasis fun _ => True) :
    Sound { s with forms := forms } :=
  { hs with forms := hforms }

theorem Sound.withHandle (hs : s.Sound) (name : String)
    (hscope : scope < s.world.scopes.cells.size) :
    Sound { s with handles := s.handles.insert name scope } where
  world := hs.world
  idle := hs.idle
  forms := hs.forms
  kept := hs.kept
  handle_lt name' scope' hget := by
    rw [Dict.get?_insert] at hget
    split at hget
    · cases hget
      exact hscope
    · exact hs.handle_lt name' scope' hget

theorem Sound.receive (hs : s.Sound) (g : Given) : (s.receive g).2.Sound :=
  hs.goOn (hs.world.receive g) (World.guard_receive ..)
    (Nat.le_of_eq (congrArg (·.cells.size) (World.scopes_receive ..).symm))

/-! ## Runs -/

theorem snd_answer (run : Run Value) :
    (s.answer run).2 = { s with world := Finish.world (run s.world) } := by
  unfold answer
  cases run s.world with
  | ok v w => rfl
  | error h w => cases h <;> rfl

/-- A run that the host starts in a scope keeps the session sound, however it ends. -/
theorem Sound.answer (hs : s.Sound) (hscope : scope < s.world.scopes.cells.size)
    {run : Run Value} (hrun : Run.FromHost scope run) : (s.answer run).2.Sound := by
  rw [snd_answer]
  exact hs.goOn (hs.world.ran hscope hrun) (hrun.guard_eq _) (hs.world.size_le hscope hrun)

theorem world_evaluateWith (i : Interpreter) (e : Expr) (scope : ScopeId) (w : World) :
    Finish.world (evaluateWith i e scope w) =
      (Finish.world (Egg.evaluate i.forms ample e scope (w.under (.idle i.limit)))).under
        w.guard := by
  unfold evaluateWith
  dsimp only
  split
  · next v w' hend =>
    have hrun : Egg.evaluate i.forms ample e scope (w.under (.idle i.limit)) = .ok v w' := hend
    rw [hrun]
    rfl
  · next h w' hend =>
    have hrun : Egg.evaluate i.forms ample e scope (w.under (.idle i.limit)) = .error h w' := hend
    rw [hrun]
    rfl

/-- An evaluation with another interpreter leaves the guard of the session alone. -/
theorem Sound.evaluateWith (hs : s.Sound) (hscope : scope < s.world.scopes.cells.size)
    {i : Interpreter} (hi : i.forms.FromBasis fun _ => True) (e : Expr) :
    (s.answer (evaluateWith i e scope)).2.Sound := by
  have hworld := hs.world.guarded (.idle i.limit)
  have hrun : Run.FromHost scope (Egg.evaluate i.forms ample e scope) := .evaluate hi ample e
  rw [snd_answer, world_evaluateWith]
  exact hs.goOn ((hworld.ran hscope hrun).guarded _) rfl (hworld.size_le hscope hrun)

theorem Sound.callByName (hs : s.Sound) (hscope : scope < s.world.scopes.cells.size)
    (name : String) (args : List Given) : (s.callByName scope name args).2.Sound := by
  unfold Session.callByName
  cases s.world.scopes.lookup scope name with
  | none => exact hs
  | some v =>
    cases hf : v.asFunction with
    | error e =>
      simp only [hf]
      exact hs
    | ok f =>
      have hreceived : Sound { s with world := (s.world.receiveAll args).2 } :=
        hs.goOn (hs.world.receiveAll args) (by simp) (by simp)
      simp only [hf]
      exact hreceived.answer (by simpa using hscope) (.call hs.forms ample f _)

/-! ## Steps -/

theorem Sound.bindHandle (hs : s.Sound) (name : String) {own : Dict Value}
    {parent : Option ScopeId} {made : ScopeId × Scopes}
    (hmade : s.world.scopes.Adds own parent made)
    (hworld : World.Reachable { s.world with scopes := made.2 }) :
    (s.bindHandle name made).Sound := by
  have hs' : (s.withScopes made.2).Sound :=
    hs.goOn hworld rfl (by rw [hmade.size_eq]; exact Nat.le_succ _)
  refine hs'.withHandle name ?_
  show made.1 < made.2.cells.size
  rw [hmade.fst_eq, hmade.size_eq]
  exact Nat.lt_succ_self _

/-- Every step in a scope that is there keeps a session sound. -/
theorem Sound.stepIn (hs : s.Sound) (hscope : scope < s.world.scopes.cells.size) (step : Step) :
    (s.stepIn scope step).2.Sound := by
  cases step with
  | evaluateSource source =>
    rw [Session.stepIn]
    split
    · exact hs.answer hscope (.evaluate hs.forms ample _)
    · exact hs
  | evaluate e => exact hs.answer hscope (.evaluate hs.forms ample e)
  | evaluatePlainly source =>
    rw [Session.stepIn]
    split
    · exact hs.evaluateWith hscope (i := .plain) Forms.fromBasis_empty _
    · exact hs
  | parse source =>
    rw [Session.stepIn]
    split <;> exact hs
  | call name args => exact hs.callByName hscope name args
  | invoke name args =>
    rw [Session.stepIn]
    split
    · next handler hget =>
      obtain ⟨f, -, rfl⟩ := hs.forms name handler hget
      exact hs.answer hscope (.apply hs.forms ample f args)
    · exact hs
  | lookup name =>
    rw [Session.stepIn]
    split <;> exact hs
  | define name g =>
    have hs' := hs.receive g
    exact hs'.goOn hs'.world.defined rfl (Nat.le_of_eq Scopes.size_define.symm)
  | assign name g =>
    have hs' := hs.receive g
    rw [Session.stepIn]
    dsimp only
    split
    · next scopes hassign =>
      refine hs'.goOn (hs'.world.assigned hassign) rfl ?_
      obtain ⟨holder, rfl⟩ := Scopes.exists_define_of_assign? hassign
      exact Nat.le_of_eq Scopes.size_define.symm
    · exact hs'
  | child name =>
    exact hs.bindHandle name (Scopes.adds_create _)
      (hs.world.created (by rintro _ ⟨⟩; exact hscope))
  | fresh name => exact hs.bindHandle name (Scopes.adds_create none) hs.world.createdRoot
  | «alias» name => exact hs.withHandle name hscope
  | copy name => exact hs.bindHandle name (Scopes.adds_copy hscope) (hs.world.copied hscope)
  | register name form => exact hs.withForms (hs.forms.insert name trivial)
  | unregister name => exact hs.withForms (hs.forms.erase name)
  | keepForms => exact { hs with kept := hs.forms }
  | restoreForms => exact hs.withForms hs.kept
  | reset =>
    exact ⟨hs.world.guarded _, rfl, Forms.fromBasis_empty, hs.kept, hs.handle_lt⟩
  | binds | names | outline | hasForm | forms | limit => exact hs

/-- Every step keeps a session sound, in whatever scope. -/
theorem Sound.step (hs : s.Sound) (handle : String) (step : Step) :
    (s.step handle step).2.Sound := by
  have hcleared : Sound { s with world := { s.world with log := #[] } } :=
    hs.goOn (hs.world.logged _) rfl (Nat.le_refl _)
  have hadds := Scopes.adds_create (s := s.world.scopes) none
  unfold Session.step
  dsimp only
  split
  · next scope hget => exact hcleared.stepIn (hs.handle_lt handle scope hget) step
  · have hopened := hcleared.goOn hcleared.world.createdRoot rfl
      (hadds.size_eq ▸ Nat.le_succ _)
    refine hopened.stepIn ?_ step
    show (s.world.scopes.create none).1 < (s.world.scopes.create none).2.cells.size
    rw [hadds.fst_eq, hadds.size_eq]
    exact Nat.lt_succ_self _

/-- The session after these steps, each in the scope that the host calls so. -/
def after (s : Session) (steps : List (String × Step)) : Session :=
  steps.foldl (fun s t => (s.step t.1 t.2).2) s

theorem Sound.after (hs : s.Sound) (steps : List (String × Step)) : (s.after steps).Sound := by
  induction steps generalizing s with
  | nil => exact hs
  | cons t steps ih => exact ih (hs.step t.1 t.2)

/-! ## Whole sessions -/

theorem fromBasis_build (setups : List Setup) :
    (Interpreter.build (setups.map Setup.setting)).forms.FromBasis fun _ => True := by
  have hfold (setups : List Setup) (i : Interpreter) (hi : i.forms.FromBasis fun _ => True) :
      ((setups.map Setup.setting).foldl Interpreter.apply i).forms.FromBasis fun _ => True := by
    induction setups generalizing i with
    | nil => exact hi
    | cons setup setups ih =>
      refine ih _ ?_
      cases setup with
      | forms table => exact Forms.fromBasis_ofBasis fun _ _ => trivial
      | form name f => exact hi.insert name trivial
      | limit n => exact hi
  exact hfold setups .plain Forms.fromBasis_empty

/-- A session in which the host knows no scope yet. -/
theorem sound_of_handles_empty {forms : Forms} (hforms : forms.FromBasis fun _ => True)
    {w : World} (hw : w.Reachable) (hidle : w.guard.depth = 0) :
    Sound ⟨forms, .empty, w, .empty⟩ :=
  ⟨hw, hidle, hforms, Forms.fromBasis_empty, nofun⟩

/-- A session is sound from the start. -/
theorem sound_start (setups : List Setup) (natives : List Native)
    (bindings : List (String × Given)) : (start setups natives bindings).Sound := by
  have hreceived (limit : Nat) (gs : List Given) :
      Sound ⟨(Interpreter.build (setups.map Setup.setting)).forms, .empty,
        ((World.fresh limit).receiveAll gs).2, .empty⟩ :=
    sound_of_handles_empty (fromBasis_build setups) ((World.Reachable.fresh limit).receiveAll gs)
      (congrArg Guard.depth (World.guard_receiveAll ..))
  have hroot (limit : Nat) (gs : List Given) :=
    (hreceived limit gs).bindHandle "root" (Scopes.adds_create none)
      (hreceived limit gs).world.createdRoot
  exact (hroot _ _).goOn ((hroot _ _).world.definedAll _ _) rfl
    (Nat.le_of_eq (Scopes.size_defineAll _).symm)

/-- The laws hold in every scope that the host knows: those of scopes, those of levels, as an
    evaluation leaves none active, and those of borrows, as none meets a scope in use. -/
theorem Sound.lawful (hs : s.Sound) {handle : String} (hget : s.handles.get? handle = some scope) :
    s.world.scopes.Reachable ∧ scope < s.world.scopes.cells.size ∧
    (∀ fuel e, (Finish.world (Egg.evaluate s.forms fuel e scope s.world)).guard =
      .idle s.world.guard.limit) ∧
    ∃ table, (∀ name, (Forms.ofBasis table).get? name = s.forms.get? name) ∧
      ∀ otherwise fuel e, evaluateBorrowing otherwise table [] fuel e scope s.world =
        Egg.evaluate s.forms fuel e scope s.world := by
  have hscope := hs.handle_lt handle scope hget
  have hfits := hs.world.fits hscope
  have hadmits := hs.world.sound.2
  obtain ⟨table, htable⟩ := hs.forms.exists_table
  refine ⟨hs.world.scopes, hscope, fun fuel e => ?_, table, htable, fun otherwise fuel e => ?_⟩
  · rw [Run.FromHost.guard_eq (.evaluate hs.forms fuel e), Guard.idle, ← hs.idle]
  · have htables : Policy.sound.Tables s.forms (Forms.ofBasis table) :=
      ⟨fun name _ => htable name, fun name _ => hs.forms name⟩
    have hborrowing := (Policy.engines_borrowingEngine otherwise table fuel).evaluate e
      (Policy.avoids_sound e) scope s.world hadmits hfits
    have hplain := (htables.engines fuel).evaluate e (Policy.avoids_sound e) scope s.world hadmits
      hfits
    exact hborrowing.eq.trans hplain.eq

/-- However a session is set up and whatever the host does in it, it stays sound. -/
theorem sound_after_start (setups : List Setup) (natives : List Native)
    (bindings : List (String × Given)) (steps : List (String × Step)) :
    ((start setups natives bindings).after steps).Sound :=
  (sound_start setups natives bindings).after steps

end Session

end Egg
