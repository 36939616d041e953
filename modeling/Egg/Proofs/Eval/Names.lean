-- SUMMARY: New names appear in the scope of an evaluation only, and without assignments nothing else changes at all.
import Egg.Proofs.Eval.Conduct
import Egg.Proofs.Eval.Limit
import Egg.Proofs.Scope.Store

/-!
# Where names appear

A definition binds its name in the scope in which it is evaluated, and the body of a
function is evaluated in a new scope, not in the one that the function was made in. So of
the scopes that were there before an evaluation only its own one can get new names, and a
call gives none of them a new name. In the other scopes values may change by assignment
only.
-/

namespace Egg

open Egg.Basis

/-! ## Later stores -/

namespace Scopes

variable {s s' s'' : Scopes} {scope home : ScopeId} {name : String} {v : Value}

/-- `s'` is a later state of `s`: no scope has another parent than before, and no scope has
    lost a name. Only `scope` may have new names. -/
structure Grows (s : Scopes) (scope : ScopeId) (s' : Scopes) : Prop where
  size_le : s.cells.size ≤ s'.cells.size
  parent_eq : ∀ id < s.cells.size, s'.parent? id = s.parent? id
  contains : ∀ id < s.cells.size, ∀ name,
    (s.own id).contains name = true → (s'.own id).contains name = true
  contains_eq : ∀ id < s.cells.size, id ≠ scope → ∀ name,
    (s'.own id).contains name = (s.own id).contains name

/-- `s'` is a later state of `s` in which only `scope` may have changed. -/
structure Spares (s : Scopes) (scope : ScopeId) (s' : Scopes) : Prop where
  size_le : s.cells.size ≤ s'.cells.size
  cell_eq : ∀ id < s.cells.size, id ≠ scope → s'.cells[id]? = s.cells[id]?

namespace Grows

theorem refl : s.Grows scope s where
  size_le := Nat.le_refl _
  parent_eq _ _ := rfl
  contains _ _ _ := id
  contains_eq _ _ _ _ := rfl

theorem trans (h : s.Grows scope s') (h' : s'.Grows scope s'') : s.Grows scope s'' where
  size_le := Nat.le_trans h.size_le h'.size_le
  parent_eq id hid := by
    rw [h'.parent_eq id (Nat.lt_of_lt_of_le hid h.size_le), h.parent_eq id hid]
  contains id hid name hname :=
    h'.contains id (Nat.lt_of_lt_of_le hid h.size_le) name (h.contains id hid name hname)
  contains_eq id hid hne name := by
    rw [h'.contains_eq id (Nat.lt_of_lt_of_le hid h.size_le) hne, h.contains_eq id hid hne]

theorem define : s.Grows scope (s.define scope name v) where
  size_le := Nat.le_of_eq size_define.symm
  parent_eq _ _ := parent?_define
  contains id hid name' hname := by
    by_cases hscope : id = scope
    · subst hscope
      rw [Dict.contains, get?_own_define hid]
      split
      · rfl
      · exact hname
    · rwa [own, getElem?_define, if_neg (Ne.symm hscope)]
  contains_eq id _ hne name' := by
    rw [own, getElem?_define, if_neg (Ne.symm hne)]
    rfl

/-- An assignment overwrites a binding that is there already. -/
theorem assign (h : s.assign? home name v = some s') : s.Grows scope s' := by
  obtain ⟨holder, hholder, rfl⟩ := Option.map_eq_some_iff.mp h
  have hcontains := List.find?_some hholder
  exact {
    size_le := Nat.le_of_eq size_define.symm
    parent_eq := fun _ _ => parent?_define
    contains := fun id _ name' hname => by rwa [contains_own_define hcontains]
    contains_eq := fun id _ _ name' => contains_own_define hcontains id name' }

/-- What has happened in a new scope is nothing new in those that were there. -/
theorem of_create (h : (s.create (some home)).2.Grows s.cells.size s') : s.Grows scope s' := by
  obtain ⟨hsize, hparent, hkept, hsame⟩ := h
  rw [size_create] at hsize hparent hkept hsame
  have hown {id : ScopeId} (hid : id < s.cells.size) :
      (s.create (some home)).2.own id = s.own id := by
    rw [create, own_add, if_neg (Nat.ne_of_lt hid)]
  refine ⟨Nat.le_of_succ_le hsize, fun id hid => ?_, fun id hid name hname => ?_,
    fun id hid _ name => ?_⟩
  · rw [hparent id (Nat.lt_succ_of_lt hid), create, parent?_add, if_neg (Nat.ne_of_lt hid)]
  · exact hkept id (Nat.lt_succ_of_lt hid) name (by rwa [hown hid])
  · rw [hsame id (Nat.lt_succ_of_lt hid) (Nat.ne_of_lt hid), hown hid]

end Grows

namespace Spares

theorem refl : s.Spares scope s :=
  ⟨Nat.le_refl _, fun _ _ _ => rfl⟩

theorem trans (h : s.Spares scope s') (h' : s'.Spares scope s'') : s.Spares scope s'' where
  size_le := Nat.le_trans h.size_le h'.size_le
  cell_eq id hid hne := by
    rw [h'.cell_eq id (Nat.lt_of_lt_of_le hid h.size_le) hne, h.cell_eq id hid hne]

theorem define : s.Spares scope (s.define scope name v) where
  size_le := Nat.le_of_eq size_define.symm
  cell_eq id _ hne := by rw [getElem?_define, if_neg (Ne.symm hne)]

theorem of_create (h : (s.create (some home)).2.Spares s.cells.size s') : s.Spares scope s' := by
  obtain ⟨hsize, hcell⟩ := h
  rw [size_create] at hsize hcell
  refine ⟨Nat.le_of_succ_le hsize, fun id hid _ => ?_⟩
  rw [hcell id (Nat.lt_succ_of_lt hid) (Nat.ne_of_lt hid), create, getElem?_add,
    if_neg (Nat.ne_of_lt hid)]

end Spares

end Scopes

/-! ## Evaluation -/

namespace Policy

/-- Runs in a scope give new names to no other one. -/
def growing : Policy where
  avoided := fun _ => False
  allowed := fun _ => True
  may scope w w' := w.scopes.Grows scope w'.scopes
  may_aside hscopes _ := hscopes ▸ .refl
  may_trans := .trans
  may_define := .define
  may_assign _ := .assign
  may_make _ := .refl
  may_inner _ := .of_create

/-- Runs without assignments change no scope but their own. -/
def sparing : Policy where
  avoided := (· = "set")
  allowed := (· ≠ .set)
  may scope w w' := w.scopes.Spares scope w'.scopes
  may_aside hscopes _ := hscopes ▸ .refl
  may_trans := .trans
  may_define := .define
  may_assign hset := absurd rfl hset
  may_make _ := .refl
  may_inner _ := .of_create

end Policy

variable {forms : Forms}

/-- The functions that are there may be any of the program, and any of the host that make
    none of the program. However an evaluation ends, every scope that was there keeps its
    parent and its names, and only the scope of the evaluation may have got new ones. A call
    gives no new name to any scope that was there. If neither the expression nor a function
    that is there assigns anything, no scope changes at all but that of the evaluation, and
    none by a call. -/
theorem evaluate_grows (hforms : forms.FromBasis fun _ => True) {w : World}
    (hw : ∀ f ∈ w.functions, f.Avoids fun _ => False) (fuel : Nat) (e : Expr) (scope : ScopeId) :
    w.scopes.Grows scope (Finish.world (evaluate forms fuel e scope w)).scopes ∧
    (∀ f args, ∀ id < w.scopes.cells.size,
      (Finish.world ((forms.engine fuel).call f args w)).scopes.parent? id = w.scopes.parent? id ∧
      ∀ name, ((Finish.world ((forms.engine fuel).call f args w)).scopes.own id).contains name =
        (w.scopes.own id).contains name) ∧
    (Forms.FromBasis (forms.erase "set") (· ≠ .set) → e.Avoids (· = "set") →
      (∀ f ∈ w.functions, f.Avoids (· = "set")) →
      (∀ id < w.scopes.cells.size, id ≠ scope →
        (Finish.world (evaluate forms fuel e scope w)).scopes.cells[id]? = w.scopes.cells[id]?) ∧
      (∀ f args, ∀ id < w.scopes.cells.size,
        (Finish.world ((forms.engine fuel).call f args w)).scopes.cells[id]? =
          w.scopes.cells[id]?)) := by
  -- a call belongs to no scope, so it keeps to what is allowed in one that is not there
  have houtside {id : ScopeId} (hid : id < w.scopes.cells.size) : id ≠ w.scopes.cells.size :=
    Nat.ne_of_lt hid
  have htables : Policy.growing.Tables forms forms :=
    ⟨fun _ _ => rfl, fun name _ => hforms name⟩
  have hgrows := htables.engines fuel
  have he : e.Avoids Policy.growing.avoided := Expr.avoids_of_forall (fun _ => id) e
  refine ⟨(hgrows.evaluate e he scope w hw).may, fun f args id hid => ?_, fun hset he hw => ?_⟩
  · have hcall : w.scopes.Grows w.scopes.cells.size _ := (hgrows.call f args _ w hw).may
    exact ⟨hcall.parent_eq id hid, hcall.contains_eq id hid (houtside hid)⟩
  · have htables : Policy.sparing.Tables forms forms :=
      Policy.tables_of_erase rfl hset fun _ _ => rfl
    have hspares := htables.engines fuel
    refine ⟨(hspares.evaluate e he scope w hw).may.cell_eq, fun f args id hid => ?_⟩
    exact (hspares.call f args w.scopes.cells.size w hw).may.cell_eq id hid (houtside hid)

/-- The expression `define(y, "b")`. -/
def defining : Expr :=
  .apply (.word "define") [.word "y", .literal (.text "b")]

/-- A scope that binds `x`, and another one inside it that binds `f` to a function of the
    outer one. The body of the function is `define(y, "b")`. -/
def nested : World :=
  { World.fresh 9 with
    scopes := (((Scopes.empty.create none).2.define 0 "x" (.text "outer")).create (some 0)).2.define
      1 "f" (.function ⟨"fun", 0⟩)
    functions := #[.closure ["x"] defining 0] }

/-- A definition in the inner scope leaves the outer one as it was, and so does a call of
    the function, although the same definition is its body. -/
theorem evaluate_defining :
    imperative.FromBasis (fun _ => True) ∧
    (∀ f ∈ nested.functions, f.Avoids fun _ => False) ∧
    Forms.FromBasis (imperative.erase "set") (· ≠ .set) ∧
    defining.Avoids (· = "set") ∧
    (∀ f ∈ nested.functions, f.Avoids (· = "set")) ∧
    (evaluate imperative 9 defining 1 nested = .ok (.text "b") { nested with
        scopes := nested.scopes.define 1 "y" (.text "b") } ∧
      (nested.scopes.define 1 "y" (.text "b")).cells[0]? = nested.scopes.cells[0]?) ∧
    ∃ scopes, (imperative.engine 9).call ⟨"f", 0⟩ [.text "a"] nested =
        .ok (.text "b") { nested with scopes := scopes } ∧
      (scopes.own 2).names = ["x", "y"] ∧ (scopes.own 0).contains "y" = false ∧
      scopes.cells[0]? = nested.scopes.cells[0]? := by
  have hforms : imperative.FromBasis fun _ => True :=
    Forms.fromBasis_ofBasis fun _ _ => trivial
  have hset : Forms.FromBasis (imperative.erase "set") (· ≠ .set) := by
    have herase : imperative.erase "set" =
        Forms.ofBasis ([.cond, .sequence, .define, .loop, .function].map fun f => (f.name, f)) :=
      rfl
    rw [herase]
    exact Forms.fromBasis_ofBasis (List.forall_mem_map.mpr (by simp))
  have havoids (avoided : String → Prop) (h : ¬ avoided "define") : defining.Avoids avoided := by
    simpa [defining, Expr.Avoids, Expr.AvoidsAll, Expr.word?] using h
  have hfunctions (avoided : String → Prop) (h : ¬ avoided "define") :
      ∀ f ∈ nested.functions, f.Avoids avoided := by
    intro f hf
    obtain rfl : f = .closure ["x"] defining 0 := by simpa [nested] using hf
    exact havoids avoided h
  have hw := hfunctions (fun _ => False) id
  have hw' := hfunctions (· = "set") (by decide)
  have he' := havoids (· = "set") (by decide)
  have hrun : evaluate imperative 9 defining 1 nested = .ok (.text "b") { nested with
      scopes := nested.scopes.define 1 "y" (.text "b") } := rfl
  have hcall : (imperative.engine 9).call ⟨"f", 0⟩ [.text "a"] nested = .ok (.text "b")
      { nested with
        scopes := ((nested.scopes.create (some 0)).2.define 2 "x" (.text "a")).define
          2 "y" (.text "b") } := by
    rw [Engine.call_of_closure rfl]
    rfl
  obtain ⟨-, hnames, hspares⟩ := evaluate_grows hforms hw 9 defining 1
  obtain ⟨hcells, hcallCells⟩ := hspares hset he' hw'
  have hcell := hcells 0 (by decide) (by decide)
  have hcallCell := hcallCells ⟨"f", 0⟩ [.text "a"] 0 (by decide)
  have hy := (hnames ⟨"f", 0⟩ [.text "a"] 0 (by decide)).2 "y"
  rw [hrun] at hcell
  rw [hcall] at hcallCell hy
  exact ⟨hforms, hw, hset, he', hw', ⟨hrun, hcell⟩, _, hcall, by decide, hy, hcallCell⟩

end Egg
