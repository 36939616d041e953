-- SUMMARY: Scope operations that borrow the cells they visit come to their end and never meet a cell in use.
import Egg.Proofs.Scope.Store

/-!
# Borrowed cells

A scope operation borrows each cell that it visits, to read it or to write to it. While a
lookup or an assignment goes on in the parent, all cells on the way stay borrowed. A cell
that is in use cannot be borrowed, unless both sides only read it. Every parent is older
than its children, so the cells on the way are distinct and there is an end of it, and no
borrow is refused.
-/

namespace Egg

/-! ## Borrows -/

/-- What a cell is borrowed for. -/
inductive Access where
  | read
  | write
deriving DecidableEq

/-- A cell in use. -/
structure Borrow where
  cell : ScopeId
  access : Access
deriving DecidableEq

/-- Two borrows of one cell exclude each other, unless both only read. -/
def Borrow.Excludes (b b' : Borrow) : Prop :=
  b.cell = b'.cell ∧ (b.access = .write ∨ b'.access = .write)

instance (b b' : Borrow) : Decidable (b.Excludes b') :=
  inferInstanceAs (Decidable (_ ∧ _))

/-- Borrow one more cell, unless a borrow that is held excludes it. -/
def borrow? (access : Access) (cell : ScopeId) (held : List Borrow) : Option (List Borrow) :=
  if ∃ b ∈ held, b.Excludes ⟨cell, access⟩ then none else some (⟨cell, access⟩ :: held)

theorem borrow?_of_forall_ne {access : Access} {cell : ScopeId} {held : List Borrow}
    (h : ∀ b ∈ held, b.cell ≠ cell) : borrow? access cell held = some (⟨cell, access⟩ :: held) := by
  refine if_neg ?_
  rintro ⟨b, hb, hcell, -⟩
  exact h b hb hcell

/-- Nobody borrows a cell while it is borrowed to write to it. -/
theorem borrow?_of_write_mem {cell : ScopeId} {held : List Borrow} (h : ⟨cell, .write⟩ ∈ held)
    (access : Access) : borrow? access cell held = none :=
  if_pos ⟨_, h, rfl, .inl rfl⟩

@[simp] theorem borrow?_nil (access : Access) (cell : ScopeId) :
    borrow? access cell [] = some [⟨cell, access⟩] :=
  borrow?_of_forall_ne nofun

namespace Scopes

variable {s : Scopes} {id last : ScopeId} {name : String} {access : Access} {held : List Borrow}
  {path : List ScopeId}

/-! ## The way outwards -/

/-- These are the scopes on the way from `id` outwards, up to one without a parent. -/
inductive Way (s : Scopes) : ScopeId → List ScopeId → Prop where
  | last {id : ScopeId} : s.parent? id = none → Way s id [id]
  | next {id parent : ScopeId} {path : List ScopeId} :
      s.parent? id = some parent → Way s parent path → Way s id (id :: path)

theorem way_chain (hs : s.Ordered) (hid : id < s.cells.size) : s.Way id (s.chain id) := by
  induction id using Nat.strongRecOn with
  | ind id ih =>
    rw [chain_of_lt_size hs hid]
    cases hparent : s.parent? id with
    | none => exact .last hparent
    | some parent => exact .next hparent (ih parent (hs hparent) (hs.lt_size hparent))

theorem Way.mem_iff (h : s.Way id path) (outer : ScopeId) :
    outer ∈ path ↔ s.Encloses outer id := by
  induction h with
  | last hparent =>
    rw [List.mem_singleton]
    constructor
    · rintro rfl
      exact .refl
    · intro hencloses
      rcases hencloses.cases_head with rfl | ⟨parent, hlink, -⟩
      · rfl
      · rw [hparent] at hlink
        cases hlink
  | @next id parent path hparent _ ih =>
    rw [List.mem_cons, ih]
    constructor
    · rintro (rfl | hencloses)
      · exact .refl
      · exact .head hparent hencloses
    · intro hencloses
      rcases hencloses.cases_head with rfl | ⟨parent', hlink, hrest⟩
      · exact .inl rfl
      · rw [hparent] at hlink
        cases hlink
        exact .inr hrest

theorem Ordered.le_of_encloses (hs : s.Ordered) {outer : ScopeId} (h : s.Encloses outer id) :
    outer ≤ id := by
  induction h with
  | refl => exact Nat.le_refl _
  | tail _ hlink ih => exact Nat.le_trans (Nat.le_of_lt (hs hlink)) ih

theorem Way.nodup (hs : s.Ordered) (h : s.Way id path) : path.Nodup := by
  induction h with
  | last => simp
  | next hparent hway ih =>
    refine List.nodup_cons.mpr ⟨fun hmem => ?_, ih⟩
    have hle := hs.le_of_encloses ((hway.mem_iff _).mp hmem)
    exact absurd (hs hparent) (Nat.not_lt_of_le hle)

theorem Ordered.wellFounded (hs : s.Ordered) :
    WellFounded fun parent child => s.parent? child = some parent :=
  Subrelation.wf (fun hlink => hs hlink) Nat.lt_wfRel.wf

/-! ## Operations that borrow -/

/-- Go outwards from `id` to the first scope that binds `name`, or else to the last one.
    Each cell on the way is borrowed while those before it are still held. The result is
    what is held in the end, the cell that was reached last at the front. There is none if a
    borrow is refused, or if the way is longer than `steps`. -/
def walk? (s : Scopes) (access : Access) (name : String) :
    Nat → List Borrow → ScopeId → Option (List Borrow)
  | 0, _, _ => none
  | steps + 1, held, id => do
    let held ← borrow? access id held
    if (s.own id).contains name then some held
    else
      match s.parent? id with
      | none => some held
      | some parent => s.walk? access name steps held parent

/-- What `name` is bound to, where each cell on the way is borrowed to read it. -/
def lookupBorrowing (s : Scopes) (name : String) (steps : Nat) (held : List Borrow)
    (id : ScopeId) : Option (Option Value) := do
  let held ← s.walk? .read name steps held id
  let last ← held.head?
  some ((s.own last.cell).get? name)

/-- Overwrite the nearest binding of `name`, where each cell on the way is borrowed to write
    to it. -/
def assignBorrowing (s : Scopes) (name : String) (v : Value) (steps : Nat) (held : List Borrow)
    (id : ScopeId) : Option (Except AssignError Scopes) := do
  let held ← s.walk? .write name steps held id
  let last ← held.head?
  some (if (s.own last.cell).contains name then .ok (s.define last.cell name v)
    else .error .undefined)

/-- Bind `name` in the scope itself, which is borrowed to write to it. -/
def defineBorrowing (s : Scopes) (name : String) (v : Value) (held : List Borrow)
    (id : ScopeId) : Option Scopes := do
  let _ ← borrow? .write id held
  some (s.define id name v)

/-- Copy a scope, which is borrowed to read it. -/
def copyBorrowing (s : Scopes) (held : List Borrow) (id : ScopeId) : Option (ScopeId × Scopes) := do
  let _ ← borrow? .read id held
  some (s.copy id)

theorem walk?_of_write_mem (h : ⟨id, .write⟩ ∈ held) (access : Access) (name : String)
    (steps : Nat) : s.walk? access name steps held id = none := by
  cases steps with
  | zero => rfl
  | succ steps =>
    rw [walk?, borrow?_of_write_mem h]
    rfl

/-- No walk reaches the nearest holder of the name while that one is borrowed to write to
    it. -/
theorem walk?_of_nearest {holder : ScopeId} (h : s.Nearest name id holder)
    (hheld : ⟨holder, .write⟩ ∈ held) (steps : Nat) :
    s.walk? access name steps held id = none := by
  induction h generalizing held steps with
  | here hcontains => exact walk?_of_write_mem hheld access name steps
  | @outer id parent holder hcontains hlink hnearest ih =>
    cases steps with
    | zero => rfl
    | succ steps =>
      rw [walk?]
      cases hborrow : borrow? access id held with
      | none => rfl
      | some held' =>
        -- what was held is held still
        have hheld' : ⟨holder, .write⟩ ∈ held' := by
          unfold borrow? at hborrow
          split at hborrow
          · cases hborrow
          · cases hborrow
            exact List.mem_cons_of_mem _ hheld
        simp [hcontains, hlink, ih hheld']

/-- No operation on a scope goes on while the scope is borrowed to write to it. -/
theorem refused_of_write_mem (h : ⟨id, .write⟩ ∈ held) (name : String) (v : Value) (steps : Nat) :
    s.lookupBorrowing name steps held id = none ∧
    s.assignBorrowing name v steps held id = none ∧
    s.defineBorrowing name v held id = none ∧
    s.copyBorrowing held id = none := by
  refine ⟨?_, ?_, ?_, ?_⟩
  · rw [lookupBorrowing, walk?_of_write_mem h]
    rfl
  · rw [assignBorrowing, walk?_of_write_mem h]
    rfl
  · rw [defineBorrowing, borrow?_of_write_mem h]
    rfl
  · rw [copyBorrowing, borrow?_of_write_mem h]
    rfl

/-- A walk from a scope that is younger than no borrowed one comes to its end. It holds the
    cells on the way, from the outside to the inside, and the outermost one decides what the
    search for the name comes to. -/
theorem walk?_eq (hs : s.Ordered) {steps : Nat} (hsteps : id < steps)
    (hheld : ∀ b ∈ held, id < b.cell) :
    ∃ last inner, s.walk? access name steps held id =
        some ((last :: inner).map (⟨·, access⟩) ++ held) ∧
      (last :: inner).Pairwise (· < ·) ∧ (∀ cell ∈ last :: inner, s.Encloses cell id) ∧
      s.holder? id name = if (s.own last).contains name then some last else none := by
  induction steps generalizing id held with
  | zero => exact absurd hsteps (Nat.not_lt_zero _)
  | succ steps ih =>
    have hborrow : borrow? access id held = some (⟨id, access⟩ :: held) :=
      borrow?_of_forall_ne fun b hb => Nat.ne_of_gt (hheld b hb)
    have hself : ∀ cell ∈ [id], s.Encloses cell id := by
      rintro cell hcell
      rw [List.mem_singleton.mp hcell]
      exact .refl
    rw [walk?, hborrow, holder?_eq hs]
    cases hcontains : (s.own id).contains name with
    | true => exact ⟨id, [], by simp, List.pairwise_singleton _ _, hself, by simp [hcontains]⟩
    | false =>
      cases hparent : s.parent? id with
      | none => exact ⟨id, [], by simp, List.pairwise_singleton _ _, hself, by simp [hcontains]⟩
      | some parent =>
        have hlt : parent < id := hs hparent
        have hsteps' : parent < steps := Nat.lt_of_lt_of_le hlt (Nat.le_of_lt_succ hsteps)
        have hheld' : ∀ b ∈ ⟨id, access⟩ :: held, parent < b.cell :=
          List.forall_mem_cons.mpr ⟨hlt, fun b hb => Nat.lt_trans hlt (hheld b hb)⟩
        obtain ⟨last, inner, hwalk, hsorted, hencloses, hfound⟩ := ih hsteps' hheld'
        refine ⟨last, inner ++ [id], ?_, ?_, fun cell hcell => ?_, hfound⟩
        · simpa using hwalk
        · rw [← List.cons_append, List.pairwise_append]
          refine ⟨hsorted, List.pairwise_singleton _ _, fun cell hcell inner hinner => ?_⟩
          rw [List.mem_singleton.mp hinner]
          exact Nat.lt_of_le_of_lt (hs.le_of_encloses (hencloses cell hcell)) hlt
        · rw [← List.cons_append] at hcell
          rcases List.mem_append.mp hcell with hcell | hcell
          · exact .head hparent (hencloses cell hcell)
          · exact hself cell hcell

/-- What the outermost cell of a walk binds is what a lookup reads. -/
theorem get?_own_eq_lookup
    (h : s.holder? id name = if (s.own last).contains name then some last else none) :
    (s.own last).get? name = s.lookup id name := by
  rw [lookup, h]
  split
  · rfl
  · next hcontains =>
    rw [Dict.contains, Bool.not_eq_true, Option.isSome_eq_false_iff, Option.isNone_iff_eq_none]
      at hcontains
    exact hcontains

/-- A walk while nothing is held. -/
theorem walk?_nil (hs : s.Ordered) {steps : Nat} (hsteps : id < steps) (name : String)
    (access : Access) :
    ∃ last inner, s.walk? access name steps [] id = some ((last :: inner).map (⟨·, access⟩)) ∧
      (last :: inner).Nodup ∧ (∀ cell ∈ last :: inner, s.Encloses cell id) ∧
      s.holder? id name = if (s.own last).contains name then some last else none := by
  have hheld : ∀ b ∈ ([] : List Borrow), id < b.cell := nofun
  obtain ⟨last, inner, hwalk, hsorted, hencloses, hfound⟩ := walk?_eq hs hsteps hheld
  rw [List.append_nil] at hwalk
  exact ⟨last, inner, hwalk, hsorted.imp Nat.ne_of_lt, hencloses, hfound⟩

theorem lookupBorrowing_nil (hs : s.Ordered) {steps : Nat} (hsteps : id < steps) (name : String) :
    s.lookupBorrowing name steps [] id = some (s.lookup id name) := by
  obtain ⟨last, inner, hwalk, -, -, hfound⟩ := walk?_nil hs hsteps name .read
  rw [lookupBorrowing, hwalk]
  exact congrArg some (get?_own_eq_lookup hfound)

theorem assignBorrowing_nil (hs : s.Ordered) {steps : Nat} (hsteps : id < steps) (name : String)
    (v : Value) : s.assignBorrowing name v steps [] id =
      some (match s.assign? id name v with
        | some s' => .ok s'
        | none => .error .undefined) := by
  obtain ⟨last, inner, hwalk, -, -, hfound⟩ := walk?_nil hs hsteps name .write
  rw [assignBorrowing, hwalk, assign?, hfound]
  show some (if (s.own last).contains name = true then _ else _) = _
  split <;> rfl

theorem defineBorrowing_nil (s : Scopes) (name : String) (v : Value) (id : ScopeId) :
    s.defineBorrowing name v [] id = some (s.define id name v) := by
  rw [defineBorrowing, borrow?_nil]
  rfl

theorem copyBorrowing_nil (s : Scopes) (id : ScopeId) :
    s.copyBorrowing [] id = some (s.copy id) := by
  rw [copyBorrowing, borrow?_nil]
  rfl

end Scopes

end Egg
