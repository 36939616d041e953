-- SUMMARY: The laws of the scope store: who sees a write, for every store that can be built.
import Egg.Proofs.Scope.Chain

/-!
# The scope store

Scopes are shared: by their children, by copies, which keep the parent of the
original, and by everyone who holds on to them. So a write to one cell may be seen
through many scopes. It is seen through exactly those whose nearest holder of the
name is the cell that was written.
-/

namespace Egg.Scopes

variable {s s' : Scopes} {id id' parent holder : ScopeId} {name name' : String} {v : Value}

/-! ## Writing to a cell -/

/-- `s'` is `s` with `name` bound to `v` in the cell of `holder`, and no other change. -/
structure Writes (s s' : Scopes) (holder : ScopeId) (name : String) (v : Value) : Prop where
  size_eq : s'.cells.size = s.cells.size
  cell_eq : ∀ id, id ≠ holder → s'.cells[id]? = s.cells[id]?
  parent_eq : s'.parent? holder = s.parent? holder
  own_eq : ∀ name', (s'.own holder).get? name' =
    if name' = name then some v else (s.own holder).get? name'

theorem getElem?_define (id : ScopeId) :
    (s.define holder name v).cells[id]? =
      if holder = id then s.cells[id]?.map (fun cell => { cell with own := cell.own.insert name v })
      else s.cells[id]? :=
  Array.getElem?_modify

@[simp] theorem size_define : (s.define holder name v).cells.size = s.cells.size :=
  Array.size_modify

@[simp] theorem parent?_define : (s.define holder name v).parent? id = s.parent? id := by
  unfold parent?
  rw [getElem?_define]
  split
  · cases s.cells[id]? <;> rfl
  · rfl

theorem get?_own_define (h : holder < s.cells.size) (id : ScopeId) (name' : String) :
    ((s.define holder name v).own id).get? name' =
      if id = holder ∧ name' = name then some v else (s.own id).get? name' := by
  unfold own
  rw [getElem?_define]
  by_cases hid : id = holder
  · subst hid
    simp [h, Dict.get?_insert]
  · simp [hid, Ne.symm hid]

theorem writes_define (h : holder < s.cells.size) :
    s.Writes (s.define holder name v) holder name v where
  size_eq := size_define
  cell_eq id hne := by rw [getElem?_define, if_neg hne.symm]
  parent_eq := parent?_define
  own_eq name' := by rw [get?_own_define h]; simp

theorem Ordered.define (hs : s.Ordered) : (s.define holder name v).Ordered := by
  intro id parent hlink
  rw [parent?_define] at hlink
  exact hs hlink

/-! ## Several writes to a cell -/

@[simp] theorem size_defineAll (bindings : List (String × Value)) :
    (s.defineAll id bindings).cells.size = s.cells.size := by
  induction bindings generalizing s with
  | nil => rfl
  | cons b bs ih => exact ih.trans size_define

@[simp] theorem parent?_defineAll (bindings : List (String × Value)) :
    (s.defineAll id bindings).parent? id' = s.parent? id' := by
  induction bindings generalizing s with
  | nil => rfl
  | cons b bs ih => exact ih.trans parent?_define

theorem Ordered.defineAll (hs : s.Ordered) (bindings : List (String × Value)) :
    (s.defineAll id bindings).Ordered := by
  intro id' parent hlink
  rw [parent?_defineAll] at hlink
  exact hs hlink

theorem own_define_self (h : id < s.cells.size) :
    (s.define id name v).own id = (s.own id).insert name v := by
  unfold own
  rw [getElem?_define]
  simp [h]

theorem own_defineAll (h : id < s.cells.size) (bindings : List (String × Value)) :
    (s.defineAll id bindings).own id = (s.own id).insertAll bindings := by
  induction bindings generalizing s with
  | nil => rfl
  | cons b bs ih =>
    have hrest := ih (s := s.define id b.1 b.2) (by rwa [size_define])
    rw [own_define_self h] at hrest
    exact hrest

/-! ## Lookups after a write -/

/-- After a write, a lookup reads the written value if it ends in the written cell
    under the written name, and else what it read before. -/
theorem lookup_define (hs : s.Ordered) (h : holder < s.cells.size) (id : ScopeId) (name' : String) :
    (s.define holder name v).lookup id name' =
      if name' = name ∧ (s.define holder name v).holder? id name' = some holder then some v
      else s.lookup id name' := by
  induction id using Nat.strongRecOn with
  | ind id ih =>
    rw [lookup_eq hs.define, lookup_eq hs, holder?_eq hs.define, parent?_define, Dict.contains,
      get?_own_define h]
    by_cases hwritten : id = holder ∧ name' = name
    · simp [hwritten]
    · rw [if_neg hwritten]
      cases (s.own id).get? name' with
      | some u =>
        -- the lookup ends in `id`, which is not what was written
        have hne : ¬ (name' = name ∧ id = holder) := fun hc => hwritten hc.symm
        simp [hne]
      | none =>
        cases hparent : s.parent? id with
        | none => simp
        | some parent => simp [ih parent (hs hparent)]

/-- A write to a cell that binds the name already changes no set of names. -/
theorem contains_own_define (h : (s.own holder).contains name = true) (id : ScopeId)
    (name' : String) :
    ((s.define holder name v).own id).contains name' = (s.own id).contains name' := by
  rw [Dict.contains, get?_own_define (Nearest.here h).lt_size]
  split
  · next hwritten =>
    obtain ⟨rfl, rfl⟩ := hwritten
    exact h.symm
  · rfl

/-- A write to a cell that binds the name already leaves every holder as it is. -/
theorem holder?_define (hs : s.Ordered) (h : s.Nearest name id holder) (id' : ScopeId)
    (name' : String) : (s.define holder name v).holder? id' name' = s.holder? id' name' := by
  induction id' using Nat.strongRecOn with
  | ind id' ih =>
    rw [holder?_eq hs.define, holder?_eq hs, contains_own_define h.contains, parent?_define]
    cases hparent : s.parent? id' with
    | none => rfl
    | some parent => simp [ih parent (hs hparent)]

/-! ## Assignment in place -/

/-- An assignment is a write to some cell. -/
theorem exists_define_of_assign? (h : s.assign? id name v = some s') :
    ∃ holder, s' = s.define holder name v := by
  obtain ⟨holder, -, rfl⟩ := Option.map_eq_some_iff.mp h
  exact ⟨holder, rfl⟩

/-- Why an assignment fails. -/
inductive AssignError where
  /-- Neither the scope nor an ancestor binds the name. -/
  | undefined
deriving DecidableEq, Repr

/-- Overwrite the nearest binding of `name` in place: in the scope itself if it binds
    the name, or else from its parent on. -/
def assign (name : String) (v : Value) (id : ScopeId) : EStateM AssignError Scopes Unit := fun s =>
  if (s.own id).contains name then .ok () (s.define id name v)
  else
    match s.parent? id with
    | some parent => if parent < id then assign name v parent s else .error .undefined s
    | none => .error .undefined s
termination_by id

/-- Going from scope to scope ends like the search for the holder. -/
theorem assign_eq (hs : s.Ordered) (name : String) (v : Value) (id : ScopeId) :
    assign name v id s =
      match s.assign? id name v with
      | some s' => .ok () s'
      | none => .error .undefined s := by
  induction id using Nat.strongRecOn with
  | ind id ih =>
    rw [assign, assign?, holder?_eq hs]
    cases hcontains : (s.own id).contains name with
    | true => simp
    | false =>
      cases hparent : s.parent? id with
      | none => simp
      | some parent => simp [hs hparent, ih parent (hs hparent), assign?]

theorem assign_eq_ok_iff (hs : s.Ordered) :
    assign name v id s = .ok () s' ↔
      ∃ holder, s.Nearest name id holder ∧ s' = s.define holder name v := by
  rw [assign_eq hs, assign?]
  cases hholder : s.holder? id name with
  | none =>
    have hnone (holder : ScopeId) : ¬ s.Nearest name id holder := fun h => by
      rw [(holder?_eq_some_iff hs).mpr h] at hholder
      cases hholder
    simp [hnone]
  | some holder =>
    have hnearest (holder' : ScopeId) : s.Nearest name id holder' ↔ holder' = holder := by
      rw [← holder?_eq_some_iff hs, hholder, Option.some.injEq, eq_comm]
    simp [hnearest, eq_comm]

theorem exists_assign_eq_ok_iff (hs : s.Ordered) :
    (∃ s', assign name v id s = .ok () s') ↔ ∃ u, s.lookup id name = some u := by
  constructor
  · rintro ⟨s', hassign⟩
    obtain ⟨holder, hnearest, -⟩ := (assign_eq_ok_iff hs).mp hassign
    rw [lookup_of_nearest hs hnearest]
    exact Option.isSome_iff_exists.mp hnearest.contains
  · rintro ⟨u, hu⟩
    obtain ⟨holder, hnearest, -⟩ := (lookup_eq_some_iff hs).mp hu
    exact ⟨_, (assign_eq_ok_iff hs).mpr ⟨holder, hnearest, rfl⟩⟩

theorem eq_of_assign_eq_error (hs : s.Ordered) {e : AssignError}
    (h : assign name v id s = .error e s') : s' = s := by
  rw [assign_eq hs] at h
  cases hassign : s.assign? id name v with
  | none => rw [hassign] at h; cases h; rfl
  | some s'' => rw [hassign] at h; cases h

/-! ## New scopes -/

/-- `made` is a new cell and `s` with this cell, which has these bindings of its own and this
    parent. No other change. -/
structure Adds (s : Scopes) (own : Dict Value) (parent : Option ScopeId)
    (made : ScopeId × Scopes) : Prop where
  fst_eq : made.1 = s.cells.size
  size_eq : made.2.cells.size = s.cells.size + 1
  cell_eq : ∀ id, id < s.cells.size → made.2.cells[id]? = s.cells[id]?
  own_eq : made.2.own made.1 = own
  parent_eq : made.2.parent? made.1 = parent

@[simp] theorem size_create (parent : Option ScopeId) :
    (s.create parent).2.cells.size = s.cells.size + 1 :=
  Array.size_push _

theorem getElem?_add (cell : Scope) (id : ScopeId) :
    (s.add cell).2.cells[id]? = if id = s.cells.size then some cell else s.cells[id]? :=
  Array.getElem?_push

theorem parent?_add (cell : Scope) (id : ScopeId) :
    (s.add cell).2.parent? id = if id = s.cells.size then cell.parent else s.parent? id := by
  unfold parent?
  rw [getElem?_add]
  split <;> rfl

theorem own_add (cell : Scope) (id : ScopeId) :
    (s.add cell).2.own id = if id = s.cells.size then cell.own else s.own id := by
  unfold own
  rw [getElem?_add]
  split <;> rfl

theorem adds_add (cell : Scope) : s.Adds cell.own cell.parent (s.add cell) where
  fst_eq := rfl
  size_eq := Array.size_push _
  cell_eq id hid := by rw [getElem?_add, if_neg (Nat.ne_of_lt hid)]
  own_eq := by rw [own_add]; exact if_pos rfl
  parent_eq := by rw [parent?_add]; exact if_pos rfl

theorem Ordered.add (hs : s.Ordered) {cell : Scope}
    (hcell : ∀ parent, cell.parent = some parent → parent < s.cells.size) :
    (s.add cell).2.Ordered := by
  intro id parent hlink
  rw [parent?_add] at hlink
  split at hlink
  · next hid => exact hid ▸ hcell parent hlink
  · exact hs hlink

theorem Ordered.lt_size (hs : s.Ordered) (h : s.parent? id = some parent) :
    parent < s.cells.size := by
  refine Nat.lt_trans (hs h) (Nat.lt_of_not_le fun hle => ?_)
  rw [parent?_of_size_le hle] at h
  cases h

/-- A new cell changes no lookup in the scopes that were there. -/
theorem lookup_add (hs : s.Ordered) {cell : Scope}
    (hcell : ∀ parent, cell.parent = some parent → parent < s.cells.size)
    (hid : id < s.cells.size) (name : String) :
    (s.add cell).2.lookup id name = s.lookup id name := by
  induction id using Nat.strongRecOn with
  | ind id ih =>
    rw [lookup_eq (hs.add hcell), lookup_eq hs, own_add, parent?_add,
      if_neg (Nat.ne_of_lt hid), if_neg (Nat.ne_of_lt hid)]
    cases hparent : s.parent? id with
    | none => rfl
    | some parent => simp [ih parent (hs hparent) (hs.lt_size hparent)]

/-- A lookup in a new cell reads what the cell binds, and else what its parent reads. -/
theorem lookup_add_self (hs : s.Ordered) {cell : Scope}
    (hcell : ∀ parent, cell.parent = some parent → parent < s.cells.size) (name : String) :
    (s.add cell).2.lookup s.cells.size name =
      (cell.own.get? name).or (cell.parent.bind fun parent => s.lookup parent name) := by
  rw [lookup_eq (hs.add hcell), own_add, parent?_add, if_pos rfl, if_pos rfl]
  cases hparent : cell.parent with
  | none => rfl
  | some parent => simp [lookup_add hs hcell (hcell parent hparent)]

/-! ## Stores that can be built -/

/-- A store that operations on scopes build from the empty one. A scope made from
    bindings is one in which they are defined one after the other. Whoever holds on to
    a scope knows its identity, so another handle of a scope is no operation. -/
inductive Reachable : Scopes → Prop where
  | empty : Reachable .empty
  /-- A scope without bindings, with or without a parent. -/
  | created {s : Scopes} {parent : Option ScopeId} :
      Reachable s → (∀ p, parent = some p → p < s.cells.size) → Reachable (s.create parent).2
  /-- A copy of a scope: the same bindings in a new cell, with the same parent. -/
  | copied {s : Scopes} {id : ScopeId} :
      Reachable s → id < s.cells.size → Reachable (s.copy id).2
  | defined {s : Scopes} {id : ScopeId} {name : String} {v : Value} :
      Reachable s → Reachable (s.define id name v)
  | assigned {s s' : Scopes} {id : ScopeId} {name : String} {v : Value} :
      Reachable s → assign name v id s = .ok () s' → Reachable s'

theorem parent_getD_cell (h : id < s.cells.size) :
    (s.cells[id]?.getD default).parent = s.parent? id := by
  simp [parent?, h]

theorem own_getD_cell (h : id < s.cells.size) :
    (s.cells[id]?.getD default).own = s.own id := by
  simp [own, h]

theorem adds_create (parent : Option ScopeId) : s.Adds .empty parent (s.create parent) :=
  adds_add ⟨.empty, parent⟩

/-- A copy is a cell of its own, with the bindings and the parent of the scope. -/
theorem adds_copy (h : id < s.cells.size) : s.Adds (s.own id) (s.parent? id) (s.copy id) := by
  have hcell := adds_add (s := s) (s.cells[id]?.getD default)
  rwa [parent_getD_cell h, own_getD_cell h] at hcell

theorem Reachable.ordered (hs : Reachable s) : s.Ordered := by
  induction hs with
  | empty =>
    intro id parent hlink
    rw [parent?_of_size_le (Nat.zero_le id)] at hlink
    cases hlink
  | created _ hparent ih => exact ih.add hparent
  | @copied s id _ hid ih =>
    intro id' parent hlink
    refine ih.add (fun parent hparent => ?_) hlink
    have hlink' : s.parent? id = some parent := by rw [← parent_getD_cell hid, hparent]
    exact ih.lt_size hlink'
  | defined _ ih => exact ih.define
  | assigned _ hassign ih =>
    obtain ⟨holder, -, rfl⟩ := (assign_eq_ok_iff ih).mp hassign
    exact ih.define

theorem Reachable.defineAll (hs : Reachable s) (id : ScopeId) (bindings : List (String × Value)) :
    Reachable (s.defineAll id bindings) := by
  induction bindings generalizing s with
  | nil => exact hs
  | cons b bs ih => exact ih hs.defined

/-! ## The laws -/

/-- In `s'`, a lookup of `name` from a scope in `through` reads `v`. Every other lookup
    reads what it reads in `s`. -/
def Shows (s s' : Scopes) (name : String) (v : Value) (through : ScopeId → Prop) : Prop :=
  ∀ id name',
    (name' = name ∧ through id → s'.lookup id name' = some v) ∧
    (¬ (name' = name ∧ through id) → s'.lookup id name' = s.lookup id name')

theorem shows_define (hs : s.Ordered) (h : holder < s.cells.size) :
    s.Shows (s.define holder name v) name v
      fun id => (s.define holder name v).Nearest name id holder := by
  intro id name'
  have hiff : (s.define holder name v).holder? id name = some holder ↔
      (s.define holder name v).Nearest name id holder := holder?_eq_some_iff hs.define
  rw [lookup_define hs h]
  constructor
  · rintro ⟨rfl, hnearest⟩
    exact if_pos ⟨rfl, hiff.mpr hnearest⟩
  · intro hnot
    refine if_neg ?_
    rintro ⟨rfl, hholder⟩
    exact hnot ⟨rfl, hiff.mp hholder⟩

theorem shows_assign (hs : s.Ordered) (h : s.Nearest name id holder) :
    s.Shows (s.define holder name v) name v fun id' => s.Nearest name id' holder := by
  have hshows : s.Shows (s.define holder name v) name v
      fun id' => (s.define holder name v).Nearest name id' holder := shows_define hs h.lt_size
  simp only [← holder?_eq_some_iff hs.define, holder?_define hs h] at hshows
  simpa only [holder?_eq_some_iff hs] using hshows

/-- A new scope inside `id`, or a copy of it, changes no lookup in the scopes that were
    there. In the new one, a lookup reads what it reads in `id`. -/
theorem lookup_create_copy (hs : s.Ordered) (hid : id < s.cells.size) (name : String) :
    (∀ id', id' < s.cells.size → (s.create (some id)).2.lookup id' name = s.lookup id' name ∧
      (s.copy id).2.lookup id' name = s.lookup id' name) ∧
    (s.create (some id)).2.lookup s.cells.size name = s.lookup id name ∧
    (s.copy id).2.lookup s.cells.size name = s.lookup id name := by
  have hchild : ∀ parent, (Scope.mk .empty (some id)).parent = some parent →
      parent < s.cells.size := by
    rintro _ ⟨⟩
    exact hid
  have hcopy : ∀ parent, (s.cells[id]?.getD default).parent = some parent →
      parent < s.cells.size := by
    intro parent hparent
    rw [parent_getD_cell hid] at hparent
    exact hs.lt_size hparent
  refine ⟨fun id' hid' => ⟨lookup_add hs hchild hid' name, lookup_add hs hcopy hid' name⟩, ?_, ?_⟩
  · exact lookup_add_self hs hchild name
  · rw [copy, lookup_add_self hs hcopy, parent_getD_cell hid, own_getD_cell hid, ← lookup_eq hs]

/-- The scopes that operations can build are a lexical store. A lookup reads the nearest
    binding on the way outwards. An assignment, whether in place or as a new store,
    overwrites exactly that binding, for all scopes that see it, and without one it changes
    nothing. A definition binds the name
    in the scope itself, for all scopes that now find it there. A new child of a scope has no
    bindings and has the scope as its parent, and a copy of the scope has its bindings and
    its parent. Both read what the scope reads, and no other scope notices them. -/
theorem Reachable.lexical (hs : Reachable s) (hid : id < s.cells.size) (name : String) (v : Value) :
    (∀ u, s.lookup id name = some u ↔
      ∃ holder, s.Nearest name id holder ∧ (s.own holder).get? name = some u) ∧
    (s.lookup id name = none ↔
      ∀ outer, s.Encloses outer id → (s.own outer).contains name = false) ∧
    (∀ s', s.assign? id name v = some s' ↔ assign name v id s = .ok () s') ∧
    ((∃ s', assign name v id s = .ok () s') ↔ ∃ u, s.lookup id name = some u) ∧
    (∀ s', assign name v id s = .ok () s' → ∃ holder, s.Nearest name id holder ∧
      s.Writes s' holder name v ∧ s.Shows s' name v fun id' => s.Nearest name id' holder) ∧
    (∀ e s', assign name v id s = .error e s' → s' = s) ∧
    s.Writes (s.define id name v) id name v ∧
    s.Shows (s.define id name v) name v (fun id' => (s.define id name v).Nearest name id' id) ∧
    (∀ name',
      (∀ id', id' < s.cells.size → (s.create (some id)).2.lookup id' name' = s.lookup id' name' ∧
        (s.copy id).2.lookup id' name' = s.lookup id' name') ∧
      (s.create (some id)).2.lookup s.cells.size name' = s.lookup id name' ∧
      (s.copy id).2.lookup s.cells.size name' = s.lookup id name') ∧
    (∀ parent, s.Adds .empty parent (s.create parent)) ∧
    s.Adds (s.own id) (s.parent? id) (s.copy id) := by
  have hord := hs.ordered
  refine ⟨fun u => lookup_eq_some_iff hord, ?_, ?_, ?_, ?_, ?_, writes_define hid,
    shows_define hord hid, fun name' => lookup_create_copy hord hid name', adds_create,
    adds_copy hid⟩
  · rw [lookup_eq_none_iff_holder?, holder?_eq_none_iff hord]
  · intro s'
    rw [assign_eq hord]
    cases s.assign? id name v <;> simp
  · exact exists_assign_eq_ok_iff hord
  · intro s' hassign
    obtain ⟨holder, hnearest, rfl⟩ := (assign_eq_ok_iff hord).mp hassign
    exact ⟨holder, hnearest, writes_define hnearest.lt_size, shows_assign hord hnearest⟩
  · intro e s' hassign
    exact eq_of_assign_eq_error hord hassign

/-- A scope that binds `x`, a child of it, and a copy of the child. -/
def family : Scopes :=
  ((((empty.create none).2.defineAll 0 [("x", .text "old")]).create (some 0)).2.copy 1).2

/-- What is assigned through the copy is seen through the child. -/
theorem lookup_child_of_assign_copy :
    Reachable family ∧ 2 < family.cells.size ∧
    ∃ s', assign "x" (.text "new") 2 family = .ok () s' ∧ s'.lookup 1 "x" = some (.text "new") := by
  have hroot : Reachable (empty.create none).2 := .created .empty nofun
  have hs : Reachable family :=
    .copied (.created (hroot.defineAll 0 _) (by rintro _ ⟨⟩; decide)) (by decide)
  have hid : 2 < family.cells.size := by decide
  refine ⟨hs, hid, ?_⟩
  have hself : family.Nearest "x" 0 0 := .here (by decide)
  have hchild : family.Nearest "x" 1 0 := .outer (by decide) (by decide) hself
  have hcopy : family.Nearest "x" 2 0 := .outer (by decide) (by decide) hself
  obtain ⟨hread, -, -, hassign, hwrite, -⟩ := hs.lexical hid "x" (.text "new")
  obtain ⟨s', hs'⟩ := hassign.mpr ⟨_, (hread (.text "old")).mpr ⟨0, hcopy, by decide⟩⟩
  obtain ⟨holder, hholder, -, hshows⟩ := hwrite s' hs'
  refine ⟨s', hs', (hshows 1 "x").1 ⟨rfl, ?_⟩⟩
  cases hholder with
  | here h => cases h
  | outer _ hlink h =>
    cases hlink
    cases h with
    | here => exact hchild
    | outer h => cases h

end Egg.Scopes
