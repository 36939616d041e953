-- SUMMARY: Chains of scopes: the nearest scope that binds a name, and what a lookup reads.
import Mathlib.Logic.Relation
import Egg.Eval.Scope

/-!
# Chains of scopes

A lookup goes from a scope to its parent, from there to the parent of that one, and
so on. `Encloses` and `Nearest` say this by the links alone: which scopes are met on
the way, and which of them is the first that binds a name. In a store where every
parent is older than its children the way ends, and `chain`, `holder?` and `lookup`
follow it link by link.
-/

namespace Egg.Scopes

variable {s : Scopes} {id parent holder : ScopeId} {name : String}

/-! ## Links -/

/-- The parent of a scope. -/
def parent? (s : Scopes) (id : ScopeId) : Option ScopeId :=
  s.cells[id]?.bind Scope.parent

/-- Every parent is older than its children. -/
def Ordered (s : Scopes) : Prop :=
  ∀ ⦃id parent⦄, s.parent? id = some parent → parent < id

/-- `outer` is the scope itself, or one of its ancestors. -/
def Encloses (s : Scopes) (outer id : ScopeId) : Prop :=
  Relation.ReflTransGen (fun child parent => s.parent? child = some parent) id outer

/-- Going from `id` outwards, `holder` is the first scope that binds `name` itself. -/
inductive Nearest (s : Scopes) (name : String) : ScopeId → ScopeId → Prop where
  | here {id : ScopeId} : (s.own id).contains name = true → Nearest s name id id
  | outer {id parent holder : ScopeId} : (s.own id).contains name = false →
      s.parent? id = some parent → Nearest s name parent holder → Nearest s name id holder

theorem parent?_of_size_le (h : s.cells.size ≤ id) : s.parent? id = none := by
  simp [parent?, Array.getElem?_eq_none h]

theorem own_of_size_le (h : s.cells.size ≤ id) : s.own id = .empty := by
  simp [own, Array.getElem?_eq_none h]

theorem contains_own_of_size_le (h : s.cells.size ≤ id) : (s.own id).contains name = false := by
  rw [own_of_size_le h]
  rfl

theorem Nearest.contains (h : s.Nearest name id holder) : (s.own holder).contains name = true := by
  induction h with
  | here h => exact h
  | outer _ _ _ ih => exact ih

theorem Nearest.encloses (h : s.Nearest name id holder) : s.Encloses holder id := by
  induction h with
  | here _ => exact .refl
  | outer _ hlink _ ih => exact .head hlink ih

theorem Nearest.lt_size (h : s.Nearest name id holder) : holder < s.cells.size := by
  refine Nat.lt_of_not_le fun hle => ?_
  have hcontains := h.contains
  rw [contains_own_of_size_le hle] at hcontains
  cases hcontains

theorem nearest_iff :
    s.Nearest name id holder ↔
      ((s.own id).contains name = true ∧ holder = id) ∨
      ((s.own id).contains name = false ∧
        ∃ parent, s.parent? id = some parent ∧ s.Nearest name parent holder) := by
  constructor
  · rintro (h | ⟨h, hparent, hnearest⟩)
    · exact .inl ⟨h, rfl⟩
    · exact .inr ⟨h, _, hparent, hnearest⟩
  · rintro (⟨h, rfl⟩ | ⟨h, parent, hparent, hnearest⟩)
    · exact .here h
    · exact .outer h hparent hnearest

/-! ## Following the links -/

theorem chain_of_size_le (h : s.cells.size ≤ id) : s.chain id = [] := by
  rw [chain, Array.getElem?_eq_none h]

theorem chain_of_lt_size (hs : s.Ordered) (h : id < s.cells.size) :
    s.chain id = id :: ((s.parent? id).map s.chain).getD [] := by
  rw [chain, Array.getElem?_eq_getElem h]
  cases hparent : s.cells[id].parent with
  | none => simp [parent?, h, hparent]
  | some parent =>
    have hlink : s.parent? id = some parent := by simp [parent?, h, hparent]
    simp [hlink, hparent, hs hlink]

/-- The holder of a name is the scope itself or the holder that its parent finds. -/
theorem holder?_eq (hs : s.Ordered) (id : ScopeId) (name : String) :
    s.holder? id name =
      if (s.own id).contains name then some id
      else (s.parent? id).bind fun parent => s.holder? parent name := by
  by_cases hlt : id < s.cells.size
  · rw [holder?, chain_of_lt_size hs hlt, List.find?_cons]
    cases hcontains : (s.own id).contains name with
    | true => rfl
    | false => cases s.parent? id <;> rfl
  · have hle := Nat.le_of_not_lt hlt
    simp [holder?, chain_of_size_le hle, contains_own_of_size_le hle, parent?_of_size_le hle]

theorem holder?_eq_some_iff (hs : s.Ordered) :
    s.holder? id name = some holder ↔ s.Nearest name id holder := by
  induction id using Nat.strongRecOn with
  | ind id ih =>
    rw [holder?_eq hs, nearest_iff]
    cases hcontains : (s.own id).contains name with
    | true => simp [eq_comm (a := id)]
    | false =>
      cases hparent : s.parent? id with
      | none => simp
      | some parent => simp [ih parent (hs hparent)]

theorem holder?_eq_none_iff (hs : s.Ordered) :
    s.holder? id name = none ↔
      ∀ outer, s.Encloses outer id → (s.own outer).contains name = false := by
  constructor
  · intro hnone outer hencloses
    induction hencloses using Relation.ReflTransGen.head_induction_on with
    | refl =>
      cases hcontains : (s.own outer).contains name with
      | false => rfl
      | true => rw [holder?_eq hs, if_pos hcontains] at hnone; cases hnone
    | head hlink _ ih =>
      rw [holder?_eq hs] at hnone
      split at hnone
      · cases hnone
      · rw [hlink] at hnone
        exact ih hnone
  · intro hnone
    refine Option.eq_none_iff_forall_ne_some.mpr fun holder hholder => ?_
    have hnearest := (holder?_eq_some_iff hs).mp hholder
    have hcontains := hnearest.contains
    rw [hnone holder hnearest.encloses] at hcontains
    cases hcontains

/-! ## Lookups -/

/-- A lookup reads the scope itself, and goes on in its parent if the scope does not
    bind the name. -/
theorem lookup_eq (hs : s.Ordered) (id : ScopeId) (name : String) :
    s.lookup id name =
      ((s.own id).get? name).or ((s.parent? id).bind fun parent => s.lookup parent name) := by
  unfold lookup
  rw [holder?_eq hs]
  unfold Dict.contains
  cases hget : (s.own id).get? name with
  | some u => simp [hget]
  | none => cases s.parent? id <;> simp

theorem lookup_of_nearest (hs : s.Ordered) (h : s.Nearest name id holder) :
    s.lookup id name = (s.own holder).get? name := by
  rw [lookup, (holder?_eq_some_iff hs).mpr h]
  rfl

theorem lookup_eq_some_iff (hs : s.Ordered) {u : Value} :
    s.lookup id name = some u ↔
      ∃ holder, s.Nearest name id holder ∧ (s.own holder).get? name = some u := by
  simp [lookup, Option.bind_eq_some_iff, holder?_eq_some_iff hs]

theorem lookup_eq_none_iff_holder? : s.lookup id name = none ↔ s.holder? id name = none := by
  unfold lookup holder?
  cases hfind : (s.chain id).find? fun h => (s.own h).contains name with
  | none => simp
  | some holder =>
    have hcontains := List.find?_some hfind
    simpa [Dict.contains, Option.isSome_iff_ne_none] using hcontains

end Egg.Scopes
