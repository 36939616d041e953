-- SUMMARY: Dictionaries from names to things, kept in the order of their names.

/-! # Dictionaries

A dictionary binds each name at most once. Its entries are kept in ascending order
of their names, so two dictionaries with the same bindings are the same, and the
names come out sorted. The order of names is that of their characters by code
point, which is also the order of their UTF-8 bytes. -/

namespace Egg

/-- The order of entries by name. -/
def Entries.Sorted {α : Type} (entries : List (String × α)) : Prop :=
  entries.Pairwise (·.1 < ·.1)

/-- Bindings of names. -/
structure Dict (α : Type) where
  entries : List (String × α)
  sorted : Entries.Sorted entries

namespace Entries

variable {α : Type}

/-- The entries with `name` bound to `a`, in place of what it was bound to. -/
def insert (name : String) (a : α) : List (String × α) → List (String × α)
  | [] => [(name, a)]
  | e :: es =>
    if name < e.1 then (name, a) :: e :: es
    else if e.1 < name then e :: insert name a es
    else (name, a) :: es

/-- What `name` is bound to. -/
def find? (name : String) : List (String × α) → Option α
  | [] => none
  | e :: es => if name = e.1 then some e.2 else find? name es

theorem mem_insert {name : String} {a : α} {es : List (String × α)} {e : String × α}
    (h : e ∈ insert name a es) : e = (name, a) ∨ e ∈ es := by
  induction es with
  | nil => exact .inl (by simpa [insert] using h)
  | cons e' es ih =>
    unfold insert at h
    split at h
    · exact List.mem_cons.mp h
    · split at h
      · rcases List.mem_cons.mp h with h | h
        · exact .inr (h ▸ List.mem_cons_self)
        · exact (ih h).imp id (List.mem_cons_of_mem _)
      · exact (List.mem_cons.mp h).imp id (List.mem_cons_of_mem _)

theorem sorted_insert {name : String} {a : α} {es : List (String × α)} (h : Sorted es) :
    Sorted (insert name a es) := by
  induction es with
  | nil => simp [insert, Sorted]
  | cons e es ih =>
    have ⟨he, hes⟩ := List.pairwise_cons.mp h
    unfold insert
    split
    · next hlt =>
      refine List.pairwise_cons.mpr ⟨fun e' he' => ?_, h⟩
      rcases List.mem_cons.mp he' with rfl | he'
      · exact hlt
      · exact String.lt_trans hlt (he e' he')
    · split
      · next hlt =>
        refine List.pairwise_cons.mpr ⟨fun e' he' => ?_, ih hes⟩
        rcases mem_insert he' with rfl | he'
        · exact hlt
        · exact he e' he'
      · next h₁ h₂ =>
        have heq : e.1 = name := String.le_antisymm (String.not_lt.mp h₁) (String.not_lt.mp h₂)
        exact List.pairwise_cons.mpr ⟨fun e' he' => heq ▸ he e' he', hes⟩

theorem find?_insert {name name' : String} {a : α} {es : List (String × α)} :
    find? name' (insert name a es) = if name' = name then some a else find? name' es := by
  induction es with
  | nil => simp [insert, find?]
  | cons e es ih =>
    unfold insert
    split
    · simp [find?]
    · split
      · next hlt =>
        have hne : name ≠ e.1 := fun h => String.lt_irrefl e.1 (h ▸ hlt)
        by_cases h : name' = name
        · subst h; simp [find?, hne, ih]
        · simp [find?, ih, h]
      · next h₁ h₂ =>
        have heq : e.1 = name := String.le_antisymm (String.not_lt.mp h₁) (String.not_lt.mp h₂)
        by_cases h : name' = name <;> simp [find?, h, heq]

theorem find?_filter {name name' : String} {es : List (String × α)} :
    find? name' (es.filter (·.1 ≠ name)) = if name' = name then none else find? name' es := by
  induction es with
  | nil => simp [find?]
  | cons e es ih =>
    by_cases he : e.1 = name
    · rw [List.filter_cons_of_neg (by simpa using he), ih]
      by_cases h : name' = name <;> simp [find?, h, he]
    · rw [List.filter_cons_of_pos (by simpa using he), find?, ih]
      by_cases h : name' = name
      · subst h; simp [Ne.symm he]
      · simp [find?, h]

end Entries

namespace Dict

variable {α : Type}

/-- The dictionary without bindings. -/
def empty : Dict α := ⟨[], .nil⟩

instance : Inhabited (Dict α) := ⟨empty⟩

/-- What `name` is bound to. -/
def get? (d : Dict α) (name : String) : Option α :=
  Entries.find? name d.entries

/-- Whether `name` is bound. -/
def contains (d : Dict α) (name : String) : Bool :=
  (d.get? name).isSome

/-- Bind `name`, in place of what it was bound to. -/
def insert (d : Dict α) (name : String) (a : α) : Dict α :=
  ⟨Entries.insert name a d.entries, Entries.sorted_insert d.sorted⟩

/-- Remove the binding of `name`. -/
def erase (d : Dict α) (name : String) : Dict α :=
  ⟨d.entries.filter (·.1 ≠ name), d.sorted.filter _⟩

/-- The bound names, in ascending order. -/
def names (d : Dict α) : List String :=
  d.entries.map (·.1)

/-- The number of bindings. -/
def size (d : Dict α) : Nat :=
  d.entries.length

def isEmpty (d : Dict α) : Bool :=
  d.entries.isEmpty

/-- Bind each name in turn, so that the last binding of a name stays. -/
def insertAll (d : Dict α) (bindings : List (String × α)) : Dict α :=
  bindings.foldl (fun d b => d.insert b.1 b.2) d

/-! ## Laws -/

@[simp] theorem get?_empty (name : String) : (empty : Dict α).get? name = none := rfl

theorem get?_insert (d : Dict α) (name name' : String) (a : α) :
    (d.insert name a).get? name' = if name' = name then some a else d.get? name' :=
  Entries.find?_insert

theorem get?_erase (d : Dict α) (name name' : String) :
    (d.erase name).get? name' = if name' = name then none else d.get? name' :=
  Entries.find?_filter

/-- Of several bindings of a name the last one counts. -/
theorem get?_insertAll (d : Dict α) (bindings : List (String × α)) (name : String) :
    (d.insertAll bindings).get? name = (bindings.reverse.lookup name).or (d.get? name) := by
  induction bindings generalizing d with
  | nil => rfl
  | cons b bs ih =>
    obtain ⟨bound, a⟩ := b
    have hrest := ih (d.insert bound a)
    rw [get?_insert] at hrest
    rw [List.reverse_cons, List.lookup_append, Option.or_assoc]
    refine hrest.trans ?_
    congr 1
    by_cases hname : name = bound
    · simp [hname]
    · simp [List.lookup_cons, beq_false_of_ne hname, hname]

theorem mem_names_iff {d : Dict α} {name : String} : name ∈ d.names ↔ d.contains name = true := by
  unfold names contains get?
  induction d.entries with
  | nil => simp [Entries.find?]
  | cons e es ih => by_cases h : name = e.1 <;> simp_all [Entries.find?]

/-- The names come out in strictly ascending order. -/
theorem pairwise_names (d : Dict α) : d.names.Pairwise (· < ·) :=
  List.pairwise_map.mpr d.sorted

end Dict

end Egg
