-- SUMMARY: A forest of visits is a closure on the guard, and its record holds the levels of the tree.
import Egg.Proofs.Nesting.Level

/-!
# The record of a forest

A forest of visits is one way to use a guard: each visit is a closure that makes calls and writes
down what it reads. Written out as a `Walk` it runs as the forest does, so what is true of the
levels of calls is true of visits. It follows what the record says, for any forest: the tree
alone decides which descents are entered and which depths are read.
-/

namespace Egg

namespace Walk

variable {ε α : Type} {refused : LimitExceeded → ε}

/-! ## One closure after the other -/

/-- Run a closure and go on with what it gives, at the same level. -/
def andThen : Walk ε α → (Except ε α → Walk ε α) → Walk ε α
  | done result, next => next result
  | depth after, next => depth fun d => (after d).andThen next
  | limit after, next => limit fun n => (after n).andThen next
  | call closure after, next => call closure fun result => (after result).andThen next

theorem run_andThen (walk : Walk ε α) (next : Except ε α → Walk ε α) (g : Guard) :
    (walk.andThen next).run refused g = (next (outcome (walk.run refused g)).1).run refused g := by
  induction walk generalizing g with
  | done result => cases result <;> rfl
  | depth after ih => exact ih _ g
  | limit after ih => exact ih _ g
  | call closure after _ ih =>
    rw [andThen, run_call, run_call]
    exact ih _ g

/-- What a call gives whose end is the end of the closure around it. -/
theorem outcome_run_call_done (closure : Walk ε α) (g : Guard) :
    outcome ((call closure done).run refused g) =
      (if g.depth < g.limit then (outcome (closure.run refused ⟨g.depth + 1, g.limit⟩)).1
        else .error (refused ⟨g.limit⟩), g) := by
  rw [run_call]
  generalize (if g.depth < g.limit then _ else _ : Except ε α) = result
  cases result <;> rfl

/-- So many calls, each directly inside the one before, and then this result. -/
def nested (a : α) : Nat → Walk ε α
  | 0 => done (.ok a)
  | levels + 1 => call (nested a levels) done

theorem outcome_run_nested (a : α) (levels : Nat) (g : Guard) :
    outcome ((nested a levels).run id g) =
      ((outcome (Visit.descendTimes levels g)).1.map fun _ => a, g) := by
  induction levels generalizing g with
  | zero => rfl
  | succ levels ih =>
    rw [nested, outcome_run_call_done, ih, Visit.descendTimes]
    rcases Nat.lt_or_ge g.depth g.limit with hlt | hle
    · rw [if_pos hlt, descend_of_lt hlt (by rw [outcome_descendTimes])]
    · rw [if_neg (Nat.not_lt.mpr hle), descend_of_le hle]
      rfl

end Walk

namespace Visit

open Walk

/-! ## Visits -/

/-- What the record says of a call: what was written down inside it, or that it was refused. -/
def recordOf : Except LimitExceeded (List Event) → List Event
  | .ok events => events
  | .error e => [.refused e]

/-- The closure of a descent. -/
def body (inside : List Visit) : EStateM LimitExceeded Guard (List Event) := fun g =>
  .ok (.entered g.depth :: (runAll inside g).1) (runAll inside g).2

theorem run_descend (inside : List Visit) (g : Guard) :
    (descend inside).run g =
      (recordOf (outcome (Egg.descend id (body inside) g)).1 ++
        [.after (outcome (Egg.descend id (body inside) g)).2.depth],
        (outcome (Egg.descend id (body inside) g)).2) := by
  rw [run]
  split
  · next events g' hend =>
    have hbody : Egg.descend id (body inside) g = .ok events g' := hend
    rw [hbody]
    rfl
  · next e g' hend =>
    have hbody : Egg.descend id (body inside) g = .error e g' := hend
    rw [hbody]
    rfl

theorem run_nest (levels : Nat) (g : Guard) :
    (nest levels).run g =
      (recordOf ((outcome (descendTimes levels g)).1.map fun _ => [.nested levels]), g) := by
  have hguard : (outcome (descendTimes levels g)).2 = g := by rw [outcome_descendTimes]
  rw [run]
  generalize descendTimes levels g = result at hguard ⊢
  subst hguard
  cases result <;> rfl

mutual
/-- However a visit ends, the guard is what it was. -/
theorem snd_run : (visit : Visit) → (g : Guard) → (visit.run g).2 = g
  | .descend inside, g => by
    have hbody (g : Guard) : (outcome (body inside g)).2 = g := snd_runAll inside g
    rw [run_descend]
    rcases Nat.lt_or_ge g.depth g.limit with hlt | hle
    · rw [descend_of_lt hlt (hbody _)]
    · rw [descend_of_le hle]
      rfl
  | .nest levels, g => by rw [run_nest]
  | .depth, _ | .limit, _ => rfl

theorem snd_runAll : (visits : List Visit) → (g : Guard) → (runAll visits g).2 = g
  | [], _ => rfl
  | visit :: visits, g => by
    show (runAll visits (visit.run g).2).2 = g
    rw [snd_runAll visits, snd_run visit]
end

theorem snd_outcome_body (inside : List Visit) (g : Guard) : (outcome (body inside g)).2 = g :=
  snd_runAll inside g

theorem runAll_cons (visit : Visit) (visits : List Visit) (g : Guard) :
    runAll (visit :: visits) g = ((visit.run g).1 ++ (runAll visits g).1, g) := by
  show ((visit.run g).1 ++ (runAll visits (visit.run g).2).1, (runAll visits _).2) = _
  rw [snd_run, snd_runAll]

/-! ## Visits as closures -/

/-- The closure of a descent, if this one makes the visits inside it. -/
def entering (inside : Walk LimitExceeded (List Event)) : Walk LimitExceeded (List Event) :=
  .depth fun level => inside.andThen fun result => .done (.ok (.entered level :: recordOf result))

mutual
/-- A visit as a closure, which gives the record of it. -/
def walk : Visit → Walk LimitExceeded (List Event)
  | .descend inside =>
    .call (entering (walkAll inside)) fun result =>
      .depth fun level => .done (.ok (recordOf result ++ [.after level]))
  | .nest levels =>
    (Walk.nested [.nested levels] levels).andThen fun result => .done (.ok (recordOf result))
  | .depth => .depth fun level => .done (.ok [.depth level])
  | .limit => .limit fun limit => .done (.ok [.limit limit])

/-- The visits of a forest in order, as one closure. -/
def walkAll : List Visit → Walk LimitExceeded (List Event)
  | [] => .done (.ok [])
  | visit :: visits => visit.walk.andThen fun result =>
    (walkAll visits).andThen fun more => .done (.ok (recordOf result ++ recordOf more))
end

mutual
/-- A visit runs as the closure that it stands for. -/
theorem outcome_run_walk : (visit : Visit) → (g : Guard) →
    outcome (visit.walk.run id g) = (.ok (visit.run g).1, (visit.run g).2)
  | .descend inside, g => by
    have hclosure (g : Guard) : (outcome ((entering (walkAll inside)).run id g)).1 =
        (outcome (body inside g)).1 := by
      show (outcome (((walkAll inside).andThen _).run id g)).1 = _
      rw [run_andThen, outcome_run_walkAll inside]
      rfl
    rw [walk, run_call, run_descend]
    rcases Nat.lt_or_ge g.depth g.limit with hlt | hle
    · rw [if_pos hlt, hclosure, descend_of_lt hlt (snd_outcome_body inside _)]
      rfl
    · rw [if_neg (Nat.not_lt.mpr hle), descend_of_le hle]
      rfl
  | .nest levels, g => by
    rw [walk, run_andThen, outcome_run_nested, run_nest]
    rfl
  | .depth, _ | .limit, _ => rfl

/-- A forest runs as the closure that it stands for. -/
theorem outcome_run_walkAll : (visits : List Visit) → (g : Guard) →
    outcome ((walkAll visits).run id g) = (.ok (runAll visits g).1, (runAll visits g).2)
  | [], _ => rfl
  | visit :: visits, g => by
    rw [walkAll, run_andThen, run_andThen, outcome_run_walk visit, outcome_run_walkAll visits,
      runAll_cons]
    rfl
end

/-! ## What the record says -/

mutual
/-- What is written down of a visit at this level. A descent is entered if its own level is within
    the limit. -/
def record (limit : Nat) : Nat → Visit → List Event
  | level, .descend inside =>
    if level + 1 ≤ limit then
      .entered (level + 1) :: recordAll limit (level + 1) inside ++ [.after level]
    else [.refused ⟨limit⟩, .after level]
  | level, .nest levels => if level + levels ≤ limit then [.nested levels] else [.refused ⟨limit⟩]
  | level, .depth => [.depth level]
  | _, .limit => [.limit limit]

/-- What is written down of the visits of a forest at this level. -/
def recordAll (limit : Nat) : Nat → List Visit → List Event
  | _, [] => []
  | level, visit :: visits => visit.record limit level ++ recordAll limit level visits
end

mutual
theorem fst_run {limit : Nat} : (visit : Visit) → (level : Nat) → level ≤ limit →
    (visit.run ⟨level, limit⟩).1 = visit.record limit level
  | .descend inside, level, _ => by
    rw [run_descend, record]
    split
    · next hlt =>
      rw [descend_of_lt (g := ⟨level, limit⟩) hlt (snd_outcome_body inside _),
        ← fst_runAll inside (level + 1) hlt]
      rfl
    · next hge =>
      rw [descend_of_le (g := ⟨level, limit⟩) (Nat.not_lt.mp hge)]
      rfl
  | .nest levels, level, h => by
    rw [run_nest, outcome_descendTimes, record]
    have hiff : (levels = 0 ∨ level + levels ≤ limit) ↔ level + levels ≤ limit := by omega
    simp only [hiff]
    split <;> rfl
  | .depth, _, _ | .limit, _, _ => rfl

theorem fst_runAll {limit : Nat} : (visits : List Visit) → (level : Nat) → level ≤ limit →
    (runAll visits ⟨level, limit⟩).1 = recordAll limit level visits
  | [], _, _ => rfl
  | visit :: visits, level, h => by
    rw [runAll_cons, fst_run visit level h, fst_runAll visits level h, recordAll]
end

/-- A forest that is run on a new guard is a closure that gives its record. The record is what the
    tree says: a descent is entered if its level is within the limit, the depth that is read in
    it is its level, and behind it, entered or refused, it is the level around it. In the end
    no descent is active. -/
theorem runAll_idle (limit : Nat) (visits : List Visit) :
    runAll visits (.idle limit) = (recordAll limit 0 visits, .idle limit) ∧
    outcome ((walkAll visits).run id (.idle limit)) =
      (.ok (recordAll limit 0 visits), .idle limit) := by
  have hrecord : (runAll visits (.idle limit)).1 = recordAll limit 0 visits :=
    fst_runAll visits 0 (Nat.zero_le limit)
  rw [outcome_run_walkAll, snd_runAll, hrecord]
  exact ⟨Prod.ext hrecord (snd_runAll visits _), rfl⟩

/-- The descent inside the first one is refused. -/
example : runAll [.descend [.depth, .descend []], .nest 2, .depth] (.idle 1) =
    ([.entered 1, .depth 1, .refused ⟨1⟩, .after 1, .after 0, .refused ⟨1⟩, .depth 0], .idle 1) :=
  rfl

end Visit

end Egg
