-- SUMMARY: The nesting guard counts exactly the calls that are active, whatever their closures do.
import Egg.Nesting.Visit

/-!
# Levels of calls

Calls on a guard may be nested in any way, and a closure may do anything between them. A `Walk`
is such a closure, written out as a tree: what it does next depends on what it has read from the
guard and on what its calls gave. The level of a point in its run is the number of calls that
have been entered and are not over there. It is defined by the tree alone, and the guard agrees
with it at every point.
-/

namespace Egg

/-- What a closure does on a guard. It reads the depth and the limit, makes calls, and ends at
    any point, with a result or with an error of its own. -/
inductive Walk (ε α : Type) where
  | done (result : Except ε α)
  | depth (next : Nat → Walk ε α)
  | limit (next : Nat → Walk ε α)
  /-- Run `closure` one level deeper, and go on with what the call gives. -/
  | call (closure : Walk ε α) (next : Except ε α → Walk ε α)

namespace Walk

variable {ε α : Type} {refused : LimitExceeded → ε}

/-! ## Runs -/

/-- What a run gives, and the guard after it. -/
def outcome : EStateM.Result ε Guard α → Except ε α × Guard
  | .ok a g => (.ok a, g)
  | .error e g => (.error e, g)

/-- Run a closure on a guard. A call that is refused gives the error `refused`. -/
def run (refused : LimitExceeded → ε) : Walk ε α → EStateM ε Guard α
  | done (.ok a) => pure a
  | done (.error e) => throw e
  | depth next => fun g => (next g.depth).run refused g
  | limit next => fun g => (next g.limit).run refused g
  | call closure next => fun g =>
    let (result, g') := outcome (descend refused (closure.run refused) g)
    (next result).run refused g'

/-- A call on the guard `g` is entered, and its closure runs on the guard `deeper`: this is what
    a closure reads that does nothing else. -/
def Enters (g deeper : Guard) : Prop :=
  ∃ g', descend id (get : EStateM LimitExceeded Guard Guard) g = .ok deeper g'

/-- A run of a walk on a guard comes to a point in `level` calls that have been entered and are
    not over. There, `rest` is what the innermost closure still does, on the last guard. -/
inductive Reaches (refused : LimitExceeded → ε) :
    Walk ε α → Guard → Nat → Walk ε α → Guard → Prop where
  | here {walk g} : Reaches refused walk g 0 walk g
  | depth {next g level rest g'} : Reaches refused (next g.depth) g level rest g' →
      Reaches refused (.depth next) g level rest g'
  | limit {next g level rest g'} : Reaches refused (next g.limit) g level rest g' →
      Reaches refused (.limit next) g level rest g'
  | inside {closure next g deeper level rest g'} : Enters g deeper →
      Reaches refused closure deeper level rest g' →
      Reaches refused (.call closure next) g (level + 1) rest g'
  | behind {closure next g result after level rest g'} :
      outcome (descend refused (closure.run refused) g) = (result, after) →
      Reaches refused (next result) after level rest g' →
      Reaches refused (.call closure next) g level rest g'

/-! ## One call -/

variable {g deeper : Guard}

theorem descend_of_le (h : g.limit ≤ g.depth) (body : EStateM ε Guard α) :
    descend refused body g = .error (refused ⟨g.limit⟩) g := by
  have henter : (Guarded.guard g).enter = .error ⟨g.limit⟩ := if_neg (Nat.not_lt.mpr h)
  unfold descend
  simp only [henter]

/-- A closure that leaves the guard as it found it gives its result to the caller, and the call
    leaves the guard as it was. -/
theorem descend_of_lt (h : g.depth < g.limit) {body : EStateM ε Guard α}
    (hbody : (outcome (body ⟨g.depth + 1, g.limit⟩)).2 = ⟨g.depth + 1, g.limit⟩) :
    outcome (descend refused body g) = ((outcome (body ⟨g.depth + 1, g.limit⟩)).1, g) := by
  have henter : (Guarded.guard g).enter = .ok ⟨g.depth + 1, g.limit⟩ := if_pos h
  have hset : Guarded.setGuard g ⟨g.depth + 1, g.limit⟩ = ⟨g.depth + 1, g.limit⟩ := rfl
  unfold descend
  simp only [henter, hset]
  generalize hend : body ⟨g.depth + 1, g.limit⟩ = result at hbody ⊢
  cases result with
  | ok a g' =>
    obtain rfl : g' = ⟨g.depth + 1, g.limit⟩ := hbody
    rfl
  | error e g' =>
    obtain rfl : g' = ⟨g.depth + 1, g.limit⟩ := hbody
    rfl

theorem enters_iff : Enters g deeper ↔ g.depth < g.limit ∧ deeper = ⟨g.depth + 1, g.limit⟩ := by
  rcases Nat.lt_or_ge g.depth g.limit with hlt | hle
  · have hcall : outcome (descend id (get : EStateM LimitExceeded Guard Guard) g) =
        (.ok ⟨g.depth + 1, g.limit⟩, g) := descend_of_lt hlt rfl
    constructor
    · rintro ⟨g', h⟩
      rw [h] at hcall
      exact ⟨hlt, Except.ok.inj (Prod.mk.inj hcall).1⟩
    · rintro ⟨-, rfl⟩
      cases hend : descend id (get : EStateM LimitExceeded Guard Guard) g with
      | ok a g' =>
        rw [hend] at hcall
        exact ⟨g', by rw [hend, Except.ok.inj (Prod.mk.inj hcall).1]⟩
      | error e g' =>
        rw [hend] at hcall
        cases (Prod.mk.inj hcall).1
  · constructor
    · rintro ⟨g', h⟩
      rw [descend_of_le hle] at h
      cases h
    · rintro ⟨hlt, -⟩
      exact absurd hle (Nat.not_le.mpr hlt)

/-! ## Whole runs -/

/-- However a closure ends, the guard is what it was. -/
theorem snd_outcome_run (walk : Walk ε α) (g : Guard) :
    (outcome (walk.run refused g)).2 = g := by
  induction walk generalizing g with
  | done result => cases result <;> rfl
  | depth next ih => exact ih _ g
  | limit next ih => exact ih _ g
  | call closure next ihclosure ihnext =>
    have hcall : (outcome (descend refused (closure.run refused) g)).2 = g := by
      rcases Nat.lt_or_ge g.depth g.limit with hlt | hle
      · rw [descend_of_lt hlt (ihclosure _)]
      · rw [descend_of_le hle]
        rfl
    show (outcome ((next _).run refused (outcome (descend refused _ g)).2)).2 = g
    rw [ihnext, hcall]

/-- What a call gives to its caller: the result of the closure if it is entered, and the error
    of a refusal otherwise. The guard is what it was. -/
theorem outcome_descend_run (closure : Walk ε α) (g : Guard) :
    outcome (descend refused (closure.run refused) g) =
      (if g.depth < g.limit then (outcome (closure.run refused ⟨g.depth + 1, g.limit⟩)).1
        else .error (refused ⟨g.limit⟩), g) := by
  split
  · next hlt => exact descend_of_lt hlt (snd_outcome_run closure _)
  · next hge =>
    rw [descend_of_le (Nat.not_lt.mp hge)]
    rfl

/-- Behind a call the closure goes on with what the call gives, on the same guard. -/
theorem run_call (closure : Walk ε α) (next : Except ε α → Walk ε α) (g : Guard) :
    (call closure next).run refused g =
      (next (if g.depth < g.limit then (outcome (closure.run refused ⟨g.depth + 1, g.limit⟩)).1
        else .error (refused ⟨g.limit⟩))).run refused g := by
  simp only [run, outcome_descend_run]

/-- At every point of a run the guard has counted the calls that are active there. -/
theorem Reaches.guard_eq {walk rest : Walk ε α} {level : Nat} {g' : Guard}
    (h : Reaches refused walk g level rest g') : g' = ⟨g.depth + level, g.limit⟩ := by
  induction h with
  | here => rfl
  | depth _ ih => exact ih
  | limit _ ih => exact ih
  | inside henters _ ih =>
    obtain ⟨-, rfl⟩ := enters_iff.mp henters
    rw [ih, Nat.add_assoc, Nat.add_comm 1]
  | behind hcall _ ih =>
    obtain ⟨-, rfl⟩ := Prod.mk.inj ((outcome_descend_run _ _).symm.trans hcall)
    exact ih

/-- Calls directly inside each other are all entered if the last one is within the limit. -/
theorem outcome_descendTimes (k : Nat) (g : Guard) :
    outcome (Visit.descendTimes k g) =
      (if k = 0 ∨ g.depth + k ≤ g.limit then .ok () else .error ⟨g.limit⟩, g) := by
  induction k generalizing g with
  | zero => simp only [Visit.descendTimes, true_or, if_true]; rfl
  | succ k ih =>
    rw [Visit.descendTimes]
    rcases Nat.lt_or_ge g.depth g.limit with hlt | hle
    · have hinside := ih ⟨g.depth + 1, g.limit⟩
      have hiff : (k = 0 ∨ g.depth + 1 + k ≤ g.limit) ↔
          (k + 1 = 0 ∨ g.depth + (k + 1) ≤ g.limit) := by omega
      rw [descend_of_lt hlt (by rw [hinside]), hinside]
      simp only [hiff]
    · rw [descend_of_le hle, if_neg (by omega)]
      rfl

/-- At every point of a run on a new guard, the depth that is read there is the level. One more
    call is entered there exactly if its level is within the limit. Its closure then runs at that
    level, and the call gives what the closure gives. A call that is refused gives the error with
    the limit, whatever its closure is. Either way the guard behind the call is what it was in
    front of it. When the run is over no call is active, and so many calls directly inside each
    other are entered as the limit says, whatever was run before. -/
theorem levels_counted (refused : LimitExceeded → ε) (limit : Nat) (walk : Walk ε α) :
    (∀ level rest g, Reaches refused walk (.idle limit) level rest g →
      g.depth = level ∧
      (∀ next : Nat → Walk ε α, (depth next).run refused g = (next level).run refused g ∧
        (Walk.limit next).run refused g = (next limit).run refused g) ∧
      ((∃ deeper, Enters g deeper) ↔ level + 1 ≤ limit) ∧
      (∀ deeper, Enters g deeper → deeper.depth = level + 1 ∧ ∀ closure : Walk ε α,
        outcome (descend refused (closure.run refused) g) =
          ((outcome (closure.run refused deeper)).1, g)) ∧
      (¬level + 1 ≤ limit → ∀ body : EStateM ε Guard α,
        outcome (descend refused body g) = (.error (refused ⟨limit⟩), g))) ∧
    (outcome (walk.run refused (.idle limit))).2 = .idle limit ∧
    ∀ k, outcome (Visit.descendTimes k (outcome (walk.run refused (.idle limit))).2) =
      (if k ≤ limit then .ok () else .error ⟨limit⟩, .idle limit) := by
  refine ⟨fun level rest g h => ?_, snd_outcome_run walk _, fun k => ?_⟩
  · obtain rfl : g = ⟨level, limit⟩ := by simpa [Guard.idle] using h.guard_eq
    refine ⟨rfl, fun _ => ⟨rfl, rfl⟩, ?_, ?_, ?_⟩
    · constructor
      · rintro ⟨deeper, henters⟩
        exact (enters_iff.mp henters).1
      · exact fun hle => ⟨_, enters_iff.mpr ⟨hle, rfl⟩⟩
    · rintro deeper henters
      obtain ⟨hlt, rfl⟩ := enters_iff.mp henters
      refine ⟨rfl, fun closure => ?_⟩
      rw [outcome_descend_run, if_pos hlt]
    · intro hgt body
      rw [descend_of_le (g := ⟨level, limit⟩) (Nat.not_lt.mp hgt)]
      rfl
  · rw [snd_outcome_run, outcome_descendTimes]
    have hiff : (k = 0 ∨ (Guard.idle limit).depth + k ≤ (Guard.idle limit).limit) ↔ k ≤ limit := by
      simp only [Guard.idle]
      omega
    simp only [hiff]
    rfl

/-- A closure that makes a call, does not mind its end, and then fails on its own with the depth
    that it reads. -/
def stubborn : Walk String Nat :=
  .call (.done (.ok 5)) fun _ => .depth fun d => .done (.error s!"stopped at {d}")

/-- Under the limit of one level the call of this closure is entered and the one inside of it is
    refused, so the closure reads the depth one and fails. Then another call is entered. -/
theorem levels_counted_stubborn :
    Reaches LimitExceeded.message (.call stubborn .done) (.idle 1) 1 stubborn ⟨1, 1⟩ ∧
    outcome (descend LimitExceeded.message (stubborn.run LimitExceeded.message) (.idle 1)) =
      (.error "stopped at 1", .idle 1) ∧
    outcome (descend LimitExceeded.message (stubborn.run LimitExceeded.message) ⟨1, 1⟩) =
      (.error "maximum nesting depth of 1 exceeded", ⟨1, 1⟩) ∧
    outcome (Visit.descendTimes 1 (.idle 1)) = (.ok (), .idle 1) := by
  have henters : Enters (.idle 1) ⟨1, 1⟩ := enters_iff.mpr ⟨by decide, rfl⟩
  have hreaches :
      Reaches LimitExceeded.message (.call stubborn .done) (.idle 1) 1 stubborn ⟨1, 1⟩ :=
    .inside henters .here
  obtain ⟨hpoints, hend, htimes⟩ := levels_counted LimitExceeded.message 1 (.call stubborn .done)
  obtain ⟨-, -, -, hcall, -⟩ := hpoints 0 _ _ .here
  obtain ⟨-, -, -, -, hrefused⟩ := hpoints 1 _ _ hreaches
  refine ⟨hreaches, ?_, ?_, ?_⟩
  · rw [(hcall _ henters).2 stubborn]
    rfl
  · exact hrefused (by decide) _
  · rw [hend] at htimes
    exact htimes 1

end Walk

end Egg
