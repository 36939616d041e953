-- SUMMARY: Forests of nested descents on one guard, and the record of what happened.
import Egg.Nesting.Guard

/-! # Visits

A visit is what a walk does at one level: descend and visit more inside, or read
the guard. Running a forest of visits on one guard records which descents were
entered, and what the guard read before, inside and after them. -/

namespace Egg

/-- One thing to do at the level where the walk stands. -/
inductive Visit where
  /-- Go one level deeper, and make these visits there. -/
  | descend (inside : List Visit)
  /-- Descend this many levels, each directly inside the one before. -/
  | nest (levels : Nat)
  /-- Read the number of active levels. -/
  | depth
  /-- Read the limit. -/
  | limit

/-- What the record of a walk holds. -/
inductive Visit.Event where
  | entered (depth : Nat)
  | refused (e : LimitExceeded)
  | after (depth : Nat)
  | nested (levels : Nat)
  | depth (depth : Nat)
  | limit (limit : Nat)

namespace Visit

/-- Descend `levels` times, each directly inside the one before. -/
def descendTimes : Nat → EStateM LimitExceeded Guard Unit
  | 0 => pure ()
  | levels + 1 => Egg.descend id (descendTimes levels)

mutual
/-- Make one visit. -/
def run : Visit → Guard → List Event × Guard
  | .descend inside, g =>
    let body : EStateM LimitExceeded Guard (List Event) := fun g' =>
      let (events, g'') := runAll inside g'
      .ok (.entered g'.depth :: events) g''
    match Egg.descend id body g with
    | .ok events g' => (events ++ [.after g'.depth], g')
    | .error e g' => ([.refused e, .after g'.depth], g')
  | .nest levels, g =>
    match descendTimes levels g with
    | .ok _ g' => ([.nested levels], g')
    | .error e g' => ([.refused e], g')
  | .depth, g => ([.depth g.depth], g)
  | .limit, g => ([.limit g.limit], g)

/-- Make the visits of a forest in order. -/
def runAll : List Visit → Guard → List Event × Guard
  | [], g => ([], g)
  | visit :: visits, g =>
    let (events, g') := visit.run g
    let (more, g'') := runAll visits g'
    (events ++ more, g'')
end

end Visit

end Egg
