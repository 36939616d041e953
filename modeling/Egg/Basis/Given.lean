-- SUMMARY: Values as a host writes them down, and the values that they stand for.
import Egg.Basis.Natives

/-! # Given values

A host writes down the values that it binds, passes or returns. A text or a number
stands for itself. A function has an identity, which cannot be written down: what
is written stands for a new function each time that the value is made. -/

namespace Egg

/-- A value that the host writes down. -/
inductive Given where
  | text (contents : String)
  | number (value : Number)
  /-- A function of this name that counts its arguments. -/
  | counter (name : String)
  | native (f : Basis.Native)

/-- The value that the host wrote down, made in a world. -/
def World.receive (w : World) : Given → Value × World
  | .text contents => (.text contents, w)
  | .number x => (.number x, w)
  | .counter name => w.make name .count
  | .native f => w.make f.name f.callable

/-- The values that the host wrote down, made in order. -/
def World.receiveAll (w : World) : List Given → List Value × World
  | [] => ([], w)
  | g :: gs =>
    let (v, w) := w.receive g
    let (vs, w) := w.receiveAll gs
    (v :: vs, w)

/-- Make the value that the host wrote down. -/
def Run.receive (g : Given) : Run Value :=
  modifyGet fun w => w.receive g

end Egg
