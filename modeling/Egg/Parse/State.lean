-- SUMMARY: Reading an expression step by step, with the open argument lists on a stack.
import Egg.Nesting.Guard
import Egg.Parse.Token

/-! # Reading an expression

The grammar is small:

    expression := atom call*
    atom       := text | number | word
    call       := '(' ( expression ( ',' expression )* )? ')'

Blanks may stand before every token. The reader goes from left to right and never
back. It keeps the argument lists that are still open on a stack. Each step reads
a token and moves on, so each step shortens the source and the reader ends. How
many lists may be open at once is bounded by the nesting limit. -/

namespace Egg.Parse

/-- An argument list that is still open. -/
structure Frame where
  operator : Expr
  /-- The arguments that are complete, the last one first. -/
  args : List Expr

namespace Frame

/-- The list with one more argument. -/
def push (f : Frame) (arg : Expr) : Frame :=
  { f with args := arg :: f.args }

/-- The application that the list is closed to. -/
def close (f : Frame) : Expr :=
  .apply f.operator f.args.reverse

end Frame

/-- What the reader has at the place where it stands. -/
inductive Focus where
  /-- Nothing: an expression has to start here. -/
  | missing
  /-- A complete expression, which may still be called. -/
  | complete (e : Expr)

/-- A reader in the middle of a source. -/
structure State where
  /-- The open argument lists, the innermost one first. -/
  frames : List Frame
  focus : Focus
  /-- The source that is not yet read. -/
  rest : List Char

/-- Why reading stops. -/
inductive Fault where
  /-- No atom starts here. -/
  | noExpression
  /-- An argument is followed neither by a comma nor by a closing bracket. -/
  | noSeparator
  /-- The program ends here, but the source goes on. -/
  | extraText
  /-- One more expression would lie deeper than the limit. -/
  | tooDeep (limit : Nat)
deriving DecidableEq, Repr

/-- Why reading stops, and the source from there on. -/
structure Stop where
  fault : Fault
  rest : List Char
deriving DecidableEq, Repr

/-- What one step leads to. -/
inductive Step where
  | next (s : State)
  | finished (e : Expr) (rest : List Char)
  | stopped (why : Stop)

/-! ## One step -/

/-- The step of a reader that needs an expression. The limit is checked first,
    where the reader stands. -/
def start (limit : Nat) (frames : List Frame) (source : List Char) : Step :=
  match (Guard.mk frames.length limit).enter with
  | .error e => .stopped ⟨.tooDeep e.limit, source⟩
  | .ok _ =>
    match atom? (skipBlanks source) with
    | some (e, rest) => .next ⟨frames, .complete e, rest⟩
    | none => .stopped ⟨.noExpression, skipBlanks source⟩

/-- The step of a reader that stands behind an opening bracket. -/
def openCall (frames : List Frame) (operator : Expr) (source : List Char) : State :=
  match skipBlanks source with
  | ')' :: rest => ⟨frames, .complete (.apply operator []), rest⟩
  | rest => ⟨⟨operator, []⟩ :: frames, .missing, rest⟩

/-- The step of a reader that has the complete expression `e`. An opening bracket
    calls it. Otherwise it is an argument of the innermost open list, or, without
    one, the result. -/
def proceed (frames : List Frame) (e : Expr) (source : List Char) : Step :=
  match skipBlanks source, frames with
  | '(' :: rest, frames => .next (openCall frames e rest)
  | rest, [] => .finished e rest
  | ',' :: rest, frame :: frames => .next ⟨frame.push e :: frames, .missing, rest⟩
  | ')' :: rest, frame :: frames => .next ⟨frames, .complete (frame.push e).close, rest⟩
  | rest, _ :: _ => .stopped ⟨.noSeparator, rest⟩

/-- One step of the reader. -/
def State.step (limit : Nat) (s : State) : Step :=
  match s.focus with
  | .missing => start limit s.frames s.rest
  | .complete e => proceed s.frames e s.rest

/-! ## Progress -/

theorem length_openCall_le (frames : List Frame) (operator : Expr) (source : List Char) :
    (openCall frames operator source).rest.length ≤ source.length := by
  have := length_skipBlanks_le source
  unfold openCall
  split
  · next rest h =>
    rw [h] at this
    simp only [List.length_cons] at this
    simpa using by omega
  · exact this

theorem length_lt_of_start {limit : Nat} {frames : List Frame} {source : List Char} {s : State}
    (h : start limit frames source = .next s) : s.rest.length < source.length := by
  have hle := length_skipBlanks_le source
  unfold start at h
  split at h
  · cases h
  · split at h
    · next e rest ha =>
      have := length_lt_of_atom? ha
      cases h
      simpa using by omega
    · cases h

theorem length_lt_of_proceed {frames : List Frame} {e : Expr} {source : List Char} {s : State}
    (h : proceed frames e source = .next s) : s.rest.length < source.length := by
  have hle := length_skipBlanks_le source
  unfold proceed at h
  split at h
  · next rest hs =>
    cases h
    rw [hs, List.length_cons] at hle
    exact Nat.lt_of_le_of_lt (length_openCall_le _ e rest) (by omega)
  · cases h
  · next rest frame frames' hs =>
    cases h
    rw [hs, List.length_cons] at hle
    simpa using by omega
  · next rest frame frames' hs =>
    cases h
    rw [hs, List.length_cons] at hle
    simpa using by omega
  · cases h

/-- Every step shortens the source. -/
theorem State.length_lt_of_step {limit : Nat} {s s' : State} (h : s.step limit = .next s') :
    s'.rest.length < s.rest.length := by
  unfold State.step at h
  split at h
  · exact length_lt_of_start h
  · exact length_lt_of_proceed h

/-! ## Reading to the end of an expression -/

/-- Step until the expression is complete, and give back what follows it. -/
def State.run (limit : Nat) (s : State) : Except Stop (Expr × List Char) :=
  match _h : s.step limit with
  | .next s' => s'.run limit
  | .finished e rest => .ok (e, rest)
  | .stopped why => .error why
termination_by s.rest.length
decreasing_by exact State.length_lt_of_step _h

theorem State.run_eq (limit : Nat) (s : State) :
    s.run limit =
      match s.step limit with
      | .next s' => s'.run limit
      | .finished e rest => .ok (e, rest)
      | .stopped why => .error why := by
  rw [State.run]
  cases s.step limit <;> rfl

/-- The expression at the front of a source, and the source after it and the
    blanks behind it. -/
def leading (limit : Nat) (source : List Char) : Except Stop (Expr × List Char) :=
  State.run limit ⟨[], .missing, source⟩

/-- The expression that makes up a whole source. -/
def whole (limit : Nat) (source : List Char) : Except Stop Expr :=
  match leading limit source with
  | .ok (e, []) => .ok e
  | .ok (_, rest) => .error ⟨.extraText, rest⟩
  | .error why => .error why

end Egg.Parse
