-- SUMMARY: Spans of source text, and the line and column at which a span starts.
import Egg.Text.Bytes

/-! # Spans

A span is a range of bytes in a source text, given by two 32-bit offsets. An
offset that does not fit is cut off at the largest one: only the place of an
error in a very long source is affected. -/

namespace Egg

/-- A range of bytes. `stop` is the first byte that no longer belongs to it. -/
structure Span where
  start : UInt32
  stop : UInt32
deriving DecidableEq

namespace Span

/-- The largest offset, one less than 2^32. -/
def maxOffset : Nat := 0xFFFFFFFF

/-- An offset as it is kept in a span. -/
def clamp (offset : Nat) : UInt32 :=
  UInt32.ofNat (min offset maxOffset)

theorem toNat_clamp (offset : Nat) : (clamp offset).toNat = min offset maxOffset := by
  have : maxOffset = 4294967295 := rfl
  rw [clamp, UInt32.toNat_ofNat']
  omega

/-- The span between two byte offsets. -/
def ofOffsets (start stop : Nat) : Span :=
  ⟨clamp start, clamp stop⟩

/-- The span without bytes at one offset. -/
def point (offset : UInt32) : Span :=
  ⟨offset, offset⟩

/-- The number of bytes. A span that stops before it starts has none. -/
def size (s : Span) : UInt32 :=
  if s.stop < s.start then 0 else s.stop - s.start

/-- Whether the span holds no byte. -/
def isEmpty (s : Span) : Bool :=
  s.stop ≤ s.start

instance : ToString Span where
  toString s := s!"{s.start}..{s.stop}"

end Span

/-- A place in a text, counted in lines and in characters of the line, both from
    one. -/
structure Place where
  line : Nat
  column : Nat
deriving DecidableEq

namespace Place

/-- The place of the first character. -/
def first : Place := ⟨1, 1⟩

/-- The place after one more character. -/
def after (p : Place) (c : Char) : Place :=
  if c = '\n' then ⟨p.line + 1, 1⟩ else ⟨p.line, p.column + 1⟩

/-- The place at a byte offset of a text. Inside a character this is the place of
    the next one, and past the end it is the place after the last. -/
def ofOffset (offset : Nat) (text : List Char) : Place :=
  (Text.startingBefore offset text).foldl after first

end Place

/-- The place in `text` at which the span starts. -/
def Span.place (s : Span) (text : List Char) : Place :=
  Place.ofOffset s.start.toNat text

end Egg
