-- SUMMARY: The size of a text in UTF-8 bytes, and the part of a text that starts before a byte offset.

/-! # Bytes of a text

A text is a list of characters. Positions in it are counted in bytes of its
UTF-8 encoding, in which a character takes from one to four bytes. -/

namespace Egg.Text

/-- The number of bytes of the UTF-8 encoding of `text`. -/
def byteSize : List Char → Nat
  | [] => 0
  | c :: text => c.utf8Size + byteSize text

@[simp] theorem byteSize_nil : byteSize [] = 0 := rfl

@[simp] theorem byteSize_cons (c : Char) (text : List Char) :
    byteSize (c :: text) = c.utf8Size + byteSize text := rfl

@[simp] theorem byteSize_append (s t : List Char) :
    byteSize (s ++ t) = byteSize s + byteSize t := by
  induction s with
  | nil => simp
  | cons c s ih => simp [ih, Nat.add_assoc]

theorem utf8ByteSize_ofList (text : List Char) :
    (String.ofList text).utf8ByteSize = byteSize text := by
  induction text with
  | nil => simp
  | cons c text ih =>
    rw [byteSize_cons, ← ih, ← List.singleton_append, String.ofList_append,
      String.utf8ByteSize_append, ← String.singleton_eq_ofList, String.utf8ByteSize_singleton]

/-- The characters of a string have the size of the string. -/
theorem byteSize_toList (s : String) : byteSize s.toList = s.utf8ByteSize := by
  rw [← utf8ByteSize_ofList, String.ofList_toList]

/-- Every character takes a byte, so only the empty text has no bytes. -/
theorem byteSize_eq_zero_iff {text : List Char} : byteSize text = 0 ↔ text = [] := by
  cases text with
  | nil => simp
  | cons c text => have := c.utf8Size_pos; simp; omega

/-- The characters of `text` whose first byte stands before byte `offset`. -/
def startingBefore (offset : Nat) : List Char → List Char
  | [] => []
  | c :: text => if offset = 0 then [] else c :: startingBefore (offset - c.utf8Size) text

/-- A whole front part of a text starts before its own end, and nothing after it
    does. -/
theorem startingBefore_byteSize (s t : List Char) : startingBefore (byteSize s) (s ++ t) = s := by
  induction s with
  | nil => cases t <;> simp [startingBefore]
  | cons c s ih =>
    have := c.utf8Size_pos
    simp only [byteSize_cons, List.cons_append, startingBefore]
    rw [if_neg (by omega), Nat.add_sub_cancel_left, ih]

end Egg.Text
