-- SUMMARY: Cutting and searching a text by byte offsets, and the bytes that stand for the characters of ASCII.
import Egg.Text.Bytes

/-!
# Texts by their bytes

A text can be cut at a byte offset only where a character ends. The offsets that a search gives
are such places. So are the ends of a run of bytes of ASCII, because UTF-8 writes a character of
ASCII as one byte, and no other character has a byte of that size at its front.
-/

namespace Egg.Text

/-! ## Cutting -/

/-- The text in front of a byte offset, and the text from there on. There is no cut inside of a
    character, and none past the end. -/
def cut? : Nat → List Char → Option (List Char × List Char)
  | 0, text => some ([], text)
  | _ + 1, [] => none
  | offset + 1, c :: text =>
    if c.utf8Size ≤ offset + 1 then
      (cut? (offset + 1 - c.utf8Size) text).map fun halves => (c :: halves.1, halves.2)
    else none

theorem cut?_byteSize (front back : List Char) :
    cut? (byteSize front) (front ++ back) = some (front, back) := by
  induction front with
  | nil => cases back <;> rfl
  | cons c front ih =>
    have hpos := c.utf8Size_pos
    obtain ⟨offset, hoffset⟩ : ∃ offset, byteSize (c :: front) = offset + 1 :=
      Nat.exists_eq_add_one.mpr (by rw [byteSize_cons]; omega)
    have hrest : offset + 1 - c.utf8Size = byteSize front := by
      rw [← hoffset, byteSize_cons, Nat.add_sub_cancel_left]
    have hle : c.utf8Size ≤ offset + 1 := hoffset ▸ Nat.le_add_right _ _
    rw [hoffset, List.cons_append, cut?, if_pos hle, hrest, ih]
    rfl

theorem eq_of_cut? {offset : Nat} {text front back : List Char}
    (h : cut? offset text = some (front, back)) :
    text = front ++ back ∧ byteSize front = offset := by
  induction text generalizing offset front with
  | nil =>
    cases offset with
    | zero => cases h; exact ⟨rfl, rfl⟩
    | succ offset => cases h
  | cons c text ih =>
    cases offset with
    | zero => cases h; exact ⟨rfl, rfl⟩
    | succ offset =>
      rw [cut?] at h
      split at h
      · next hle =>
        obtain ⟨⟨front', back'⟩, hcut, heq⟩ := Option.map_eq_some_iff.mp h
        cases heq
        obtain ⟨rfl, hsize⟩ := ih hcut
        exact ⟨rfl, by rw [byteSize_cons, hsize]; omega⟩
      · cases h

/-- A text can be cut at an offset exactly if it has a front of that size. -/
theorem cut?_eq_some_iff {offset : Nat} {text front back : List Char} :
    cut? offset text = some (front, back) ↔ text = front ++ back ∧ byteSize front = offset :=
  ⟨eq_of_cut?, fun ⟨happ, hsize⟩ => happ ▸ hsize ▸ cut?_byteSize front back⟩

theorem byteSize_append_sub (front back : List Char) :
    byteSize (front ++ back) - byteSize back = byteSize front := by
  rw [byteSize_append, Nat.add_sub_cancel]

/-! ## Searching -/

/-- The byte offset of the first character with the property `p`. -/
def find? (p : Char → Bool) : List Char → Option Nat
  | [] => none
  | c :: text => if p c then some 0 else (find? p text).map (c.utf8Size + ·)

theorem find?_append {p : Char → Bool} {front : List Char} (hfront : ∀ c ∈ front, p c = false)
    {c : Char} (hc : p c = true) (back : List Char) :
    find? p (front ++ c :: back) = some (byteSize front) := by
  induction front with
  | nil => exact if_pos hc
  | cons d front ih =>
    obtain ⟨hd, hfront⟩ := List.forall_mem_cons.mp hfront
    rw [List.cons_append, find?, if_neg (Bool.eq_false_iff.mp hd), ih hfront]
    rfl

theorem find?_eq_none {p : Char → Bool} {text : List Char} (h : ∀ c ∈ text, p c = false) :
    find? p text = none := by
  induction text with
  | nil => rfl
  | cons c text ih =>
    obtain ⟨hc, htext⟩ := List.forall_mem_cons.mp h
    rw [find?, if_neg (Bool.eq_false_iff.mp hc), ih htext]
    rfl

/-- A search for the end of a run of characters finds where the run ends, or the whole text is
    the run. -/
theorem getD_find?_not (p : Char → Bool) (text : List Char) :
    (find? (!p ·) text).getD (byteSize text) = byteSize (text.takeWhile p) := by
  induction text with
  | nil => rfl
  | cons c text ih =>
    cases hc : p c with
    | true =>
      rw [find?, hc, if_neg (by decide), List.takeWhile_cons_of_pos hc, byteSize_cons,
        byteSize_cons, ← ih]
      exact Option.getD_map (c.utf8Size + ·) _ _
    | false =>
      rw [find?, hc, if_pos (by decide), List.takeWhile_cons_of_neg (Bool.eq_false_iff.mp hc)]
      rfl

/-! ## Bytes -/

/-- The UTF-8 bytes of a text. -/
def utf8 (text : List Char) : List UInt8 :=
  text.flatMap String.utf8EncodeChar

@[simp] theorem utf8_nil : utf8 [] = [] := rfl

@[simp] theorem utf8_cons (c : Char) (text : List Char) :
    utf8 (c :: text) = String.utf8EncodeChar c ++ utf8 text :=
  List.flatMap_cons

theorem utf8_append (s t : List Char) : utf8 (s ++ t) = utf8 s ++ utf8 t :=
  List.flatMap_append

theorem length_utf8 (text : List Char) : (utf8 text).length = byteSize text := by
  induction text with
  | nil => rfl
  | cons c text ih =>
    rw [utf8_cons, List.length_append, ih, String.length_utf8EncodeChar, byteSize_cons]

/-- A character of ASCII is one byte, its code. Every other character starts with a byte that is
    the code of no character of ASCII. -/
theorem utf8EncodeChar_cases (c : Char) :
    (c.toNat < 128 ∧ String.utf8EncodeChar c = [UInt8.ofNat c.toNat]) ∨
      (128 ≤ c.toNat ∧ ∃ b more, String.utf8EncodeChar c = b :: more ∧ 128 ≤ b.toNat) := by
  have hlead : ∀ n, 128 ≤ n → n < 256 → 128 ≤ (UInt8.ofNat n).toNat := by
    intro n hle hlt
    rwa [UInt8.toNat_ofNat', Nat.mod_eq_of_lt hlt]
  rw [String.utf8EncodeChar, ← Char.toNat]
  generalize c.toNat = code at *
  split
  · exact .inl ⟨by omega, rfl⟩
  · refine .inr ⟨by omega, ?_⟩
    split
    · exact ⟨_, _, rfl, hlead _ (by omega) (by omega)⟩
    · split <;> exact ⟨_, _, rfl, hlead _ (by omega) (by omega)⟩

/-- All codes in the class are codes of ASCII. -/
def IsAscii (p : Nat → Bool) : Prop :=
  ∀ n, p n = true → n < 128

namespace IsAscii

variable {p : Nat → Bool} (h : IsAscii p)
include h

theorem of_le {n : Nat} (hn : 128 ≤ n) : p n = false :=
  Bool.eq_false_iff.mpr fun hp => Nat.not_lt.mpr hn (h n hp)

/-- The first byte of a character is in the class exactly if the character is, and then it is the
    only one. -/
theorem utf8EncodeChar_eq (c : Char) : ∃ b more, String.utf8EncodeChar c = b :: more ∧
    p b.toNat = p c.toNat ∧ (p c.toNat = true → more = []) := by
  rcases utf8EncodeChar_cases c with ⟨hlt, hcode⟩ | ⟨hle, b, more, hcode, hb⟩
  · refine ⟨_, [], hcode, ?_, fun _ => rfl⟩
    rw [UInt8.toNat_ofNat', Nat.mod_eq_of_lt (by omega)]
  · refine ⟨b, more, hcode, (h.of_le hb).trans (h.of_le hle).symm, fun hc => ?_⟩
    rw [h.of_le hle] at hc
    cases hc

theorem any_head?_utf8 (text : List Char) :
    (utf8 text).head?.any (p ·.toNat) = text.head?.any (p ·.toNat) := by
  cases text with
  | nil => rfl
  | cons c text =>
    obtain ⟨b, more, hcode, hb, -⟩ := h.utf8EncodeChar_eq c
    rw [utf8_cons, hcode]
    exact hb

/-- The bytes of a class at the front of a text are those of its characters. -/
theorem takeWhile_utf8 (text : List Char) :
    (utf8 text).takeWhile (p ·.toNat) = utf8 (text.takeWhile (p ·.toNat)) := by
  induction text with
  | nil => rfl
  | cons c text ih =>
    obtain ⟨b, more, hcode, hb, hmore⟩ := h.utf8EncodeChar_eq c
    rw [utf8_cons, hcode, List.cons_append]
    cases hc : p c.toNat with
    | true =>
      simp only [List.takeWhile_cons, hb, hc, if_pos, ih, utf8_cons, hcode, hmore hc,
        List.nil_append, List.singleton_append]
    | false =>
      simp only [List.takeWhile_cons, hb, hc, Bool.false_eq_true, if_false, utf8_nil]

/-- Behind a front of a text stands the first byte of what follows. -/
theorem any_getElem?_utf8 (front back : List Char) :
    (utf8 (front ++ back))[byteSize front]?.any (p ·.toNat) = back.head?.any (p ·.toNat) := by
  rw [utf8_append, List.getElem?_append_right (Nat.le_of_eq (length_utf8 front)), length_utf8,
    Nat.sub_self, ← List.head?_eq_getElem?, h.any_head?_utf8]

end IsAscii

/-- The codes of the digits. -/
def isDigitCode (n : Nat) : Bool :=
  48 ≤ n && n ≤ 57

/-- The codes of the letters and digits of ASCII, and that of the underscore. -/
def isNameCode (n : Nat) : Bool :=
  65 ≤ n && n ≤ 90 || 97 ≤ n && n ≤ 122 || isDigitCode n || n == 95

theorem isAscii_isDigitCode : IsAscii isDigitCode := by
  intro n hn
  simp only [isDigitCode, Bool.and_eq_true, decide_eq_true_iff] at hn
  omega

theorem isAscii_isNameCode : IsAscii isNameCode := by
  intro n hn
  simp only [isNameCode, isDigitCode, Bool.or_eq_true, Bool.and_eq_true,
    decide_eq_true_iff, beq_iff_eq] at hn
  omega

theorem isDigitCode_toNat (c : Char) : isDigitCode c.toNat = c.isDigit := rfl

theorem isNameCode_toNat (c : Char) : isNameCode c.toNat = (c.isAlphanum || c == '_') := by
  have hmark : (c.toNat == 95) = (c == '_') := by
    rw [Bool.eq_iff_iff, beq_iff_eq, beq_iff_eq, ← Char.toNat_inj]
    rfl
  have hupper : (decide (65 ≤ c.toNat) && decide (c.toNat ≤ 90)) = c.isUpper :=
    (Bool.decide_and ..).symm
  rw [isNameCode, hmark, hupper]
  rfl

end Egg.Text
