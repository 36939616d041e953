-- SUMMARY: The order of texts by code points is the order of their UTF-8 bytes.

/-!
# The order of bytes

UTF-8 writes a code point as a first byte, which grows with the number of bytes that follow, and
then digits to the base 64. So the bytes of two characters differ at some place, where the byte
of the smaller character is the smaller one, and texts are in the order of their bytes.
-/

namespace Egg.Text

/-- Below the bound, `code` writes a smaller number so that it comes first, whatever follows. -/
def Rising (bound : Nat) (code : Nat → List UInt8) : Prop :=
  ∀ x y, x < y → y < bound → ∀ s t, code x ++ s < code y ++ t

theorem ofNat_cons_lt {x y : Nat} (hlt : x < y) (hy : y < 256) (s t : List UInt8) :
    UInt8.ofNat x :: s < UInt8.ofNat y :: t := by
  refine List.cons_lt_cons_iff.mpr (.inl ?_)
  rw [UInt8.lt_iff_toNat_lt, UInt8.toNat_ofNat', UInt8.toNat_ofNat',
    Nat.mod_eq_of_lt (Nat.lt_trans hlt hy), Nat.mod_eq_of_lt hy]
  exact hlt

/-! ## Codes of a fixed size -/

theorem rising_first (size base : Nat) (h : size + base ≤ 256) :
    Rising size fun n => [UInt8.ofNat (n % size + base)] := by
  intro x y hlt hy s t
  simp only [Nat.mod_eq_of_lt (Nat.lt_trans hlt hy), Nat.mod_eq_of_lt hy]
  exact ofNat_cons_lt (Nat.add_lt_add_right hlt base) (by omega) s t

/-- One more digit to the base 64. -/
theorem Rising.digit {bound : Nat} {code : Nat → List UInt8} (h : Rising bound code) :
    Rising (bound * 64) fun n => code (n / 64) ++ [UInt8.ofNat (n % 64 + 128)] := by
  intro x y hlt hy s t
  simp only [List.append_assoc, List.singleton_append]
  rcases Nat.lt_or_ge (x / 64) (y / 64) with hquotient | hquotient
  · exact h _ _ hquotient (by omega) _ _
  · have hsame : x / 64 = y / 64 :=
      Nat.le_antisymm (Nat.div_le_div_right (Nat.le_of_lt hlt)) hquotient
    rw [hsame]
    exact List.append_left_lt (ofNat_cons_lt (by omega) (by omega) s t)

theorem rising_one : Rising 128 fun n => [UInt8.ofNat n] :=
  fun _ _ hlt hy s t => ofNat_cons_lt hlt (by omega) s t

theorem rising_two : Rising 2048 fun n =>
    [UInt8.ofNat (n / 64 % 32 + 192), UInt8.ofNat (n % 64 + 128)] :=
  (rising_first 32 192 (by decide)).digit

theorem rising_three : Rising 65536 fun n =>
    [UInt8.ofNat (n / 4096 % 16 + 224), UInt8.ofNat (n / 64 % 64 + 128),
      UInt8.ofNat (n % 64 + 128)] := by
  simpa [Nat.div_div_eq_div_mul] using (rising_first 16 224 (by decide)).digit.digit

theorem rising_four : Rising 2097152 fun n =>
    [UInt8.ofNat (n / 262144 % 8 + 240), UInt8.ofNat (n / 4096 % 64 + 128),
      UInt8.ofNat (n / 64 % 64 + 128), UInt8.ofNat (n % 64 + 128)] := by
  simpa [Nat.div_div_eq_div_mul] using (rising_first 8 240 (by decide)).digit.digit.digit

/-! ## Characters and texts -/

theorem utf8EncodeChar_append_lt {c d : Char} (h : c < d) (s t : List UInt8) :
    String.utf8EncodeChar c ++ s < String.utf8EncodeChar d ++ t := by
  have hlt : c.val.toNat < d.val.toNat := h
  have hmax : d.val.toNat < 1114112 := by
    rcases d.valid with hd | ⟨-, hd⟩
    · exact Nat.lt_trans hd (by decide)
    · exact hd
  simp only [String.utf8EncodeChar]
  generalize c.val.toNat = x at *
  generalize d.val.toNat = y at *
  -- Codes of one size are in order, and of two sizes the first byte of the longer is larger.
  split
  · split
    · exact rising_one x y hlt (by omega) s t
    · split
      · exact ofNat_cons_lt (by omega) (by omega) _ _
      · split <;> exact ofNat_cons_lt (by omega) (by omega) _ _
  · rw [if_neg (by omega : ¬y ≤ 127)]
    split
    · split
      · exact rising_two x y hlt (by omega) s t
      · split <;> exact ofNat_cons_lt (by omega) (by omega) _ _
    · rw [if_neg (by omega : ¬y ≤ 2047)]
      split
      · split
        · exact rising_three x y hlt (by omega) s t
        · exact ofNat_cons_lt (by omega) (by omega) _ _
      · rw [if_neg (by omega : ¬y ≤ 65535)]
        exact rising_four x y hlt (by omega) s t

/-- The UTF-8 bytes of a string. -/
def bytes (s : String) : List UInt8 :=
  s.toByteArray.data.toList

theorem bytes_eq (s : String) : bytes s = s.toList.flatMap String.utf8EncodeChar := by
  rw [bytes, ← String.utf8Encode_toList]
  exact List.toList_data_toByteArray

theorem flatMap_utf8EncodeChar_lt {s t : List Char} (h : s < t) :
    s.flatMap String.utf8EncodeChar < t.flatMap String.utf8EncodeChar := by
  induction s generalizing t with
  | nil =>
    cases t with
    | nil => exact absurd h (List.not_lt_nil _)
    | cons d t =>
      obtain ⟨b, more, hcode⟩ := List.exists_cons_of_length_pos
        ((String.length_utf8EncodeChar d).symm ▸ d.utf8Size_pos)
      rw [List.flatMap_cons, hcode]
      exact List.nil_lt_cons ..
  | cons c s ih =>
    cases t with
    | nil => exact absurd h (List.not_lt_nil _)
    | cons d t =>
      rw [List.flatMap_cons, List.flatMap_cons]
      rcases List.cons_lt_cons_iff.mp h with hlt | ⟨rfl, hlt⟩
      · exact utf8EncodeChar_append_lt hlt _ _
      · exact List.append_left_lt (ih hlt)

/-- Strings that are in order have their bytes in order. -/
theorem bytes_lt_bytes {s t : String} (h : s < t) : bytes s < bytes t := by
  rw [bytes_eq, bytes_eq]
  exact flatMap_utf8EncodeChar_lt h

end Egg.Text
