-- SUMMARY: The place of a byte offset in closed form, and its growth with the offset.
import Mathlib.Data.Prod.Lex
import Egg.Proofs.Text.Place

/-!
# Offsets and places

Every character of a text starts at a byte offset of its own. The place of an offset counts the
characters that start in front of it: all the newlines among them, and all of them behind the
last of these newlines. One more character in front makes the place larger, line first, so the
place tells apart any two offsets between characters. An offset inside of a character has the
same characters in front of it as the end of that character.
-/

namespace Egg

namespace Text

/-! ## Where characters start -/

/-- The characters of a text, each with the byte offset at which it starts. The first of them
    starts at `start`. -/
def charOffsets (start : Nat) : List Char → List (Nat × Char)
  | [] => []
  | c :: text => (start, c) :: charOffsets (start + c.utf8Size) text

/-- The characters of a text that start in front of an offset. -/
def charsBefore (offset : Nat) (text : List Char) : List (Nat × Char) :=
  (charOffsets 0 text).filter (·.1 < offset)

/-- Those of the characters that come after every newline among them. -/
def onLastLine (chars : List (Nat × Char)) : List (Nat × Char) :=
  chars.filter fun p => ∀ q ∈ chars, q.2 = '\n' → q.1 < p.1

theorem charOffsets_append (start : Nat) (s t : List Char) :
    charOffsets start (s ++ t) = charOffsets start s ++ charOffsets (start + byteSize s) t := by
  induction s generalizing start with
  | nil => rfl
  | cons c s ih => simp [charOffsets, ih, Nat.add_assoc]

theorem map_snd_charOffsets (start : Nat) (s : List Char) :
    (charOffsets start s).map (·.2) = s := by
  induction s generalizing start with
  | nil => rfl
  | cons c s ih => simp [charOffsets, ih]

theorem length_charOffsets (start : Nat) (s : List Char) :
    (charOffsets start s).length = s.length := by
  rw [← List.length_map, map_snd_charOffsets]

theorem bounds_of_mem_charOffsets {start : Nat} {s : List Char} {p : Nat × Char}
    (h : p ∈ charOffsets start s) : start ≤ p.1 ∧ p.1 < start + byteSize s ∧ p.2 ∈ s := by
  induction s generalizing start with
  | nil => cases h
  | cons c s ih =>
    have := c.utf8Size_pos
    rw [byteSize_cons]
    rcases List.mem_cons.mp h with rfl | h
    · exact ⟨Nat.le_refl _, by simp only; omega, List.mem_cons_self⟩
    · obtain ⟨hle, hlt, hmem⟩ := ih h
      exact ⟨by omega, by omega, List.mem_cons_of_mem _ hmem⟩

theorem filter_charOffsets_eq_nil {start bound : Nat} (h : bound ≤ start) (s : List Char) :
    (charOffsets start s).filter (·.1 < bound) = [] := by
  refine List.filter_eq_nil_iff.mpr fun p hp => ?_
  have := (bounds_of_mem_charOffsets hp).1
  simpa using by omega

theorem filter_charOffsets (start offset : Nat) (text : List Char) :
    (charOffsets start text).filter (·.1 < start + offset) =
      charOffsets start (startingBefore offset text) := by
  induction text generalizing start offset with
  | nil => rfl
  | cons c text ih =>
    rw [startingBefore]
    split
    · next h => exact filter_charOffsets_eq_nil (by omega) _
    · next h =>
      rw [charOffsets, charOffsets, List.filter_cons_of_pos (by simpa using by omega)]
      congr 1
      rcases Nat.le_total c.utf8Size offset with hle | hle
      · rw [← ih, Nat.add_assoc, Nat.add_sub_cancel' hle]
      · -- The offset lies inside of `c`, and everything behind `c` starts later.
        rw [filter_charOffsets_eq_nil (by omega), ← ih, Nat.sub_eq_zero_of_le hle, Nat.add_zero,
          filter_charOffsets_eq_nil (Nat.le_refl _)]

theorem charsBefore_eq (offset : Nat) (text : List Char) :
    charsBefore offset text = charOffsets 0 (startingBefore offset text) := by
  simpa [charsBefore] using filter_charOffsets 0 offset text

theorem countP_newline_charOffsets (start : Nat) (s : List Char) :
    (charOffsets start s).countP (·.2 = '\n') = s.count '\n' := by
  conv_rhs => rw [← map_snd_charOffsets start s, List.count, List.countP_map]
  rfl

theorem onLastLine_of_not_mem {s : List Char} (h : '\n' ∉ s) (start : Nat) :
    onLastLine (charOffsets start s) = charOffsets start s := by
  refine List.filter_eq_self.mpr fun p _ => decide_eq_true fun q hq hnewline => ?_
  exact absurd (hnewline ▸ (bounds_of_mem_charOffsets hq).2.2) h

/-- What stands behind a newline, and holds none, is all that is on the last line. -/
theorem onLastLine_append_cons {whole last : List (Nat × Char)} {p : Nat × Char} (hp : p.2 = '\n')
    (hwhole : ∀ q ∈ whole, q.1 < p.1) (hlast : ∀ q ∈ last, p.1 < q.1 ∧ q.2 ≠ '\n') :
    onLastLine (whole ++ p :: last) = last := by
  have hout : ∀ q : Nat × Char, q.1 ≤ p.1 →
      ¬∀ r ∈ whole ++ p :: last, r.2 = '\n' → r.1 < q.1 :=
    fun q hq hall => Nat.not_lt.mpr hq (hall p (by simp) hp)
  have hin : ∀ q ∈ last, ∀ r ∈ whole ++ p :: last, r.2 = '\n' → r.1 < q.1 := by
    intro q hq r hr hnewline
    have hlt := (hlast q hq).1
    rcases List.mem_append.mp hr with hr | hr
    · exact (hwhole r hr).trans hlt
    · rcases List.mem_cons.mp hr with rfl | hr
      · exact hlt
      · exact absurd hnewline (hlast r hr).2
  rw [onLastLine, List.filter_append, List.filter_eq_nil_iff.mpr, List.filter_cons_of_neg,
    List.filter_eq_self.mpr, List.nil_append]
  · exact fun q hq => decide_eq_true (hin q hq)
  · exact fun hall => hout p (Nat.le_refl _) (of_decide_eq_true hall)
  · exact fun q hq hall => hout q (Nat.le_of_lt (hwhole q hq)) (of_decide_eq_true hall)

theorem length_onLastLine_append_newline (whole : List Char) {last : List Char}
    (h : '\n' ∉ last) :
    (onLastLine (charOffsets 0 (whole ++ '\n' :: last))).length = last.length := by
  rw [charOffsets_append, charOffsets, onLastLine_append_cons rfl, length_charOffsets]
  · intro q hq
    exact (bounds_of_mem_charOffsets hq).2.1
  · intro q hq
    obtain ⟨hle, -, hmem⟩ := bounds_of_mem_charOffsets hq
    exact ⟨Nat.lt_of_lt_of_le (Nat.lt_add_of_pos_right (Char.utf8Size_pos _)) hle,
      ne_of_mem_of_not_mem hmem h⟩

/-! ## Fronts of a text and offsets -/

/-- An offset between two characters, or at an end, is the size of a front. -/
theorem isValid_iff {source : String} {offset : Nat} :
    (String.Pos.Raw.mk offset).IsValid source ↔
      ∃ front back, source.toList = front ++ back ∧ byteSize front = offset := by
  rw [String.Pos.Raw.isValid_iff_exists_append]
  constructor
  · rintro ⟨front, back, rfl, hoffset⟩
    refine ⟨front.toList, back.toList, String.toList_append, ?_⟩
    rw [byteSize_toList]
    exact (congrArg String.Pos.Raw.byteIdx hoffset).symm
  · rintro ⟨front, back, happ, rfl⟩
    refine ⟨String.ofList front, String.ofList back, ?_, ?_⟩
    · rw [← String.ofList_append, ← happ, String.ofList_toList]
    · rw [← utf8ByteSize_ofList]
      rfl

/-- A character starts in front of every offset inside of it, and in front of its end. -/
theorem startingBefore_of_inside {offset : Nat} {front : List Char} {c : Char} (back : List Char)
    (hlt : byteSize front < offset) (hle : offset ≤ byteSize (front ++ [c])) :
    startingBefore offset (front ++ c :: back) = front ++ [c] := by
  induction front generalizing offset with
  | nil =>
    rw [List.nil_append, byteSize_cons, byteSize_nil, Nat.add_zero] at hle
    have hne : offset ≠ 0 := Nat.ne_of_gt hlt
    rw [List.nil_append, startingBefore, if_neg hne, Nat.sub_eq_zero_of_le hle]
    cases back <;> rfl
  | cons d front ih =>
    rw [byteSize_cons] at hlt
    rw [List.cons_append, byteSize_cons] at hle
    rw [List.cons_append, startingBefore, if_neg (by omega), ih (by omega) (by omega)]
    rfl

theorem startingBefore_of_le {offset : Nat} {text : List Char} (h : byteSize text ≤ offset) :
    startingBefore offset text = text := by
  induction text generalizing offset with
  | nil => rfl
  | cons c text ih =>
    have := c.utf8Size_pos
    rw [byteSize_cons] at h
    rw [startingBefore, if_neg (by omega), ih (by omega)]

end Text

namespace Place

open Text

/-! ## The place in closed form -/

theorem column_foldl_after (s : List Char) :
    (s.foldl after first).column = 1 + (onLastLine (charOffsets 0 s)).length := by
  by_cases h : '\n' ∈ s
  · obtain ⟨whole, last, rfl, hlast⟩ := exists_last_newline h
    rw [length_onLastLine_append_newline whole hlast, List.append_cons, List.foldl_append,
      foldl_after_newline, foldl_after_of_not_mem hlast]
  · rw [onLastLine_of_not_mem h, length_charOffsets, foldl_after_of_not_mem h]
    rfl

theorem ofOffset_eq (offset : Nat) (text : List Char) :
    ofOffset offset text =
      ⟨1 + (charsBefore offset text).countP (·.2 = '\n'),
        1 + (onLastLine (charsBefore offset text)).length⟩ := by
  rw [charsBefore_eq, countP_newline_charOffsets, ← column_foldl_after]
  exact congrArg (Place.mk · _) (line_foldl_after _ _)

/-! ## The order of places -/

/-- Places are ordered by their lines, and on a line by their columns. -/
def key (p : Place) : Nat ×ₗ Nat :=
  toLex (p.line, p.column)

theorem key_lt_key_after (p : Place) (c : Char) : p.key < (p.after c).key := by
  refine Prod.Lex.toLex_lt_toLex.mpr ?_
  unfold after
  split
  · exact .inl (Nat.lt_succ_self _)
  · exact .inr ⟨rfl, Nat.lt_succ_self _⟩

theorem key_lt_key_foldl_after {s : List Char} (h : s ≠ []) (p : Place) :
    p.key < (s.foldl after p).key := by
  induction s generalizing p with
  | nil => exact absurd rfl h
  | cons c s ih =>
    rw [List.foldl_cons]
    rcases eq_or_ne s [] with rfl | hs
    · exact key_lt_key_after p c
    · exact (key_lt_key_after p c).trans (ih hs _)

/-- The place of a longer front is larger. -/
theorem key_ofOffset_lt {front back front' back' : List Char}
    (happ : front ++ back = front' ++ back') (hlt : byteSize front < byteSize front') :
    (ofOffset (byteSize front) (front ++ back)).key <
      (ofOffset (byteSize front') (front ++ back)).key := by
  have hplace : ofOffset (byteSize front') (front ++ back) = front'.foldl after first := by
    rw [happ, ofOffset, startingBefore_byteSize]
  rw [hplace, ofOffset, startingBefore_byteSize]
  rcases List.append_eq_append_iff.mp happ with ⟨more, rfl, -⟩ | ⟨less, rfl, -⟩
  · rw [List.foldl_append]
    refine key_lt_key_foldl_after ?_ _
    rintro rfl
    simp at hlt
  · rw [byteSize_append] at hlt
    omega

end Place

namespace Span

open Text

theorem key_place_lt {source : String} {span span' : Span}
    (hvalid : (String.Pos.Raw.mk span.start.toNat).IsValid source)
    (hvalid' : (String.Pos.Raw.mk span'.start.toNat).IsValid source)
    (hlt : span.start < span'.start) :
    (span.place source.toList).key < (span'.place source.toList).key := by
  obtain ⟨front, back, happ, hsize⟩ := isValid_iff.mp hvalid
  obtain ⟨front', back', happ', hsize'⟩ := isValid_iff.mp hvalid'
  rw [place, place, ← hsize, ← hsize', happ]
  refine Place.key_ofOffset_lt (happ.symm.trans happ') ?_
  rw [hsize, hsize']
  exact hlt

/-- The line of the place of a span is one more than the number of newlines that start in front
    of it, and the column is one more than the number of characters that start in front of it
    and behind the last of these newlines. Of two spans that start between characters, the one
    that starts later has the larger place, so the place determines where such a span starts.
    A span that starts inside of a character has the place of the next boundary, and one that
    starts past the end has the place of the end. Where a span stops does not matter. -/
theorem place_exact (source : String) :
    (∀ span : Span, span.place source.toList =
      ⟨1 + (charsBefore span.start.toNat source.toList).countP (·.2 = '\n'),
        1 + (onLastLine (charsBefore span.start.toNat source.toList)).length⟩) ∧
    (∀ span span' : Span, (String.Pos.Raw.mk span.start.toNat).IsValid source →
      (String.Pos.Raw.mk span'.start.toNat).IsValid source →
      (span.start < span'.start →
        (span.place source.toList).key < (span'.place source.toList).key) ∧
      (span.place source.toList = span'.place source.toList → span.start = span'.start)) ∧
    (∀ (span : Span) (front : List Char) (c : Char) (back : List Char),
      source.toList = front ++ c :: back → byteSize front < span.start.toNat →
      span.start.toNat ≤ byteSize (front ++ [c]) →
      span.place source.toList = Place.ofOffset (byteSize (front ++ [c])) source.toList) ∧
    (∀ span : Span, source.utf8ByteSize ≤ span.start.toNat →
      span.place source.toList = Place.ofOffset source.utf8ByteSize source.toList) ∧
    (∀ start stop stop', (mk start stop).place source.toList =
      (mk start stop').place source.toList) := by
  refine ⟨fun span => Place.ofOffset_eq _ _, ?_, ?_, ?_, fun _ _ _ => rfl⟩
  · intro span span' hvalid hvalid'
    refine ⟨key_place_lt hvalid hvalid', fun heq => ?_⟩
    rcases lt_trichotomy span.start.toNat span'.start.toNat with hlt | hsame | hlt
    · exact absurd (congrArg Place.key heq) (key_place_lt hvalid hvalid' hlt).ne
    · exact UInt32.toNat_inj.mp hsame
    · exact absurd (congrArg Place.key heq) (key_place_lt hvalid' hvalid hlt).ne'
  · intro span front c back happ hlt hle
    rw [place, Place.ofOffset, Place.ofOffset, happ, startingBefore_of_inside back hlt hle,
      List.append_cons front c back, startingBefore_byteSize]
  · intro span hle
    rw [← byteSize_toList] at hle ⊢
    rw [place, Place.ofOffset, Place.ofOffset, startingBefore_of_le hle,
      startingBefore_of_le (Nat.le_refl _)]

/-- A character of two bytes, a newline, and a second line. -/
def twoLines : String := "é\nx"

/-- Inside of the accented letter the place is that of the newline behind it, in front of that of
    the second line, and past the end it is that of the end. -/
theorem place_twoLines :
    (point 1).place twoLines.toList = Place.ofOffset 2 twoLines.toList ∧
    ((point 2).place twoLines.toList).key < ((point 3).place twoLines.toList).key ∧
    (point 9).place twoLines.toList = Place.ofOffset 4 twoLines.toList := by
  obtain ⟨-, horder, hinside, hpast, -⟩ := place_exact twoLines
  have hchars : twoLines.toList = ['é', '\n', 'x'] := by decide
  have hnewline : (String.Pos.Raw.mk (point 2).start.toNat).IsValid twoLines :=
    isValid_iff.mpr ⟨['é'], ['\n', 'x'], hchars, by decide⟩
  have hline : (String.Pos.Raw.mk (point 3).start.toNat).IsValid twoLines :=
    isValid_iff.mpr ⟨['é', '\n'], ['x'], hchars, by decide⟩
  refine ⟨?_, (horder _ _ hnewline hline).1 (by decide), ?_⟩
  · exact hinside (point 1) [] 'é' ['\n', 'x'] hchars (by decide) (by decide)
  · exact hpast (point 9) (by decide)

end Span

end Egg
