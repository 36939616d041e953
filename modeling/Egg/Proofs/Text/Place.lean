-- SUMMARY: The place of an offset: behind how many lines of the text it is, and behind how much of the next one.
import Egg.Span

/-!
# Lines and places

A text is cut into lines at each newline. The place of a front of a text counts the lines
that are complete there, each with its newline, and the characters that the front has of the
next line. So the place determines the front, and with it the text from there on.
-/

namespace Egg

namespace Text

/-- The lines of a text, which is cut at each newline. -/
def lines (text : List Char) : List (List Char) :=
  text.splitOn '\n'

/-- The front of a text without a newline is the front of its first line. -/
theorem exists_lines_append_eq_cons {s : List Char} (h : '\n' ∉ s) (t : List Char) :
    ∃ line more, lines (s ++ t) = (s ++ line) :: more := by
  by_cases ht : '\n' ∈ t
  · obtain ⟨line, more, rfl, hline⟩ := List.eq_append_cons_of_mem ht
    refine ⟨line, lines more, ?_⟩
    rw [← List.append_assoc]
    exact List.splitOn_append_cons_self_of_not_mem (by simp [h, hline]) more
  · exact ⟨t, [], List.splitOn_eq_singleton (by simp [h, ht])⟩

/-- A text with a newline is split at its last one. -/
theorem exists_last_newline {s : List Char} (h : '\n' ∈ s) :
    ∃ whole last, s = whole ++ '\n' :: last ∧ '\n' ∉ last := by
  obtain ⟨last, whole, hsplit, hlast⟩ := List.eq_append_cons_of_mem (List.mem_reverse.mpr h)
  refine ⟨whole.reverse, last.reverse, ?_, mt List.mem_reverse.mp hlast⟩
  rw [List.reverse_eq_iff.mp hsplit]
  simp

theorem length_lines (text : List Char) : (lines text).length = text.count '\n' + 1 := by
  induction text with
  | nil => rfl
  | cons c text ih =>
    rw [lines] at *
    rw [List.splitOn_cons_eq_if_modifyHead]
    split
    · next hc => rw [List.length_cons, ih, eq_of_beq hc, List.count_cons_self]
    · next hc => rw [List.length_modifyHead, ih, List.count_cons_of_ne (by simpa using hc)]

end Text

namespace Place

open Text

theorem line_foldl_after (s : List Char) (p : Place) :
    (s.foldl after p).line = p.line + s.count '\n' := by
  induction s generalizing p with
  | nil => rfl
  | cons c s ih =>
    rw [List.foldl_cons, ih, after]
    split
    · next h => rw [h, List.count_cons_self, Nat.add_right_comm, Nat.add_assoc]
    · next h => rw [List.count_cons_of_ne h]

theorem foldl_after_of_not_mem {s : List Char} (h : '\n' ∉ s) (p : Place) :
    s.foldl after p = ⟨p.line, p.column + s.length⟩ := by
  induction s generalizing p with
  | nil => rfl
  | cons c s ih =>
    obtain ⟨hc, hs⟩ := not_or.mp (mt List.mem_cons.mpr h)
    rw [List.foldl_cons, ih hs, after, if_neg (Ne.symm hc), List.length_cons, Nat.add_assoc,
      Nat.add_comm 1]

/-- The place behind a newline is at the start of the next line. -/
theorem foldl_after_newline (s : List Char) (p : Place) :
    (s ++ ['\n']).foldl after p = ⟨p.line + s.count '\n' + 1, 1⟩ := by
  rw [List.foldl_append, ← line_foldl_after]
  rfl

/-- The place of a front of a text: so many lines of the text are complete there, and so much
    of the next one stands in front of it. -/
theorem exists_lines_eq (front back : List Char) :
    ∃ whole last line more, lines (front ++ back) = whole ++ (last ++ line) :: more ∧
      ['\n'].intercalate ((last ++ line) :: more) = last ++ back ∧
      ofOffset (byteSize front) (front ++ back) = ⟨whole.length + 1, last.length + 1⟩ := by
  rw [ofOffset, startingBefore_byteSize]
  by_cases h : '\n' ∈ front
  · obtain ⟨whole, last, rfl, hlast⟩ := exists_last_newline h
    obtain ⟨line, more, hlines⟩ := exists_lines_append_eq_cons hlast back
    refine ⟨lines whole, last, line, more, ?_, ?_, ?_⟩
    · rw [← hlines, List.append_assoc]
      exact List.splitOn_append_cons_self whole (last ++ back)
    · rw [← hlines]
      exact List.intercalate_splitOn _
    · rw [List.append_cons, List.foldl_append, foldl_after_newline, foldl_after_of_not_mem hlast,
        length_lines, first, Nat.add_comm 1, Nat.add_comm 1]
  · obtain ⟨line, more, hlines⟩ := exists_lines_append_eq_cons h back
    refine ⟨[], front, line, more, hlines, ?_, ?_⟩
    · rw [← hlines]
      exact List.intercalate_splitOn _
    · rw [foldl_after_of_not_mem h, first, Nat.add_comm 1]
      rfl

/-- The text from a place on: the lines from that of the place on, less the characters in front
    of its column. -/
def textFrom (p : Place) (text : List Char) : List Char :=
  (['\n'].intercalate ((lines text).drop (p.line - 1))).drop (p.column - 1)

/-- The place lies in the text: there is such a line, and it is long enough. -/
structure LiesIn (p : Place) (text : List Char) : Prop where
  one_le_line : 1 ≤ p.line
  line_le : p.line ≤ (lines text).length
  one_le_column : 1 ≤ p.column
  column_le : ∀ line, (lines text)[p.line - 1]? = some line → p.column - 1 ≤ line.length

theorem liesIn_ofOffset (front back : List Char) :
    (ofOffset (byteSize front) (front ++ back)).LiesIn (front ++ back) := by
  obtain ⟨whole, last, line, more, hlines, -, hplace⟩ := exists_lines_eq front back
  rw [hplace]
  refine ⟨Nat.le_add_left .., ?_, Nat.le_add_left .., fun l hl => ?_⟩
  · rw [hlines, List.length_append, List.length_cons]
    exact Nat.add_le_add_left (Nat.le_add_left ..) _
  · obtain rfl : last ++ line = l := by simpa [hlines] using hl
    rw [List.length_append]
    exact Nat.le_add_right ..

/-- The text from the place of a front on is what stands behind the front. -/
theorem textFrom_ofOffset (front back : List Char) :
    (ofOffset (byteSize front) (front ++ back)).textFrom (front ++ back) = back := by
  obtain ⟨whole, last, line, more, hlines, hjoin, hplace⟩ := exists_lines_eq front back
  rw [textFrom, hplace, hlines, Nat.add_sub_cancel, Nat.add_sub_cancel, List.drop_left, hjoin,
    List.drop_left]

end Place

end Egg
