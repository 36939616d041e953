-- SUMMARY: An excerpt is the whole text, or the longest short front of its first line with dots behind it.
import Egg.Text.Bytes
import Egg.Text.Excerpt

/-!
# Excerpts

A text is quoted as it stands if it is short and on one line. Otherwise as much of its first line
is quoted as may be, and dots follow. There are several ways to lose something: the line is too
long, more lines follow it, or nothing but its end does. Each of them leaves a front of the text
that is not all of it, and so has fewer bytes. A comparison of the sizes in bytes finds them all.
-/

namespace Egg.Text

variable {line shown text : List Char} {n : Nat}

/-! ## The first line -/

/-- The first line of a text is what stands in front of its first newline. A carriage return
    directly before that newline does not belong to it. -/
inductive IsFirstLine : List Char → List Char → Prop where
  | only {line : List Char} : '\n' ∉ line → IsFirstLine line line
  | newline {line more : List Char} : '\n' ∉ line → line.getLast? ≠ some '\r' →
      IsFirstLine line (line ++ '\n' :: more)
  | carriageReturn {line more : List Char} : '\n' ∉ line →
      IsFirstLine line (line ++ '\r' :: '\n' :: more)

theorem firstLine_cons {c : Char} (hc : c ≠ '\n') (hreturn : c = '\r' → text.head? ≠ some '\n') :
    firstLine (c :: text) = c :: firstLine text := by
  rw [firstLine]
  · exact hc
  · rintro more rfl rfl
    exact hreturn rfl rfl

/-- In front of an ending with nothing of a line, a line is read to its end. A carriage return at
    the end of the line must not become a part of the ending. -/
theorem firstLine_append {ending : List Char} (hline : '\n' ∉ line)
    (hending : firstLine ending = [])
    (hreturn : line.getLast? = some '\r' → ending.head? ≠ some '\n') :
    firstLine (line ++ ending) = line := by
  induction line with
  | nil => exact hending
  | cons c line ih =>
    have hc : c ≠ '\n' := (List.ne_of_not_mem_cons hline).symm
    have hline : '\n' ∉ line := List.not_mem_of_not_mem_cons hline
    -- Only behind the last character of the line comes the ending.
    cases line with
    | nil => rw [List.singleton_append, firstLine_cons hc fun h => hreturn (h ▸ rfl), hending]
    | cons d line =>
      have hd : (d :: line ++ ending).head? ≠ some '\n' := by
        simpa using (List.ne_of_not_mem_cons hline).symm
      rw [List.cons_append, firstLine_cons hc fun _ => hd, ih hline hreturn]

theorem isFirstLine_firstLine (text : List Char) : IsFirstLine (firstLine text) text := by
  fun_induction firstLine text with
  | case1 => exact .only List.not_mem_nil
  | case2 => exact .newline List.not_mem_nil (by simp)
  | case3 => exact .carriageReturn List.not_mem_nil
  | case4 c text hc hreturn ih =>
    have hmem : ∀ {line : List Char}, '\n' ∉ line → '\n' ∉ c :: line := by
      intro line hline
      simpa [eq_comm, hline] using hc
    generalize firstLine text = line at ih
    cases ih with
    | only hline => exact .only (hmem hline)
    | carriageReturn hline => exact .carriageReturn (hmem hline)
    | newline hline hlast =>
      refine .newline (hmem hline) ?_
      cases line with
      | nil => simpa using fun h => hreturn _ h rfl
      | cons d line => exact hlast

/-- Every text has one first line. -/
theorem isFirstLine_iff : IsFirstLine line text ↔ line = firstLine text := by
  constructor
  · intro h
    cases h with
    | only hline =>
      have happ : firstLine (line ++ []) = line := firstLine_append hline rfl fun _ => nofun
      rw [List.append_nil] at happ
      exact happ.symm
    | newline hline hlast => exact (firstLine_append hline rfl fun h => absurd h hlast).symm
    | carriageReturn hline => exact (firstLine_append hline rfl fun _ => by simp).symm
  · rintro rfl
    exact isFirstLine_firstLine text

theorem IsFirstLine.newline_not_mem (h : IsFirstLine line text) : '\n' ∉ line := by
  cases h <;> assumption

theorem newline_not_mem_take_firstLine (text : List Char) : '\n' ∉ (firstLine text).take n :=
  fun hmem => (isFirstLine_firstLine text).newline_not_mem (List.mem_of_mem_take hmem)

/-! ## The longest front of a size -/

/-- The longest front of a text that has at most `n` characters. -/
structure IsLongestFront (n : Nat) (shown text : List Char) : Prop where
  front : shown <+: text
  length_le : shown.length ≤ n
  longest : ∀ other, other <+: text → other.length ≤ n → other.length ≤ shown.length

theorem isLongestFront_iff : IsLongestFront n shown text ↔ shown = text.take n := by
  constructor
  · intro h
    have hle : (text.take n).length ≤ shown.length :=
      h.longest _ (List.take_prefix ..) (List.length_take_le ..)
    exact (List.prefix_take_iff.mpr ⟨h.front, h.length_le⟩).eq_of_length_le hle
  · rintro rfl
    refine ⟨List.take_prefix .., List.length_take_le .., fun other hother hle => ?_⟩
    exact (List.prefix_take_iff.mpr ⟨hother, hle⟩).length_le

/-! ## Cuts -/

/-- A front of a text has fewer bytes exactly if something is cut off. -/
theorem byteSize_lt_iff_of_front (h : shown <+: text) :
    byteSize shown < byteSize text ↔ shown ≠ text := by
  obtain ⟨left, rfl⟩ := h
  simp [Nat.pos_iff_ne_zero, byteSize_eq_zero_iff]

theorem length_lt_iff_of_front (h : shown <+: text) :
    shown.length < text.length ↔ shown ≠ text := by
  obtain ⟨left, rfl⟩ := h
  simp [List.length_pos_iff]

theorem front_take_firstLine (text : List Char) : (firstLine text).take n <+: text :=
  (List.take_prefix ..).trans (firstLine_isPrefixOf text)

/-- Nothing is cut off exactly from a short text without a newline. -/
theorem take_firstLine_eq_self_iff :
    (firstLine text).take n = text ↔ text.length ≤ n ∧ '\n' ∉ text := by
  constructor
  · intro h
    have hmem : '\n' ∉ (firstLine text).take n := newline_not_mem_take_firstLine text
    have hle : ((firstLine text).take n).length ≤ n := List.length_take_le ..
    rw [h] at hmem hle
    exact ⟨hle, hmem⟩
  · rintro ⟨hle, hmem⟩
    rw [← isFirstLine_iff.mp (.only hmem), List.take_of_length_le hle]

/-- The sizes in bytes decide whether the dots are put. -/
theorem excerpt_eq_of_byteSize (text : List Char) :
    excerpt text =
      if byteSize ((firstLine text).take excerptLength) < byteSize text then
        (firstLine text).take excerptLength ++ ['.', '.', '.']
      else (firstLine text).take excerptLength := by
  simp only [excerpt, byteSize_lt_iff_of_front (front_take_firstLine text),
    length_lt_iff_of_front (front_take_firstLine text)]

theorem excerpt_eq_self (hle : text.length ≤ excerptLength) (hmem : '\n' ∉ text) :
    excerpt text = text := by
  have hwhole : (firstLine text).take excerptLength = text :=
    take_firstLine_eq_self_iff.mpr ⟨hle, hmem⟩
  rw [excerpt, hwhole, if_neg (Nat.lt_irrefl _)]

theorem excerpt_eq_of_cut (h : ¬(text.length ≤ excerptLength ∧ '\n' ∉ text)) :
    excerpt text = (firstLine text).take excerptLength ++ ['.', '.', '.'] := by
  have hcut : (firstLine text).take excerptLength ≠ text := mt take_firstLine_eq_self_iff.mp h
  rw [excerpt, if_pos ((length_lt_iff_of_front (front_take_firstLine text)).mpr hcut)]

theorem newline_not_mem_excerpt (text : List Char) : '\n' ∉ excerpt text := by
  have hmem : '\n' ∉ (firstLine text).take excerptLength := newline_not_mem_take_firstLine text
  simp only [excerpt]
  split <;> simp [hmem]

theorem length_excerpt_le (text : List Char) : (excerpt text).length ≤ excerptLength + 3 := by
  have hle : ((firstLine text).take excerptLength).length ≤ excerptLength := List.length_take_le ..
  simp only [excerpt]
  split
  · rw [List.length_append]
    exact Nat.add_le_add_right hle _
  · exact Nat.le_add_right_of_le hle

end Egg.Text
