-- SUMMARY: Each token reader recognises exactly the tokens of the grammar, and says where they end.
import Egg.Proofs.Grammar.Basic

/-!
# Tokens of the grammar

The readers of `Egg/Parse/Token.lean` take the longest token at the front of a
source, while the grammar has no notion of where a token ends. Both are tied
together here: a reader gives back a token of the grammar, and a token is found
again if the character behind it cannot belong to it.
-/

namespace Egg.Grammar

open Text Parse

/-! ## Character classes -/

theorem toNat_of_isUpper {c : Char} (h : c.isUpper = true) : 65 ≤ c.toNat ∧ c.toNat ≤ 90 :=
  of_decide_eq_true h

theorem toNat_of_isLower {c : Char} (h : c.isLower = true) : 97 ≤ c.toNat ∧ c.toNat ≤ 122 := by
  obtain ⟨hlower, hupper⟩ := (Bool.and_eq_true ..).mp h
  exact ⟨of_decide_eq_true hlower, of_decide_eq_true hupper⟩

theorem toNat_of_isAlphanum {c : Char} (h : c.isAlphanum = true) :
    48 ≤ c.toNat ∧ c.toNat ≤ 57 ∨ 65 ≤ c.toNat ∧ c.toNat ≤ 90 ∨ 97 ≤ c.toNat ∧ c.toNat ≤ 122 := by
  rcases (Bool.or_eq_true ..).mp h with halpha | hdigit
  · rcases (Bool.or_eq_true ..).mp halpha with hupper | hlower
    · exact .inr (.inl (toNat_of_isUpper hupper))
    · exact .inr (.inr (toNat_of_isLower hlower))
  · exact .inl (Char.isDigit_iff_toNat.mp hdigit)

/-- A letter or a digit of ASCII may stand in a word. -/
theorem isWordChar_of_isAlphanum {c : Char} (h : c.isAlphanum = true) : isWordChar c = true := by
  have hc := toNat_of_isAlphanum h
  have hne {d : Char} (hd : c.toNat ≠ d.toNat) : c ≠ d := fun e => hd (e ▸ rfl)
  have hblank : isBlank c = false := by
    have hspace : inRanges whiteSpace c = false := by
      simp only [inRanges, whiteSpace, List.any_eq_false, List.forall_mem_cons]
      simp
      omega
    simp [isBlank, hspace, hne (d := '\uFEFF') (by simp; omega)]
  have hmark : isMark c = false := by
    simp only [isMark, Bool.or_eq_false_iff, beq_eq_false_iff_ne]
    refine ⟨⟨⟨⟨hne ?_, hne ?_⟩, hne ?_⟩, hne ?_⟩, hne ?_⟩ <;> simp <;> omega
  simp [isWordChar, hblank, hmark]

theorem isWordChar_of_isDigit {c : Char} (h : c.isDigit = true) : isWordChar c = true :=
  isWordChar_of_isAlphanum (by simp [Char.isAlphanum, h])

theorem isWordChar_of_goesOn {c : Char} (h : goesOn c = true) : isWordChar c = true := by
  simp only [goesOn, Bool.or_eq_true, beq_iff_eq] at h
  rcases h with h | rfl
  · exact isWordChar_of_isAlphanum (by simp [Char.isAlphanum, h])
  · decide

/-- No character that has the property `p` stands at the front of `rest`. -/
def StopsAt (p : Char → Bool) (rest : List Char) : Prop :=
  ∀ c, rest.head? = some c → p c = false

@[simp] theorem stopsAt_nil {p : Char → Bool} : StopsAt p [] := nofun

@[simp] theorem stopsAt_cons {p : Char → Bool} {c : Char} {rest : List Char} :
    StopsAt p (c :: rest) ↔ p c = false := by
  simp [StopsAt]

theorem StopsAt.mono {p q : Char → Bool} {rest : List Char} (h : StopsAt q rest)
    (hpq : ∀ c, p c = true → q c = true) : StopsAt p rest := by
  intro c hc
  have := h c hc
  cases hp : p c with
  | false => rfl
  | true => simp [hpq c hp] at this

theorem StopsAt.congr {p : Char → Bool} {rest rest' : List Char} (h : StopsAt p rest)
    (hhead : rest.head? = rest'.head?) : StopsAt p rest' := by
  intro c hc
  exact h c (hhead.trans hc)

theorem exists_cons_of_not_stopsAt {d : Char} {rest : List Char} (h : ¬ StopsAt (· == d) rest) :
    ∃ rest', rest = d :: rest' := by
  cases rest with
  | nil => exact absurd stopsAt_nil h
  | cons c rest =>
    obtain rfl : c = d := by simpa using h
    exact ⟨rest, rfl⟩

/-- A run of characters and what follows it are the two halves of a source, if the
    run has the property throughout and cannot be longer. -/
theorem takeWhile_dropWhile_iff {p : Char → Bool} {source run rest : List Char} :
    source.takeWhile p = run ∧ source.dropWhile p = rest ↔
      source = run ++ rest ∧ (∀ c ∈ run, p c = true) ∧ StopsAt p rest := by
  constructor
  · rintro ⟨rfl, rfl⟩
    refine ⟨List.takeWhile_append_dropWhile.symm, fun c hc => ?_, fun c hc => ?_⟩
    · exact List.all_eq_true.mp List.all_takeWhile c hc
    · have := List.head?_dropWhile_not p source
      simpa [hc] using this
  · rintro ⟨rfl, hrun, hrest⟩
    rw [List.takeWhile_append_of_pos hrun, List.dropWhile_append_of_pos hrun]
    cases rest with
    | nil => simp
    | cons c rest =>
      have hc := stopsAt_cons.mp hrest
      simp [hc]

/-! ## Blanks -/

theorem blanks_nil : Blanks [] := nofun

theorem Blanks.append {s t : List Char} (hs : Blanks s) (ht : Blanks t) : Blanks (s ++ t) := by
  intro c hc
  rcases List.mem_append.mp hc with hc | hc
  · exact hs c hc
  · exact ht c hc

/-- What skipping blanks leaves is known by its front. -/
theorem skipBlanks_eq_iff {source rest : List Char} :
    skipBlanks source = rest ↔
      ∃ blanks, source = blanks ++ rest ∧ Blanks blanks ∧ StopsAt isBlank rest := by
  constructor
  · intro h
    exact ⟨_, takeWhile_dropWhile_iff.mp ⟨rfl, h⟩⟩
  · rintro ⟨blanks, h⟩
    exact (takeWhile_dropWhile_iff.mpr h).2

theorem skipBlanks_append {blanks rest : List Char} (hb : Blanks blanks)
    (hr : StopsAt isBlank rest) : skipBlanks (blanks ++ rest) = rest :=
  skipBlanks_eq_iff.mpr ⟨blanks, rfl, hb, hr⟩

/-! ## The three kinds of token -/

theorem quoted?_eq_some_iff {source contents rest : List Char} :
    quoted? source = some (contents, rest) ↔
      source = '"' :: contents ++ '"' :: rest ∧ '"' ∉ contents := by
  constructor
  · intro h
    refine ⟨eq_of_quoted? h, ?_⟩
    intro hmem
    unfold quoted? at h
    split at h
    · split at h
      · obtain ⟨rfl, -⟩ := Prod.mk.inj (Option.some.inj h)
        simpa using List.all_eq_true.mp List.all_takeWhile _ hmem
      · cases h
    · cases h
  · rintro ⟨rfl, hmem⟩
    have hspan : (contents ++ '"' :: rest).takeWhile (· != '"') = contents ∧
        (contents ++ '"' :: rest).dropWhile (· != '"') = '"' :: rest := by
      refine takeWhile_dropWhile_iff.mpr ⟨rfl, fun c hc => ?_, by simp⟩
      simpa using ne_of_mem_of_not_mem hc hmem
    simp [quoted?, hspan.1, hspan.2]

/-- There is no text at the front of a source without a quote there, and none if
    the quote is not closed. -/
theorem quoted?_eq_none_iff {source : List Char} :
    quoted? source = none ↔ ∀ body, source = '"' :: body → '"' ∉ body := by
  constructor
  · rintro h body rfl hmem
    obtain ⟨contents, rest, rfl, hc⟩ := List.eq_append_cons_of_mem hmem
    have hq : quoted? ('"' :: (contents ++ '"' :: rest)) = some (contents, rest) :=
      quoted?_eq_some_iff.mpr ⟨rfl, hc⟩
    rw [h] at hq
    cases hq
  · intro h
    cases hq : quoted? source with
    | none => rfl
    | some found =>
      obtain ⟨contents, rest⟩ := found
      have := h _ (quoted?_eq_some_iff.mp hq).1
      simp at this

theorem endsDigits_iff {rest : List Char} : endsDigits rest = true ↔
    StopsAt (fun c => c.isDigit || goesOn c) rest := by
  cases rest with
  | nil => simp [endsDigits]
  | cons c rest =>
    rw [stopsAt_cons, endsDigits, Bool.not_eq_true', goesOn, Char.isAlphanum,
      Bool.or_assoc, Bool.or_left_comm]

theorem digits?_eq_some_iff {source digits rest : List Char} :
    digits? source = some (digits, rest) ↔
      source = digits ++ rest ∧ digits ≠ [] ∧ (∀ c ∈ digits, c.isDigit = true) ∧
        StopsAt (fun c => c.isDigit || goesOn c) rest := by
  constructor
  · intro h
    unfold digits? at h
    split at h
    · cases h
    · next hne =>
      split at h
      · next hend =>
        obtain ⟨rfl, rfl⟩ := Prod.mk.inj (Option.some.inj h)
        obtain ⟨happ, hrun, -⟩ := takeWhile_dropWhile_iff.mp ⟨rfl, rfl⟩
        exact ⟨happ, hne, hrun, endsDigits_iff.mp hend⟩
      · cases h
  · rintro ⟨happ, hne, hrun, hend⟩
    have hspan := takeWhile_dropWhile_iff.mpr
      ⟨happ, hrun, hend.mono fun c hc => by simp [hc]⟩
    unfold digits?
    rw [hspan.1, hspan.2]
    cases digits with
    | nil => exact absurd rfl hne
    | cons c digits => simp [endsDigits_iff.mpr hend]

theorem word?_eq_some_iff {source word rest : List Char} :
    word? source = some (word, rest) ↔
      source = word ++ rest ∧ word ≠ [] ∧ (∀ c ∈ word, isWordChar c = true) ∧
        StopsAt isWordChar rest := by
  constructor
  · intro h
    unfold word? at h
    split at h
    · cases h
    · next hne =>
      obtain ⟨rfl, rfl⟩ := Prod.mk.inj (Option.some.inj h)
      obtain ⟨happ, hrun, hend⟩ := takeWhile_dropWhile_iff.mp ⟨rfl, rfl⟩
      exact ⟨happ, hne, hrun, hend⟩
  · rintro ⟨happ, hne, hrun, hend⟩
    have hspan := takeWhile_dropWhile_iff.mpr ⟨happ, hrun, hend⟩
    unfold word?
    rw [hspan.1, hspan.2]
    cases word with
    | nil => exact absurd rfl hne
    | cons c word => rfl

/-- There is no word at the front of a source exactly if no word character stands
    there. -/
theorem word?_eq_none_iff {source : List Char} :
    word? source = none ↔ StopsAt isWordChar source := by
  unfold word?
  cases source with
  | nil => simp
  | cons c source =>
    cases hc : isWordChar c <;> simp [hc]

/-- A run of word characters is no number exactly if it starts with no digit, or if
    something in it goes on behind the digits. -/
theorem digits?_eq_none_iff_of_word {word rest : List Char} (hne : word ≠ [])
    (hrun : ∀ c ∈ word, isWordChar c = true) (hend : StopsAt isWordChar rest) :
    digits? (word ++ rest) = none ↔ word.takeWhile Char.isDigit = [] ∨
      ∃ c, (word.dropWhile Char.isDigit).head? = some c ∧ goesOn c = true := by
  obtain ⟨happ, hdigits, hstop⟩ :=
    takeWhile_dropWhile_iff.mp ⟨Eq.refl (word.takeWhile Char.isDigit), rfl⟩
  generalize word.takeWhile Char.isDigit = digits at *
  generalize word.dropWhile Char.isDigit = more at *
  subst happ
  cases more with
  | nil =>
    -- The word is digits only, and nothing in it goes on.
    have hd : digits? (digits ++ [] ++ rest) = some (digits, rest) := by
      refine digits?_eq_some_iff.mpr ⟨by simp, by simpa using hne, hdigits, ?_⟩
      refine hend.mono ?_
      intro c hc
      rcases (Bool.or_eq_true ..).mp hc with hc | hc
      · exact isWordChar_of_isDigit hc
      · exact isWordChar_of_goesOn hc
    rw [hd]
    simpa using hne
  | cons c more =>
    have hc : c.isDigit = false := stopsAt_cons.mp hstop
    have hspan := takeWhile_dropWhile_iff.mpr
      ⟨List.append_assoc digits (c :: more) rest, hdigits, stopsAt_cons.mpr hc⟩
    unfold digits?
    rw [hspan.1, hspan.2]
    cases digits with
    | nil => simp
    | cons d digits =>
      have hends : endsDigits (c :: (more ++ rest)) = !goesOn c := by
        simp [endsDigits, Char.isAlphanum, goesOn, hc]
      simp [hends]

/-! ## Atoms -/

/-- The atom `e` cannot be longer than it is in front of `rest`. A text always
    ends with its quote. -/
def EndsAtom : Expr → List Char → Prop
  | .literal (.number _), rest => StopsAt (fun c => c.isDigit || goesOn c) rest
  | .word _, rest => StopsAt isWordChar rest
  | _, _ => True

/-- No token goes on where no word goes on. -/
theorem endsAtom_of_stopsAt {e : Expr} {rest : List Char} (h : StopsAt isWordChar rest) :
    EndsAtom e rest := by
  unfold EndsAtom
  split
  · refine h.mono ?_
    intro c hc
    rcases (Bool.or_eq_true ..).mp hc with hc | hc
    · exact isWordChar_of_isDigit hc
    · exact isWordChar_of_goesOn hc
  · exact h
  · trivial

/-- Whether an atom ends depends on the next character only. -/
theorem EndsAtom.congr {e : Expr} {rest rest' : List Char} (h : EndsAtom e rest)
    (hhead : rest.head? = rest'.head?) : EndsAtom e rest' := by
  unfold EndsAtom StopsAt at *
  split <;> simp_all

/-- What stands at the front of an atom. -/
theorem SpellsAtom.exists_cons {s : List Char} {e : Expr} (h : SpellsAtom s e) :
    ∃ c s', s = c :: s' ∧ (c = '"' ∨ isWordChar c = true) := by
  cases h with
  | text _ => exact ⟨'"', _, rfl, .inl rfl⟩
  | number hne hd =>
    obtain ⟨c, s', rfl⟩ := List.exists_cons_of_ne_nil hne
    exact ⟨c, s', rfl, .inr (isWordChar_of_isDigit (hd c (by simp)))⟩
  | word hw =>
    obtain ⟨c, s', rfl⟩ := List.exists_cons_of_ne_nil hw.ne_nil
    exact ⟨c, s', rfl, .inr (hw.isWordChar c (by simp))⟩

theorem quoted?_eq_none_of_isWordChar {c : Char} {source : List Char} (h : isWordChar c = true) :
    quoted? (c :: source) = none := by
  refine quoted?_eq_none_iff.mpr ?_
  intro body hbody
  obtain ⟨rfl, -⟩ := List.cons.inj hbody
  exact absurd h (by decide)

/-- The reader finds an atom exactly if the grammar spells one at the front of the
    source and it ends there. -/
theorem atom?_eq_some_iff {source rest : List Char} {e : Expr} :
    atom? source = some (e, rest) ↔
      ∃ s, source = s ++ rest ∧ SpellsAtom s e ∧ EndsAtom e rest := by
  constructor
  · intro h
    unfold atom? at h
    split at h
    · next contents rest' hq =>
      obtain ⟨rfl, rfl⟩ := Prod.mk.inj (Option.some.inj h)
      obtain ⟨rfl, hmem⟩ := quoted?_eq_some_iff.mp hq
      exact ⟨_, by simp, .text hmem, trivial⟩
    · split at h
      · next digits rest' hd =>
        obtain ⟨rfl, rfl⟩ := Prod.mk.inj (Option.some.inj h)
        obtain ⟨rfl, hne, hdigits, hend⟩ := digits?_eq_some_iff.mp hd
        exact ⟨digits, rfl, .number hne hdigits, hend⟩
      · next hd =>
        split at h
        · next word rest' hw =>
          obtain ⟨rfl, rfl⟩ := Prod.mk.inj (Option.some.inj h)
          obtain ⟨rfl, hne, hrun, hend⟩ := word?_eq_some_iff.mp hw
          have hdigits := (digits?_eq_none_iff_of_word hne hrun hend).mp hd
          exact ⟨word, rfl, .word ⟨hne, hrun, hdigits⟩, hend⟩
        · cases h
  · rintro ⟨s, rfl, hs, hend⟩
    unfold atom?
    cases hs with
    | @text contents hmem =>
      have hq : quoted? ('"' :: contents ++ ['"'] ++ rest) = some (contents, rest) :=
        quoted?_eq_some_iff.mpr ⟨by simp, hmem⟩
      rw [hq]
    | number hne hdigits =>
      have hd := digits?_eq_some_iff.mpr ⟨rfl, hne, hdigits, hend⟩
      have hq : quoted? (s ++ rest) = none := by
        obtain ⟨c, s', rfl⟩ := List.exists_cons_of_ne_nil hne
        exact quoted?_eq_none_of_isWordChar (isWordChar_of_isDigit (hdigits c (by simp)))
      rw [hq, hd]
    | word hw =>
      have hword := word?_eq_some_iff.mpr ⟨rfl, hw.ne_nil, hw.isWordChar, hend⟩
      have hd := (digits?_eq_none_iff_of_word hw.ne_nil hw.isWordChar hend).mpr hw.digits
      have hq : quoted? (s ++ rest) = none := by
        obtain ⟨c, s', rfl⟩ := List.exists_cons_of_ne_nil hw.ne_nil
        exact quoted?_eq_none_of_isWordChar (hw.isWordChar c (by simp))
      rw [hq, hd, hword]

/-- The reader finds no atom exactly if no word starts there, and if a text that
    starts there is not closed. -/
theorem atom?_eq_none_iff {source : List Char} :
    atom? source = none ↔
      StopsAt isWordChar source ∧ ∀ body, source = '"' :: body → '"' ∉ body := by
  rw [← word?_eq_none_iff, ← quoted?_eq_none_iff]
  constructor
  · intro h
    unfold atom? at h
    split at h
    · cases h
    · next hq =>
      split at h
      · cases h
      · split at h
        · cases h
        · next hw => exact ⟨hw, hq⟩
  · rintro ⟨hw, hq⟩
    have hd : digits? source = none := by
      cases hd : digits? source with
      | none => rfl
      | some found =>
        obtain ⟨rfl, hne, hdigits, -⟩ := digits?_eq_some_iff.mp hd
        obtain ⟨c, s', hs⟩ := List.exists_cons_of_ne_nil hne
        have := word?_eq_none_iff.mp hw
        rw [hs, List.cons_append, stopsAt_cons,
          isWordChar_of_isDigit (hdigits c (by simp [hs]))] at this
        cases this
    simp [atom?, hq, hd, hw]

end Egg.Grammar
