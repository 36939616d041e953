-- SUMMARY: The kind of a syntax error is decided by the text in front of it, and its contents by the text from it on.
import Egg.Proofs.Parse.Threshold
import Egg.Proofs.Parse.Viability

/-!
# The kinds of syntax errors

Where a reader stops, the text in front of it tells what it waited for. That can be found
out without the reader, by completing this text. If it is a program as it stands, what
follows is too much. If it is a program with a comma, one more argument and closing brackets
behind it, a comma or a bracket is missing. Otherwise an expression is missing, because a
comma never stands where one has to start.
-/

namespace Egg.Parse

open Text Grammar

variable {limit : Nat} {frames frames' : List Frame} {focus focus' : Focus}
  {read read' rest rest' : List Char} {what : Except Fault Expr}

/-! ## The same reading in front of another text -/

/-- In front of this text every token ends, and a call that is open stays open. -/
structure Breaks (rest : List Char) : Prop where
  word : StopsAt isWordChar rest
  blank : StopsAt isBlank rest
  closing : StopsAt (· == ')') rest

theorem breaks_nil : Breaks [] :=
  ⟨stopsAt_nil, stopsAt_nil, stopsAt_nil⟩

theorem breaks_comma (t : List Char) : Breaks (',' :: t) :=
  ⟨stopsAt_cons.mpr (by decide), stopsAt_cons.mpr (by decide), stopsAt_cons.mpr (by decide)⟩

theorem Moves.append_of_breaks (h : Moves limit frames focus read frames' focus' (read' ++ rest))
    (hbreaks : Breaks rest') : Moves limit frames focus read frames' focus' (read' ++ rest') := by
  cases read' with
  | cons c read' => exact h.congr rfl
  | nil =>
    cases h with
    | atom hlt hb hs _ => exact .atom hlt hb hs (endsAtom_of_stopsAt hbreaks.word)
    | callNone hb hb' => exact .callNone hb hb'
    | openCall hb hb' _ _ => exact .openCall hb hb' hbreaks.blank hbreaks.closing
    | comma hb => exact .comma hb
    | close hb => exact .close hb

/-- A reader comes to the place where its reading ends with any other text behind it that
    breaks what it reads. -/
theorem Reads.exists_run_eq (h : Reads limit frames focus read what rest)
    (hfits : Fits limit frames focus) :
    ∃ frames' focus' blanks, Halts limit frames' focus' blanks what rest ∧
      Fits limit frames' focus' ∧
      ∀ rest', Breaks rest' → State.run limit ⟨frames, focus, read ++ rest'⟩ =
        State.run limit ⟨frames', focus', blanks ++ rest'⟩ := by
  induction h with
  | halt h => exact ⟨_, _, _, h, hfits, fun _ _ => rfl⟩
  | move h _ ih =>
    obtain ⟨frames', focus', blanks, hhalts, hfits', hrun⟩ := ih (h.fits hfits)
    refine ⟨frames', focus', blanks, hhalts, hfits', fun rest' hbreaks => ?_⟩
    rw [List.append_assoc, run_eq_of_moves (h.append_of_breaks hbreaks), hrun rest' hbreaks]

/-! ## How a reading ends -/

/-- What a reading can end with in front of `rest`. Only at the limit it ends without a look at
    what comes next. -/
inductive Ends (limit : Nat) : Except Fault Expr → List Char → Prop where
  | finished {e : Expr} {rest : List Char} : StopsAt isBlank rest → Ends limit (.ok e) rest
  | noSeparator {rest : List Char} : StopsAt isBlank rest →
      StopsAt (fun c => c == '(' || c == ',' || c == ')') rest →
      Ends limit (.error .noSeparator) rest
  | noExpression {rest : List Char} : StopsAt isBlank rest →
      Ends limit (.error .noExpression) rest
  | tooDeep {rest : List Char} : Ends limit (.error (.tooDeep limit)) rest

theorem Reads.ends (h : Reads limit frames focus read what rest) : Ends limit what rest := by
  induction h with
  | halt h =>
    cases h with
    | finished _ hblank _ => exact .finished hblank
    | noSeparator _ hblank hmark => exact .noSeparator hblank hmark
    | noExpression _ _ hblank _ => exact .noExpression hblank
    | tooDeep _ => exact .tooDeep
  | move _ _ ih => exact ih

/-- An error of the grammar is found behind the blanks. -/
theorem Ends.stopsAt_isBlank (h : Ends limit what rest)
    (hwhat : ∀ n, what ≠ .error (.tooDeep n)) : StopsAt isBlank rest := by
  cases h with
  | finished hblank => exact hblank
  | noSeparator hblank _ => exact hblank
  | noExpression hblank => exact hblank
  | tooDeep => exact absurd rfl (hwhat limit)

/-- What ends neither with a program nor behind an argument needs an expression. -/
theorem Ends.eq_noExpression_iff (h : Ends limit what rest)
    (hwhat : ∀ n, what ≠ .error (.tooDeep n)) :
    what = .error .noExpression ↔ (¬ ∃ e, what = .ok e) ∧ what ≠ .error .noSeparator := by
  cases h with
  | finished | noSeparator | noExpression => simp
  | tooDeep => exact absurd rfl (hwhat limit)

/-! ## Completing the text in front of an error -/

theorem Halts.nil (h : Halts limit frames focus read what rest) :
    Halts limit frames focus read what [] := by
  cases h with
  | finished hb _ _ => exact .finished hb stopsAt_nil stopsAt_nil
  | noSeparator hb _ _ => exact .noSeparator hb stopsAt_nil stopsAt_nil
  | noExpression hlt hb _ _ => exact .noExpression hlt hb stopsAt_nil rfl
  | tooDeep hle => exact .tooDeep hle

theorem atom?_comma (t : List Char) : atom? (',' :: t) = none :=
  atom?_eq_none_iff.mpr ⟨stopsAt_cons.mpr (by decide), nofun⟩

/-- A comma is right behind an argument only. -/
theorem Halts.comma (h : Halts limit frames focus read what rest)
    (hwhat : what ≠ .error .noSeparator) (t : List Char) :
    Halts limit frames focus read what (',' :: t) := by
  cases h with
  | finished hb _ _ => exact .finished hb (breaks_comma t).blank (stopsAt_cons.mpr (by decide))
  | noSeparator => exact absurd rfl hwhat
  | noExpression hlt hb _ _ => exact .noExpression hlt hb (breaks_comma t).blank (atom?_comma t)
  | tooDeep hle => exact .tooDeep hle

/-- Behind a complete expression, one bracket for each open list ends the program. -/
theorem exists_run_closings (frames : List Frame) (e : Expr) :
    ∃ e', State.run limit ⟨frames, .complete e, List.replicate frames.length ')'⟩ =
      .ok (e', []) := by
  induction frames generalizing e with
  | nil => exact ⟨e, run_eq_of_reads (.halt (.finished blanks_nil stopsAt_nil stopsAt_nil))⟩
  | cons frame frames ih =>
    obtain ⟨e', he'⟩ := ih (frame.push e).close
    refine ⟨e', ?_⟩
    rw [← he', List.length_cons, List.replicate_succ]
    exact run_close frame e blanks_nil

/-- Behind an argument, a comma and one more argument may come, and the brackets. -/
theorem exists_run_argument {frame : Frame} {e : Expr} {blanks : List Char} (hb : Blanks blanks)
    (hlt : (frame :: frames).length < limit) :
    ∃ e', State.run limit ⟨frame :: frames, .complete e,
      blanks ++ ',' :: 'x' :: List.replicate (frames.length + 1) ')'⟩ = .ok (e', []) := by
  obtain ⟨e', he'⟩ : ∃ e', State.run limit ⟨frame.push e :: frames, .complete (.word "x"),
      List.replicate (frames.length + 1) ')'⟩ = .ok (e', []) :=
    exists_run_closings (frame.push e :: frames) (.word "x")
  refine ⟨e', ?_⟩
  have hatom : Moves limit (frame.push e :: frames) .missing ([] ++ ['x']) (frame.push e :: frames)
      (.complete (.word "x")) (')' :: List.replicate frames.length ')') :=
    .atom hlt blanks_nil spellsAtom_x (endsAtom_of_stopsAt (stopsAt_cons.mpr (by decide)))
  rw [run_comma frame e hb, ← he']
  exact run_eq_of_moves hatom

section Completion

variable (h : Reads limit [] .missing read what rest)
include h

theorem Reads.leading_read : leading limit read = outcome what [] := by
  obtain ⟨frames, focus, blanks, hhalts, -, hrun⟩ := h.exists_run_eq (Nat.zero_le _)
  have hrun := hrun [] breaks_nil
  rwa [List.append_nil, run_eq_of_reads (.halt hhalts.nil)] at hrun

theorem Reads.leading_comma (hwhat : what ≠ .error .noSeparator) (t : List Char) :
    leading limit (read ++ ',' :: t) = outcome what (',' :: t) := by
  obtain ⟨frames, focus, blanks, hhalts, -, hrun⟩ := h.exists_run_eq (Nat.zero_le _)
  rw [leading, hrun _ (breaks_comma t), run_eq_of_reads (.halt (hhalts.comma hwhat t))]

theorem Reads.exists_leading_argument (hwhat : what = .error .noSeparator) :
    ∃ k e, 1 ≤ k ∧ leading limit (read ++ ',' :: 'x' :: List.replicate k ')') = .ok (e, []) := by
  subst hwhat
  obtain ⟨frames, focus, blanks, hhalts, hfits, hrun⟩ := h.exists_run_eq (Nat.zero_le _)
  cases hhalts with
  | @noSeparator frame frames e _ _ hb _ _ =>
    obtain ⟨e', he⟩ := exists_run_argument (e := e) hb hfits
    refine ⟨frames.length + 1, e', Nat.le_add_left .., ?_⟩
    rw [leading, hrun _ (breaks_comma _), he]

/-- The text in front of an error is a program if the rest is too much, and only then. -/
theorem Reads.whole_read_iff : (∃ e, whole limit read = .ok e) ↔ ∃ e, what = .ok e := by
  simp only [whole_eq_ok_iff, h.leading_read]
  cases what <;> simp [outcome]

/-- One more argument may follow if a comma or a bracket is missing, and only then. -/
theorem Reads.whole_argument_iff :
    (∃ k e, 1 ≤ k ∧ whole limit (read ++ ',' :: 'x' :: List.replicate k ')') = .ok e) ↔
      what = .error .noSeparator := by
  simp only [whole_eq_ok_iff]
  constructor
  · rintro ⟨k, e, -, hleading⟩
    refine Classical.byContradiction fun hwhat => ?_
    rw [h.leading_comma hwhat] at hleading
    cases what <;> cases hleading
  · exact h.exists_leading_argument

end Completion

end Egg.Parse

namespace Egg

open Text Parse Grammar

/-! ## What an error tells -/

/-- What the error tells is right of a source that is `front` up to the start of the error,
    and `back` from there on. -/
def ParseError.Describes (e : ParseError) (limit : Nat) (front back : String) : Prop :=
  match e.kind with
  | .unexpectedSyntax remainder =>
    e.span.stop.toNat = (front ++ back).utf8ByteSize ∧
      remainder = String.ofList (excerpt back.toList) ∧ (remainder = "" ↔ back = "")
  | .trailingText remainder =>
    e.span.stop.toNat = (front ++ back).utf8ByteSize ∧
      remainder = String.ofList (excerpt back.toList) ∧ remainder ≠ "" ∧ back ≠ ""
  | .expectedCommaOrParen found =>
    e.span.stop.toNat = e.span.start.toNat + found.elim 0 Char.utf8Size ∧
      found = back.toList.head? ∧ (found = none ↔ back = "") ∧
      ∀ c, found = some c → c ≠ '(' ∧ c ≠ ',' ∧ c ≠ ')'
  | .nestingTooDeep n => e.span.stop = e.span.start ∧ n = limit

theorem Text.byteSize_take_le (n : Nat) (text : List Char) :
    byteSize (text.take n) ≤ byteSize text := by
  conv_rhs => rw [← List.take_append_drop n text, byteSize_append]
  exact Nat.le_add_right ..

theorem Text.byteSize_take_one (text : List Char) :
    byteSize (text.take 1) = text.head?.elim 0 Char.utf8Size := by
  cases text <;> simp

theorem Text.ofList_excerpt_eq_empty_iff {text : List Char} :
    String.ofList (excerpt text) = "" ↔ String.ofList text = "" := by
  rw [String.ofList_eq_empty_iff, String.ofList_eq_empty_iff, excerpt_eq_nil_iff]

variable {limit : Nat} {read rest : List Char} {what : Except Fault Expr}

/-- The report of how a reading has ended describes the source that was read. -/
theorem Parse.Ends.describes (h : Ends limit what rest)
    (hsize : byteSize (read ++ rest) ≤ Span.maxOffset) (hrest : ∀ e, what = .ok e → rest ≠ []) :
    (Stop.report (read ++ rest) ⟨faultOf what, rest⟩).Describes limit (String.ofList read)
      (String.ofList rest) := by
  have hposition : byteSize (read ++ rest) - byteSize rest = byteSize read := by
    rw [byteSize_append, Nat.add_sub_cancel]
  have htotal : (Span.clamp (byteSize (read ++ rest))).toNat =
      (String.ofList read ++ String.ofList rest).utf8ByteSize := by
    rw [toNat_clamp_of_le hsize, ← String.ofList_append, utf8ByteSize_ofList]
  cases h with
  | @finished e _ _ =>
    have hne : String.ofList rest ≠ "" := mt String.ofList_eq_empty_iff.mp (hrest e rfl)
    refine ⟨htotal, ?_, mt ofList_excerpt_eq_empty_iff.mp hne, hne⟩
    rw [String.toList_ofList]
  | noExpression _ =>
    refine ⟨htotal, ?_, ofList_excerpt_eq_empty_iff⟩
    rw [String.toList_ofList]
  | noSeparator _ hmark =>
    refine ⟨?_, ?_, ?_, fun c hc => ?_⟩
    · have hstop : byteSize read + byteSize (rest.take 1) ≤ Span.maxOffset := by
        have hle := byteSize_take_le 1 rest
        rw [byteSize_append] at hsize
        omega
      show (Span.clamp _).toNat = (Span.clamp _).toNat + _
      rw [hposition, toNat_clamp_of_le hstop, toNat_clamp_of_le (by omega), byteSize_take_one]
    · rw [String.toList_ofList]
    · rw [List.head?_eq_none_iff, String.ofList_eq_empty_iff]
    · simpa [and_assoc] using hmark c hc
  | tooDeep => exact ⟨rfl, rfl⟩

section Describes

variable {e : ParseError} {front back : String} (h : e.Describes limit front back)
include h

theorem ParseError.Describes.remainder_eq {remainder : String}
    (hkind : e.kind = .unexpectedSyntax remainder ∨ e.kind = .trailingText remainder) :
    remainder = String.ofList (excerpt back.toList) := by
  unfold Describes at h
  rcases hkind with hkind | hkind
  · rw [hkind] at h
    exact h.2.1
  · rw [hkind] at h
    exact h.2.1

theorem ParseError.Describes.found_eq {found : Option Char}
    (hkind : e.kind = .expectedCommaOrParen found) : found = back.toList.head? := by
  unfold Describes at h
  rw [hkind] at h
  exact h.2.1

theorem ParseError.Describes.start_le_stop (hstart : e.span.start.toNat = front.utf8ByteSize) :
    e.span.start ≤ e.span.stop ∧ e.span.stop.toNat ≤ (front ++ back).utf8ByteSize := by
  rw [UInt32.le_iff_toNat_le, hstart, String.utf8ByteSize_append]
  unfold Describes at h
  split at h
  · have hstop := h.1
    rw [String.utf8ByteSize_append] at hstop
    omega
  · have hstop := h.1
    rw [String.utf8ByteSize_append] at hstop
    omega
  · obtain ⟨hstop, rfl, -⟩ := h
    have hle := byteSize_take_le 1 back.toList
    rw [byteSize_take_one, byteSize_toList] at hle
    omega
  · rw [h.1, hstart]
    omega

end Describes

/-- The kind of the report says how the reading has ended. -/
theorem Parse.Ends.kind_report (h : Ends limit what rest) (source : List Char) :
    let kind := (Stop.report source ⟨faultOf what, rest⟩).kind
    ((∃ remainder, kind = .trailingText remainder) ↔ ∃ e, what = .ok e) ∧
    ((∃ found, kind = .expectedCommaOrParen found) ↔ what = .error .noSeparator) ∧
    ((∃ remainder, kind = .unexpectedSyntax remainder) ↔ what = .error .noExpression) ∧
    ∀ n, kind = .nestingTooDeep n ↔ what = .error (.tooDeep n) := by
  cases h <;> simp [Stop.report, faultOf]

theorem ParseError.isGrammatical_eq_false_iff {e : ParseError} :
    e.isGrammatical = false ↔ ∃ n, e.kind = .nestingTooDeep n := by
  unfold isGrammatical
  split <;> simp_all

namespace Expr

/-- The text is parsed within the limit. -/
def Parses (limit : Nat) (text : String) : Prop :=
  ∃ e, parseWithin limit text = .ok e

/-- A comma, the argument `x` and closing brackets behind the text make a program of it. -/
def TakesArgument (limit : Nat) (front : String) : Prop :=
  ∃ k, 1 ≤ k ∧ Parses limit (front ++ ",x" ++ String.ofList (List.replicate k ')'))

theorem parses_iff {limit : Nat} {text : String} :
    Parses limit text ↔ ∃ e, whole limit text.toList = .ok e :=
  exists_congr fun _ => parseWithin_eq_ok_iff.trans whole_eq_ok_iff_spells.symm

theorem takesArgument_ofList_iff :
    TakesArgument limit (String.ofList read) ↔
      ∃ k e, 1 ≤ k ∧ whole limit (read ++ ',' :: 'x' :: List.replicate k ')') = .ok e := by
  simp [TakesArgument, parses_iff]

/-- A failed parse has a reading that ends where the error starts, and what the error tells is
    right there. -/
theorem exists_reads_describes {limit : Nat} {source : String} {err : ParseError}
    (hsize : source.utf8ByteSize < 2 ^ 32 - 1) (h : parseWithin limit source = .error err) :
    ∃ read what rest, source = String.ofList read ++ String.ofList rest ∧
      Reads limit [] .missing read what rest ∧
      err = Stop.report (read ++ rest) ⟨faultOf what, rest⟩ ∧
      err.span.start.toNat = (String.ofList read).utf8ByteSize ∧
      err.Describes limit (String.ofList read) (String.ofList rest) := by
  obtain ⟨read, what, rest, hsource, hreads, rfl⟩ := exists_reads_of_parseWithin_eq_error h
  have htotal : byteSize (read ++ rest) ≤ Span.maxOffset := by
    rw [← hsource, byteSize_toList]
    exact Nat.le_of_lt hsize
  refine ⟨read, what, rest, ?_, hreads, rfl, ?_, hreads.ends.describes htotal ?_⟩
  · rw [← String.ofList_append, ← hsource, String.ofList_toList]
  · rw [byteSize_append] at htotal
    rw [start_report, toNat_clamp_of_le (Nat.le_of_add_right_le htotal), utf8ByteSize_ofList]
  · rintro e rfl rfl
    rw [parseWithin_eq_of_reads hsource hreads] at h
    cases h

/-- The kind of a syntax error is decided by the text in front of it. If that is a program, the
    rest is too much; if it goes on with a comma, an argument and closing brackets, one of these
    is missing; and otherwise an expression is. What the error tells is the text from there on,
    which starts with no blank, up to its end or as far as the wrong character goes. An error of
    the limit tells the limit and the place. -/
theorem kind_of_parseWithin_eq_error {limit : Nat} {source : String} {err : ParseError}
    (hsize : source.utf8ByteSize < 2 ^ 32 - 1) (h : parseWithin limit source = .error err) :
    ∃ front back, source = front ++ back ∧ err.span.start.toNat = front.utf8ByteSize ∧
      err.span.start ≤ err.span.stop ∧ err.span.stop.toNat ≤ source.utf8ByteSize ∧
      err.Describes limit front back ∧
      (err.isGrammatical = false ↔ ∃ n, err.kind = .nestingTooDeep n) ∧
      ((∀ n, err.kind ≠ .nestingTooDeep n) →
        (∀ c, back.toList.head? = some c → isBlank c = false) ∧
        ((∃ remainder, err.kind = .trailingText remainder) ↔ Parses limit front) ∧
        ((∃ found, err.kind = .expectedCommaOrParen found) ↔ TakesArgument limit front) ∧
        ((∃ remainder, err.kind = .unexpectedSyntax remainder) ↔
          ¬ Parses limit front ∧ ¬ TakesArgument limit front)) := by
  obtain ⟨read, what, rest, rfl, hreads, rfl, hstart, hdescribes⟩ := exists_reads_describes hsize h
  obtain ⟨hle, hstop⟩ := hdescribes.start_le_stop hstart
  obtain ⟨htrailing, hexpected, hunexpected, hdeep⟩ := hreads.ends.kind_report (read ++ rest)
  refine ⟨String.ofList read, String.ofList rest, rfl, hstart, hle, hstop, hdescribes,
    ParseError.isGrammatical_eq_false_iff, fun hkind => ?_⟩
  have hwhat : ∀ n, what ≠ .error (.tooDeep n) := fun n hn => hkind n ((hdeep n).mpr hn)
  rw [htrailing, hexpected, hunexpected, parses_iff, takesArgument_ofList_iff,
    String.toList_ofList, String.toList_ofList, hreads.whole_read_iff, hreads.whole_argument_iff]
  exact ⟨hreads.ends.stopsAt_isBlank hwhat, Iff.rfl, Iff.rfl,
    hreads.ends.eq_noExpression_iff hwhat⟩

/-- In front of `b` a comma is missing, and one more argument may follow. -/
theorem kind_missing_comma :
    parseWithin 2 "f(é b)" = .error ⟨.expectedCommaOrParen (some 'b'), .ofOffsets 5 6⟩ ∧
    ∃ front back, "f(é b)" = front ++ back ∧ front.utf8ByteSize = 5 ∧ TakesArgument 2 front ∧
      ¬ Parses 2 front := by
  have herr : parseWithin 2 "f(é b)" =
      .error ⟨.expectedCommaOrParen (some 'b'), .ofOffsets 5 6⟩ := by
    decide +kernel
  obtain ⟨front, back, hsplit, hstart, -, -, -, -, hkind⟩ :=
    kind_of_parseWithin_eq_error (by decide) herr
  obtain ⟨-, htrailing, hexpected, -⟩ := hkind nofun
  refine ⟨herr, front, back, hsplit, hstart.symm, hexpected.mp ⟨_, rfl⟩, fun hparses => ?_⟩
  obtain ⟨remainder, hremainder⟩ := htrailing.mpr hparses
  cases hremainder

end Expr

end Egg
