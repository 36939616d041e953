-- SUMMARY: The parser accepts exactly the texts of the grammar within the limit, with their tree.
import Egg.Proofs.Parse.Consumed

/-!
# Acceptance

A text that is spelled by an expression is read to that expression, whatever the
reader remembers and wherever it stands, if no word goes on behind the text and the
expression fits below the open lists. With the text behind the reader, which is
spelled by what the reader remembers, this makes the parser and the grammar agree.
-/

namespace Egg.Parse

open Text Grammar

variable {limit : Nat} {frames : List Frame} {rest : List Char}

/-! ## What stands at the front of a spelling, and behind it -/

theorem exists_front_of_spells {s : List Char} {e : Expr} :
    Spells s e → ∃ blanks c t, s = blanks ++ c :: t ∧ Blanks blanks ∧
      (c = '"' ∨ isWordChar c = true)
  | .atom hb hs => by
      obtain ⟨c, s', rfl, hc⟩ := hs.exists_cons
      exact ⟨_, c, s', rfl, hb, hc⟩
  | .callNone hs _ _ | .call hs _ _ _ => by
      obtain ⟨blanks, c, t, rfl, hb, hc⟩ := exists_front_of_spells hs
      exact ⟨blanks, c, _, by simp only [List.append_assoc, List.cons_append]; rfl, hb, hc⟩

theorem exists_front_of_spellsArgs {s : List Char} {args : List Expr} (h : SpellsArgs s args) :
    ∃ blanks c t, s = blanks ++ c :: t ∧ Blanks blanks ∧ (c = '"' ∨ isWordChar c = true) := by
  cases h with
  | one hs => exact exists_front_of_spells hs
  | more hs _ _ =>
    obtain ⟨blanks, c, t, rfl, hb, hc⟩ := exists_front_of_spells hs
    exact ⟨blanks, c, _, by simp only [List.append_assoc, List.cons_append]; rfl, hb, hc⟩

theorem stopsAt_isBlank_cons {c : Char} (h : c = '"' ∨ isWordChar c = true) :
    StopsAt isBlank (c :: rest) := by
  rcases h with rfl | h
  · exact stopsAt_cons.mpr isBlank_quote
  · exact stopsAt_cons.mpr (not_isBlank_of_isWordChar h)

/-- No word goes on where blanks come first. -/
theorem stopsAt_isWordChar_append {blanks : List Char} (hb : Blanks blanks)
    (h : StopsAt isWordChar rest) : StopsAt isWordChar (blanks ++ rest) := by
  cases blanks with
  | nil => exact h
  | cons b blanks => exact stopsAt_cons.mpr (by simp [isWordChar, hb b (by simp)])

theorem two_le_depthArgs {t : List Char} {args : List Expr} (h : SpellsArgs t args) :
    2 ≤ Expr.depthArgs args := by
  cases h with
  | @one _ arg | @more _ arg =>
    have := arg.one_le_depth
    simp only [Expr.depthArgs]
    omega

/-! ## Completeness -/

/-- Blanks in front of an expression do not matter to a reader within the limit. -/
theorem run_missing_append {blanks : List Char} (hlt : frames.length < limit)
    (hb : Blanks blanks) :
    State.run limit ⟨frames, .missing, blanks ++ rest⟩ =
      State.run limit ⟨frames, .missing, rest⟩ := by
  have hskip : skipBlanks (blanks ++ rest) = skipBlanks rest := by
    obtain ⟨blanks', happ, hb', hblank⟩ := skipBlanks_eq_iff.mp (Eq.refl (skipBlanks rest))
    exact skipBlanks_eq_iff.mpr
      ⟨blanks ++ blanks', by rw [List.append_assoc, ← happ], hb.append hb', hblank⟩
  rw [State.run_eq, State.run_eq limit ⟨frames, .missing, rest⟩]
  simp only [State.step, start_of_lt hlt, hskip]

/-- A reader that stands behind an opening bracket, in front of arguments, opens a
    list for them. -/
theorem run_openCall {operator : Expr} {args : List Expr} {blanks t : List Char}
    (hb : Blanks blanks) (ht : SpellsArgs t args) (hlt : frames.length + 1 < limit) :
    State.run limit ⟨frames, .complete operator, blanks ++ '(' :: (t ++ rest)⟩ =
      State.run limit ⟨⟨operator, []⟩ :: frames, .missing, t ++ rest⟩ := by
  obtain ⟨blanks', c, t', rfl, hb', hc⟩ := exists_front_of_spellsArgs ht
  have hparen : c ≠ ')' := by
    rintro rfl
    revert hc
    decide
  have hmove : Moves limit frames (.complete operator) (blanks ++ '(' :: blanks')
      (⟨operator, []⟩ :: frames) .missing (c :: t' ++ rest) :=
    .openCall hb hb' (stopsAt_isBlank_cons hc) (stopsAt_cons.mpr (by simpa using hparen))
  have hrun := run_eq_of_moves hmove
  rw [List.append_assoc, run_missing_append (by simpa using hlt) hb', ← hrun]
  simp

theorem run_comma {blanks : List Char} (frame : Frame) (e : Expr) (hb : Blanks blanks) :
    State.run limit ⟨frame :: frames, .complete e, blanks ++ ',' :: rest⟩ =
      State.run limit ⟨frame.push e :: frames, .missing, rest⟩ := by
  have h : Moves limit (frame :: frames) (.complete e) (blanks ++ [',']) (frame.push e :: frames)
      .missing rest := .comma hb
  simpa using run_eq_of_moves h

theorem run_close {blanks : List Char} (frame : Frame) (e : Expr) (hb : Blanks blanks) :
    State.run limit ⟨frame :: frames, .complete e, blanks ++ ')' :: rest⟩ =
      State.run limit ⟨frames, .complete (frame.push e).close, rest⟩ := by
  have h : Moves limit (frame :: frames) (.complete e) (blanks ++ [')']) frames
      (.complete (frame.push e).close) rest := .close hb
  simpa using run_eq_of_moves h

mutual
/-- A text that spells `e` is read to `e`. -/
theorem run_of_spells {s : List Char} {e : Expr} :
    Spells s e → ∀ (frames : List Frame) (rest : List Char), StopsAt isWordChar rest →
      frames.length + e.depth ≤ limit →
      State.run limit ⟨frames, .missing, s ++ rest⟩ =
        State.run limit ⟨frames, .complete e, rest⟩
  | .atom hb hs, frames, rest, hrest, hdepth => by
      rw [depth_of_spellsAtom hs] at hdepth
      exact run_eq_of_moves (.atom hdepth hb hs (endsAtom_of_stopsAt hrest))
  | @Spells.callNone s operator blanks blanks' hs hb hb', frames, rest, _, hdepth => by
      have hop := run_of_spells hs frames (blanks ++ '(' :: (blanks' ++ ')' :: rest))
        (stopsAt_isWordChar_append hb (stopsAt_cons.mpr (by decide)))
        (by simpa [Expr.depth, Expr.depthArgs] using hdepth)
      have hcall : Moves limit frames (.complete operator) (blanks ++ '(' :: blanks' ++ [')'])
          frames (.complete (.apply operator [])) rest := .callNone hb hb'
      calc State.run limit ⟨frames, .missing, s ++ blanks ++ '(' :: blanks' ++ [')'] ++ rest⟩
        _ = State.run limit
              ⟨frames, .complete operator, blanks ++ '(' :: blanks' ++ [')'] ++ rest⟩ := by
            simpa using hop
        _ = State.run limit ⟨frames, .complete (.apply operator []), rest⟩ :=
            run_eq_of_moves hcall
  | @Spells.call s operator blanks t args blanks' hs hb ht hb', frames, rest, _, hdepth => by
      rw [Expr.depth] at hdepth
      have hop := run_of_spells hs frames (blanks ++ '(' :: (t ++ (blanks' ++ ')' :: rest)))
        (stopsAt_isWordChar_append hb (stopsAt_cons.mpr (by decide))) (by omega)
      have hlt : frames.length + 1 < limit := by
        have := two_le_depthArgs ht
        omega
      calc State.run limit ⟨frames, .missing, s ++ blanks ++ '(' :: t ++ blanks' ++ [')'] ++ rest⟩
        _ = State.run limit
              ⟨frames, .complete operator, blanks ++ '(' :: (t ++ (blanks' ++ ')' :: rest))⟩ := by
            simpa using hop
        _ = State.run limit ⟨⟨operator, []⟩ :: frames, .missing, t ++ (blanks' ++ ')' :: rest)⟩ :=
            run_openCall hb ht hlt
        _ = State.run limit ⟨frames, .complete (.apply operator args), rest⟩ :=
            run_of_spellsArgs ht operator [] frames rest hb' (by omega)

/-- A text that spells `args`, with a closing bracket behind it, is read to the call
    with these arguments behind those that the open list has. -/
theorem run_of_spellsArgs {t : List Char} {args : List Expr} :
    SpellsArgs t args → ∀ (operator : Expr) (acc : List Expr) (frames : List Frame)
      (rest : List Char) {blanks : List Char}, Blanks blanks →
      frames.length + Expr.depthArgs args ≤ limit →
      State.run limit ⟨⟨operator, acc⟩ :: frames, .missing, t ++ (blanks ++ ')' :: rest)⟩ =
        State.run limit ⟨frames, .complete (.apply operator (acc.reverse ++ args)), rest⟩
  | @SpellsArgs.one s arg hs, operator, acc, frames, rest, blanks, hb, hdepth => by
      simp only [Expr.depthArgs] at hdepth
      have harg := run_of_spells hs (⟨operator, acc⟩ :: frames) (blanks ++ ')' :: rest)
        (stopsAt_isWordChar_append hb (stopsAt_cons.mpr (by decide)))
        (by rw [List.length_cons]; omega)
      rw [harg, run_close _ _ hb]
      simp [Frame.push, Frame.close]
  | @SpellsArgs.more s arg blanks' t args hs hb' ht, operator, acc, frames, rest, blanks, hb,
      hdepth => by
      rw [Expr.depthArgs] at hdepth
      have harg := run_of_spells hs (⟨operator, acc⟩ :: frames)
        (blanks' ++ ',' :: (t ++ (blanks ++ ')' :: rest)))
        (stopsAt_isWordChar_append hb' (stopsAt_cons.mpr (by decide)))
        (by rw [List.length_cons]; omega)
      have hargs := run_of_spellsArgs ht operator (arg :: acc) frames rest hb (by omega)
      simp only [List.append_assoc, List.cons_append]
      rw [harg, run_comma _ _ hb']
      simpa [Frame.push] using hargs
end

/-! ## Whole programs -/

theorem whole_eq_ok_iff {source : List Char} {e : Expr} :
    whole limit source = .ok e ↔ leading limit source = .ok (e, []) := by
  unfold whole
  split <;> simp_all

/-- Where a reading ends with an expression, a program has been read, and neither a blank
    nor an opening bracket comes next. -/
theorem Reads.spellsProgram {read : List Char} {e : Expr}
    (h : Reads limit [] .missing read (.ok e) rest) :
    SpellsProgram read e ∧ e.depth ≤ limit ∧ StopsAt isBlank rest ∧ StopsAt (· == '(') rest := by
  obtain ⟨s, frames, focus, blanks, happ, hc, hhalts⟩ := h.exists_halts (consumed_nil limit)
  cases hhalts with
  | finished hb hblank hparen =>
    cases hc with
    | complete hopens hs hdepth =>
      cases hopens
      refine ⟨⟨_, blanks, ?_, hs, hb⟩, by simpa using hdepth, hblank, hparen⟩
      simpa using happ

/-- A whole source is read to `e` exactly if it spells the program `e`, and `e` lies
    within the limit. -/
theorem whole_eq_ok_iff_spells {source : List Char} {e : Expr} :
    whole limit source = .ok e ↔ SpellsProgram source e ∧ e.depth ≤ limit := by
  rw [whole_eq_ok_iff, leading]
  constructor
  · intro h
    obtain ⟨read, what, rest, rfl, hreads⟩ := exists_reads limit [] .missing source
    rw [run_eq_of_reads hreads] at h
    cases what with
    | error fault => cases h
    | ok e' =>
      obtain ⟨rfl, rfl⟩ := Prod.mk.inj (Except.ok.inj h)
      obtain ⟨hspells, hdepth, -, -⟩ := hreads.spellsProgram
      exact ⟨by rwa [List.append_nil], hdepth⟩
  · rintro ⟨⟨s, blanks, rfl, hs, hb⟩, hdepth⟩
    have hrest : StopsAt isWordChar blanks := by
      simpa using stopsAt_isWordChar_append hb stopsAt_nil
    have hend : Reads limit [] (.complete e) blanks (.ok e) [] :=
      .halt (.finished hb stopsAt_nil stopsAt_nil)
    rw [run_of_spells hs [] blanks hrest (by simpa using hdepth)]
    simpa [outcome] using run_eq_of_reads hend

end Egg.Parse

namespace Egg.Expr

open Grammar

theorem parseWithin_eq_ok_iff {limit : Nat} {source : String} {e : Expr} :
    parseWithin limit source = .ok e ↔ SpellsProgram source.toList e ∧ e.depth ≤ limit := by
  rw [← Parse.whole_eq_ok_iff_spells, parseWithin]
  cases Parse.whole limit source.toList with
  | error => exact ⟨nofun, nofun⟩
  | ok =>
    constructor
    · intro h
      exact congrArg Except.ok (Except.ok.inj h)
    · intro h
      exact congrArg Except.ok (Except.ok.inj h)

/-- The parser gives `e` for a source exactly if the source spells the program `e` and
    `e` lies within the limit. So no text spells two programs. -/
theorem parseWithin_eq_ok_iff_spellsProgram :
    (∀ (limit : Nat) (source : String) (e : Expr),
      parseWithin limit source = .ok e ↔ SpellsProgram source.toList e ∧ e.depth ≤ limit) ∧
    (∀ (source : List Char) (e e' : Expr),
      SpellsProgram source e → SpellsProgram source e' → e = e') := by
  refine ⟨fun _ _ _ => parseWithin_eq_ok_iff, ?_⟩
  intro source e e' h h'
  have hwhole := Parse.whole_eq_ok_iff_spells.mpr ⟨h, Nat.le_max_left e.depth e'.depth⟩
  have hwhole' := Parse.whole_eq_ok_iff_spells.mpr ⟨h', Nat.le_max_right e.depth e'.depth⟩
  exact Except.ok.inj (hwhole.symm.trans hwhole')

end Egg.Expr
