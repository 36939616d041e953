-- SUMMARY: What the reader does, as a relation between the text it reads and what it remembers.
import Egg.Proofs.Grammar.Token

/-!
# Readings

The reader of `Egg/Parse/State.lean` is a function of the whole rest of the source.
A *reading* is the same thing seen from the text that was read: `Reads` chains the
moves of the reader and ends with a halt, and every move and every halt says how
much of the rest it looks at. That is one character at most, a text without its
closing quote apart.
-/

namespace Egg.Parse

open Text Grammar

/-! ## One move, and the end -/

/-- In front of `rest`, a reader with `frames` and `focus` reads the text `read`,
    and then has the second frames and the second focus. -/
inductive Moves (limit : Nat) :
    List Frame → Focus → List Char → List Frame → Focus → List Char → Prop where
  | atom {frames blanks s e rest} : frames.length < limit → Blanks blanks → SpellsAtom s e →
      EndsAtom e rest →
      Moves limit frames .missing (blanks ++ s) frames (.complete e) rest
  | callNone {frames e blanks blanks' rest} : Blanks blanks → Blanks blanks' →
      Moves limit frames (.complete e) (blanks ++ '(' :: blanks' ++ [')'])
        frames (.complete (.apply e [])) rest
  | openCall {frames e blanks blanks' rest} : Blanks blanks → Blanks blanks' →
      StopsAt isBlank rest → StopsAt (· == ')') rest →
      Moves limit frames (.complete e) (blanks ++ '(' :: blanks') (⟨e, []⟩ :: frames) .missing rest
  | comma {frame frames e blanks rest} : Blanks blanks →
      Moves limit (frame :: frames) (.complete e) (blanks ++ [','])
        (frame.push e :: frames) .missing rest
  | close {frame frames e blanks rest} : Blanks blanks →
      Moves limit (frame :: frames) (.complete e) (blanks ++ [')'])
        frames (.complete (frame.push e).close) rest

/-- In front of `rest`, a reader with `frames` and `focus` reads the text `read` and
    ends there, with an expression or with a fault. -/
inductive Halts (limit : Nat) :
    List Frame → Focus → List Char → Except Fault Expr → List Char → Prop where
  | finished {e blanks rest} : Blanks blanks → StopsAt isBlank rest → StopsAt (· == '(') rest →
      Halts limit [] (.complete e) blanks (.ok e) rest
  | noSeparator {frame frames e blanks rest} : Blanks blanks → StopsAt isBlank rest →
      StopsAt (fun c => c == '(' || c == ',' || c == ')') rest →
      Halts limit (frame :: frames) (.complete e) blanks (.error .noSeparator) rest
  | noExpression {frames blanks rest} : frames.length < limit → Blanks blanks →
      StopsAt isBlank rest → atom? rest = none →
      Halts limit frames .missing blanks (.error .noExpression) rest
  | tooDeep {frames rest} : limit ≤ frames.length →
      Halts limit frames .missing [] (.error (.tooDeep limit)) rest

/-- In front of `rest`, a reader with `frames` and `focus` reads on over the text
    `read` until it ends. -/
inductive Reads (limit : Nat) :
    List Frame → Focus → List Char → Except Fault Expr → List Char → Prop where
  | halt {frames focus read what rest} : Halts limit frames focus read what rest →
      Reads limit frames focus read what rest
  | move {frames focus read frames' focus' read' what rest} :
      Moves limit frames focus read frames' focus' (read' ++ rest) →
      Reads limit frames' focus' read' what rest →
      Reads limit frames focus (read ++ read') what rest

/-- The result of a reader that ends in front of `rest`. -/
def outcome : Except Fault Expr → List Char → Except Stop (Expr × List Char)
  | .ok e, rest => .ok (e, rest)
  | .error fault, rest => .error ⟨fault, rest⟩

/-! ## The step function and the moves -/

variable {limit : Nat} {frames frames' : List Frame} {focus focus' : Focus}
  {source read rest rest' : List Char} {what : Except Fault Expr}

theorem start_of_le (h : limit ≤ frames.length) :
    start limit frames source = .stopped ⟨.tooDeep limit, source⟩ := by
  simp [start, Guard.enter, Nat.not_lt.mpr h]

theorem start_of_lt (h : frames.length < limit) :
    start limit frames source =
      match atom? (skipBlanks source) with
      | some (e, rest) => .next ⟨frames, .complete e, rest⟩
      | none => .stopped ⟨.noExpression, skipBlanks source⟩ := by
  cases hatom : atom? (skipBlanks source) <;> simp [start, Guard.enter, h, hatom]

theorem isBlank_quote : isBlank '"' = false := by decide

theorem stopsAt_isBlank_of_spellsAtom {s : List Char} {e : Expr} (h : SpellsAtom s e)
    (rest : List Char) : StopsAt isBlank (s ++ rest) := by
  obtain ⟨c, s', rfl, rfl | hc⟩ := h.exists_cons
  · exact stopsAt_cons.mpr isBlank_quote
  · exact stopsAt_cons.mpr (not_isBlank_of_isWordChar hc)

theorem step_eq_of_moves (h : Moves limit frames focus read frames' focus' rest) :
    State.step limit ⟨frames, focus, read ++ rest⟩ = .next ⟨frames', focus', rest⟩ := by
  cases h with
  | @atom _ blanks s e _ hlt hb hs hend =>
    have hskip : skipBlanks (blanks ++ s ++ rest) = s ++ rest := by
      rw [List.append_assoc]
      exact skipBlanks_append hb (stopsAt_isBlank_of_spellsAtom hs rest)
    have hatom : atom? (s ++ rest) = some (e, rest) := atom?_eq_some_iff.mpr ⟨s, rfl, hs, hend⟩
    simp only [State.step, start_of_lt hlt, hskip, hatom]
  | @callNone _ e blanks blanks' _ hb hb' =>
    have hskip : skipBlanks (blanks ++ '(' :: blanks' ++ [')'] ++ rest) =
        '(' :: (blanks' ++ ')' :: rest) := by
      simpa using skipBlanks_append hb (stopsAt_cons.mpr (by decide))
    have hskip' : skipBlanks (blanks' ++ ')' :: rest) = ')' :: rest :=
      skipBlanks_append hb' (stopsAt_cons.mpr (by decide))
    simp only [State.step, proceed, hskip, openCall, hskip']
  | @openCall _ e blanks blanks' _ hb hb' hblank hparen =>
    have hskip : skipBlanks (blanks ++ '(' :: blanks' ++ rest) = '(' :: (blanks' ++ rest) := by
      simpa using skipBlanks_append hb (stopsAt_cons.mpr (by decide))
    have hopen : openCall frames e (blanks' ++ rest) = ⟨⟨e, []⟩ :: frames, .missing, rest⟩ := by
      unfold openCall
      rw [skipBlanks_append hb' hblank]
      split
      · simp at hparen
      · rfl
    simp only [State.step, proceed, hskip, hopen]
  | @comma _ _ e blanks _ hb =>
    have hskip : skipBlanks (blanks ++ [','] ++ rest) = ',' :: rest := by
      simpa using skipBlanks_append hb (stopsAt_cons.mpr (by decide))
    simp only [State.step, proceed, hskip]
  | @close _ _ e blanks _ hb =>
    have hskip : skipBlanks (blanks ++ [')'] ++ rest) = ')' :: rest := by
      simpa using skipBlanks_append hb (stopsAt_cons.mpr (by decide))
    simp only [State.step, proceed, hskip]

/-- What a step leads to when the reader ends. -/
def Step.ofOutcome : Except Fault Expr → List Char → Step
  | .ok e, rest => .finished e rest
  | .error fault, rest => .stopped ⟨fault, rest⟩

theorem step_eq_of_halts (h : Halts limit frames focus read what rest) :
    State.step limit ⟨frames, focus, read ++ rest⟩ = .ofOutcome what rest := by
  cases h with
  | finished hb hblank hparen =>
    simp only [State.step, proceed, skipBlanks_append hb hblank]
    split
    · simp at hparen
    · rfl
    · simp_all
    · simp_all
    · simp_all
  | noSeparator hb hblank hmark =>
    simp only [State.step, proceed, skipBlanks_append hb hblank]
    split
    · simp at hmark
    · simp_all
    · simp at hmark
    · simp at hmark
    · rfl
  | noExpression hlt hb hblank hatom =>
    simp only [State.step, start_of_lt hlt, skipBlanks_append hb hblank, hatom, Step.ofOutcome]
  | tooDeep hle => simp only [State.step, List.nil_append, start_of_le hle, Step.ofOutcome]

theorem Moves.ne_nil (h : Moves limit frames focus read frames' focus' rest) : read ≠ [] := by
  cases h with
  | atom _ _ hs _ =>
    obtain ⟨c, s', rfl, -⟩ := hs.exists_cons
    simp
  | callNone | openCall | comma | close => simp

/-- A reader moves or ends, whatever it remembers and whatever the rest is. -/
theorem exists_moves_or_halts (limit : Nat) (frames : List Frame) (focus : Focus)
    (source : List Char) :
    (∃ read frames' focus' rest,
        source = read ++ rest ∧ Moves limit frames focus read frames' focus' rest) ∨
      ∃ read what rest, source = read ++ rest ∧ Halts limit frames focus read what rest := by
  obtain ⟨blanks, hsource, hb, hblank⟩ := skipBlanks_eq_iff.mp (Eq.refl (skipBlanks source))
  cases focus with
  | missing =>
    by_cases hlt : frames.length < limit
    · cases hatom : atom? (skipBlanks source) with
      | none => exact .inr ⟨_, _, _, hsource, .noExpression hlt hb hblank hatom⟩
      | some found =>
        obtain ⟨s, happ, hs, hend⟩ := atom?_eq_some_iff.mp hatom
        exact .inl ⟨_, _, _, _, by rw [hsource, happ, List.append_assoc],
          .atom hlt hb hs hend⟩
    · exact .inr ⟨[], _, source, rfl, .tooDeep (Nat.not_lt.mp hlt)⟩
  | complete e =>
    generalize skipBlanks source = after at *
    by_cases hopen : StopsAt (· == '(') after
    · cases frames with
      | nil => exact .inr ⟨_, _, _, hsource, .finished hb hblank hopen⟩
      | cons frame frames =>
        by_cases hcomma : StopsAt (· == ',') after
        · by_cases hclose : StopsAt (· == ')') after
          · refine .inr ⟨_, _, _, hsource, .noSeparator hb hblank ?_⟩
            intro c hc
            simp [hopen c hc, hcomma c hc, hclose c hc]
          · obtain ⟨after', rfl⟩ := exists_cons_of_not_stopsAt hclose
            exact .inl ⟨_, _, _, after', by simp [hsource], .close hb⟩
        · obtain ⟨after', rfl⟩ := exists_cons_of_not_stopsAt hcomma
          exact .inl ⟨_, _, _, after', by simp [hsource], .comma hb⟩
    · obtain ⟨after', rfl⟩ := exists_cons_of_not_stopsAt hopen
      obtain ⟨blanks', hafter, hb', hblank'⟩ := skipBlanks_eq_iff.mp (Eq.refl (skipBlanks after'))
      generalize skipBlanks after' = after at *
      by_cases hclose : StopsAt (· == ')') after
      · exact .inl ⟨_, _, _, _, by simp [hsource, hafter], .openCall hb hb' hblank' hclose⟩
      · obtain ⟨after'', rfl⟩ := exists_cons_of_not_stopsAt hclose
        exact .inl ⟨_, _, _, after'', by simp [hsource, hafter], .callNone hb hb'⟩

/-! ## The run function and the readings -/

theorem run_eq_of_moves (h : Moves limit frames focus read frames' focus' rest) :
    State.run limit ⟨frames, focus, read ++ rest⟩ = State.run limit ⟨frames', focus', rest⟩ := by
  rw [State.run_eq, step_eq_of_moves h]

theorem run_eq_of_reads (h : Reads limit frames focus read what rest) :
    State.run limit ⟨frames, focus, read ++ rest⟩ = outcome what rest := by
  induction h with
  | @halt _ _ _ what _ h =>
    rw [State.run_eq, step_eq_of_halts h]
    cases what <;> rfl
  | move h _ ih =>
    rw [List.append_assoc, run_eq_of_moves h, ih]

/-- Every reader has a reading. It ends because every move reads something. -/
theorem exists_reads (limit : Nat) (frames : List Frame) (focus : Focus) (source : List Char) :
    ∃ read what rest, source = read ++ rest ∧ Reads limit frames focus read what rest := by
  rcases exists_moves_or_halts limit frames focus source with
    ⟨read, frames', focus', rest, rfl, h⟩ | ⟨read, what, rest, rfl, h⟩
  · have hlt : rest.length < (read ++ rest).length := by
      have := List.length_pos_iff.mpr h.ne_nil
      simp [this]
    obtain ⟨read', what, rest', rfl, h'⟩ := exists_reads limit frames' focus' rest
    exact ⟨read ++ read', what, rest', by simp, .move h h'⟩
  · exact ⟨read, what, rest, rfl, .halt h⟩
termination_by source.length

end Egg.Parse
