-- SUMMARY: A parse error stands exactly where the source stops being the beginning of a program.
import Egg.Proofs.Parse.Acceptance
import Egg.Proofs.Parse.Outcome

/-!
# Viability

A text is viable if some program begins with it. The text in front of an error is
viable: the reader can finish the expression that it is in and close every open
list, and the limit leaves room for both. With the next character it is viable no
more, because a reading looks no further ahead than one character. Only a text
without a closing quote is an exception, which is an error at its opening quote.
-/

namespace Egg.Parse

open Text Grammar

variable {limit : Nat} {frames frames' : List Frame} {focus focus' : Focus}
  {s read rest rest' : List Char} {what : Except Fault Expr}

/-! ## One character ahead -/

theorem Moves.congr (h : Moves limit frames focus read frames' focus' rest)
    (hhead : rest.head? = rest'.head?) : Moves limit frames focus read frames' focus' rest' := by
  cases h with
  | atom hlt hb hs hend => exact .atom hlt hb hs (hend.congr hhead)
  | callNone hb hb' => exact .callNone hb hb'
  | openCall hb hb' hblank hparen =>
    exact .openCall hb hb' (hblank.congr hhead) (hparen.congr hhead)
  | comma hb => exact .comma hb
  | close hb => exact .close hb

/-- Why a reader ends depends on the next character only, unless a text starts with
    that character. -/
theorem Halts.congr (h : Halts limit frames focus read what rest)
    (hhead : rest.head? = rest'.head?)
    (hquote : what = .error .noExpression → rest.head? ≠ some '"') :
    Halts limit frames focus read what rest' := by
  cases h with
  | finished hb hblank hparen =>
    exact .finished hb (hblank.congr hhead) (hparen.congr hhead)
  | noSeparator hb hblank hmark =>
    exact .noSeparator hb (hblank.congr hhead) (hmark.congr hhead)
  | noExpression hlt hb hblank hatom =>
    refine .noExpression hlt hb (hblank.congr hhead) (atom?_eq_none_iff.mpr ⟨?_, ?_⟩)
    · exact (atom?_eq_none_iff.mp hatom).1.congr hhead
    · rintro body rfl
      exact absurd hhead (hquote rfl)
  | tooDeep hle => exact .tooDeep hle

theorem Reads.congr (h : Reads limit frames focus read what rest)
    (hhead : rest.head? = rest'.head?)
    (hquote : what = .error .noExpression → rest.head? ≠ some '"') :
    Reads limit frames focus read what rest' := by
  induction h with
  | halt h => exact .halt (h.congr hhead hquote)
  | @move _ _ _ _ _ read' _ rest h _ ih =>
    refine .move (h.congr ?_) (ih hhead hquote)
    cases read' with
    | nil => exact hhead
    | cons => rfl

/-! ## Completing what was read -/

/-- Some program within the limit begins with the text `front`. -/
def Begins (limit : Nat) (front : List Char) : Prop :=
  ∃ t e, SpellsProgram (front ++ t) e ∧ e.depth ≤ limit

theorem Begins.of_append {t : List Char} (h : Begins limit (s ++ t)) : Begins limit s := by
  obtain ⟨u, e, hspells, hdepth⟩ := h
  exact ⟨t ++ u, e, by rwa [← List.append_assoc], hdepth⟩

/-- Behind a complete expression, each open list can be closed. -/
theorem Consumed.begins_of_complete {e : Expr} (h : Consumed limit s frames (.complete e)) :
    Begins limit s := by
  induction frames generalizing s e with
  | nil =>
    cases h with
    | complete hopens hs hdepth =>
      cases hopens
      refine ⟨[], e, ⟨_, [], rfl, ?_, blanks_nil⟩, by simpa using hdepth⟩
      simpa using hs
  | cons frame frames ih =>
    have hclose : Moves limit (frame :: frames) (.complete e) [')'] frames
        (.complete (frame.push e).close) [] := .close blanks_nil
    exact (ih (h.of_moves hclose)).of_append

/-- Where an expression may start, any atom completes one. -/
theorem Consumed.begins_of_spellsAtom {t : List Char} {e : Expr}
    (h : Consumed limit s frames .missing) (hlt : frames.length < limit) (hb : Blanks read)
    (ht : SpellsAtom t e) : Begins limit (s ++ read ++ t) := by
  have hatom : Moves limit frames .missing (read ++ t) frames (.complete e) [] :=
    .atom hlt hb ht (endsAtom_of_stopsAt stopsAt_nil)
  rw [List.append_assoc]
  exact (h.of_moves hatom).begins_of_complete

theorem spellsAtom_x : SpellsAtom ['x'] (.word "x") := by
  refine .word ⟨List.cons_ne_nil _ _, ?_, .inl rfl⟩
  intro c hc
  rw [List.mem_singleton.mp hc]
  decide

/-- Where the limit is reached, the innermost list has no arguments yet. So it can be
    closed at once, and its call lies within the limit. -/
theorem Consumed.begins_of_le (h : Consumed limit s frames .missing)
    (hle : limit ≤ frames.length) (hlimit : 0 < limit) : Begins limit s := by
  cases h with
  | missing hopens hb =>
    cases hopens with
    | nil => exact absurd hle (Nat.not_le.mpr hlimit)
    | @cons s frames t blanks u frame hopens hop hb' hargs hdepth =>
      rw [Frame.close, Expr.depth] at hdepth
      generalize frame.args.reverse = args at hargs hdepth
      cases hargs with
      | some hspells =>
        have hdeep := two_le_depthArgs hspells
        rw [List.length_cons] at hle
        omega
      | none =>
        have hcall : Consumed limit (s ++ (t ++ blanks ++ '(' :: _ ++ [')'])) frames
            (.complete (.apply frame.operator [])) :=
          .complete hopens (.callNone hop hb' hb) hdepth
        refine Begins.of_append (t := [')']) ?_
        simpa using hcall.begins_of_complete

/-- What a reader has read where it ends is viable. -/
theorem Halts.begins (h : Halts limit frames focus read what rest)
    (hc : Consumed limit s frames focus) (hlimit : 0 < limit) : Begins limit (s ++ read) := by
  cases h with
  | finished hb _ _ =>
    cases hc with
    | complete hopens hs hdepth =>
      cases hopens
      refine ⟨[], _, ⟨_, read, ?_, hs, hb⟩, by simpa using hdepth⟩
      simp
  | @noSeparator frame frames e _ _ hb _ _ =>
    have hclose : Moves limit (frame :: frames) (.complete e) (read ++ [')']) frames
        (.complete (frame.push e).close) [] := .close hb
    have hviable := (hc.of_moves hclose).begins_of_complete
    rw [← List.append_assoc] at hviable
    exact hviable.of_append
  | noExpression hlt hb _ _ => exact (hc.begins_of_spellsAtom hlt hb spellsAtom_x).of_append
  | tooDeep hle =>
    rw [List.append_nil]
    exact hc.begins_of_le hle hlimit

/-! ## Readings of whole sources -/

theorem Reads.begins (h : Reads limit [] .missing read what rest) (hlimit : 0 < limit) :
    Begins limit read := by
  obtain ⟨s, frames, focus, t, happ, hc, hhalts⟩ := h.exists_halts (consumed_nil limit)
  rw [List.nil_append] at happ
  rw [happ]
  exact hhalts.begins hc hlimit

/-- Where a reading ends, no program goes on with the next character. -/
theorem Reads.not_begins {c : Char} (h : Reads limit [] .missing read what (c :: rest))
    (hquote : ¬ (what = .error .noExpression ∧ c = '"')) : ¬ Begins limit (read ++ [c]) := by
  rintro ⟨t, e, hprogram⟩
  have hreads : Reads limit [] .missing read what (c :: t) := by
    refine h.congr rfl ?_
    intro hwhat hc
    exact hquote ⟨hwhat, Option.some.inj hc⟩
  have hwhole := whole_eq_ok_iff_spells.mpr hprogram
  rw [List.append_assoc, List.singleton_append, whole_eq_of_reads hreads] at hwhole
  cases what <;> cases hwhole

/-- A text that is not closed can still be closed. -/
theorem Reads.begins_quote {body : List Char}
    (h : Reads limit [] .missing read (.error .noExpression) ('"' :: body)) :
    Begins limit (read ++ '"' :: body) := by
  obtain ⟨s, frames, focus, blanks, happ, hc, hhalts⟩ := h.exists_halts (consumed_nil limit)
  cases hhalts with
  | noExpression hlt hb _ hatom =>
    have htext := SpellsAtom.text ((atom?_eq_none_iff.mp hatom).2 body rfl)
    have hbegins := hc.begins_of_spellsAtom hlt hb htext
    rw [← happ, List.nil_append, ← List.append_assoc] at hbegins
    exact hbegins.of_append

/-- A source goes on to a program exactly if it is read to its end, or if a text in it
    is not closed. -/
theorem Reads.begins_iff (h : Reads limit [] .missing read what rest) (hlimit : 0 < limit) :
    Begins limit (read ++ rest) ↔
      rest = [] ∨ (what = .error .noExpression ∧ rest.head? = some '"') := by
  constructor
  · intro hbegins
    cases rest with
    | nil => exact .inl rfl
    | cons c rest =>
      by_cases hquote : what = .error .noExpression ∧ c = '"'
      · exact .inr ⟨hquote.1, congrArg some hquote.2⟩
      · rw [List.append_cons] at hbegins
        exact absurd hbegins.of_append (h.not_begins hquote)
  · rintro (rfl | ⟨rfl, hhead⟩)
    · rw [List.append_nil]
      exact h.begins hlimit
    · obtain ⟨body, rfl⟩ := List.head?_eq_some_iff.mp hhead
      exact h.begins_quote

end Egg.Parse

namespace Egg.Expr

open Parse Text Grammar

/-- Some program that parses within the limit begins with `front`. -/
def IsViable (limit : Nat) (front : String) : Prop :=
  ∃ t e, parseWithin limit (front ++ t) = .ok e

theorem isViable_iff {limit : Nat} {front : String} :
    IsViable limit front ↔ Begins limit front.toList := by
  constructor
  · rintro ⟨t, e, h⟩
    have hprogram := parseWithin_eq_ok_iff.mp h
    rw [String.toList_append] at hprogram
    exact ⟨t.toList, e, hprogram⟩
  · rintro ⟨t, e, h⟩
    refine ⟨String.ofList t, e, parseWithin_eq_ok_iff.mpr ?_⟩
    rwa [String.toList_append, String.toList_ofList]

/-- A parse error stands exactly where the source stops being the beginning of a
    program: up to there some program begins with it, and with one more character none
    does. A text without a closing quote is reported at its opening quote, but it can
    be closed. -/
theorem isViable_of_parseWithin_eq_error {limit : Nat} {source : String} {err : ParseError}
    (hlimit : 1 ≤ limit) (hsize : source.utf8ByteSize < 2 ^ 32 - 1)
    (h : parseWithin limit source = .error err) :
    ∃ front back, source = front ++ back ∧ front.utf8ByteSize = err.span.start.toNat ∧
      IsViable limit front ∧
      (∀ c, back.toList.head? = some c →
        ¬ ((∃ remainder, err.kind = .unexpectedSyntax remainder) ∧ c = '"') →
        ¬ IsViable limit (front.push c)) ∧
      (IsViable limit source ↔ back = "" ∨
        ((∃ remainder, err.kind = .unexpectedSyntax remainder) ∧
          back.toList.head? = some '"')) := by
  obtain ⟨read, what, rest, hsource, hreads, rfl⟩ := exists_reads_of_parseWithin_eq_error h
  have hread : byteSize read ≤ Span.maxOffset := by
    rw [← byteSize_toList, hsource, byteSize_append] at hsize
    exact Nat.le_of_lt (Nat.lt_of_le_of_lt (Nat.le_add_right ..) hsize)
  have hkind : (∃ remainder, (Stop.report (read ++ rest) ⟨faultOf what, rest⟩).kind =
      .unexpectedSyntax remainder) ↔ what = .error .noExpression :=
    kind_report_eq_unexpectedSyntax_iff.trans faultOf_eq_noExpression_iff
  refine ⟨String.ofList read, String.ofList rest, ?_, ?_, ?_, ?_, ?_⟩
  · rw [← String.ofList_append, ← hsource, String.ofList_toList]
  · rw [start_report, toNat_clamp_of_le hread, ← byteSize_toList, String.toList_ofList]
  · rw [isViable_iff, String.toList_ofList]
    exact hreads.begins hlimit
  · intro c hc hquote
    rw [String.toList_ofList] at hc
    rw [hkind] at hquote
    rw [isViable_iff, String.toList_push, String.toList_ofList]
    obtain ⟨rest', rfl⟩ := List.head?_eq_some_iff.mp hc
    exact hreads.not_begins hquote
  · rw [isViable_iff, hsource, hkind, String.toList_ofList, String.ofList_eq_empty_iff]
    exact hreads.begins_iff hlimit

/-- Under a limit of one level, `x(` is the beginning of a program and `x(x)` is none. -/
theorem not_isViable_argument_at_limit :
    parseWithin 1 "x(x)" = .error ⟨.nestingTooDeep 1, .point 2⟩ ∧ ¬ IsViable 1 "x(x)" := by
  have hatom : Moves 1 [] .missing ['x'] [] (.complete (.word "x")) ['(', 'x', ')'] :=
    .atom Nat.zero_lt_one blanks_nil spellsAtom_x
      (endsAtom_of_stopsAt (stopsAt_cons.mpr (by decide)))
  have hcall : Moves 1 [] (.complete (.word "x")) ['('] [⟨.word "x", []⟩] .missing ['x', ')'] :=
    .openCall blanks_nil blanks_nil (stopsAt_cons.mpr (by decide)) (stopsAt_cons.mpr (by decide))
  have hreads : Reads 1 [] .missing ['x', '('] (.error (.tooDeep 1)) ['x', ')'] :=
    .move hatom (.move hcall (.halt (.tooDeep (Nat.le_refl 1))))
  have herr : parseWithin 1 "x(x)" = .error ⟨.nestingTooDeep 1, .point 2⟩ :=
    parseWithin_eq_of_reads rfl hreads
  obtain ⟨front, back, happ, hsize, -, -, hviable⟩ :=
    isViable_of_parseWithin_eq_error (by decide) (by decide) herr
  refine ⟨herr, ?_⟩
  intro h
  rcases hviable.mp h with rfl | ⟨⟨remainder, hkind⟩, -⟩
  · rw [String.append_empty] at happ
    subst happ
    exact absurd hsize (by decide)
  · cases hkind

end Egg.Expr
