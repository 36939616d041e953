-- SUMMARY: The leading expression of a source is its longest front that parses, whatever comes behind it.
import Mathlib.Control.Monad.Basic
import Egg.Proofs.Parse.Viability

/-!
# The leading expression

A source is read up to a place from which the expression cannot go on. The text in front of
that place is parsed to the expression, and no longer front of the source is parsed at all.
As the reading looks at no more than the character behind it, it is the same with any other
text from there on. A source as a whole is parsed exactly if nothing is left.
-/

namespace Egg.Parse

open Text Grammar

variable {limit : Nat} {source read rest : List Char} {e : Expr}

/-- Reading the leading expression of a source ends in front of `rest`. -/
theorem leading_eq_ok_iff :
    leading limit source = .ok (e, rest) ↔
      ∃ read, source = read ++ rest ∧ Reads limit [] .missing read (.ok e) rest := by
  constructor
  · intro h
    obtain ⟨read, what, rest', rfl, hreads⟩ := exists_reads limit [] .missing source
    rw [leading, run_eq_of_reads hreads] at h
    cases what with
    | error fault => cases h
    | ok e' =>
      obtain ⟨rfl, rfl⟩ := Prod.mk.inj (Except.ok.inj h)
      exact ⟨read, rfl, hreads⟩
  · rintro ⟨read, rfl, hreads⟩
    rw [leading, run_eq_of_reads hreads]
    rfl

theorem whole_of_leading_eq_error {why : Stop} (h : leading limit source = .error why) :
    whole limit source = .error why := by
  rw [whole, h]

theorem whole_of_leading_eq_ok (h : leading limit source = .ok (e, rest)) (hne : rest ≠ []) :
    whole limit source = .error ⟨.extraText, rest⟩ := by
  obtain ⟨c, rest', rfl⟩ := List.exists_cons_of_ne_nil hne
  rw [whole, h]

/-- What was read is the longest front of the source that is a program within the limit. -/
theorem Reads.length_le {longer rest' : List Char} {e' : Expr}
    (h : Reads limit [] .missing read (.ok e) rest) (happ : read ++ rest = longer ++ rest')
    (hspells : SpellsProgram longer e') (hdepth : e'.depth ≤ limit) :
    longer.length ≤ read.length := by
  rcases List.append_eq_append_iff.mp happ with ⟨more, rfl, rfl⟩ | ⟨less, rfl, -⟩
  · cases more with
    | nil => exact Nat.le_of_eq (congrArg List.length (List.append_nil read))
    | cons c more =>
      have hbegins : Begins limit (read ++ c :: more) :=
        ⟨[], e', by rwa [List.append_nil], hdepth⟩
      rw [List.append_cons] at hbegins
      exact absurd hbegins.of_append (h.not_begins (by rintro ⟨⟨⟩, -⟩))
  · rw [List.length_append]
    exact Nat.le_add_right ..

/-- Another text behind a rest that is not empty changes nothing of the reading. -/
theorem Reads.append (h : Reads limit [] .missing read (.ok e) rest) (hne : rest ≠ [])
    (t : List Char) : Reads limit [] .missing read (.ok e) (rest ++ t) := by
  obtain ⟨c, rest', rfl⟩ := List.exists_cons_of_ne_nil hne
  exact h.congr rfl nofun

end Egg.Parse

namespace Egg.Expr

open Parse Text Grammar

variable {source : String} {e : Expr} {rest : String}

theorem parseLeading_eq_ok_iff :
    parseLeading source = .ok (e, rest) ↔
      leading nestingLimit source.toList = .ok (e, rest.toList) := by
  unfold parseLeading
  split
  · next e' rest' h =>
    rw [h, Except.ok.injEq, Except.ok.injEq, Prod.mk.injEq, Prod.mk.injEq]
    refine and_congr_right fun _ => ?_
    constructor
    · rintro rfl
      exact String.toList_ofList.symm
    · rintro rfl
      exact String.ofList_toList
  · next why h => simp [h]

theorem parse_eq_ok_iff_parseLeading :
    parse source = .ok e ↔ parseLeading source = .ok (e, "") := by
  rw [parseLeading_eq_ok_iff, String.toList_empty, ← whole_eq_ok_iff, whole_eq_ok_iff_spells,
    parse, parseWithin_eq_ok_iff]

theorem parse_of_parseLeading_eq_error {err : ParseError} (h : parseLeading source = .error err) :
    parse source = .error err := by
  unfold parseLeading at h
  split at h
  · cases h
  · next why hwhy =>
    rw [parse, parseWithin, whole_of_leading_eq_error hwhy]
    exact congrArg Except.error (Except.error.inj h)

/-- A rest that is not empty is text behind the program. -/
theorem parse_of_rest_ne_empty (h : parseLeading source = .ok (e, rest)) (hne : rest ≠ "") :
    parse source = .error (Stop.report source.toList ⟨.extraText, rest.toList⟩) := by
  have hne' : rest.toList ≠ [] := fun hnil => hne (String.toList_eq_nil_iff.mp hnil)
  rw [parse, parseWithin, whole_of_leading_eq_ok (parseLeading_eq_ok_iff.mp h) hne']
  rfl

/-- The leading expression of a source stands in its longest front that is parsed to anything.
    What is left starts with neither a blank nor an opening bracket, and if it is not empty,
    then any other text may come behind it. A source as a whole is parsed exactly if nothing
    is left; otherwise what is left is reported, and a source without a leading expression
    fails as a whole with the same error. -/
theorem parseLeading_longest (source : String) :
    (∀ e rest, parseLeading source = .ok (e, rest) →
      (∃ front, source = front ++ rest ∧ parse front = .ok e ∧
        ∀ longer rest' e', source = longer ++ rest' → parse longer = .ok e' →
          longer.length ≤ front.length) ∧
      (∀ c, rest.toList.head? = some c → isBlank c = false ∧ c ≠ '(') ∧
      (rest ≠ "" → ∀ t, parseLeading (source ++ t) = .ok (e, rest ++ t)) ∧
      (rest ≠ "" → ∃ span,
        parse source = .error ⟨.trailingText (String.ofList (excerpt rest.toList)), span⟩ ∧
        (source.utf8ByteSize < 2 ^ 32 - 1 →
          span.start.toNat = source.utf8ByteSize - rest.utf8ByteSize ∧
          span.stop.toNat = source.utf8ByteSize))) ∧
    (∀ e, parse source = .ok e ↔ parseLeading source = .ok (e, "")) ∧
    (∀ err, parseLeading source = .error err → parse source = .error err) := by
  refine ⟨fun e rest h => ?_, fun e => parse_eq_ok_iff_parseLeading,
    fun err => parse_of_parseLeading_eq_error⟩
  obtain ⟨read, happ, hreads⟩ := leading_eq_ok_iff.mp (parseLeading_eq_ok_iff.mp h)
  obtain ⟨hspells, hdepth, hblank, hparen⟩ := hreads.spellsProgram
  refine ⟨⟨String.ofList read, ?_, ?_, ?_⟩, ?_, ?_, ?_⟩
  · rw [← String.toList_inj, String.toList_append, String.toList_ofList, happ]
  · exact parseWithin_eq_ok_iff.mpr ⟨by rwa [String.toList_ofList], hdepth⟩
  · intro longer rest' e' hsource hlonger
    obtain ⟨hspells', hdepth'⟩ := parseWithin_eq_ok_iff.mp hlonger
    rw [hsource, String.toList_append] at happ
    rw [String.length_ofList, ← String.length_toList]
    exact hreads.length_le happ.symm hspells' hdepth'
  · intro c hc
    exact ⟨hblank c hc, by simpa using hparen c hc⟩
  · intro hne t
    have hne' : rest.toList ≠ [] := fun hnil => hne (String.toList_eq_nil_iff.mp hnil)
    rw [parseLeading_eq_ok_iff, leading_eq_ok_iff, String.toList_append, String.toList_append]
    exact ⟨read, by rw [happ, List.append_assoc], hreads.append hne' t.toList⟩
  · intro hne
    refine ⟨_, parse_of_rest_ne_empty h hne, fun hsize => ?_⟩
    have hle : source.utf8ByteSize ≤ Span.maxOffset := Nat.le_of_lt hsize
    rw [byteSize_toList, byteSize_toList]
    exact ⟨toNat_clamp_of_le (Nat.le_trans (Nat.sub_le ..) hle), toNat_clamp_of_le hle⟩

/-- The blank in front of `g` is taken along, and `g` is left. -/
theorem parseLeading_call_word :
    parseLeading "f( ) g" = .ok (.apply (.word "f") [], "g") ∧
    parseLeading "f( ) g()" = .ok (.apply (.word "f") [], "g()") ∧
    ∃ span, parse "f( ) g" = .error ⟨.trailingText "g", span⟩ ∧ span.start.toNat = 5 := by
  have h : parseLeading "f( ) g" = .ok (.apply (.word "f") [], "g") := by
    decide +kernel
  obtain ⟨-, -, hbehind, hspan⟩ := (parseLeading_longest "f( ) g").1 _ _ h
  obtain ⟨span, hparse, hplace⟩ := hspan (by decide)
  exact ⟨h, hbehind (by decide) "()", span, hparse, (hplace (by decide)).1⟩

end Egg.Expr
