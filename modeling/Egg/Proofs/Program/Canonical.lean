-- SUMMARY: Formatting gives each program one text, which changes neither the program nor its tokens.
import Mathlib.Data.List.Defs
import Egg.Command
import Egg.Proofs.Grammar.Lexing

/-!
# Canonical text

Formatting parses a source and prints its program. The printed text is parsed to the same
program, so it is its own canonical text, and two sources have the same canonical text
exactly if they are sources of the same program.
-/

namespace Egg

open Grammar

/-! ## Sources of a program -/

theorem Grammar.SpellsProgram.append_blanks {source blanks : List Char} {e : Expr}
    (h : SpellsProgram source e) (hb : Blanks blanks) : SpellsProgram (source ++ blanks) e := by
  obtain ⟨s, blanks', rfl, hs, hb'⟩ := h
  exact ⟨s, blanks' ++ blanks, List.append_assoc .., hs, hb'.append hb⟩

namespace Expr

variable {source : String} {e : Expr}

theorem parse_append_newline (h : parse source = .ok e) : parse (source ++ "\n") = .ok e := by
  obtain ⟨hspells, hdepth⟩ := parseWithin_eq_ok_iff.mp h
  have hnewline : Blanks "\n".toList := by
    intro c hc
    rw [List.mem_singleton.mp hc]
    decide
  refine parseWithin_eq_ok_iff.mpr ⟨?_, hdepth⟩
  rw [String.toList_append]
  exact hspells.append_blanks hnewline

theorem parse_print (h : parse source = .ok e) : parse e.print = .ok e := by
  obtain ⟨hspells, hdepth⟩ := parseWithin_eq_ok_iff.mp h
  exact parseWithin_eq_ok_iff.mpr
    ⟨spellsProgram_print (isWritable_of_spellsProgram hspells), hdepth⟩

end Expr

/-! ## Formatting -/

namespace Program

variable {path source canonical : String} {e : Expr}

theorem mapError_eq_ok_iff {ε ε' α : Type} {x : Except ε α} {f : ε → ε'} {a : α} :
    x.mapError f = .ok a ↔ x = .ok a := by
  cases x with
  | ok b => constructor <;> (rintro ⟨⟩; rfl)
  | error e => exact ⟨nofun, nofun⟩

theorem parse_eq_ok_iff : parse path source = .ok e ↔ Expr.parse source = .ok e :=
  mapError_eq_ok_iff

theorem format_eq_ok_iff :
    format path source = .ok canonical ↔ ∃ e, Expr.parse source = .ok e ∧ e.print = canonical := by
  have hparse (e : Expr) : Expr.parse source = .ok e ↔ parse path source = .ok e :=
    parse_eq_ok_iff.symm
  simp only [hparse, format]
  cases parse path source <;> simp [Except.map]

theorem format_of_parse (h : Expr.parse source = .ok e) (path : String) :
    format path source = .ok e.print :=
  format_eq_ok_iff.mpr ⟨e, h, rfl⟩

theorem eval_congr {source' : String} (h : Expr.parse source = .ok e)
    (h' : Expr.parse source' = .ok e) (path : String) (bindings : List (String × Value)) :
    eval path source bindings = eval path source' bindings := by
  unfold eval
  rw [parse_eq_ok_iff.mpr h, parse_eq_ok_iff.mpr h']

/-- What the command `fmt` prints for a file with this source. -/
theorem answer_fmt (h : Expr.parse source = .ok e) (file : String) (more : List String) :
    Command.answer ("fmt" :: file :: more) (fun _ => .ok source) =
      ⟨0, e.print ++ "\n", ""⟩ := by
  show Command.report (format file source) = _
  rw [format_of_parse h]
  rfl

/-- Canonical text is a text of the same program, and is its own canonical text. A file that
    holds what `fmt` prints is printed as it is. The tokens are those of the source, each one
    kept as it stands but for the digits of a number, and no blank stands outside texts but a
    space behind each comma. The program evaluates as before. Two sources have the same
    canonical text exactly if they are parsed to the same program. -/
theorem format_canonical (h : format path source = .ok canonical) :
    Expr.parse canonical = Expr.parse source ∧
    (∀ path', format path' canonical = .ok canonical ∧
      format path' (canonical ++ "\n") = .ok canonical) ∧
    (∀ file more, Command.answer ("fmt" :: file :: more) (fun _ => .ok source) =
        ⟨0, canonical ++ "\n", ""⟩ ∧
      Command.answer ("fmt" :: file :: more) (fun _ => .ok (canonical ++ "\n")) =
        ⟨0, canonical ++ "\n", ""⟩) ∧
    (∃ tokens, tokens? source.toList = some tokens ∧
      canonical.toList = tokens.flatMap Token.canonical ∧
      ∀ t ∈ tokens, t.isText = false → ∀ c ∈ t.canonical, Text.isBlank c = true →
        t = .comma ∧ c = ' ') ∧
    (∀ path' bindings, eval path' canonical bindings = eval path' source bindings) ∧
    ∀ path' source' canonical', format path' source' = .ok canonical' →
      (canonical = canonical' ↔ Expr.parse source = Expr.parse source') := by
  obtain ⟨e, he, rfl⟩ := format_eq_ok_iff.mp h
  have hprint := Expr.parse_print he
  have hnewline := Expr.parse_append_newline hprint
  refine ⟨hprint.trans he.symm, fun path' => ⟨format_of_parse hprint path',
    format_of_parse hnewline path'⟩, fun file more => ⟨answer_fmt he file more,
    answer_fmt hnewline file more⟩, ?_, eval_congr hprint he, ?_⟩
  · obtain ⟨tokens, htokens, hcanonical⟩ :=
      exists_tokens_of_spellsProgram (Expr.parseWithin_eq_ok_iff.mp he).1
    refine ⟨tokens, htokens, hcanonical, fun t ht htext c hc hblank => ?_⟩
    exact (isValid_of_mem_tokens? htokens t ht).eq_comma_of_isBlank htext hc hblank
  · intro path' source' canonical' h'
    obtain ⟨e', he', rfl⟩ := format_eq_ok_iff.mp h'
    have hprint' := Expr.parse_print he'
    constructor
    · intro hsame
      rw [hsame, hprint'] at hprint
      rw [he, he', Except.ok.inj hprint]
    · intro hsame
      rw [he, he'] at hsame
      rw [Except.ok.inj hsame]

/-- The expression `f(1x, "a , b")`. -/
def spacedCall : Expr :=
  .apply (.word "f") [.word "1x", .literal (.text "a , b")]

theorem parse_spacedCall : Expr.parse " f ( 1x ,\"a , b\")\n" = .ok spacedCall := by
  refine mapError_eq_ok_iff.mpr ?_
  cbv

/-- A comma in a text is no mark, and `1x` is a word. -/
theorem format_spaced_call :
    format "p" " f ( 1x ,\"a , b\")\n" = .ok "f(1x, \"a , b\")" ∧
    format "q" ("f(1x, \"a , b\")" ++ "\n") = .ok "f(1x, \"a , b\")" := by
  have hprint : spacedCall.print = "f(1x, \"a , b\")" := by decide
  have h : format "p" " f ( 1x ,\"a , b\")\n" = .ok "f(1x, \"a , b\")" := by
    rw [format_of_parse parse_spacedCall, hprint]
  obtain ⟨-, hformat, -⟩ := format_canonical h
  exact ⟨h, (hformat "q").2⟩

end Program

end Egg
