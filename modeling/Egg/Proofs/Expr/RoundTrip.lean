-- SUMMARY: Printing and then parsing gives back exactly the expressions that the parser produces.
import Egg.Expr.Printer
import Egg.Proofs.Number.Whole
import Egg.Proofs.Parse.Acceptance

/-!
# Printing and parsing

The text of an expression spells the expression, if each of its atoms can be written
at all: a text without a quote, a whole number or infinity, and a word of the
grammar. The grammar spells no other atoms, so nothing else comes back from parsing.
-/

namespace Egg

open Grammar

/-! ## What can be written -/

/-- There is a text in a program for the constant. -/
def Literal.IsWritable : Literal → Prop
  | .text contents => '"' ∉ contents.toList
  | .number x => x = .infinity ∨ x.IsWhole

namespace Expr

mutual
/-- There is a text in a program for each atom of the expression. -/
def IsWritable : Expr → Prop
  | .literal value => value.IsWritable
  | .word name => IsWord name.toList
  | .apply operator args => operator.IsWritable ∧ AllWritable args

def AllWritable : List Expr → Prop
  | [] => True
  | arg :: args => arg.IsWritable ∧ AllWritable args
end

mutual
theorem isWritable_of_spells {s : List Char} {e : Expr} : Spells s e → e.IsWritable
  | .atom _ h => by
      cases h with
      | text hquote =>
        rw [IsWritable, Literal.IsWritable, String.toList_ofList]
        exact hquote
      | number =>
        rw [IsWritable]
        exact Number.isWhole_ofDigits _
      | word hword =>
        rw [IsWritable, String.toList_ofList]
        exact hword
  | .callNone h _ _ => by
      rw [IsWritable]
      exact ⟨isWritable_of_spells h, trivial⟩
  | .call h _ hargs _ => by
      rw [IsWritable]
      exact ⟨isWritable_of_spells h, allWritable_of_spellsArgs hargs⟩

theorem allWritable_of_spellsArgs {s : List Char} {args : List Expr} :
    SpellsArgs s args → AllWritable args
  | .one h => ⟨isWritable_of_spells h, trivial⟩
  | .more h _ hargs => ⟨isWritable_of_spells h, allWritable_of_spellsArgs hargs⟩
end

end Expr

/-! ## Printing -/

theorem ofDigits_infinityDigits : Number.ofDigits infinityDigits = .infinity := by
  have happ : infinityDigits = Nat.toDigits 10 1 ++ List.replicate 309 '0' := rfl
  have hcode : Number.nearestCode (1 * 10 ^ 309) 1 = Number.infinityCode := by decide +kernel
  rw [happ, Number.ofDigits_toDigits_append, Number.ofNat, hcode, Number.infinity]

theorem isDigit_of_mem_infinityDigits {c : Char} (h : c ∈ infinityDigits) : c.isDigit = true := by
  cases h with
  | head => rfl
  | tail _ h =>
    rw [List.eq_of_mem_replicate h]
    rfl

theorem Literal.spellsAtom_print {value : Literal} (h : value.IsWritable) :
    SpellsAtom value.print (.literal value) := by
  cases value with
  | text contents =>
    have hspells : SpellsAtom ('"' :: contents.toList ++ ['"']) _ := .text h
    rwa [String.ofList_toList] at hspells
  | number x =>
    rw [Literal.print]
    split
    · next hx =>
      have hspells : SpellsAtom infinityDigits _ :=
        .number (List.cons_ne_nil _ _) @isDigit_of_mem_infinityDigits
      rwa [ofDigits_infinityDigits, ← hx] at hspells
    · next hx =>
      have hwhole := h.resolve_left hx
      have hspells := SpellsAtom.number hwhole.write_ne_nil @hwhole.isDigit_of_mem_write
      rwa [hwhole.ofDigits_write] at hspells

/-- Blanks may stand in front of an expression. -/
theorem Grammar.Spells.blanks_append {blanks s : List Char} {e : Expr} (hb : Blanks blanks) :
    Spells s e → Spells (blanks ++ s) e
  | .atom hb' h => by
      rw [← List.append_assoc]
      exact .atom (hb.append hb') h
  | .callNone h hb' hb'' => by simpa using Spells.callNone (h.blanks_append hb) hb' hb''
  | .call h hb' hargs hb'' => by simpa using Spells.call (h.blanks_append hb) hb' hargs hb''

theorem Grammar.SpellsArgs.blanks_append {blanks s : List Char} {args : List Expr}
    (hb : Blanks blanks) (h : SpellsArgs s args) : SpellsArgs (blanks ++ s) args := by
  cases h with
  | one h => exact .one (h.blanks_append hb)
  | more h hb' hargs => simpa using SpellsArgs.more (h.blanks_append hb) hb' hargs

namespace Expr

theorem blanks_space : Blanks [' '] := by
  intro c hc
  rw [List.mem_singleton.mp hc]
  decide

mutual
/-- The text of a writable expression spells it, whatever is printed behind it. -/
theorem exists_spells_printOnto :
    (e : Expr) → e.IsWritable → ∃ s, (∀ tail, e.printOnto tail = s ++ tail) ∧ Spells s e
  | .literal value, h => by
      rw [IsWritable] at h
      exact ⟨value.print, fun _ => by rw [printOnto], .atom blanks_nil (Literal.spellsAtom_print h)⟩
  | .word name, h => by
      rw [IsWritable] at h
      have hspells := SpellsAtom.word h
      rw [String.ofList_toList] at hspells
      exact ⟨name.toList, fun _ => by rw [printOnto], .atom blanks_nil hspells⟩
  | .apply operator [], h => by
      rw [IsWritable] at h
      obtain ⟨s, hs, hspells⟩ := exists_spells_printOnto operator h.1
      refine ⟨_, ?_, .callNone hspells blanks_nil blanks_nil⟩
      intro tail
      rw [printOnto, hs, printArgsOnto]
      simp
  | .apply operator (arg :: args), h => by
      rw [IsWritable] at h
      obtain ⟨s, hs, hspells⟩ := exists_spells_printOnto operator h.1
      obtain ⟨t, ht, hspells'⟩ :=
        exists_spells_printArgsOnto (arg :: args) (List.cons_ne_nil _ _) h.2
      refine ⟨_, ?_, .call hspells blanks_nil hspells' blanks_nil⟩
      intro tail
      rw [printOnto, hs, ht]
      simp

theorem exists_spells_printArgsOnto :
    (args : List Expr) → args ≠ [] → AllWritable args →
      ∃ s, (∀ tail, printArgsOnto args tail = s ++ tail) ∧ SpellsArgs s args
  | [], hne, _ => absurd rfl hne
  | [arg], _, h => by
      obtain ⟨s, hs, hspells⟩ := exists_spells_printOnto arg h.1
      exact ⟨s, fun tail => by rw [printArgsOnto, hs], .one hspells⟩
  | arg :: next :: args, _, h => by
      obtain ⟨s, hs, hspells⟩ := exists_spells_printOnto arg h.1
      obtain ⟨t, ht, hspells'⟩ :=
        exists_spells_printArgsOnto (next :: args) (List.cons_ne_nil _ _) h.2
      refine ⟨_, ?_, .more hspells blanks_nil (hspells'.blanks_append blanks_space)⟩
      intro tail
      rw [printArgsOnto, hs, ht]
      · simp
      · simp
end

/-! ## Round trips -/

theorem spellsProgram_print {e : Expr} (h : e.IsWritable) : SpellsProgram e.print.toList e := by
  obtain ⟨s, hs, hspells⟩ := exists_spells_printOnto e h
  refine ⟨s, [], ?_, hspells, blanks_nil⟩
  rw [print, String.toList_ofList, hs]

theorem isWritable_of_spellsProgram {source : List Char} {e : Expr}
    (h : SpellsProgram source e) : e.IsWritable := by
  obtain ⟨s, blanks, -, hspells, -⟩ := h
  exact isWritable_of_spells hspells

/-- The text of an expression is parsed to that expression exactly if each of its
    atoms can be written and it lies within the limit. These are also the expressions
    that the parser gives for some source. -/
theorem parseWithin_print_iff :
    (∀ (e : Expr) (limit : Nat),
      parseWithin limit e.print = .ok e ↔ e.IsWritable ∧ e.depth ≤ limit) ∧
    (∀ (e : Expr) (limit : Nat),
      (∃ source, parseWithin limit source = .ok e) ↔ e.IsWritable ∧ e.depth ≤ limit) := by
  have hprint (e : Expr) (limit : Nat) (h : e.IsWritable ∧ e.depth ≤ limit) :
      parseWithin limit e.print = .ok e :=
    parseWithin_eq_ok_iff.mpr ⟨spellsProgram_print h.1, h.2⟩
  have hparsed {e : Expr} {limit : Nat} {source : String} (h : parseWithin limit source = .ok e) :
      e.IsWritable ∧ e.depth ≤ limit := by
    obtain ⟨hspells, hdepth⟩ := parseWithin_eq_ok_iff.mp h
    exact ⟨isWritable_of_spellsProgram hspells, hdepth⟩
  constructor
  · intro e limit
    exact ⟨hparsed, hprint e limit⟩
  · intro e limit
    constructor
    · rintro ⟨source, h⟩
      exact hparsed h
    · intro h
      exact ⟨e.print, hprint e limit h⟩

end Expr

end Egg
