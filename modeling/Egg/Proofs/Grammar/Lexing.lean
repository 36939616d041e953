-- SUMMARY: The tokens of a source, and the canonical text of a program as a text of its tokens.
import Egg.Proofs.Expr.RoundTrip

/-!
# Lexing

The tokens of a source, as long as they can be and without regard to the grammar. The
canonical text of a program is written token by token: each token of the source is kept as
it stands, but for the digits of a number, and there is a space behind each comma and no
other blank.
-/

namespace Egg.Grammar

open Text Parse

/-! ## Tokens -/

theorem isDigit_of_spellsAtom {s : List Char} {x : Number}
    (h : SpellsAtom s (.literal (.number x))) : ∀ c ∈ s, c.isDigit = true := by
  cases h with
  | number _ hdigits => exact hdigits

/-- A token of a source. -/
inductive Token where
  | text (contents : List Char)
  | number (digits : List Char)
  | word (name : List Char)
  | opening
  | closing
  | comma
deriving DecidableEq

namespace Token

/-- The characters of a token. -/
def chars : Token → List Char
  | .text contents => '"' :: contents ++ ['"']
  | .number digits => digits
  | .word name => name
  | .opening => ['(']
  | .closing => [')']
  | .comma => [',']

/-- The characters of a token in canonical text. A number has the digits of its value, and a
    space follows a comma. -/
def canonical : Token → List Char
  | .number digits => (Literal.number (.ofDigits digits)).print
  | .comma => [',', ' ']
  | t => t.chars

def isText : Token → Bool
  | .text _ => true
  | _ => false

/-- The characters of the token are of its kind. -/
def IsValid : Token → Prop
  | .text contents => '"' ∉ contents
  | .number digits => digits ≠ [] ∧ ∀ c ∈ digits, c.isDigit = true
  | .word name => name ≠ [] ∧ ∀ c ∈ name, isWordChar c = true
  | .opening | .closing | .comma => True

/-- The token that a mark of the grammar is. -/
def ofMark? : Char → Option Token
  | '(' => some .opening
  | ')' => some .closing
  | ',' => some .comma
  | _ => none

theorem ofMark?_eq_none {c : Char} (h : isWordChar c = true) : ofMark? c = none := by
  unfold ofMark?
  split
  · cases h
  · cases h
  · cases h
  · rfl

theorem IsValid.exists_cons {t : Token} (h : t.IsValid) :
    ∃ c s, t.chars = c :: s ∧ isBlank c = false := by
  cases t with
  | text contents => exact ⟨'"', _, rfl, isBlank_quote⟩
  | opening => exact ⟨'(', _, rfl, by decide⟩
  | closing => exact ⟨')', _, rfl, by decide⟩
  | comma => exact ⟨',', _, rfl, by decide⟩
  | number digits =>
    obtain ⟨c, s, rfl⟩ := List.exists_cons_of_ne_nil h.1
    exact ⟨c, s, rfl, not_isBlank_of_isWordChar (isWordChar_of_isDigit (h.2 c (by simp)))⟩
  | word name =>
    obtain ⟨c, s, rfl⟩ := List.exists_cons_of_ne_nil h.1
    exact ⟨c, s, rfl, not_isBlank_of_isWordChar (h.2 c (by simp))⟩

theorem isDigit_of_mem_canonical {digits : List Char} {c : Char}
    (hc : c ∈ (Token.number digits).canonical) : c.isDigit = true :=
  isDigit_of_spellsAtom (Literal.spellsAtom_print (Number.isWhole_ofDigits digits)) c hc

/-- Outside texts, the only blank of canonical text is the space behind a comma. -/
theorem IsValid.eq_comma_of_isBlank {t : Token} (h : t.IsValid) (ht : t.isText = false) {c : Char}
    (hc : c ∈ t.canonical) (hblank : isBlank c = true) : t = .comma ∧ c = ' ' := by
  have hword (hc : isWordChar c = true) : isBlank c = false := not_isBlank_of_isWordChar hc
  cases t with
  | text => cases ht
  | opening | closing =>
    rw [List.mem_singleton.mp hc] at hblank
    cases hblank
  | comma =>
    rcases List.mem_cons.mp hc with rfl | hc
    · cases hblank
    · exact ⟨rfl, List.mem_singleton.mp hc⟩
  | number digits =>
    rw [hword (isWordChar_of_isDigit (isDigit_of_mem_canonical hc))] at hblank
    cases hblank
  | word name =>
    rw [hword (h.2 c hc)] at hblank
    cases hblank

end Token

/-! ## Reading tokens -/

/-- The token at the front of a source, where no blank stands. -/
def token? : List Char → Option (Token × List Char)
  | [] => none
  | c :: rest =>
    match Token.ofMark? c with
    | some t => some (t, rest)
    | none =>
      match quoted? (c :: rest), digits? (c :: rest), word? (c :: rest) with
      | some (contents, rest), _, _ => some (.text contents, rest)
      | none, some (digits, rest), _ => some (.number digits, rest)
      | none, none, some (name, rest) => some (.word name, rest)
      | none, none, none => none

theorem isValid_of_token? {source rest : List Char} {t : Token}
    (h : token? source = some (t, rest)) : t.IsValid ∧ source = t.chars ++ rest := by
  unfold token? at h
  split at h
  · cases h
  · next c source =>
    split at h
    · next hmark =>
      obtain ⟨rfl, rfl⟩ := Prod.mk.inj (Option.some.inj h)
      unfold Token.ofMark? at hmark
      split at hmark <;> cases hmark <;> exact ⟨trivial, rfl⟩
    · split at h
      · next hq =>
        obtain ⟨rfl, rfl⟩ := Prod.mk.inj (Option.some.inj h)
        obtain ⟨hsource, hquote⟩ := quoted?_eq_some_iff.mp hq
        exact ⟨hquote, by rw [hsource]; simp [Token.chars]⟩
      · next hd =>
        obtain ⟨rfl, rfl⟩ := Prod.mk.inj (Option.some.inj h)
        obtain ⟨hsource, hne, hdigits, -⟩ := digits?_eq_some_iff.mp hd
        exact ⟨⟨hne, hdigits⟩, hsource⟩
      · next hw =>
        obtain ⟨rfl, rfl⟩ := Prod.mk.inj (Option.some.inj h)
        obtain ⟨hsource, hne, hword, -⟩ := word?_eq_some_iff.mp hw
        exact ⟨⟨hne, hword⟩, hsource⟩
      · cases h

theorem length_lt_of_token? {source rest : List Char} {t : Token}
    (h : token? source = some (t, rest)) : rest.length < source.length := by
  obtain ⟨hvalid, rfl⟩ := isValid_of_token? h
  obtain ⟨c, s, hchars, -⟩ := hvalid.exists_cons
  rw [hchars, List.length_append, List.length_cons]
  omega

/-- The tokens of a source, if it consists of tokens and of blanks between them. -/
def tokens? (source : List Char) : Option (List Token) :=
  if skipBlanks source = [] then some []
  else
    match _h : token? (skipBlanks source) with
    | some (t, rest) => (tokens? rest).map (t :: ·)
    | none => none
termination_by source.length
decreasing_by exact Nat.lt_of_lt_of_le (length_lt_of_token? _h) (length_skipBlanks_le source)

theorem tokens?_of_blanks {blanks : List Char} (hb : Blanks blanks) : tokens? blanks = some [] := by
  have hskip := skipBlanks_append hb stopsAt_nil
  rw [List.append_nil] at hskip
  rw [tokens?, if_pos hskip]

theorem tokens?_append {blanks source rest : List Char} {t : Token} (hb : Blanks blanks)
    (h : token? source = some (t, rest)) :
    tokens? (blanks ++ source) = (tokens? rest).map (t :: ·) := by
  have hskip : skipBlanks (blanks ++ source) = source := by
    obtain ⟨hvalid, rfl⟩ := isValid_of_token? h
    obtain ⟨c, s, hchars, hblank⟩ := hvalid.exists_cons
    refine skipBlanks_append hb ?_
    rw [hchars]
    exact stopsAt_cons.mpr hblank
  have hne : source ≠ [] := by
    rintro rfl
    cases h
  rw [tokens?, hskip, if_neg hne]
  split
  · next h' =>
    cases h.symm.trans h'
    rfl
  · next h' => cases h.symm.trans h'

theorem isValid_of_mem_tokens? {source : List Char} {tokens : List Token}
    (h : tokens? source = some tokens) : ∀ t ∈ tokens, t.IsValid := by
  fun_induction tokens? source generalizing tokens with
  | case1 =>
    cases h
    exact nofun
  | case2 source hne t rest htoken ih =>
    obtain ⟨tokens', htokens, rfl⟩ := Option.map_eq_some_iff.mp h
    exact List.forall_mem_cons.mpr ⟨(isValid_of_token? htoken).1, ih htokens⟩
  | case3 => cases h

/-! ## The tokens of an expression -/

/-- The text `s` has these tokens where no word goes on behind it, and `print` writes them in
    canonical text. -/
structure Lexes (s : List Char) (print : List Char → List Char) (tokens : List Token) : Prop where
  tokens?_append : ∀ rest, StopsAt isWordChar rest →
    tokens? (s ++ rest) = (tokens? rest).map (tokens ++ ·)
  print_eq : ∀ tail, print tail = tokens.flatMap Token.canonical ++ tail

namespace Lexes

variable {s s' : List Char} {print print' : List Char → List Char} {tokens tokens' : List Token}

theorem nil : Lexes [] id [] where
  tokens?_append rest _ := by simp
  print_eq _ := rfl

/-- One text behind the other, if no word goes on from the first one into the second one. -/
theorem append (h : Lexes s print tokens) (h' : Lexes s' print' tokens')
    (hstops : ∀ rest, StopsAt isWordChar (s' ++ rest)) :
    Lexes (s ++ s') (fun tail => print (print' tail)) (tokens ++ tokens') where
  tokens?_append rest hrest := by
    rw [List.append_assoc, h.tokens?_append _ (hstops rest), h'.tokens?_append rest hrest,
      Option.map_map]
    congr 1
    funext rest
    exact (List.append_assoc ..).symm
  print_eq tail := by
    rw [h.print_eq, h'.print_eq, List.flatMap_append, List.append_assoc]

/-- Blanks and a mark in front of a text. -/
theorem mark {blanks : List Char} {c : Char} {t : Token} (hb : Blanks blanks)
    (ht : Token.ofMark? c = some t) (h : Lexes s print tokens) :
    Lexes (blanks ++ c :: s) (fun tail => t.canonical ++ print tail) (t :: tokens) where
  tokens?_append rest hrest := by
    have htoken : token? (c :: (s ++ rest)) = some (t, s ++ rest) := by simp [token?, ht]
    rw [List.append_assoc, List.cons_append, Grammar.tokens?_append hb htoken,
      h.tokens?_append rest hrest, Option.map_map]
    rfl
  print_eq tail := by
    rw [h.print_eq, List.flatMap_cons, List.append_assoc]

theorem congr (h : Lexes s print tokens) (hs : s' = s) (hprint : ∀ tail, print' tail = print tail) :
    Lexes s' print' tokens := by
  obtain rfl : print' = print := funext hprint
  exact hs ▸ h

end Lexes

/-- No word goes on where a mark comes first, behind blanks. -/
theorem stopsAt_mark {blanks s : List Char} {c : Char} (hb : Blanks blanks)
    (hc : isWordChar c = false) (rest : List Char) :
    StopsAt isWordChar (blanks ++ c :: s ++ rest) := by
  rw [List.append_assoc, List.cons_append]
  exact Parse.stopsAt_isWordChar_append hb (stopsAt_cons.mpr hc)

theorem lexes_of_spellsAtom {blanks s : List Char} {e : Expr} {t : Token} (hb : Blanks blanks)
    (htoken : ∀ rest, EndsAtom e rest → token? (s ++ rest) = some (t, rest))
    (hprint : ∀ tail, e.printOnto tail = t.canonical ++ tail) :
    Lexes (blanks ++ s) e.printOnto [t] where
  tokens?_append rest hrest := by
    rw [List.append_assoc, tokens?_append hb (htoken rest (endsAtom_of_stopsAt hrest))]
    rfl
  print_eq tail := by
    rw [hprint, List.flatMap_singleton]

/-- The token that an atom is spelled by. In canonical text it is written like the atom. -/
theorem exists_token_of_spellsAtom {s : List Char} {e : Expr} (h : SpellsAtom s e) :
    ∃ t : Token, (∀ rest, EndsAtom e rest → token? (s ++ rest) = some (t, rest)) ∧
      ∀ tail, e.printOnto tail = t.canonical ++ tail := by
  cases h with
  | @text contents hquote =>
    refine ⟨.text contents, fun rest _ => ?_, fun tail => ?_⟩
    · have happ : '"' :: contents ++ ['"'] ++ rest = '"' :: (contents ++ '"' :: rest) := by simp
      have hq : quoted? ('"' :: (contents ++ '"' :: rest)) = some (contents, rest) :=
        quoted?_eq_some_iff.mpr ⟨rfl, hquote⟩
      rw [happ]
      simp [token?, Token.ofMark?, hq]
    · rw [Expr.printOnto, Literal.print, String.toList_ofList]
      rfl
  | number hne hdigits =>
    refine ⟨.number s, fun rest hend => ?_, fun tail => by rw [Expr.printOnto]; rfl⟩
    have hd := digits?_eq_some_iff.mpr ⟨rfl, hne, hdigits, hend⟩
    obtain ⟨c, s, rfl⟩ := List.exists_cons_of_ne_nil hne
    have hc := isWordChar_of_isDigit (hdigits c (by simp))
    rw [List.cons_append] at hd ⊢
    simp [token?, Token.ofMark?_eq_none hc, quoted?_eq_none_of_isWordChar hc, hd]
  | word hword =>
    refine ⟨.word s, fun rest hend => ?_, fun tail => ?_⟩
    · have hd := (digits?_eq_none_iff_of_word hword.ne_nil hword.isWordChar hend).mpr hword.digits
      have hw := word?_eq_some_iff.mpr ⟨rfl, hword.ne_nil, hword.isWordChar, hend⟩
      obtain ⟨c, s, rfl⟩ := List.exists_cons_of_ne_nil hword.ne_nil
      have hc := hword.isWordChar c (by simp)
      rw [List.cons_append] at hd hw ⊢
      simp [token?, Token.ofMark?_eq_none hc, quoted?_eq_none_of_isWordChar hc, hd, hw]
    · rw [Expr.printOnto, String.toList_ofList]
      rfl

theorem SpellsArgs.ne_nil {t : List Char} {args : List Expr} (h : SpellsArgs t args) :
    args ≠ [] := by
  cases h <;> exact List.cons_ne_nil _ _

mutual
theorem exists_lexes_of_spells {s : List Char} {e : Expr} :
    Spells s e → ∃ tokens, Lexes s e.printOnto tokens
  | .atom hb h => by
      obtain ⟨t, htoken, hprint⟩ := exists_token_of_spellsAtom h
      exact ⟨[t], lexes_of_spellsAtom hb htoken hprint⟩
  | .callNone h hb hb' => by
      obtain ⟨tokens, hop⟩ := exists_lexes_of_spells h
      have hclosing := Lexes.mark hb' (c := ')') rfl .nil
      have hopening := Lexes.mark hb (c := '(') rfl hclosing
      have hcall := hop.append hopening (stopsAt_mark hb (by decide))
      exact ⟨_, hcall.congr (by simp) fun tail => by
        rw [Expr.printOnto, Expr.printArgsOnto]; rfl⟩
  | .call h hb hargs hb' => by
      obtain ⟨tokens, hop⟩ := exists_lexes_of_spells h
      obtain ⟨tokens', hargs⟩ := exists_lexes_of_spellsArgs hargs
      have hclosing := Lexes.mark hb' (c := ')') rfl .nil
      have hlist := hargs.append hclosing (stopsAt_mark hb' (by decide))
      have hopening := Lexes.mark hb (c := '(') rfl hlist
      have hcall := hop.append hopening (stopsAt_mark hb (by decide))
      exact ⟨_, hcall.congr (by simp) fun tail => by rw [Expr.printOnto]; rfl⟩

theorem exists_lexes_of_spellsArgs {s : List Char} {args : List Expr} :
    SpellsArgs s args → ∃ tokens, Lexes s (Expr.printArgsOnto args) tokens
  | .one h => by
      obtain ⟨tokens, harg⟩ := exists_lexes_of_spells h
      exact ⟨tokens, harg.congr rfl fun tail => by rw [Expr.printArgsOnto]⟩
  | .more h hb hargs => by
      obtain ⟨tokens, harg⟩ := exists_lexes_of_spells h
      obtain ⟨tokens', hrest⟩ := exists_lexes_of_spellsArgs hargs
      have hcomma := Lexes.mark hb (c := ',') rfl hrest
      have hall := harg.append hcomma (stopsAt_mark hb (by decide))
      refine ⟨_, hall.congr (by simp) fun tail => ?_⟩
      rw [Expr.printArgsOnto]
      · rfl
      · exact hargs.ne_nil
end

/-- The canonical text of a program is that of the tokens of its source. -/
theorem exists_tokens_of_spellsProgram {source : List Char} {e : Expr}
    (h : SpellsProgram source e) :
    ∃ tokens, tokens? source = some tokens ∧ e.print.toList = tokens.flatMap Token.canonical := by
  obtain ⟨s, blanks, rfl, hs, hb⟩ := h
  obtain ⟨tokens, hlexes⟩ := exists_lexes_of_spells hs
  refine ⟨tokens, ?_, ?_⟩
  · have hstops : StopsAt isWordChar blanks := by
      simpa using Parse.stopsAt_isWordChar_append hb stopsAt_nil
    rw [hlexes.tokens?_append blanks hstops, tokens?_of_blanks hb, Option.map_some,
      List.append_nil]
  · rw [Expr.print, String.toList_ofList, hlexes.print_eq, List.append_nil]

end Egg.Grammar
