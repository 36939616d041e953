-- SUMMARY: A binding is accepted exactly if its name is a word and its value a literal, and a program can refer to it.
import Egg.Proofs.Expr.RoundTrip
import Egg.Proofs.Program.Head

/-!
# Bindings

The name of a binding is judged by the parser: it is a word if the whole text is parsed to
that word and no other. That leaves the words of the grammar, with nothing around them, so a
program that consists of the name refers to the binding.
-/

namespace Egg

open Grammar

/-! ## Names -/

theorem Expr.print_word (name : String) : (Expr.word name).print = name := by
  rw [print, printOnto, List.append_nil, String.ofList_toList]

/-- A word of the grammar is a program. -/
theorem Expr.parse_of_isWord {name : String} (h : IsWord name.toList) :
    parse name = .ok (.word name) := by
  have hspells := spellsProgram_print (e := .word name) (by rwa [IsWritable])
  rw [print_word] at hspells
  exact parseWithin_eq_ok_iff.mpr ⟨hspells, show 1 ≤ nestingLimit by decide⟩

/-- A program that is a word is spelled by a word of the grammar, up to blanks. -/
theorem Expr.isWord_of_parse {source name : String} (h : parse source = .ok (.word name)) :
    IsWord name.toList := by
  have hwritable := isWritable_of_spellsProgram (parseWithin_eq_ok_iff.mp h).1
  rwa [IsWritable] at hwritable

theorem isWord_iff {text : String} : isWord text = true ↔ IsWord text.toList := by
  constructor
  · intro h
    unfold isWord at h
    split at h
    · next name hname =>
      rw [← eq_of_beq h]
      exact Expr.isWord_of_parse hname
    · cases h
  · intro h
    rw [isWord, Expr.parse_of_isWord h]
    exact beq_self_eq_true text

/-! ## Splitting at the first equals sign -/

section Split

variable {binding name value : String}

theorem parseBinding_of_not_mem (h : '=' ∉ binding.toList) :
    parseBinding binding = .error (.invalidBinding binding "expected name=value") := by
  have hsplit := takeWhile_dropWhile_iff.mpr ⟨(List.append_nil binding.toList).symm,
    fun c hc => bne_iff_ne.mpr (ne_of_mem_of_not_mem hc h), stopsAt_nil⟩
  rw [parseBinding, hsplit.2]

/-- The name is judged first, and then the value. -/
theorem parseBinding_append (h : '=' ∉ name.toList) (value : String) :
    parseBinding (name ++ "=" ++ value) =
      if isWord name then
        match Expr.parse value with
        | .ok (.literal l) => .ok (name, .ofLiteral l)
        | .ok _ => .error (.invalidBinding (name ++ "=" ++ value)
            "value must be a number or string literal")
        | .error e => .error (.invalidBinding (name ++ "=" ++ value) e.message)
      else .error (.invalidBinding (name ++ "=" ++ value) "name must be a single word") := by
  have hsplit : (name ++ "=" ++ value).toList.takeWhile (· != '=') = name.toList ∧
      (name ++ "=" ++ value).toList.dropWhile (· != '=') = '=' :: value.toList :=
    takeWhile_dropWhile_iff.mpr ⟨by simp, fun c hc => bne_iff_ne.mpr (ne_of_mem_of_not_mem hc h),
      stopsAt_cons.mpr rfl⟩
  rw [parseBinding, hsplit.1, hsplit.2]
  cases hword : isWord name with
  | false => simp [hword]
  | true =>
    cases hvalue : Expr.parse value with
    | error e => simp [hword, hvalue]
    | ok e => cases e <;> simp [hword, hvalue]

theorem exists_name_value (binding : String) : '=' ∉ binding.toList ∨
    ∃ name value, binding = name ++ "=" ++ value ∧ '=' ∉ name.toList := by
  refine Classical.or_iff_not_imp_left.mpr fun h => ?_
  obtain ⟨name, value, hsplit, hname⟩ := List.eq_append_cons_of_mem (Classical.not_not.mp h)
  refine ⟨String.ofList name, String.ofList value, ?_, by rwa [String.toList_ofList]⟩
  rw [← String.toList_inj, hsplit]
  simp

theorem parseBinding_eq_error {binding : String} {e : ProgramError}
    (h : parseBinding binding = .error e) : ∃ reason, e = .invalidBinding binding reason := by
  unfold parseBinding at h
  split at h
  · cases h
    exact ⟨_, rfl⟩
  · dsimp only at h
    split at h
    · split at h <;> cases h <;> exact ⟨_, rfl⟩
    · cases h
      exact ⟨_, rfl⟩

theorem parseBinding_eq_ok_iff {v : Value} :
    parseBinding binding = .ok (name, v) ↔
      ∃ value l, binding = name ++ "=" ++ value ∧ '=' ∉ name.toList ∧ IsWord name.toList ∧
        Expr.parse value = .ok (.literal l) ∧ v = .ofLiteral l := by
  constructor
  · intro h
    rcases exists_name_value binding with hnone | ⟨name', value, rfl, hname⟩
    · rw [parseBinding_of_not_mem hnone] at h
      cases h
    · rw [parseBinding_append hname] at h
      split at h
      · next hword =>
        split at h
        · next l hl =>
          cases h
          exact ⟨value, l, rfl, hname, isWord_iff.mp hword, hl, rfl⟩
        · cases h
        · cases h
      · cases h
  · rintro ⟨value, l, rfl, hname, hword, hl, rfl⟩
    rw [parseBinding_append hname, if_pos (isWord_iff.mpr hword), hl]

end Split

/-! ## Programs that refer to a binding -/

namespace Program

variable {path source name : String} {bindings : List (String × Value)}

/-- A program that is a word comes to what the word is bound to last. -/
theorem eval_of_word (h : Expr.parse source = .ok (.word name)) :
    eval path source bindings = (wordResult bindings name).mapError (.eval path) := by
  obtain ⟨fuel, hfuel⟩ : ∃ fuel, ample = fuel + 1 := ⟨2 ^ 60 - 1, by decide⟩
  have hrun (arguments : Nat → List Expr → ScopeId → Run (List Value)) :
      evaluateOperators arguments (fuel + 1) (.word name) (world bindings).1 (world bindings).2 =
        Run.check (wordResult bindings name) (world bindings).2 :=
    evaluateOperators_head (headIs_word_iff.mpr rfl) arguments fuel (.idle evaluationLimit)
      (by decide)
  rw [eval_of_parse h, evaluate_eq_evaluateOperators, hfuel, hrun]
  cases wordResult bindings name <;> rfl

theorem wordResult_concat (bindings : List (String × Value)) (name : String) (v : Value) :
    wordResult (bindings ++ [(name, v)]) name = .ok v := by
  simp [wordResult]

end Program

/-- A binding is accepted exactly if it is a word, the first equals sign and a source of a
    literal. Any other one is reported as it stands: without an equals sign, or with a wrong
    name, whatever its value is, or with a wrong value. A program that is the name of an
    accepted binding comes to its value, if no later binding has the name. Each word that is a
    program and has no equals sign is accepted as a name. -/
theorem parseBinding_accepts :
    (∀ binding,
      (∀ name v, parseBinding binding = .ok (name, v) ↔
        ∃ value l, binding = name ++ "=" ++ value ∧ '=' ∉ name.toList ∧ IsWord name.toList ∧
          Expr.parse value = .ok (.literal l) ∧ v = .ofLiteral l) ∧
      ((∀ b, parseBinding binding ≠ .ok b) →
        ∃ reason, parseBinding binding = .error (.invalidBinding binding reason)) ∧
      ('=' ∉ binding.toList →
        parseBinding binding = .error (.invalidBinding binding "expected name=value")) ∧
      (∀ name value, binding = name ++ "=" ++ value → '=' ∉ name.toList →
        (¬ IsWord name.toList →
          parseBinding binding = .error (.invalidBinding binding "name must be a single word")) ∧
        (IsWord name.toList →
          (∀ e, Expr.parse value = .ok e → (∀ l, e ≠ .literal l) → parseBinding binding =
            .error (.invalidBinding binding "value must be a number or string literal")) ∧
          ∀ err, Expr.parse value = .error err →
            parseBinding binding = .error (.invalidBinding binding err.message)))) ∧
    (∀ binding name v, parseBinding binding = .ok (name, v) → ∀ path bindings,
      Program.eval path name (bindings ++ [(name, v)]) = .ok v) ∧
    (∀ source name value l, Expr.parse source = .ok (.word name) → '=' ∉ name.toList →
      Expr.parse value = .ok (.literal l) →
      parseBinding (name ++ "=" ++ value) = .ok (name, .ofLiteral l)) := by
  refine ⟨fun binding => ⟨fun name v => parseBinding_eq_ok_iff, ?_, parseBinding_of_not_mem, ?_⟩,
    ?_, ?_⟩
  · intro hnone
    cases h : parseBinding binding with
    | ok b => exact absurd h (hnone b)
    | error e =>
      obtain ⟨reason, rfl⟩ := parseBinding_eq_error h
      exact ⟨reason, rfl⟩
  · rintro name value rfl hname
    rw [parseBinding_append hname]
    refine ⟨fun hword => if_neg (mt isWord_iff.mp hword), fun hword => ?_⟩
    rw [if_pos (isWord_iff.mpr hword)]
    constructor
    · intro e he hliteral
      rw [he]
      split
      · next l hl => exact absurd (Except.ok.inj hl) (hliteral l)
      · rfl
      · next hl => cases hl
    · intro err herr
      rw [herr]
  · intro binding name v h path bindings
    obtain ⟨value, l, -, -, hword, -, -⟩ := parseBinding_eq_ok_iff.mp h
    rw [Program.eval_of_word (Expr.parse_of_isWord hword), Program.wordResult_concat]
    rfl
  · intro source name value l hsource hname hl
    exact parseBinding_eq_ok_iff.mpr
      ⟨value, l, rfl, hname, Expr.isWord_of_parse hsource, hl, rfl⟩

/-- A digit may start a name but is none, and a wrong value behind a wrong name is not reported. -/
theorem parseBinding_digits :
    parseBinding "1x=\"a=b\"" = .ok ("1x", .text "a=b") ∧
    Program.eval "path" "1x" ([("1x", .text "c")] ++ [("1x", .text "a=b")]) = .ok (.text "a=b") ∧
    parseBinding "1=(" = .error (.invalidBinding "1=(" "name must be a single word") := by
  have hbinding : parseBinding "1x=\"a=b\"" = .ok ("1x", .text "a=b") := by
    decide +kernel
  have hdigit : ¬ IsWord "1".toList := by
    intro hword
    rcases hword.digits with hempty | ⟨c, hc, -⟩
    · exact absurd hempty (by decide)
    · cases hc
  obtain ⟨hcases, hrefers, -⟩ := parseBinding_accepts
  obtain ⟨-, -, -, hname⟩ := hcases "1=("
  exact ⟨hbinding, hrefers _ _ _ hbinding "path" _, (hname "1" "(" rfl (by decide)).1 hdigit⟩

end Egg
