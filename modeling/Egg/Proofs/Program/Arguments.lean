-- SUMMARY: A command line is split part by part, so that its parts can be joined, and its first fault is reported.
import Egg.Proofs.Program.Binding

/-!
# Command lines

A command line consists of parts: an argument on its own, an operand, which is attached to
the option `-D` or stands behind it, and an option at the end that lacks its operand. What an
argument is depends on all that stands before it, but what a command line comes to follows
from its parts alone: the first argument on its own is the target, and the operands are the
bindings, up to the first one that is none.
-/

namespace Egg

theorem bind_eq_ok_iff {ε α β : Type} {x : Except ε α} {f : α → Except ε β} {b : β} :
    x >>= f = .ok b ↔ ∃ a, x = .ok a ∧ f a = .ok b := by
  cases x with
  | error e => exact ⟨nofun, nofun⟩
  | ok a => simp [bind, Except.bind]

theorem bind_eq_error_iff {ε α β : Type} {x : Except ε α} {f : α → Except ε β} {e : ε} :
    x >>= f = .error e ↔ x = .error e ∨ ∃ a, x = .ok a ∧ f a = .error e := by
  cases x with
  | error e' => simp [bind, Except.bind]
  | ok a => simp [bind, Except.bind]

namespace RunArguments

/-! ## Parts -/

/-- A part of a command line. -/
inductive Part where
  /-- An argument on its own. -/
  | target (arg : String)
  /-- An operand of the option `-D`. -/
  | operand (text : String)
  /-- An option `-D` without an operand. -/
  | missing

namespace Part

def target? : Part → Option String
  | .target arg => some arg
  | _ => none

def operand? : Part → Option String
  | .operand text => some text
  | _ => none

end Part

/-- The command line `args` consists of these parts. An option takes the next argument as its
    operand, whatever that looks like, if nothing is attached to it. -/
inductive Splits : List String → List Part → Prop where
  | nil : Splits [] []
  | target {arg args parts} : ¬ ['-', 'D'] <+: arg.toList → Splits args parts →
      Splits (arg :: args) (.target arg :: parts)
  | attached {text args parts} : text ≠ "" → Splits args parts →
      Splits (("-D" ++ text) :: args) (.operand text :: parts)
  | separate {text args parts} : Splits args parts →
      Splits ("-D" :: text :: args) (.operand text :: parts)
  | missing : Splits ["-D"] [.missing]

theorem exists_eq_append_of_prefix {arg : String} (h : ['-', 'D'] <+: arg.toList) :
    ∃ text, arg = "-D" ++ text := by
  obtain ⟨text, htext⟩ := h
  refine ⟨String.ofList text, ?_⟩
  rw [← String.toList_inj, String.toList_append, show (String.ofList text).toList = text from
    String.toList_ofList]
  exact htext.symm

/-- Every command line consists of parts. -/
theorem exists_splits : (args : List String) → ∃ parts, Splits args parts
  | [] => ⟨[], .nil⟩
  | arg :: args => by
    by_cases harg : ['-', 'D'] <+: arg.toList
    · obtain ⟨text, rfl⟩ := exists_eq_append_of_prefix harg
      by_cases htext : text = ""
      · subst htext
        match args with
        | [] => exact ⟨_, .missing⟩
        | text :: args =>
          obtain ⟨parts, h⟩ := exists_splits args
          exact ⟨_, .separate h⟩
      · obtain ⟨parts, h⟩ := exists_splits args
        exact ⟨_, .attached htext h⟩
    · obtain ⟨parts, h⟩ := exists_splits args
      exact ⟨_, .target harg h⟩

variable {args args' : List String} {parts parts' : List Part}

/-- Behind parts that lack nothing, more parts may come. -/
theorem Splits.append (h : Splits args parts) (hmissing : .missing ∉ parts)
    (h' : Splits args' parts') : Splits (args ++ args') (parts ++ parts') := by
  induction h with
  | nil => exact h'
  | target harg _ ih => exact .target harg (ih (mt (List.mem_cons_of_mem _) hmissing))
  | attached htext _ ih => exact .attached htext (ih (mt (List.mem_cons_of_mem _) hmissing))
  | separate _ ih => exact .separate (ih (mt (List.mem_cons_of_mem _) hmissing))
  | missing => exact absurd (List.mem_cons_self ..) hmissing

/-- An operand can be missing at the end only. -/
theorem Splits.eq_nil_of_missing {before after : List Part} (h : Splits args parts)
    (hparts : parts = before ++ .missing :: after) : after = [] := by
  induction h generalizing before with
  | nil => simp at hparts
  | missing =>
    cases before with
    | nil => exact (List.cons.inj hparts).2.symm
    | cons => simp at hparts
  | target _ _ ih | attached _ _ ih | separate _ ih =>
    cases before with
    | nil => cases hparts
    | cons => exact ih (List.cons.inj hparts).2

theorem Splits.missing_not_mem {before after : List Part} {part : Part} (h : Splits args parts)
    (hparts : parts = before ++ part :: after) : .missing ∉ before := by
  intro hmem
  obtain ⟨first, rest, rfl⟩ := List.append_of_mem hmem
  rw [List.append_assoc] at hparts
  exact absurd (h.eq_nil_of_missing hparts) (by simp)

/-! ## Bindings of the parts -/

/-- The bindings of the parts, or the first fault. -/
def bindingsOf : List Part → Except ProgramError (List (String × Value))
  | [] => .ok []
  | .target _ :: parts => bindingsOf parts
  | .operand text :: parts => do
    let binding ← parseBinding text
    let bindings ← bindingsOf parts
    .ok (binding :: bindings)
  | .missing :: _ => .error (.invalidBinding "-D" "expected name=value after -D")

/-- No operand among the parts is rejected. -/
def Accepted (parts : List Part) : Prop :=
  ∀ text, .operand text ∈ parts → ∃ binding, parseBinding text = .ok binding

variable {binding : String × Value} {bindings : List (String × Value)} {text : String}
  {part : Part} {e : ProgramError}

theorem accepted_operand_cons : Accepted (.operand text :: parts) ↔
    (∃ binding, parseBinding text = .ok binding) ∧ Accepted parts := by
  simp [Accepted]

theorem bindingsOf_operand_eq_ok_iff :
    bindingsOf (.operand text :: parts) = .ok bindings ↔
      ∃ binding more, parseBinding text = .ok binding ∧ bindingsOf parts = .ok more ∧
        binding :: more = bindings := by
  rw [bindingsOf, bind_eq_ok_iff]
  simp only [bind_eq_ok_iff, Except.ok.injEq, exists_and_left]

theorem bindingsOf_append (parts parts' : List Part) :
    bindingsOf (parts ++ parts') =
      (do
        let bindings ← bindingsOf parts
        let more ← bindingsOf parts'
        Except.ok (bindings ++ more)) := by
  induction parts with
  | nil =>
    rw [List.nil_append, bindingsOf]
    cases bindingsOf parts' <;> rfl
  | cons part parts ih =>
    cases part with
    | target arg => exact ih
    | missing => rfl
    | operand text =>
      rw [List.cons_append, bindingsOf, bindingsOf, ih]
      cases parseBinding text with
      | error e => rfl
      | ok binding =>
        cases bindingsOf parts with
        | error e => rfl
        | ok bindings => cases bindingsOf parts' <;> rfl

theorem bindingsOf_eq_ok_iff :
    bindingsOf parts = .ok bindings ↔ .missing ∉ parts ∧
      (parts.filterMap Part.operand?).map parseBinding = bindings.map .ok := by
  induction parts generalizing bindings with
  | nil => simp [bindingsOf, eq_comm]
  | cons part parts ih =>
    cases part with
    | target arg =>
      rw [bindingsOf, ih, List.filterMap_cons_none rfl]
      simp
    | missing => simp [bindingsOf]
    | operand text =>
      rw [bindingsOf_operand_eq_ok_iff]
      cases bindings with
      | nil => simp [Part.operand?]
      | cons binding bindings => simp [Part.operand?, ih, and_left_comm]

theorem exists_bindingsOf_eq_ok_iff :
    (∃ bindings, bindingsOf parts = .ok bindings) ↔ .missing ∉ parts ∧ Accepted parts := by
  induction parts with
  | nil => simp [bindingsOf, Accepted]
  | cons part parts ih =>
    cases part with
    | target arg =>
      rw [bindingsOf, ih]
      simp [Accepted]
    | missing => simp [bindingsOf]
    | operand text =>
      simp only [bindingsOf_operand_eq_ok_iff, accepted_operand_cons, List.mem_cons, reduceCtorEq,
        false_or]
      constructor
      · rintro ⟨_, binding, more, hbinding, hmore, -⟩
        obtain ⟨hmissing, haccepted⟩ := ih.mp ⟨more, hmore⟩
        exact ⟨hmissing, ⟨binding, hbinding⟩, haccepted⟩
      · rintro ⟨hmissing, ⟨binding, hbinding⟩, haccepted⟩
        obtain ⟨more, hmore⟩ := ih.mpr ⟨hmissing, haccepted⟩
        exact ⟨binding :: more, binding, more, hbinding, hmore, rfl⟩

theorem bindingsOf_singleton_eq_error_iff :
    bindingsOf [part] = .error e ↔
      (∃ text, part = .operand text ∧ parseBinding text = .error e) ∨
      part = .missing ∧ e = .invalidBinding "-D" "expected name=value after -D" := by
  cases part with
  | target arg => simp [bindingsOf]
  | missing => simp [bindingsOf, eq_comm]
  | operand text => simp [bindingsOf, bind_eq_error_iff]

/-- The first part with a fault decides. -/
theorem bindingsOf_eq_error_iff :
    bindingsOf parts = .error e ↔ ∃ before part after, parts = before ++ part :: after ∧
      (∃ bindings, bindingsOf before = .ok bindings) ∧ bindingsOf [part] = .error e := by
  constructor
  · intro h
    induction parts with
    | nil => cases h
    | cons part parts ih =>
      rw [← List.singleton_append, bindingsOf_append, bind_eq_error_iff] at h
      rcases h with hpart | ⟨bindings, hpart, h⟩
      · exact ⟨[], part, parts, rfl, ⟨[], rfl⟩, hpart⟩
      · rcases bind_eq_error_iff.mp h with hparts | ⟨more, -, hmore⟩
        · obtain ⟨before, fault, after, rfl, ⟨more, hmore⟩, hfault⟩ := ih hparts
          refine ⟨part :: before, fault, after, rfl, ⟨bindings ++ more, ?_⟩, hfault⟩
          rw [← List.singleton_append, bindingsOf_append, hpart, hmore]
          rfl
        · cases hmore
  · rintro ⟨before, part, after, rfl, ⟨bindings, hbefore⟩, hpart⟩
    rw [bindingsOf_append, hbefore, ← List.singleton_append, bindingsOf_append, hpart]
    rfl

/-! ## What the parts come to -/

theorem attached?_eq_none_iff {arg : String} :
    attached? arg = none ↔ ¬ ['-', 'D'] <+: arg.toList := by
  unfold attached?
  split
  · next rest heq => simp [heq]
  · next hne =>
    refine iff_of_true rfl ?_
    rintro ⟨rest, hrest⟩
    exact hne rest hrest.symm

theorem attached?_append (text : String) : attached? ("-D" ++ text) = some text := by
  have hlist : ("-D" ++ text).toList = '-' :: 'D' :: text.toList := String.toList_append
  rw [attached?, hlist]
  exact congrArg some String.ofList_toList

theorem parse_target {arg : String} (harg : attached? arg = none) (args : List String) :
    parse (arg :: args) = (parse args).map fun more => { more with target := some arg } := by
  rw [parse.eq_2 arg args harg]
  cases parse args <;> rfl

theorem bind_map_eq (text : String) (parts : List Part) {target : Option String} :
    (do
      let binding ← parseBinding text
      let args ← (bindingsOf parts).map fun bindings => ⟨target, bindings⟩
      Except.ok (bind binding args)) =
    (bindingsOf (.operand text :: parts)).map fun bindings => ⟨target, bindings⟩ := by
  rw [bindingsOf]
  cases parseBinding text with
  | error e => rfl
  | ok binding => cases bindingsOf parts <;> rfl

/-- What a command line comes to follows from its parts. -/
theorem Splits.parse_eq (h : Splits args parts) :
    parse args = (bindingsOf parts).map fun bindings =>
      ⟨parts.findSome? Part.target?, bindings⟩ := by
  induction h with
  | nil => rfl
  | @target arg args parts harg _ ih =>
    rw [parse_target (attached?_eq_none_iff.mpr harg), ih, bindingsOf]
    cases bindingsOf parts <;> rfl
  | @attached text args parts htext _ ih =>
    rw [parse.eq_5 _ args text (attached?_append text) (fun _ => htext) (fun _ _ _ => htext), ih]
    exact bind_map_eq text parts
  | @separate text args parts _ ih =>
    rw [parse.eq_4 "-D" text args (attached?_append ""), ih]
    exact bind_map_eq text parts
  | missing => exact parse.eq_3 "-D" (attached?_append "")

variable {r : RunArguments}

theorem Splits.parse_eq_ok_iff (h : Splits args parts) :
    parse args = .ok r ↔
      bindingsOf parts = .ok r.bindings ∧ r.target = parts.findSome? Part.target? := by
  rw [h.parse_eq]
  cases bindingsOf parts with
  | error e => exact ⟨nofun, nofun⟩
  | ok bindings =>
    constructor
    · rintro ⟨⟩
      exact ⟨rfl, rfl⟩
    · rintro ⟨⟨⟩, htarget⟩
      rw [← htarget]
      rfl

theorem Splits.parse_eq_error_iff (h : Splits args parts) :
    parse args = .error e ↔ bindingsOf parts = .error e := by
  rw [h.parse_eq]
  cases bindingsOf parts with
  | error e' => simp [Except.map]
  | ok bindings => exact ⟨nofun, nofun⟩

/-- A command line is split from left to right, and the first target counts. -/
theorem parse_append (h : parse args = .ok r) (args' : List String) :
    parse (args ++ args') =
      (parse args').map fun more => ⟨r.target.or more.target, r.bindings ++ more.bindings⟩ := by
  obtain ⟨parts, hparts⟩ := exists_splits args
  obtain ⟨parts', hparts'⟩ := exists_splits args'
  obtain ⟨hbindings, htarget⟩ := hparts.parse_eq_ok_iff.mp h
  have hmissing : .missing ∉ parts := (bindingsOf_eq_ok_iff.mp hbindings).1
  rw [(hparts.append hmissing hparts').parse_eq, hparts'.parse_eq, bindingsOf_append, hbindings,
    List.findSome?_append, ← htarget]
  cases bindingsOf parts' <;> rfl

/-- The target may stand anywhere among the bindings. -/
theorem parse_append_target {pre : List String} {before : List (String × Value)} {arg : String}
    (hpre : parse pre = .ok ⟨none, before⟩) (harg : attached? arg = none) (post : List String) :
    parse (pre ++ arg :: post) =
      (parse post).map fun more => ⟨some arg, before ++ more.bindings⟩ := by
  rw [parse_append hpre, parse_target harg]
  cases parse post <;> rfl

/-- It does not matter whether an operand is attached to its option. -/
theorem parse_separate_eq_attached {text : String} (htext : text ≠ "") (args : List String) :
    parse ("-D" :: text :: args) = parse (("-D" ++ text) :: args) := by
  obtain ⟨parts, hparts⟩ := exists_splits args
  rw [hparts.separate.parse_eq, (hparts.attached htext).parse_eq]

/-- The fault that is reported is the leftmost one. An operand can be missing at the end only. -/
theorem Splits.bindingsOf_eq_error_iff (h : Splits args parts) :
    bindingsOf parts = .error e ↔
      (∃ before text after, parts = before ++ .operand text :: after ∧ Accepted before ∧
        parseBinding text = .error e) ∨
      ∃ before, parts = before ++ [.missing] ∧ Accepted before ∧
        e = .invalidBinding "-D" "expected name=value after -D" := by
  rw [RunArguments.bindingsOf_eq_error_iff]
  simp only [exists_bindingsOf_eq_ok_iff, bindingsOf_singleton_eq_error_iff]
  constructor
  · rintro ⟨before, part, after, hparts, ⟨-, haccepted⟩, ⟨text, rfl, herror⟩ | ⟨rfl, herror⟩⟩
    · exact .inl ⟨before, text, after, hparts, haccepted, herror⟩
    · rw [h.eq_nil_of_missing hparts] at hparts
      exact .inr ⟨before, hparts, haccepted, herror⟩
  · rintro (⟨before, text, after, hparts, haccepted, herror⟩ | ⟨before, hparts, haccepted, herror⟩)
    · exact ⟨before, _, after, hparts, ⟨h.missing_not_mem hparts, haccepted⟩,
        .inl ⟨text, rfl, herror⟩⟩
    · exact ⟨before, _, [], hparts, ⟨h.missing_not_mem hparts, haccepted⟩, .inr ⟨rfl, herror⟩⟩

/-- What is wrong with a command line is a binding. -/
theorem parse_eq_error (h : parse args = .error e) :
    ∃ binding reason, e = .invalidBinding binding reason := by
  obtain ⟨parts, hparts⟩ := exists_splits args
  rcases hparts.bindingsOf_eq_error_iff.mp (hparts.parse_eq_error_iff.mp h) with
    ⟨_, text, _, _, _, herror⟩ | ⟨_, _, _, rfl⟩
  · exact ⟨text, parseBinding_eq_error herror⟩
  · exact ⟨_, _, rfl⟩

/-- Command lines can be joined, and their parts determine what they come to. Behind an accepted
    command line, another one is split as if it stood alone: its bindings come behind, its target
    counts if there is none before, and its fault is reported. An operand may be attached to its
    option. The target is the first argument on its own, and the bindings are the operands, none
    of which is missing. The fault of a rejected command line is that of the leftmost operand that
    is rejected, or the missing operand at the end if there is none before. -/
theorem parse_compositional :
    (∀ a b ra, parse a = .ok ra →
      (∀ rb, parse b = .ok rb →
        parse (a ++ b) = .ok ⟨ra.target.or rb.target, ra.bindings ++ rb.bindings⟩) ∧
      ∀ e, parse b = .error e → parse (a ++ b) = .error e) ∧
    (∀ pre post r text, parse pre = .ok r → text ≠ "" →
      parse (pre ++ ["-D", text] ++ post) = parse (pre ++ ["-D" ++ text] ++ post)) ∧
    ∀ args, (∃ parts, Splits args parts) ∧ ∀ parts, Splits args parts →
      (∀ r, parse args = .ok r ↔
        r.target = parts.findSome? Part.target? ∧ .missing ∉ parts ∧
        (parts.filterMap Part.operand?).map parseBinding = r.bindings.map .ok) ∧
      ∀ e, parse args = .error e ↔
        (∃ before text after, parts = before ++ .operand text :: after ∧ Accepted before ∧
          parseBinding text = .error e) ∨
        ∃ before, parts = before ++ [.missing] ∧ Accepted before ∧
          e = .invalidBinding "-D" "expected name=value after -D" := by
  refine ⟨fun a b ra ha => ?_, fun pre post r text hpre htext => ?_,
    fun args => ⟨exists_splits args, fun parts hparts => ⟨fun r => ?_, fun e => ?_⟩⟩⟩
  · constructor
    · intro rb hb
      rw [parse_append ha, hb]
      rfl
    · intro e hb
      rw [parse_append ha, hb]
      rfl
  · rw [List.append_assoc, List.append_assoc, parse_append hpre, parse_append hpre]
    exact congrArg _ (parse_separate_eq_attached htext post)
  · rw [hparts.parse_eq_ok_iff, bindingsOf_eq_ok_iff, and_comm]
  · rw [hparts.parse_eq_error_iff, hparts.bindingsOf_eq_error_iff]

/-- An operand that looks like an option with an operand is an operand, and an argument behind
    the target is ignored. A fault is reported before a missing operand. -/
theorem parse_operand_like_option :
    parse (["-D", "-Dx=\"a\"", "t"] ++ ["-Dy=\"b\"", "u"]) =
      .ok ⟨some "t", [("-Dx", .text "a"), ("y", .text "b")]⟩ ∧
    parse (["-D", "-Dx=\"a\"", "t"] ++ ["-D", "z", "-D"]) =
      .error (.invalidBinding "z" "expected name=value") := by
  have ha : parse ["-D", "-Dx=\"a\"", "t"] = .ok ⟨some "t", [("-Dx", .text "a")]⟩ := by
    decide +kernel
  have hb : parse ["-Dy=\"b\"", "u"] = .ok ⟨some "u", [("y", .text "b")]⟩ := by
    decide +kernel
  have hz : parseBinding "z" = .error (.invalidBinding "z" "expected name=value") :=
    parseBinding_of_not_mem (by decide)
  obtain ⟨hjoin, -, hparts⟩ := parse_compositional
  refine ⟨(hjoin _ _ _ ha).1 _ hb, (hjoin _ ["-D", "z", "-D"] _ ha).2 _ ?_⟩
  obtain ⟨-, herror⟩ := (hparts ["-D", "z", "-D"]).2 _ (.separate .missing)
  exact (herror _).mpr (.inl ⟨[], "z", [.missing], rfl, nofun, hz⟩)

end RunArguments

end Egg
