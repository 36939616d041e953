-- SUMMARY: The commands agree with each other: on the files that they accept, on their failures, and on programs from a file or from the command line.
import Egg.Proofs.Program.Canonical
import Egg.Proofs.Program.Arguments

/-!
# Agreement of the commands

A command that reads a program ends in a report: one line, or one error. The commands that
print a program parse it in the same way, and the command that runs a file parses it before
anything else, so they have the same failures. A program has the same outcome from a file
and from the command line, up to the label of the place it comes from.
-/

namespace Egg

namespace Command

/-! ## Exit codes -/

/-- The command has succeeded, or it has failed and tells why. -/
def Tells (o : Outcome) : Prop :=
  o.code = 0 ∧ o.stderr = "" ∨ o.code = 1 ∧ o.stderr ≠ ""

theorem append_ne_empty {s t : String} (h : s ≠ "") : s ++ t ≠ "" :=
  fun hempty => h (String.append_eq_empty_iff.mp hempty).1

theorem tells_report (line : Except ProgramError String) : Tells (report line) := by
  cases line with
  | ok line => exact .inl ⟨rfl, rfl⟩
  | error e => exact .inr ⟨rfl, append_ne_empty (append_ne_empty (by decide))⟩

/-- A command that lacks its operand has a text for its usage. -/
def Explained : Command → Prop
  | .incomplete usage => usage ≠ ""
  | _ => True

theorem explained_withTarget {usage : String} (husage : usage ≠ "")
    {command : String → List (String × Value) → Command}
    (hcommand : ∀ target bindings, Explained (command target bindings)) (args : List String) :
    Explained (withTarget usage command args) := by
  unfold withTarget
  split
  · trivial
  · exact husage
  · exact hcommand _ _

theorem explained_withFile {usage : String} (husage : usage ≠ "") {command : String → Command}
    (hcommand : ∀ path, Explained (command path)) (args : List String) :
    Explained (withFile usage command args) := by
  cases args with
  | nil => exact husage
  | cons path more => exact hcommand path

theorem explained_ofArguments (args : List String) : Explained (ofArguments args) := by
  unfold ofArguments
  split
  · trivial
  · split
    · refine explained_withTarget (by decide) (fun _ _ => ?_) _
      trivial
    · refine explained_withTarget (by decide) (fun _ _ => ?_) _
      trivial
    · refine explained_withFile (by decide) (fun _ => ?_) _
      trivial
    · refine explained_withFile (by decide) (fun _ => ?_) _
      trivial
    all_goals trivial

theorem tells_outcome {command : Command} (h : Explained command)
    (contents : Except ReadError String) : Tells (command.outcome contents) := by
  cases command with
  | help | version => exact .inl ⟨rfl, rfl⟩
  | unknown name => exact .inr ⟨rfl, append_ne_empty (append_ne_empty (by decide))⟩
  | incomplete usage => exact .inr ⟨rfl, h⟩
  | reject | run | eval | outline | format => exact tells_report _

theorem tells_answer (args : List String) (read : String → Except ReadError String) :
    Tells (answer args read) :=
  tells_outcome (explained_ofArguments args) _

/-! ## Programs in files -/

variable {read : String → Except ReadError String} {path : String} {args : List String}
  {bindings : List (String × Value)} {e : ProgramError}

/-- The program in a file. -/
def load (read : String → Except ReadError String) (path : String) : Except ProgramError Expr := do
  let text ← source path (read path)
  Program.parse path text

theorem load_of_ok {text : String} (h : read path = .ok text) :
    load read path = Program.parse path text := by
  rw [load, h]
  rfl

theorem load_of_error {e : ReadError} (h : read path = .error e) :
    load read path = .error (.read path e) := by
  rw [load, h]
  rfl

theorem load_eq_ok_iff {tree : Expr} :
    load read path = .ok tree ↔ ∃ text, read path = .ok text ∧ Expr.parse text = .ok tree := by
  cases hread : read path with
  | error e =>
    rw [load_of_error hread]
    exact ⟨nofun, nofun⟩
  | ok text =>
    rw [load_of_ok hread, Program.parse_eq_ok_iff]
    simp

theorem answer_parse (read : String → Except ReadError String) (path : String)
    (more : List String) : answer ("parse" :: path :: more) read =
      report ((load read path).map fun tree => tree.outline.indented) := by
  show report (do
    let text ← source path (read path)
    let e ← Program.parse path text
    pure e.outline.indented) = _
  unfold load
  cases source path (read path) with
  | error e => rfl
  | ok text =>
    show report (Program.parse path text >>= _) = report ((Program.parse path text).map _)
    cases Program.parse path text <;> rfl

theorem answer_fmt (read : String → Except ReadError String) (path : String) (more : List String) :
    answer ("fmt" :: path :: more) read = report ((load read path).map Expr.print) := by
  show report (do
    let text ← source path (read path)
    Program.format path text) = _
  unfold load
  cases source path (read path) <;> rfl

theorem withTarget_of_ok {usage target : String}
    {command : String → List (String × Value) → Command}
    (h : RunArguments.parse args = .ok ⟨some target, bindings⟩) :
    withTarget usage command args = command target bindings := by
  rw [withTarget, h]

theorem withTarget_of_error {usage : String} {command : String → List (String × Value) → Command}
    (h : RunArguments.parse args = .error e) : withTarget usage command args = .reject e := by
  rw [withTarget, h]

theorem answer_run (h : RunArguments.parse args = .ok ⟨some path, bindings⟩) :
    answer ("run" :: args) read = report (do
      let text ← source path (read path)
      let v ← Program.eval path text bindings
      pure v.display) := by
  have hcommand : ofArguments ("run" :: args) = .run path bindings := withTarget_of_ok h
  rw [answer, hcommand]
  rfl

theorem answer_eval {text : String} (h : RunArguments.parse args = .ok ⟨some text, bindings⟩) :
    answer ("eval" :: args) read =
      report ((Program.eval inlineLabel text bindings).map Value.display) := by
  have hcommand : ofArguments ("eval" :: args) = .eval text bindings := withTarget_of_ok h
  rw [answer, hcommand]
  rfl

theorem answer_run_of_error (h : RunArguments.parse args = .error e) :
    answer ("run" :: args) read = report (.error e) := by
  have hcommand : ofArguments ("run" :: args) = .reject e := withTarget_of_error h
  rw [answer, hcommand]
  rfl

theorem answer_eval_of_error (h : RunArguments.parse args = .error e) :
    answer ("eval" :: args) read = report (.error e) := by
  have hcommand : ofArguments ("eval" :: args) = .reject e := withTarget_of_error h
  rw [answer, hcommand]
  rfl

/-- A file is parsed before it is evaluated. -/
theorem answer_run_of_load (h : RunArguments.parse args = .ok ⟨some path, bindings⟩)
    (hload : load read path = .error e) : answer ("run" :: args) read = report (.error e) := by
  rw [answer_run h]
  cases hread : read path with
  | error e' =>
    rw [load_of_error hread] at hload
    cases hload
    rfl
  | ok text =>
    rw [load_of_ok hread] at hload
    show report (Program.eval path text bindings >>= _) = _
    rw [Program.eval, hload]
    rfl

theorem answer_run_of_read {text : String}
    (h : RunArguments.parse args = .ok ⟨some path, bindings⟩) (hread : read path = .ok text) :
    answer ("run" :: args) read = report ((Program.eval path text bindings).map Value.display) := by
  rw [answer_run h, hread]
  show report (Program.eval path text bindings >>= _) = _
  cases Program.eval path text bindings <;> rfl

/-! ## Labels -/

/-- A program comes to the same from every place, and its errors tell the place. -/
theorem eval_label (text : String) (bindings : List (String × Value)) :
    (∃ v, ∀ label, Program.eval label text bindings = .ok v) ∨
    (∃ place e, ∀ label, Program.eval label text bindings = .error (.parse label place e)) ∨
    ∃ e, ∀ label, Program.eval label text bindings = .error (.eval label e) := by
  cases hparse : Expr.parse text with
  | error e => exact .inr (.inl ⟨_, e, fun label => Program.eval_of_parse_error hparse⟩)
  | ok tree =>
    cases hrun : evaluate .empty ample tree (Program.world bindings).1
        (Program.world bindings).2 with
    | ok v w =>
      refine .inl ⟨v, fun label => ?_⟩
      rw [Program.eval_of_parse hparse, hrun]
    | error halt w =>
      refine .inr (.inr ⟨halt.report, fun label => ?_⟩)
      rw [Program.eval_of_parse hparse, hrun]

/-- What the error output has before and behind the label of a program. -/
inductive AroundLabel : String → String → Prop where
  | parse (e : ParseError) (place : Place) :
      AroundLabel s!"error: {e.message}\n  --> " s!":{place.line}:{place.column}\n"
  | eval (e : EvalError) : AroundLabel "error: runtime error in '" s!"': {e.message}\n"

theorem report_parse_error (label : String) (place : Place) (e : ParseError) :
    report (.error (.parse label place e)) =
      ⟨1, "", s!"error: {e.message}\n  --> " ++ label ++ s!":{place.line}:{place.column}\n"⟩ := by
  dsimp only [report, ProgramError.message, toString]
  simp only [String.append_assoc]

theorem report_eval_error (label : String) (e : EvalError) :
    report (.error (.eval label e)) =
      ⟨1, "", "error: runtime error in '" ++ label ++ s!"': {e.message}\n"⟩ := by
  have hfront : "error: runtime error in '" = "error: " ++ "runtime error in '" := by decide
  dsimp only [report, ProgramError.message, toString]
  simp only [hfront, String.append_assoc]

/-! ## Agreement -/

/-- A program comes to the same from a file and from the command line. -/
theorem answer_run_agrees_answer_eval {file text : String} {pre post : List String}
    {before : List (String × Value)} (hread : read file = .ok text)
    (hfile : ¬ ['-', 'D'] <+: file.toList) (htext : ¬ ['-', 'D'] <+: text.toList)
    (hpre : RunArguments.parse pre = .ok ⟨none, before⟩) :
    (∃ line, answer ("run" :: (pre ++ file :: post)) read = ⟨0, line, ""⟩ ∧
      answer ("eval" :: (pre ++ text :: post)) read = ⟨0, line, ""⟩) ∨
    (∃ binding reason, RunArguments.parse post = .error (.invalidBinding binding reason) ∧
      answer ("run" :: (pre ++ file :: post)) read =
        report (.error (.invalidBinding binding reason)) ∧
      answer ("eval" :: (pre ++ text :: post)) read =
        report (.error (.invalidBinding binding reason))) ∨
    ∃ front back, AroundLabel front back ∧
      answer ("run" :: (pre ++ file :: post)) read = ⟨1, "", front ++ file ++ back⟩ ∧
      answer ("eval" :: (pre ++ text :: post)) read = ⟨1, "", front ++ inlineLabel ++ back⟩ := by
  have hrun := RunArguments.parse_append_target hpre
    (RunArguments.attached?_eq_none_iff.mpr hfile) post
  have heval := RunArguments.parse_append_target hpre
    (RunArguments.attached?_eq_none_iff.mpr htext) post
  cases hpost : RunArguments.parse post with
  | error e =>
    obtain ⟨binding, reason, rfl⟩ := RunArguments.parse_eq_error hpost
    rw [hpost] at hrun heval
    exact .inr (.inl ⟨binding, reason, rfl, answer_run_of_error hrun, answer_eval_of_error heval⟩)
  | ok more =>
    rw [hpost] at hrun heval
    rw [answer_run_of_read hrun hread, answer_eval heval]
    rcases eval_label text (before ++ more.bindings) with ⟨v, hv⟩ | ⟨place, e, he⟩ | ⟨e, he⟩
    · rw [hv, hv]
      exact .inl ⟨_, rfl, rfl⟩
    · rw [he, he]
      exact .inr (.inr ⟨_, _, .parse e place, report_parse_error .., report_parse_error ..⟩)
    · rw [he, he]
      exact .inr (.inr ⟨_, _, .eval e, report_eval_error .., report_eval_error ..⟩)

/-- The commands agree. Those that print a program succeed on the same files, and fail with
    the same error. A run of the file fails with that error too, whatever its bindings are. A
    program in a file and the same program on the command line print the same, with the same
    arguments around them, and where the error output tells the place of the program, it
    differs in that. No command fails without an error output, and none succeeds with one. -/
theorem answer_agrees (read : String → Except ReadError String) :
    (∀ file more more',
      ((answer ("parse" :: file :: more) read).code = 0 ↔
        ∃ text tree, read file = .ok text ∧ Expr.parse text = .ok tree) ∧
      ((answer ("fmt" :: file :: more') read).code = 0 ↔
        (answer ("parse" :: file :: more) read).code = 0) ∧
      ((answer ("parse" :: file :: more) read).code ≠ 0 → ∃ stderr,
        answer ("parse" :: file :: more) read = ⟨1, "", stderr⟩ ∧
        answer ("fmt" :: file :: more') read = ⟨1, "", stderr⟩ ∧
        (¬ ['-', 'D'] <+: file.toList → ∀ pre post before after,
          RunArguments.parse pre = .ok ⟨none, before⟩ →
          RunArguments.parse post = .ok ⟨none, after⟩ →
          answer ("run" :: (pre ++ file :: post)) read = ⟨1, "", stderr⟩))) ∧
    (∀ file text pre before post, read file = .ok text →
      ¬ ['-', 'D'] <+: file.toList → ¬ ['-', 'D'] <+: text.toList →
      RunArguments.parse pre = .ok ⟨none, before⟩ →
      (∃ line, answer ("run" :: (pre ++ file :: post)) read = ⟨0, line, ""⟩ ∧
        answer ("eval" :: (pre ++ text :: post)) read = ⟨0, line, ""⟩) ∨
      (∃ binding reason, RunArguments.parse post = .error (.invalidBinding binding reason) ∧
        answer ("run" :: (pre ++ file :: post)) read =
          report (.error (.invalidBinding binding reason)) ∧
        answer ("eval" :: (pre ++ text :: post)) read =
          report (.error (.invalidBinding binding reason))) ∨
      ∃ front back, AroundLabel front back ∧
        answer ("run" :: (pre ++ file :: post)) read = ⟨1, "", front ++ file ++ back⟩ ∧
        answer ("eval" :: (pre ++ text :: post)) read = ⟨1, "", front ++ inlineLabel ++ back⟩) ∧
    ∀ args, ((answer args read).code = 1 ↔ (answer args read).stderr ≠ "") ∧
      ((answer args read).code = 0 ↔ (answer args read).stderr = "") := by
  refine ⟨fun file more more' => ?_, ?_, fun args => ?_⟩
  · rw [answer_parse, answer_fmt]
    cases hload : load read file with
    | ok tree =>
      obtain ⟨text, hread, hparse⟩ := load_eq_ok_iff.mp hload
      exact ⟨iff_of_true rfl ⟨text, tree, hread, hparse⟩, Iff.rfl, fun hcode => absurd rfl hcode⟩
    | error e =>
      have hnone : ¬ ∃ text tree, read file = .ok text ∧ Expr.parse text = .ok tree := by
        rintro ⟨text, tree, hread, hparse⟩
        rw [load_eq_ok_iff.mpr ⟨text, hread, hparse⟩] at hload
        cases hload
      have hcode : (1 : UInt32) ≠ 0 := by decide
      refine ⟨iff_of_false hcode hnone, Iff.rfl, fun _ => ⟨_, rfl, rfl, ?_⟩⟩
      intro hfile pre post before after hpre hpost
      have hargs := RunArguments.parse_append_target hpre
        (RunArguments.attached?_eq_none_iff.mpr hfile) post
      rw [hpost] at hargs
      exact answer_run_of_load hargs hload
  · exact fun file text pre before post => answer_run_agrees_answer_eval
  · rcases tells_answer args read with ⟨hcode, hstderr⟩ | ⟨hcode, hstderr⟩
    · simp [hcode, hstderr]
    · simp [hcode, hstderr]

/-- A directory with one file, which holds a call that is not closed. -/
def openCallIn (path : String) : Except ReadError String :=
  if path = "file" then .ok "f(" else .error ⟨.notFound, ""⟩

/-- The three commands that take the file have the same error, which the program on the
    command line has too, with a label of its own. -/
theorem answer_agrees_openCall :
    RunArguments.parse ["-D", "f=\"a\""] = .ok ⟨none, [("f", .text "a")]⟩ ∧
    ∃ front back, AroundLabel front back ∧
      answer ["parse", "file"] openCallIn = ⟨1, "", front ++ "file" ++ back⟩ ∧
      answer ["fmt", "file"] openCallIn = ⟨1, "", front ++ "file" ++ back⟩ ∧
      answer ["run", "-D", "f=\"a\"", "file"] openCallIn = ⟨1, "", front ++ "file" ++ back⟩ ∧
      answer ["eval", "-D", "f=\"a\"", "f("] openCallIn =
        ⟨1, "", front ++ inlineLabel ++ back⟩ := by
  have hread : openCallIn "file" = .ok "f(" := rfl
  have hparse : Expr.parse "f(" = .error ⟨.unexpectedSyntax "", .ofOffsets 2 2⟩ := by
    decide +kernel
  have hbinding : RunArguments.parse ["-D", "f=\"a\""] = .ok ⟨none, [("f", .text "a")]⟩ := by
    decide +kernel
  have hfile : ¬ ['-', 'D'] <+: "file".toList := by decide
  have htext : ¬ ['-', 'D'] <+: "f(".toList := by decide
  obtain ⟨hfails, hlabel, hcode⟩ := answer_agrees openCallIn
  obtain ⟨hsucceeds, -, hsame⟩ := hfails "file" [] []
  have hfailed : (answer ["parse", "file"] openCallIn).code ≠ 0 := by
    intro hzero
    obtain ⟨text, tree, hread', hparse'⟩ := hsucceeds.mp hzero
    cases hread.symm.trans hread'
    cases hparse.symm.trans hparse'
  obtain ⟨stderr, houtline, hformat, hrun⟩ := hsame hfailed
  have hrun := hrun hfile _ [] _ [] hbinding rfl
  rcases hlabel "file" "f(" _ _ [] hread hfile htext hbinding with
    ⟨line, hline, -⟩ | ⟨_, _, hpost, -⟩ | ⟨front, back, haround, hrun', heval⟩
  · cases hrun.symm.trans hline
  · cases hpost
  · have hstderr : stderr = front ++ "file" ++ back :=
      congrArg Outcome.stderr (hrun.symm.trans hrun')
    exact ⟨hbinding, front, back, haround, hstderr ▸ houtline, hstderr ▸ hformat, hrun', heval⟩

end Command

end Egg
