-- SUMMARY: The commands of the command line, and what each of them prints.
import Egg.Program.Arguments
import Egg.Program.Run

/-! # Commands

A command line is first read as a command. A command needs at most one file. With
the contents of that file, the command has an outcome: what it prints, and its
exit code. A failure is one line on the error output, and exit code 1. -/

namespace Egg

/-- What a command prints, and its exit code. -/
structure Outcome where
  code : UInt32
  stdout : String
  stderr : String
deriving DecidableEq

/-- A command. -/
inductive Command where
  | help
  | version
  /-- No command has this name. -/
  | unknown (name : String)
  /-- A command without its operand. It prints how it is used. -/
  | incomplete (usage : String)
  /-- A command with arguments that cannot be read. -/
  | reject (e : ProgramError)
  /-- Evaluate the program in a file. -/
  | run (path : String) (bindings : List (String × Value))
  /-- Evaluate a program that stands on the command line. -/
  | eval (source : String) (bindings : List (String × Value))
  /-- Print the tree of the program in a file. -/
  | outline (path : String)
  /-- Print the program in a file in canonical form. -/
  | format (path : String)

namespace Command

/-- The text that explains all commands. -/
def usage : String :=
  "\n".intercalate
    [ "Egg language front end",
      "",
      "Usage: egg <command> [options]",
      "",
      "Commands:",
      "  run <file>       Evaluate a program file and print its value",
      "  eval <source>    Evaluate a program given on the command line",
      "  parse <file>     Print the syntax tree of a program",
      "  fmt <file>       Print a program in canonical form",
      "  help             Show this help message",
      "  version          Show version information",
      "",
      "Options (run, eval):",
      "  -D name=value    Bind a number or \"string\" literal before evaluating",
      "",
      "Environment:",
      "  RUST_LOG         Enable tracing, e.g. RUST_LOG=egg_eval=debug",
      "" ]

/-- The version of the program. -/
def versionText : String := "egg 0.1.0\n"

/-- The label of a program that stands on the command line. -/
def inlineLabel : String := "<inline>"

/-- A command that takes a target and bindings. -/
def withTarget (usage : String) (command : String → List (String × Value) → Command)
    (args : List String) : Command :=
  match RunArguments.parse args with
  | .error e => .reject e
  | .ok ⟨none, _⟩ => .incomplete usage
  | .ok ⟨some target, bindings⟩ => command target bindings

/-- A command that takes a file. Further arguments are ignored. -/
def withFile (usage : String) (command : String → Command) : List String → Command
  | [] => .incomplete usage
  | path :: _ => command path

/-- The command of a command line. Without arguments it is the help. -/
def ofArguments : List String → Command
  | [] => .help
  | name :: args =>
    match name with
    | "run" => withTarget "Usage: egg run <file.egg> [-D name=value]...\n" .run args
    | "eval" => withTarget "Usage: egg eval <source> [-D name=value]...\n" .eval args
    | "parse" => withFile "Usage: egg parse <file.egg>\n" .outline args
    | "fmt" => withFile "Usage: egg fmt <file.egg>\n" .format args
    | "help" | "--help" | "-h" => .help
    | "version" | "--version" | "-V" => .version
    | name => .unknown name

/-- The file that a command reads. -/
def path? : Command → Option String
  | .run path _ | .outline path | .format path => some path
  | _ => none

/-- The outcome of a command that prints a line or fails. -/
def report : Except ProgramError String → Outcome
  | .ok line => ⟨0, s!"{line}\n", ""⟩
  | .error e => ⟨1, "", s!"error: {e.message}\n"⟩

/-- The contents of the file at `path`. -/
def source (path : String) (contents : Except ReadError String) : Except ProgramError String :=
  contents.mapError (.read path)

/-- What a command prints, given the contents of the file that it reads. -/
def outcome (contents : Except ReadError String) : Command → Outcome
  | .help => ⟨0, usage, ""⟩
  | .version => ⟨0, versionText, ""⟩
  | .unknown name => ⟨1, usage, s!"Unknown command: {name}\n\n"⟩
  | .incomplete usage => ⟨1, "", usage⟩
  | .reject e => report (.error e)
  | .run path bindings => report do
    let text ← source path contents
    let v ← Program.eval path text bindings
    pure v.display
  | .eval text bindings => report ((Program.eval inlineLabel text bindings).map Value.display)
  | .outline path => report do
    let text ← source path contents
    let e ← Program.parse path text
    pure e.outline.indented
  | .format path => report do
    let text ← source path contents
    Program.format path text

end Command

/-- What a command line prints, where `read` gives the contents of a file. -/
def Command.answer (args : List String) (read : String → Except ReadError String) : Outcome :=
  let command := ofArguments args
  command.outcome (read (command.path?.getD ""))

end Egg
