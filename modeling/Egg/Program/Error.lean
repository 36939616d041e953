-- SUMMARY: What can fail between a source file and its value, and the texts of these failures.
import Egg.Eval.Error
import Egg.Parse.Error

/-! # Program errors

A program is read from a file, parsed, and evaluated with bindings from the
command line. Each of these can fail, and the error names the file or the
binding. -/

namespace Egg

/-- Why a file cannot be read. -/
inductive ReadFault where
  | notFound
  | permissionDenied
  | invalidData
  | other
deriving DecidableEq, Repr

/-- A failed read, with the text that the system has for it. -/
structure ReadError where
  fault : ReadFault
  text : String
deriving DecidableEq, Repr

/-- Why a program has no value. -/
inductive ProgramError where
  | read (path : String) (e : ReadError)
  | parse (path : String) (place : Place) (e : ParseError)
  | eval (path : String) (e : EvalError)
  | invalidBinding (binding reason : String)
deriving DecidableEq

namespace ProgramError

/-- The text of a failed read. Only a fault without a text of its own shows that of
    the system. -/
def readMessage (path : String) (e : ReadError) : String :=
  match e.fault with
  | .notFound => s!"cannot find file '{path}'"
  | .permissionDenied => s!"permission denied reading '{path}'"
  | .invalidData => s!"'{path}' contains invalid UTF-8 data"
  | .other => s!"error reading '{path}': {e.text}"

/-- The text of the error. -/
def message : ProgramError → String
  | .read path e => readMessage path e
  | .parse path place e => s!"{e.message}\n  --> {path}:{place.line}:{place.column}"
  | .eval path e => s!"runtime error in '{path}': {e.message}"
  | .invalidBinding binding reason => s!"invalid binding '{binding}': {reason}"

/-- The text of the error behind this one. -/
def cause? : ProgramError → Option String
  | .read _ e => some e.text
  | .parse _ _ e => some e.message
  | .eval _ e => some e.message
  | .invalidBinding _ _ => none

end ProgramError

end Egg
