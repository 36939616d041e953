-- SUMMARY: The program `egg`: runs the command of its command line.
import Egg.Command

/-! # The program

The only part that reads files and prints. It reads the file that the command
asks for and carries out the outcome. -/

namespace Egg

/-- The text of an error of the system: its own words, and its code. -/
def systemText (code : UInt32) (details : String) : String :=
  s!"{details} (os error {code})"

/-- Why a read failed. -/
def ReadError.ofSystem (e : IO.Error) : ReadError :=
  match e with
  | .noFileOrDirectory _ code details => ⟨.notFound, systemText code details⟩
  | .permissionDenied _ code details => ⟨.permissionDenied, systemText code details⟩
  | .inappropriateType _ code details => ⟨.other, systemText code details⟩
  | .invalidArgument _ code details => ⟨.other, systemText code details⟩
  | .resourceExhausted _ code details => ⟨.other, systemText code details⟩
  | .hardwareFault code details => ⟨.other, systemText code details⟩
  | .otherError code details => ⟨.other, systemText code details⟩
  | e => ⟨.other, toString e⟩

/-- The contents of a file, as text. -/
def readSource (path : String) : IO (Except ReadError String) := do
  try
    let bytes ← IO.FS.readBinFile path
    match String.fromUTF8? bytes with
    | some text => pure (.ok text)
    | none => pure (.error ⟨.invalidData, "stream did not contain valid UTF-8"⟩)
  catch e => pure (.error (.ofSystem e))

end Egg

open Egg in
def main (args : List String) : IO UInt32 := do
  let command := Command.ofArguments args
  let contents ←
    match command.path? with
    | some path => readSource path
    | none => pure (.ok "")
  let outcome := command.outcome contents
  IO.print outcome.stdout
  IO.eprint outcome.stderr
  pure outcome.code
