import ExprCheck.CommandLine.Help
import ExprCheck.CommandLine.Parse
import ExprCheck.Session

/-!
# Running the command

What the command prints and how it ends, given its arguments and what can be read of its input
file.
-/

namespace ExprCheck.CommandLine

/-- How the command ends. -/
structure Exit where
  /-- The exit code: 0 for success, 1 for a file that is not accepted, 2 for misuse. -/
  code : UInt8
  /-- What it prints. -/
  out : String
  /-- What it reports. -/
  err : String
deriving DecidableEq, Repr

/-- Why an input file cannot be read. -/
inductive Unreadable where
  /-- It does not exist. -/
  | missing
  /-- It is a directory. -/
  | directory
  /-- A part of its path that should be a directory is none. -/
  | notDirectory
  /-- It holds something other than UTF-8 text. -/
  | notText
  /-- The system has another reason. -/
  | other (reason : String)
deriving DecidableEq, Repr

/-- The wording of a reason. -/
def Unreadable.message : Unreadable → String
  | missing => "No such file or directory (os error 2)"
  | directory => "Is a directory (os error 21)"
  | notDirectory => "Not a directory (os error 20)"
  | notText => "stream did not contain valid UTF-8"
  | other reason => reason

/-- The text that the bytes of a file write. -/
def decode (bytes : ByteArray) : Except Unreadable String :=
  match String.fromUTF8? bytes with
  | some text => .ok text
  | none => .error .notText

/-- The end of a command that was not run. -/
def Stop.exit : Stop → Exit
  | summary => ⟨0, CommandLine.summary, ""⟩
  | manual => ⟨0, CommandLine.manual, ""⟩
  | version => ⟨0, versionText, ""⟩
  | misuse m => ⟨2, "", m.render⟩

namespace Invocation

/-- Whether a switch is given. -/
def has (i : Invocation) (s : Switch) : Bool := i.switches.contains s

/-- What the session is asked to write. The reader is taken not to see colours. -/
def options (i : Invocation) : Options :=
  ⟨i.has .dumpTokens, i.has .dumpProgram, i.has .dumpSymbols, i.has .verbose, i.color = .always⟩

/-- The last line of the report on a file. -/
def closing (i : Invocation) (o : Outcome) : String :=
  if o.isAccepted then
    if i.has .verbose then Session.line s!"{i.input}: no errors" else ""
  else Session.line s!"{i.input}: {o.errors.length} error(s)"

/-- Check the input file, given what can be read of it. -/
def run (i : Invocation) : Except Unreadable String → Exit
  | .error reason =>
    ⟨1, "", Session.line s!"error: failed to read {i.input}: {reason.message}"⟩
  | .ok source =>
    let session := Session.run ⟨i.input, source.toList⟩ i.options
    let opening := if i.has .verbose then Session.line s!"Checking {i.input}" else ""
    match session.result with
    | .error _ => ⟨1, "", opening ++ session.log⟩
    | .ok outcome =>
      let code := if outcome.isAccepted then 0 else 1
      ⟨code, "", opening ++ session.log ++ i.closing outcome⟩

end Invocation

/-- Run the command, where `read` tells what can be read of a file. -/
def run (args : List String) (read : String → Except Unreadable String) : Exit :=
  match parse args with
  | .error stop => stop.exit
  | .ok i => i.run (read i.input)

end ExprCheck.CommandLine
