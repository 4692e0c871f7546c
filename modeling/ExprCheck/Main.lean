import ExprCheck.CommandLine.Run

/-!
# The command
-/

namespace ExprCheck.CommandLine

/-- Why the system does not give a file. -/
def Unreadable.ofError : IO.Error → Unreadable
  | .noFileOrDirectory .. => .missing
  | .inappropriateType _ code _ => if code = 20 then .notDirectory else .directory
  | .permissionDenied _ code _ => .other s!"Permission denied (os error {code})"
  | e => .other (toString e)

/-- The text of a file. -/
def readSource (path : String) : IO (Except Unreadable String) := do
  match ← (IO.FS.readBinFile path).toBaseIO with
  | .error e => return .error (.ofError e)
  | .ok bytes => return decode bytes

/-- Print what a command leaves behind. -/
def Exit.print (e : Exit) : IO UInt32 := do
  (← IO.getStdout).putStr e.out
  (← IO.getStderr).putStr e.err
  return e.code.toUInt32

end ExprCheck.CommandLine

open ExprCheck.CommandLine in
/-- Check a source file. -/
def main (args : List String) : IO UInt32 := do
  match parse args with
  | .error stop => stop.exit.print
  | .ok i => (i.run (← readSource i.input)).print
