import ExprCheck.Checker
import ExprCheck.Diagnostic.Excerpt
import ExprCheck.Dump.Program
import ExprCheck.Grammar.Program

/-!
# Checking a source file

A session takes the text of a file through all stages and writes a log: what it is asked to dump,
and a report on each problem. A text that cannot be read ends the session; type errors do not.
-/

namespace ExprCheck

/-- What a session is asked to write besides reports. -/
structure Options where
  /-- The tokens. -/
  dumpTokens : Bool
  /-- The program. -/
  dumpProgram : Bool
  /-- The symbols. -/
  dumpSymbols : Bool
  /-- What it is doing. -/
  verbose : Bool
  /-- Colours in reports. -/
  colored : Bool
deriving DecidableEq, Repr

/-- What is known of a text that can be read. -/
structure Outcome where
  /-- The program. -/
  program : Program
  /-- Its type errors. -/
  errors : List TypeError

/-- Whether the program has no type errors. -/
def Outcome.isAccepted (o : Outcome) : Bool := o.errors.isEmpty

/-- A finished session. -/
structure Session where
  /-- All that was written. -/
  log : String
  /-- What came of it. -/
  result : Except ReadError Outcome

namespace Session

/-- A line of the log. -/
def line (s : String) : String := s ++ "\n"

/-- A part of the log between a head and a foot, with an empty line after it. -/
def dump (head foot content : String) : String :=
  line s!"=== {head} ===" ++ content ++ line s!"=== End {foot} ===" ++ "\n"

/-- The part of a log that is written only on demand. -/
def onDemand (asked : Bool) (s : String) : String := if asked then s else ""

/-- The dump of some tokens. -/
def tokenDump (tokens : List Token) : String :=
  dump "F Tokens" "Tokens" (String.join (tokens.map fun t => line (Dump.token t).inline))

/-- The dump of a program. -/
def programDump (p : Program) : String :=
  dump "F AST" "AST" (line ((Dump.program p).indented 0))

/-- The listing of a symbol table. -/
def symbolListing (symbols : SymbolTable) : String :=
  String.join (symbols.listing.map line)

/-- The dump of a symbol table. -/
def symbolDump (symbols : SymbolTable) : String :=
  dump "Symbols" "Symbols" (symbolListing symbols)

/-- The report on a problem. -/
def report (file : SourceFile) (o : Options) (problem : Problem) : String :=
  problem.diagnostic.report [file] 0 o.colored

/-- The stage that dumps the tokens, if asked to. -/
def lexicalStage (file : SourceFile) (o : Options) : Except ReadError String :=
  if o.dumpTokens then (tokenize file.text).map tokenDump else .ok ""

/-- The log of checking a program, and its errors. -/
def typingStage (file : SourceFile) (o : Options) (p : Program) : String × List TypeError :=
  let c := Checker.initial.check p
  let log :=
    onDemand o.dumpProgram (programDump p)
      ++ onDemand o.verbose (line s!"Validating {p.declarations.length} declarations...")
      ++ onDemand o.dumpSymbols (symbolDump c.symbols)
      ++ String.join (c.errors.map fun e => report file o e.problem)
  (log, c.errors)

/-- Check a source file. -/
def run (file : SourceFile) (o : Options) : Session :=
  match lexicalStage file o with
  | .error e => ⟨report file o e.problem, .error e⟩
  | .ok tokens =>
    let log := tokens ++ onDemand o.verbose (line "Parsing F...")
    match Program.ofText file.text with
    | .error e => ⟨log ++ report file o e.problem, .error e⟩
    | .ok p =>
      let (checked, errors) := typingStage file o p
      ⟨log ++ checked, .ok ⟨p, errors⟩⟩

end Session

end ExprCheck
