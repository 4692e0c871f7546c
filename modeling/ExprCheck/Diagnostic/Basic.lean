import ExprCheck.ReadFault
import ExprCheck.TypeFault

/-!
# Diagnostics

A `Problem` is anything that keeps a program from being accepted. A `Diagnostic` is what is shown of
it: a headline and, for a problem in the source text, a label on the text it is about.
-/

namespace ExprCheck

/-- The stage of checking that finds a problem in the source text. -/
inductive Stage where
  /-- Cutting the text into tokens. -/
  | lexical
  /-- Reading the tokens as a program. -/
  | grammar
  /-- Checking the types of the program. -/
  | typing
deriving DecidableEq, Repr

/-- What a stage calls its problems. -/
def Stage.title : Stage → String
  | lexical => "Lexer error"
  | grammar => "Syntax error"
  | typing => "Type error"

/-- A message about a stretch of text. -/
structure Label where
  /-- Offset of the first byte of the text. -/
  start : Nat
  /-- Offset of the first byte after the text. -/
  stop : Nat
  /-- The message, which may be empty. -/
  message : String
deriving DecidableEq, Repr

/-- What is shown of a problem. -/
structure Diagnostic where
  /-- The headline. -/
  headline : String
  /-- The text it is about. -/
  label? : Option Label
deriving DecidableEq, Repr

/-- Anything that keeps a program from being accepted. -/
inductive Problem where
  /-- A problem in the source text. -/
  | inSource (stage : Stage) (message : String) (span : Span)
  /-- The source text cannot be had. -/
  | unreadable (reason : String)
deriving DecidableEq, Repr

namespace Problem

/-- A problem on one line. -/
def render : Problem → String
  | inSource stage message span => s!"{stage.title} at {span.position.render}: {message}"
  | unreadable reason => "IO error: " ++ reason

/-- The text that a problem is about, if there is one. -/
def span? : Problem → Option Span
  | inSource _ _ span => some span
  | unreadable _ => none

/-- What is shown of a problem. -/
def diagnostic : Problem → Diagnostic
  | inSource stage message span =>
    ⟨s!"{stage.title} at {span.position.render}", some ⟨span.start, span.stop, message⟩⟩
  | unreadable reason => ⟨"IO error: " ++ reason, none⟩

end Problem

/-- The problem that keeps a text from being read. -/
def ReadError.problem (e : ReadError) : Problem :=
  .inSource (if e.fault.isLexical then .lexical else .grammar) e.fault.message e.span

/-- The problem that keeps a program from checking. -/
def TypeError.problem (e : TypeError) : Problem := .inSource .typing e.fault.message e.span

end ExprCheck
