import ExprCheck.Grammar.TypeExpr
import ExprCheck.Grammar.Stmt

/-!
# Reading programs

The readers of all levels of nesting, and of a whole text.
-/

namespace ExprCheck

namespace Grammar

open ReadM

universe u

variable {m : Type → Type u} [Monad m] [MonadLiftT ReadM m]

/-- The readers of a level that has `n` levels inside it. -/
def level : Nat → Level
  | 0 => ⟨1, fun _ => exhausted, exhausted, exhausted⟩
  | n + 1 =>
    let inner := level n
    ⟨n + 2, expr inner, typeExpr inner, stmts inner inner.rounds⟩

theorem level_rounds (n : Nat) : (level n).rounds = n + 1 := by
  cases n <;> rfl

/-- The readers of the outermost level of the text still to come. -/
def outermost : ReadM Level := do
  return level ((← get).remaining + 1)

/-- A declaration with the semicolon that may follow it, unless the text ends. The declarations that
follow it are read by `again`. -/
@[inline]
def Production.declarations (declaration : m Declaration) (again : m (List Declaration)) :
    m (List Declaration) := do
  match (← peek).kind with
  | .eof => return []
  | _ =>
    let d ← declaration
    let _ ← accept Punct.semicolon
    return d :: (← again)

/-- Declarations up to the end of the text. -/
def declarations (inner : Level) : Nat → ReadM (List Declaration)
  | 0 => exhausted
  | n + 1 => Production.declarations (declaration inner) (declarations inner n)

/-- A program, to the end of the text. -/
@[inline]
def Production.program (declarations : m (List Declaration)) : m Program := do
  let start ← peek
  let declarations ← declarations
  let stop ← peek
  return ⟨start.span.merge stop.span, declarations⟩

end Grammar

/-- Read an expression from a stream. What follows it is left alone. -/
def Expr.read : ReadM Expr := do
  let outer ← Grammar.outermost
  outer.expr 0

/-- Read a program from a stream, to its end. -/
def Program.read : ReadM Program := do
  let outer ← Grammar.outermost
  Grammar.Production.program (Grammar.declarations outer outer.rounds)

/-- The program that a text writes, or the first fault in it. -/
def Program.ofText (text : List Char) : Except ReadError Program :=
  match Program.read (Stream.ofText text) with
  | .ok program _ => .ok program
  | .error e _ => .error e

end ExprCheck
