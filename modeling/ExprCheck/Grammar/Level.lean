import ExprCheck.Program
import ExprCheck.Token.Stream

/-!
# Levels of nesting

The grammar is recursive: an expression can hold a function literal, which holds statements, which
hold expressions. Each rule is written as a `Production`, over the readers of its parts and in any
monad that can make steps on a stream. A reader of the grammar is a production that is given the
readers of the next level of nesting, a `Level`, and the readers of all levels are then built from
the innermost outwards.

A reader enters a deeper level only after it has taken a token, so a text of `n` tokens never gets
deeper than `n` levels, and a list of items never has more than `n` of them.
-/

namespace ExprCheck.Grammar

open ReadM

universe u

variable {m : Type → Type u} [Monad m] [MonadLiftT ReadM m]

/-- The readers of one level of nesting. -/
structure Level where
  /-- How many items a list at the level around this one may have. -/
  rounds : Nat
  /-- An expression whose operators all have at least the given precedence. -/
  expr : Nat → ReadM Expr
  /-- A type annotation. -/
  typeExpr : ReadM TypeExpr
  /-- The statements up to the end of a block. -/
  stmts : ReadM (List Stmt)

/-- Give up because a bound was reached. -/
def exhausted {α : Type} : ReadM α := do fail .exhausted (← get).last

/-- Items separated by commas, up to but not including `close`; a comma may follow the last. What
follows a comma is read by `again`. -/
@[inline]
def Production.items {α : Type} (close : Kind) (item : m α) (again : m (List α)) : m (List α) := do
  if ← check close then
    return []
  else
    let x ← item
    if ← accept Punct.comma then
      return x :: (← again)
    else
      return [x]

/-- A list of items that ends before `close`. -/
def items {α : Type} (close : Kind) (item : ReadM α) : Nat → ReadM (List α)
  | 0 => exhausted
  | n + 1 => Production.items close item (items close item n)

/-- A name. -/
def identifier : ReadM String := do
  let t ← next
  match t.kind with
  | .text .identifier name => return name
  | found => fail (.expectedIdentifier found) t.span

/-- Any identifier, as a kind to compare with. -/
def anyIdentifier : Kind := .text .identifier ""

/-- An optional annotation after a colon. -/
@[inline]
def Production.optionalType (typeExpr : m TypeExpr) : m (Option TypeExpr) := do
  if ← accept Punct.colon then
    return some (← typeExpr)
  else
    return none

/-- An optional annotation. -/
def optionalType (inner : Level) : ReadM (Option TypeExpr) :=
  Production.optionalType inner.typeExpr

end ExprCheck.Grammar
