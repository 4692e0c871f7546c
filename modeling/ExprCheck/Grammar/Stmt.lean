import ExprCheck.Grammar.Expr

/-!
# Reading declarations and statements
-/

namespace ExprCheck.Grammar

open ReadM

universe u

variable {m : Type → Type u} [Monad m] [MonadLiftT ReadM m]

/-- A declaration: a name that may have an annotation, and its value. -/
@[inline]
def Production.declaration (optionalType : m (Option TypeExpr)) (expr : m Expr) :
    m Declaration := do
  let start ← peek
  let name ← identifier
  let typeExpr ← optionalType
  let _ ← expect Keyword.isKw
  let value ← expr
  return ⟨← spanFrom start.span, name, typeExpr, value⟩

/-- A declaration. -/
def declaration (inner : Level) : ReadM Declaration :=
  Production.declaration (optionalType inner) (inner.expr 0)

/-- Whether a declaration begins here. -/
def atDeclaration : ReadM Bool := do
  if ← nameBefore Keyword.isKw then return true else nameBefore Punct.colon

/-- The header of a loop: over a collection, over a range or under a condition. -/
@[inline]
def Production.header (expr : m Expr) : m Header := do
  let start ← peek
  if ← accept Keyword.forKw then
    let name ←
      if ← nameBefore Keyword.inKw then
        let name ← identifier
        let _ ← expect Keyword.inKw
        pure (some name)
      else
        pure none
    let first ← expr
    if ← accept Punct.range then
      let last ← expr
      return .range (← spanFrom start.span) name first last
    else
      return .items (← spanFrom start.span) name first
  else
    let _ ← expect Keyword.whileKw
    let condition ← expr
    return .condition (← spanFrom start.span) condition

/-- The header of a loop. -/
def header (inner : Level) : ReadM Header := Production.header (inner.expr 0)

/-- Whether a return ends here without a value. -/
def atReturnEnd : ReadM Bool := do
  match (← peek).kind with
  | .punct .semicolon | .keyword .endKw | .keyword .elseKw => return true
  | _ => return false

/-- A statement that begins with an expression: an assignment or a call. -/
@[inline]
def Production.exprStmt (operand expr : m Expr) (start : Span) : m Stmt := do
  let target ← operand
  if ← accept Punct.assign then
    let value ← expr
    return .assign (← spanFrom start) target value
  else
    match target with
    | .call _ callee args => return .call (← spanFrom start) callee args
    | _ => fail .expectedStatement target.span

/-- A statement that begins with an expression. -/
def exprStmt (inner : Level) (start : Span) : ReadM Stmt :=
  Production.exprStmt (operand inner) (inner.expr 0) start

/-- A statement that does not declare anything, told by its first token. -/
@[inline]
def Production.plainStmt (expr : m Expr) (stmts : m (List Stmt)) (arguments : m (List Expr))
    (header : m Header) (exprStmt : Span → m Stmt) : m Stmt := do
  let t ← peek
  match t.kind with
  | .keyword .returnKw =>
    let _ ← next
    if ← atReturnEnd then
      return .returnNothing (← spanFrom t.span)
    else
      let value ← expr
      return .returnValue (← spanFrom t.span) value
  | .keyword .breakKw =>
    let _ ← next
    return .breakLoop (← spanFrom t.span)
  | .keyword .printKw =>
    let _ ← next
    let _ ← expect Punct.lparen
    let args ← arguments
    return .print (← spanFrom t.span) args
  | .keyword .ifKw =>
    let _ ← next
    let condition ← expr
    let _ ← expect Keyword.thenKw
    let thenBranch ← stmts
    if ← accept Keyword.elseKw then
      let elseBranch ← stmts
      let _ ← expect Keyword.endKw
      return .ifElse (← spanFrom t.span) condition thenBranch elseBranch
    else
      let _ ← expect Keyword.endKw
      return .ifThen (← spanFrom t.span) condition thenBranch
  | .keyword .forKw | .keyword .whileKw =>
    let h ← header
    let _ ← expect Keyword.loopKw
    let stmts ← stmts
    let _ ← expect Keyword.endKw
    return .loop (← spanFrom t.span) h stmts
  | _ => exprStmt t.span

/-- A statement that does not declare anything. -/
def plainStmt (inner : Level) : ReadM Stmt :=
  Production.plainStmt (inner.expr 0) inner.stmts (arguments inner) (header inner) (exprStmt inner)

/-- A statement: a declaration, if it begins like one. -/
@[inline]
def Production.stmt (declaration : m Declaration) (plainStmt : m Stmt) : m Stmt := do
  if ← atDeclaration then
    let d ← declaration
    return .declaration d.span d
  else
    plainStmt

/-- A statement. -/
def stmt (inner : Level) : ReadM Stmt := Production.stmt (declaration inner) (plainStmt inner)

/-- A statement with the semicolon that may follow it, unless `end`, `else` or the end of the text
comes next. The statements that follow it are read by `again`. -/
@[inline]
def Production.stmts (stmt : m Stmt) (again : m (List Stmt)) : m (List Stmt) := do
  match (← peek).kind with
  | .keyword .endKw | .keyword .elseKw | .eof => return []
  | _ =>
    let s ← stmt
    let _ ← accept Punct.semicolon
    return s :: (← again)

/-- Statements up to but not including `end`, `else` or the end of the text. -/
def stmts (inner : Level) : Nat → ReadM (List Stmt)
  | 0 => exhausted
  | n + 1 => Production.stmts (stmt inner) (stmts inner n)

end ExprCheck.Grammar
