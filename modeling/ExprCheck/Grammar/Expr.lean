import ExprCheck.Grammar.Level
import ExprCheck.Literal

/-!
# Reading expressions

An expression is a chain of operands and operators. An operand is a primary expression followed by
any number of calls, indices and field accesses. The chain is grouped by precedence: the operand to
the right of an operator takes in all operators that bind more strongly.
-/

namespace ExprCheck.Grammar

open ReadM

universe u

variable {m : Type → Type u} [Monad m] [MonadLiftT ReadM m]

/-- Turn a fault in the given text into a failure. -/
def orFail {α : Type} (span : Span) : Except ReadFault α → ReadM α
  | .ok a => return a
  | .error fault => fail fault span

/-- The arguments of a call, with the closing parenthesis. -/
@[inline]
def Production.arguments (list : m (List Expr)) : m (List Expr) := do
  let args ← list
  let _ ← expect Punct.rparen
  return args

/-- The arguments of a call. -/
def arguments (inner : Level) : ReadM (List Expr) :=
  Production.arguments (items Punct.rparen (inner.expr 0) inner.rounds)

/-- A choice between two expressions. -/
@[inline]
def Production.conditional (expr : m Expr) : m Expr := do
  let start ← expect Keyword.ifKw
  let predicate ← expr
  let _ ← expect Keyword.thenKw
  let thenBranch ← expr
  let _ ← expect Keyword.elseKw
  let elseBranch ← expr
  let _ ← expect Keyword.endKw
  return .conditional (← spanFrom start.span) predicate thenBranch elseBranch

/-- A conditional expression. -/
def conditional (inner : Level) : ReadM Expr := Production.conditional (inner.expr 0)

/-- A parameter of a function literal: a name that may have an annotation. -/
@[inline]
def Production.param (optionalType : m (Option TypeExpr)) : m Param := do
  let start ← peek
  let name ← identifier
  let typeExpr ← optionalType
  return ⟨← spanFrom start.span, name, typeExpr⟩

/-- A parameter of a function literal. -/
def param (inner : Level) : ReadM Param := Production.param (optionalType inner)

/-- The body of a function literal: an expression or a block. -/
@[inline]
def Production.body (expr : m Expr) (stmts : m (List Stmt)) : m Body := do
  let start ← peek
  if ← accept Punct.arrow then
    let value ← expr
    return .expr (← spanFrom start.span) value
  else if ← accept Keyword.doKw then
    let stmts ← stmts
    let _ ← expect Keyword.endKw
    return .block (← spanFrom start.span) stmts
  else
    let t ← next
    fail (.expectedBody t.kind) t.span

/-- The body of a function literal. -/
def body (inner : Level) : ReadM Body := Production.body (inner.expr 0) inner.stmts

/-- A function literal: parameters, an annotation of the result, and a body. -/
@[inline]
def Production.function (params : m (List Param)) (optionalType : m (Option TypeExpr))
    (body : m Body) : m Expr := do
  let start ← expect Keyword.funcKw
  let _ ← expect Punct.lparen
  let params ← params
  let _ ← expect Punct.rparen
  let result ← optionalType
  let b ← body
  return .function (← spanFrom start.span) params result b

/-- A function literal. -/
def function (inner : Level) : ReadM Expr :=
  Production.function (items Punct.rparen (param inner) inner.rounds) (optionalType inner)
    (body inner)

/-- A literal that lists items between an opening and a closing token. -/
@[inline]
def Production.bracketed {α : Type} (opening closing : Punct) (node : Span → List α → Expr)
    (list : m (List α)) : m Expr := do
  let start ← expect opening
  let xs ← list
  let _ ← expect closing
  return node (← spanFrom start.span) xs

/-- A literal that lists items in brackets. -/
def bracketed {α : Type} (opening closing : Punct) (node : Span → List α → Expr) (item : ReadM α)
    (rounds : Nat) : ReadM Expr :=
  Production.bracketed opening closing node (items closing item rounds)

/-- An array literal. -/
def array (inner : Level) : ReadM Expr :=
  bracketed .lbracket .rbracket .array (inner.expr 0) inner.rounds

/-- An entry of a map literal: a key and its value. -/
@[inline]
def Production.entry (expr : m Expr) : m Entry := do
  let key ← expr
  let _ ← expect Punct.colon
  let value ← expr
  return ⟨key.span.merge value.span, key, value⟩

/-- An entry of a map literal. -/
def entry (inner : Level) : ReadM Entry := Production.entry (inner.expr 0)

/-- A map literal. -/
def map (inner : Level) : ReadM Expr :=
  bracketed .lbrace .rbrace .map (entry inner) inner.rounds

/-- Whether the next two tokens are a name and a token of the given kind. -/
def nameBefore (kind : Kind) : ReadM Bool := do
  if ← check anyIdentifier then checkAt 1 kind else return false

/-- An element of a tuple literal: a value that may have a name. -/
@[inline]
def Production.element (expr : m Expr) : m Element := do
  let start ← peek
  if ← nameBefore Keyword.isKw then
    let name ← identifier
    let _ ← expect Keyword.isKw
    let value ← expr
    return ⟨← spanFrom start.span, some name, value⟩
  else
    let value ← expr
    return ⟨← spanFrom start.span, none, value⟩

/-- An element of a tuple literal. -/
def element (inner : Level) : ReadM Element := Production.element (inner.expr 0)

/-- A tuple literal whose first element has been read. What follows a comma is read by `others`. -/
@[inline]
def Production.tupleFrom (others : m (List Element)) (start : Span) (first : Element) :
    m Expr := do
  let others ← if ← accept Punct.comma then others else pure []
  let _ ← expect Punct.rparen
  return .tuple (← spanFrom start) (first :: others)

/-- A tuple literal whose first element has been read. -/
def tupleFrom (inner : Level) (start : Span) (first : Element) : ReadM Expr :=
  Production.tupleFrom (items Punct.rparen (element inner) inner.rounds) start first

/-- A tuple literal, or an expression in parentheses, which covers its parentheses too. -/
@[inline]
def Production.parenthesized (element : m Element) (tupleFrom : Span → Element → m Expr) :
    m Expr := do
  let start ← expect Punct.lparen
  let first ← element
  match first.name with
  | some _ => tupleFrom start.span first
  | none =>
    if ← accept Punct.rparen then
      return first.value.withSpan (← spanFrom start.span)
    else
      tupleFrom start.span first

/-- A tuple literal, or an expression in parentheses. -/
def parenthesized (inner : Level) : ReadM Expr :=
  Production.parenthesized (element inner) (tupleFrom inner)

/-- A constant or a variable. -/
def atom : ReadM Expr := do
  let t ← next
  match t.kind with
  | .text .identifier name => return .var t.span name
  | kind => return .literal t.span (← orFail t.span (Literal.ofKind kind))

/-- An expression without operators and suffixes, told by its first token. -/
@[inline]
def Production.primary (conditional function array map parenthesized : m Expr) : m Expr := do
  match (← peek).kind with
  | .keyword .ifKw => conditional
  | .keyword .funcKw => function
  | .punct .lbracket => array
  | .punct .lbrace => map
  | .punct .lparen => parenthesized
  | _ => atom

/-- An expression without operators and suffixes. -/
def primary (inner : Level) : ReadM Expr :=
  Production.primary (conditional inner) (function inner) (array inner) (map inner)
    (parenthesized inner)

/-- The selector of a tuple element, after the dot. -/
def selector (target : Expr) : ReadM Expr := do
  let t ← next
  match t.kind with
  | .text .identifier name => return .field (← spanFrom target.span) target name
  | .text .integer digits =>
    let n ← orFail t.span (Literal.readOrdinal digits.toList)
    return .ordinal (← spanFrom target.span) target n
  | found => fail (.expectedField found) t.span

/-- A call, an index or a field access applied to an expression. Those that follow it are read by
`again`. -/
@[inline]
def Production.suffixes (arguments : m (List Expr)) (expr : m Expr) (again : Expr → m Expr)
    (e : Expr) : m Expr := do
  if ← accept Punct.lparen then
    let args ← arguments
    again (.call (← spanFrom e.span) e args)
  else if ← accept Punct.lbracket then
    let i ← expr
    let _ ← expect Punct.rbracket
    again (.index (← spanFrom e.span) e i)
  else if ← accept Punct.dot then
    again (← selector e)
  else
    return e

/-- Calls, indices and field accesses applied to an expression. -/
def suffixes (inner : Level) : Nat → Expr → ReadM Expr
  | 0, _ => exhausted
  | n + 1, e => Production.suffixes (arguments inner) (inner.expr 0) (suffixes inner n) e

/-- An operand: a primary expression with its suffixes. -/
@[inline]
def Production.operand (primary : m Expr) (suffixes : Expr → m Expr) : m Expr := do
  let e ← primary
  suffixes e

/-- An operand. -/
def operand (inner : Level) : ReadM Expr :=
  Production.operand (primary inner) (suffixes inner inner.rounds)

/-- An operator of precedence at least `least` that follows `left`, with its right operand. Those
that follow it are read by `again`. `compared` says whether one of the operators already taken in is
a comparison. -/
@[inline]
def Production.operators (expr : Nat → m Expr) (again : Bool → Expr → m Expr) (least : Nat)
    (compared : Bool) (left : Expr) : m Expr := do
  match Operator.ofKind? (← peek).kind with
  | none => return left
  | some op =>
    if op.precedence < least then
      return left
    else
      let t ← next
      if compared && op.isComparison then
        fail (.chainedComparison op) t.span
      else
        let right ← expr (op.precedence + 1)
        let node := Expr.binary (left.span.merge right.span) op left right
        again (compared || op.isComparison) node

/-- The operators of precedence at least `least` that follow `left`, with their right operands. -/
def operators (inner : Level) (least : Nat) : Nat → Bool → Expr → ReadM Expr
  | 0, _, _ => exhausted
  | n + 1, compared, left =>
    Production.operators inner.expr (operators inner least n) least compared left

/-- An expression: an operand with the operators that follow it. -/
@[inline]
def Production.expr (operand : m Expr) (operators : Expr → m Expr) : m Expr := do
  let left ← operand
  operators left

/-- An expression whose operators all have precedence at least `least`. -/
def expr (inner : Level) (least : Nat) : ReadM Expr :=
  Production.expr (operand inner) (operators inner least inner.rounds false)

end ExprCheck.Grammar
