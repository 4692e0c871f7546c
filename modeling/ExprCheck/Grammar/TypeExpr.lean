import ExprCheck.Grammar.Level

/-!
# Reading annotations
-/

namespace ExprCheck.Grammar

open ReadM

universe u

variable {m : Type → Type u} [Monad m] [MonadLiftT ReadM m]

/-- The primitive type that a token names, if any. -/
def primitive? : Kind → Option Primitive
  | .keyword .booleanKw => some .boolean
  | .keyword .integerKw => some .integer
  | .keyword .realKw => some .real
  | .keyword .rationalKw => some .rational
  | .keyword .complexKw => some .complex
  | .keyword .stringKw => some .string
  | _ => none

/-- A type annotation. The types in parentheses are read by `list`. -/
@[inline]
def Production.typeExpr (typeExpr : m TypeExpr) (list : m (List TypeExpr)) : m TypeExpr := do
  let t ← next
  match t.kind with
  | .keyword .funcKw =>
    let _ ← expect Punct.lparen
    let params ← list
    let _ ← expect Punct.rparen
    let _ ← expect Punct.colon
    let result ← typeExpr
    return .func (← spanFrom t.span) params result
  | .punct .lbracket =>
    let element ← typeExpr
    let _ ← expect Punct.rbracket
    return .array (← spanFrom t.span) element
  | .punct .lbrace =>
    let key ← typeExpr
    let _ ← expect Punct.colon
    let value ← typeExpr
    let _ ← expect Punct.rbrace
    return .map (← spanFrom t.span) key value
  | .punct .lparen =>
    let fields ← list
    let _ ← expect Punct.rparen
    return .tuple (← spanFrom t.span) fields
  | kind =>
    match primitive? kind with
    | some p => return .primitive (← spanFrom t.span) p
    | none => fail (.expectedType kind) t.span

/-- A type annotation. -/
def typeExpr (inner : Level) : ReadM TypeExpr :=
  Production.typeExpr inner.typeExpr (items Punct.rparen inner.typeExpr inner.rounds)

end ExprCheck.Grammar
