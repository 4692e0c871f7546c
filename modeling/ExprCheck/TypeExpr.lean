import ExprCheck.Token.Basic

/-!
# Type annotations

The types that a program can write down, each with the text it covers.
-/

namespace ExprCheck

/-- The types without parts. -/
inductive Primitive where
  | boolean | integer | real | rational | complex | string
deriving DecidableEq, Repr

namespace Primitive

/-- The keyword that names a primitive type. -/
def keyword : Primitive → Keyword
  | boolean => .booleanKw | integer => .integerKw | real => .realKw
  | rational => .rationalKw | complex => .complexKw | string => .stringKw

end Primitive

/-- A type annotation. -/
inductive TypeExpr where
  /-- The name of a primitive type. -/
  | primitive (span : Span) (p : Primitive)
  /-- A function type: `func(P, Q): R`. -/
  | func (span : Span) (params : List TypeExpr) (result : TypeExpr)
  /-- An array type: `[T]`. -/
  | array (span : Span) (element : TypeExpr)
  /-- A map type: `{K: V}`. -/
  | map (span : Span) (key value : TypeExpr)
  /-- A tuple type: `(A, B)`. -/
  | tuple (span : Span) (fields : List TypeExpr)

namespace TypeExpr

/-- The text that an annotation covers. -/
def span : TypeExpr → Span
  | primitive s _ | func s _ _ | array s _ | map s _ _ | tuple s _ => s

mutual

/-- An annotation in the language's own notation, with single blanks. -/
def render : TypeExpr → String
  | primitive _ p => p.keyword.text
  | func _ params result => "func(" ++ renderList params ++ "): " ++ render result
  | array _ element => "[" ++ render element ++ "]"
  | map _ key value => "\x7b" ++ render key ++ ": " ++ render value ++ "\x7d"
  | tuple _ fields => "(" ++ renderList fields ++ ")"

/-- Annotations separated by commas. -/
def renderList : List TypeExpr → String
  | [] => ""
  | [a] => render a
  | a :: b :: rest => render a ++ ", " ++ renderList (b :: rest)

end

end TypeExpr

end ExprCheck
