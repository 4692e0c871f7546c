import ExprCheck.Token.Basic

/-!
# Binary operators

The operators of the language, with their spelling, their family and their binding strength. A
family is the set of operators that share one table of operand types.
-/

namespace ExprCheck

/-- A binary operator. -/
inductive Operator where
  | add | sub | mul | div
  | lt | le | gt | ge | eq | ne
  | and | or | xor
deriving DecidableEq, Repr

/-- The operators that accept the same operand types. -/
inductive Family where
  | additive | division | relational | logical
deriving DecidableEq, Repr

namespace Operator

/-- Every operator, once. -/
def all : List Operator := [add, sub, mul, div, lt, le, gt, ge, eq, ne, and, or, xor]

/-- The token that writes an operator. -/
def kind : Operator → Kind
  | add => Punct.plus | sub => Punct.minus | mul => Punct.star | div => Punct.slash
  | lt => Punct.lt | le => Punct.le | gt => Punct.gt | ge => Punct.ge
  | eq => Punct.eqEq | ne => Punct.notEq
  | and => Keyword.andKw | or => Keyword.orKw | xor => Keyword.xorKw

/-- The operator that a token writes, if any. -/
def ofKind? (k : Kind) : Option Operator :=
  all.find? (·.kind = k)

/-- The spelling of an operator. -/
def text (op : Operator) : String := op.kind.render

/-- The family of an operator. -/
def family : Operator → Family
  | add | sub | mul => .additive
  | div => .division
  | lt | le | gt | ge | eq | ne => .relational
  | and | or | xor => .logical

/-- Whether an operator compares its operands. Comparisons do not chain. -/
def isComparison (op : Operator) : Bool := op.family = .relational

/-- Binding strength: of two operators, the one with the larger number takes its operands first.
Operators of equal strength group from the left. -/
def precedence : Operator → Nat
  | and | or | xor => 1
  | lt | le | gt | ge | eq | ne => 2
  | add | sub => 3
  | mul | div => 4

/-- What reports call an expression built with an operator. -/
def nodeName : Operator → String
  | add => "SumExpression" | sub => "SubExpression"
  | mul => "MultExpression" | div => "DivExpression"
  | lt => "LessExpression" | le => "LessEqExpression"
  | gt => "GreaterExpression" | ge => "GreaterEqExpression"
  | eq => "EqualExpression" | ne => "NotEqExpression"
  | and => "AndExpression" | or => "OrExpression" | xor => "XorExpression"

end Operator

end ExprCheck
