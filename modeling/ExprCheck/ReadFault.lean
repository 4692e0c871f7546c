import ExprCheck.Operator

/-!
# Faults in a source text

Why a text cannot be read as a program. A fault is a cause; its wording is in one place.
-/

namespace ExprCheck

/-- Why a text cannot be read. -/
inductive ReadFault where
  /-- No token begins at this text. -/
  | junk (text : String)
  /-- One token was due and another one came. -/
  | expected (due found : Kind)
  /-- A name was due. -/
  | expectedIdentifier (found : Kind)
  /-- A type was due. -/
  | expectedType (found : Kind)
  /-- An expression was due. -/
  | expectedExpression (found : Kind)
  /-- A field name or an ordinal was due after a dot. -/
  | expectedField (found : Kind)
  /-- The body of a function literal was due. -/
  | expectedBody (found : Kind)
  /-- An expression stands where only an assignment or a call can. -/
  | expectedStatement
  /-- An ordinal above the largest machine word. -/
  | ordinalTooLarge (digits : String)
  /-- A whole number above the largest integer of the language. -/
  | integerOutOfRange (digits : String)
  /-- A rational number whose denominator is zero. -/
  | zeroDenominator (text : String)
  /-- A comparison of the result of a comparison. -/
  | chainedComparison (op : Operator)
  /-- The reader ran out of the steps that the length of its input allows it. -/
  | exhausted
deriving DecidableEq, Repr

namespace ReadFault

/-- Whether the fault lies in the characters, rather than in the order of the tokens. -/
def isLexical : ReadFault → Bool
  | junk _ => true
  | _ => false

/-- The wording of a fault. -/
def message : ReadFault → String
  | junk text => s!"unexpected character '{text}'"
  | expected due found => s!"expected `{due.render}`, found `{found.render}`"
  | expectedIdentifier found => s!"expected identifier, found `{found.render}`"
  | expectedType found => s!"expected type, found `{found.render}`"
  | expectedExpression found => s!"expected expression, found `{found.render}`"
  | expectedField found => s!"expected field name or index, found `{found.render}`"
  | expectedBody found => s!"expected `=>` or `do`, found `{found.render}`"
  | expectedStatement => "expected statement: declaration, assignment or call"
  | ordinalTooLarge digits => s!"tuple field index `{digits}` is too large"
  | integerOutOfRange digits => s!"integer literal `{digits}` is out of range"
  | zeroDenominator text => s!"rational literal `{text}` has a zero denominator"
  | chainedComparison op => s!"comparison operators cannot be chained, found `{op.text}`"
  | exhausted => "too many steps"

end ReadFault

/-- A fault and the text it is about. -/
structure ReadError where
  /-- The fault. -/
  fault : ReadFault
  /-- Where it is. -/
  span : Span
deriving DecidableEq, Repr

end ExprCheck
