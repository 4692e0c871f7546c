import ExprCheck.TypeExpr
import ExprCheck.Operator

/-!
# Programs

A program is a list of declarations, each of which names the value of an expression. Statements
occur only inside the bodies of function literals. Every node carries the text it covers.
-/

namespace ExprCheck

/-- A constant written in a program. -/
inductive Literal where
  | boolean (b : Bool)
  | integer (n : Int)
  | real (x : Float)
  | rational (numerator denominator : Int)
  | complex (re im : Float)
  | string (s : String)

/-- The primitive type of a constant. -/
def Literal.primitive : Literal → Primitive
  | boolean _ => .boolean
  | integer _ => .integer
  | real _ => .real
  | rational _ _ => .rational
  | complex _ _ => .complex
  | string _ => .string

/-- A parameter of a function literal. -/
structure Param where
  /-- The text it covers. -/
  span : Span
  /-- Its name. -/
  name : String
  /-- Its type, if the program gives one. -/
  typeExpr : Option TypeExpr

mutual

/-- An expression. -/
inductive Expr where
  /-- A constant. -/
  | literal (span : Span) (value : Literal)
  /-- A reference to a variable. -/
  | var (span : Span) (name : String)
  /-- An operator applied to two operands. -/
  | binary (span : Span) (op : Operator) (left right : Expr)
  /-- A choice: `if p then a else b end`. -/
  | conditional (span : Span) (predicate thenBranch elseBranch : Expr)
  /-- A function literal. -/
  | function (span : Span) (params : List Param) (result : Option TypeExpr) (body : Body)
  /-- An array: `[a, b]`. -/
  | array (span : Span) (elements : List Expr)
  /-- A map: `{k: v}`. -/
  | map (span : Span) (entries : List Entry)
  /-- A tuple: `(x is 1, 2)`. -/
  | tuple (span : Span) (elements : List Element)
  /-- A call: `f(a, b)`. -/
  | call (span : Span) (callee : Expr) (args : List Expr)
  /-- An access to an array or a map: `t[i]`. -/
  | index (span : Span) (target index : Expr)
  /-- An access to a tuple by field name: `t.name`. -/
  | field (span : Span) (target : Expr) (name : String)
  /-- An access to a tuple by ordinal: `t.1`. -/
  | ordinal (span : Span) (target : Expr) (ordinal : Nat)

/-- An entry of a map literal: `key: value`. -/
structure Entry where
  /-- The text it covers. -/
  span : Span
  /-- The key. -/
  key : Expr
  /-- The value stored under the key. -/
  value : Expr

/-- An element of a tuple literal: `name is value` or only `value`. -/
structure Element where
  /-- The text it covers. -/
  span : Span
  /-- Its name, if the program gives one. -/
  name : Option String
  /-- Its value. -/
  value : Expr

/-- The body of a function literal. -/
inductive Body where
  /-- One expression: `=> e`. -/
  | expr (span : Span) (value : Expr)
  /-- Statements: `do … end`. -/
  | block (span : Span) (stmts : List Stmt)

/-- A statement. -/
inductive Stmt where
  /-- A local declaration. -/
  | declaration (span : Span) (decl : Declaration)
  /-- An assignment: `target := value`. -/
  | assign (span : Span) (target value : Expr)
  /-- A call whose result is dropped. -/
  | call (span : Span) (callee : Expr) (args : List Expr)
  /-- A choice without an alternative. -/
  | ifThen (span : Span) (condition : Expr) (thenBranch : List Stmt)
  /-- A choice with an alternative. -/
  | ifElse (span : Span) (condition : Expr) (thenBranch elseBranch : List Stmt)
  /-- A loop. -/
  | loop (span : Span) (header : Header) (body : List Stmt)
  /-- A return without a value. -/
  | returnNothing (span : Span)
  /-- A return with a value. -/
  | returnValue (span : Span) (value : Expr)
  /-- A step out of the innermost loop. -/
  | breakLoop (span : Span)
  /-- Output of some values. -/
  | print (span : Span) (args : List Expr)

/-- What a loop runs over. -/
inductive Header where
  /-- One value: `for x in e`, where `x in` may be missing. -/
  | items (span : Span) (name : Option String) (items : Expr)
  /-- A range of values: `for x in a .. b`, where `x in` may be missing. -/
  | range (span : Span) (name : Option String) (first last : Expr)
  /-- As long as a condition holds: `while e`. -/
  | condition (span : Span) (condition : Expr)

/-- A declaration: `name is value`, or `name: T is value`. -/
structure Declaration where
  /-- The text it covers. -/
  span : Span
  /-- The name declared. -/
  name : String
  /-- The type of the value, if the program gives one. -/
  typeExpr : Option TypeExpr
  /-- The value. -/
  value : Expr

end

/-- A program. -/
structure Program where
  /-- The text from the first token to the end. -/
  span : Span
  /-- Its declarations, in order. -/
  declarations : List Declaration

namespace Expr

/-- The text that an expression covers. -/
def span : Expr → Span
  | literal s _ | var s _ | binary s _ _ _ | conditional s _ _ _ | function s _ _ _
  | array s _ | map s _ | tuple s _ | call s _ _ | index s _ _ | field s _ _ | ordinal s _ _ => s

/-- The same expression, said to cover other text. Its parts keep theirs. -/
def withSpan (s : Span) : Expr → Expr
  | literal _ v => literal s v
  | var _ x => var s x
  | binary _ op l r => binary s op l r
  | conditional _ p t e => conditional s p t e
  | function _ ps r b => function s ps r b
  | array _ es => array s es
  | map _ es => map s es
  | tuple _ es => tuple s es
  | call _ f es => call s f es
  | index _ t i => index s t i
  | field _ t x => field s t x
  | ordinal _ t n => ordinal s t n

end Expr

/-- The text that a function body covers. -/
def Body.span : Body → Span
  | .expr s _ | .block s _ => s

/-- The text that a loop header covers. -/
def Header.span : Header → Span
  | .items s _ _ | .range s _ _ _ | .condition s _ => s

/-- The text that a statement covers. -/
def Stmt.span : Stmt → Span
  | .declaration s _ | .assign s _ _ | .call s _ _ | .ifThen s _ _ | .ifElse s _ _ _
  | .loop s _ _ | .returnNothing s | .returnValue s _ | .breakLoop s | .print s _ => s

/-- The name under which an element can be reached: its own, or its place in the tuple, counted
from one. -/
def Element.fieldName (e : Element) (place : Nat) : String :=
  e.name.getD (toString (place + 1))

end ExprCheck
