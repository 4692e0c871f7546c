import ExprCheck.Decimal.Layout
import ExprCheck.Dump.Token
import ExprCheck.Program

/-!
# Dumping programs
-/

namespace ExprCheck

/-- The name of an operator in dumps. -/
def Operator.tag : Operator → String
  | add => "Add" | sub => "Sub" | mul => "Mul" | div => "Div"
  | lt => "Lt" | le => "Le" | gt => "Gt" | ge => "Ge" | eq => "Eq" | ne => "Ne"
  | and => "And" | or => "Or" | xor => "Xor"

/-- The name of a primitive type in dumps. -/
def Primitive.tag : Primitive → String
  | boolean => "Boolean" | integer => "Integer" | real => "Real"
  | rational => "Rational" | complex => "Complex" | string => "String"

namespace Dump

open Outline

/-- Numbers from a ten-thousandth up to, but not including, `10 ^ 16` are written positionally. -/
def realLayout : Decimal.Layout := ⟨-4, 15⟩

/-- A real number. -/
def real (x : Float) : Outline := atom (realLayout.render x)

/-- A whole number. -/
def int (n : Int) : Outline := atom (toString n)

/-- A node: what it is and the text it covers. -/
def node (name : String) (kind : Outline) (s : Span) : Outline :=
  record name [("kind", kind), ("span", span s)]

mutual

/-- A type annotation. -/
def typeExpr : TypeExpr → Outline
  | .primitive s p => node "TypeExpr" (atom p.tag) s
  | .func s params result =>
    node "TypeExpr"
      (record "Function" [("params", list (typeExprs params)), ("ret", typeExpr result)]) s
  | .array s element => node "TypeExpr" (tuple "Array" [typeExpr element]) s
  | .map s key value =>
    node "TypeExpr" (record "Map" [("key", typeExpr key), ("value", typeExpr value)]) s
  | .tuple s fields => node "TypeExpr" (tuple "Tuple" [list (typeExprs fields)]) s

/-- Some type annotations. -/
def typeExprs : List TypeExpr → List Outline
  | [] => []
  | t :: rest => typeExpr t :: typeExprs rest

end

/-- A type annotation that may be missing. -/
def optionalType (t : Option TypeExpr) : Outline := option (t.map typeExpr)

/-- A constant. -/
def literal : Literal → Outline
  | .boolean b => tuple "BoolLiteral" [atom (if b then "true" else "false")]
  | .integer n => tuple "IntLiteral" [int n]
  | .real x => tuple "RealLiteral" [real x]
  | .rational n d => record "RationalLiteral" [("numerator", int n), ("denominator", int d)]
  | .complex re im => record "ComplexLiteral" [("re", real re), ("im", real im)]
  | .string s => tuple "StringLiteral" [text s]

/-- A parameter. -/
def param (p : Param) : Outline :=
  record "Param" [("name", text p.name), ("ty", optionalType p.typeExpr), ("span", span p.span)]

mutual

/-- An expression. -/
def expr : Expr → Outline
  | .literal s v => node "Expr" (literal v) s
  | .var s x => node "Expr" (tuple "Variable" [text x]) s
  | .binary s op l r =>
    node "Expr" (record "Binary" [("op", atom op.tag), ("left", expr l), ("right", expr r)]) s
  | .conditional s p t e =>
    node "Expr"
      (record "Conditional"
        [("predicate", expr p), ("then_branch", expr t), ("else_branch", expr e)]) s
  | .function s params result b =>
    node "Expr"
      (tuple "Function"
        [record "FunctionLiteral"
          [("params", list (params.map param)), ("return_type", optionalType result),
            ("body", body b)]]) s
  | .array s es => node "Expr" (tuple "Array" [list (exprs es)]) s
  | .map s es => node "Expr" (tuple "Map" [list (entries es)]) s
  | .tuple s es => node "Expr" (tuple "Tuple" [list (elements es)]) s
  | .call s f es => node "Expr" (record "Call" [("callee", expr f), ("args", list (exprs es))]) s
  | .index s t i => node "Expr" (record "Index" [("target", expr t), ("index", expr i)]) s
  | .field s t x => node "Expr" (record "NamedField" [("target", expr t), ("field", text x)]) s
  | .ordinal s t n => node "Expr" (record "UnnamedField" [("target", expr t), ("index", nat n)]) s

/-- Some expressions. -/
def exprs : List Expr → List Outline
  | [] => []
  | e :: rest => expr e :: exprs rest

/-- Some map entries. -/
def entries : List Entry → List Outline
  | [] => []
  | ⟨s, k, v⟩ :: rest =>
    record "MapEntry" [("key", expr k), ("value", expr v), ("span", span s)] :: entries rest

/-- Some tuple elements. -/
def elements : List Element → List Outline
  | [] => []
  | ⟨s, x, v⟩ :: rest =>
    record "TupleElement"
      [("name", option (x.map text)), ("value", expr v), ("span", span s)] :: elements rest

/-- A function body. -/
def body : Body → Outline
  | .expr s e => node "FunctionBody" (tuple "Expr" [expr e]) s
  | .block s ss => node "FunctionBody" (tuple "Block" [list (stmts ss)]) s

/-- A statement. -/
def stmt : Stmt → Outline
  | .declaration s d => node "Stmt" (tuple "Declaration" [declaration d]) s
  | .assign s t v => node "Stmt" (record "Assign" [("target", expr t), ("value", expr v)]) s
  | .call s f es => node "Stmt" (record "Call" [("callee", expr f), ("args", list (exprs es))]) s
  | .ifThen s c t =>
    node "Stmt"
      (record "If"
        [("condition", expr c), ("then_branch", list (stmts t)), ("else_branch", option none)]) s
  | .ifElse s c t e =>
    node "Stmt"
      (record "If"
        [("condition", expr c), ("then_branch", list (stmts t)),
          ("else_branch", option (some (list (stmts e))))]) s
  | .loop s h b => node "Stmt" (record "Loop" [("header", header h), ("body", list (stmts b))]) s
  | .returnNothing s => node "Stmt" (tuple "Return" [option none]) s
  | .returnValue s e => node "Stmt" (tuple "Return" [option (some (expr e))]) s
  | .breakLoop s => node "Stmt" (atom "Break") s
  | .print s es => node "Stmt" (tuple "Print" [list (exprs es)]) s

/-- Some statements. -/
def stmts : List Stmt → List Outline
  | [] => []
  | s :: rest => stmt s :: stmts rest

/-- A loop header. -/
def header : Header → Outline
  | .items s x e =>
    node "LoopHeader"
      (record "For" [("var", option (x.map text)), ("start", expr e), ("end", option none)]) s
  | .range s x a b =>
    node "LoopHeader"
      (record "For"
        [("var", option (x.map text)), ("start", expr a), ("end", option (some (expr b)))]) s
  | .condition s e => node "LoopHeader" (tuple "While" [expr e]) s

/-- A declaration. -/
def declaration : Declaration → Outline
  | ⟨s, x, t, v⟩ =>
    record "Declaration"
      [("name", text x), ("ty", optionalType t), ("value", expr v), ("span", span s)]

end

/-- A program. -/
def program (p : Program) : Outline :=
  record "Program"
    [("declarations", list (p.declarations.map declaration)), ("span", span p.span)]

end Dump

end ExprCheck
