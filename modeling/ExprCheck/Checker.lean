import ExprCheck.Rule
import ExprCheck.Symbols

/-!
# Checking programs

The checker walks a program once, from left to right. It infers the types of all parts of an
expression before it judges the expression itself, binds names in scopes, and collects the faults
it finds. An expression without a type makes the expressions around it silent, and a name bound to
one is bound without a type.
-/

namespace ExprCheck

/-- What the checker knows and has found at a point of its walk. -/
structure Checker where
  /-- The open scopes. -/
  scopes : ScopeStack
  /-- The names bound so far. -/
  symbols : SymbolTable
  /-- The tuples seen so far. -/
  tuples : TupleTable
  /-- The faults found so far, in order. -/
  errors : List TypeError
  /-- The innermost declaration being checked. -/
  owner : Option String
  /-- The number of function literals around this point. -/
  depth : Nat
deriving Inhabited

/-- A step of the walk. -/
abbrev CheckM := StateM Checker

namespace Checker

/-- The state before the walk. -/
def initial : Checker := ⟨.initial, .empty, .empty, [], none, 0⟩

/-- The slot of a name in the innermost open scope. -/
def slot (c : Checker) (name : String) : Slot := ⟨c.scopes.current, name⟩

/-- Report a fault. -/
def report (span : Span) (fault : TypeFault) : CheckM Unit :=
  modify fun c => { c with errors := c.errors ++ [⟨fault, span⟩] }

/-- Take note of what a rule says. -/
def settle (span : Span) : Verdict → CheckM (Option Ty)
  | .type t => return some t
  | .silent => return none
  | .fault f => do
    report span f
    return none

/-- Bind a name in the innermost open scope. -/
def define (span : Span) (name : String) (symbol : Symbol) : CheckM Unit := do
  let c ← get
  match c.symbols.define? (c.slot name) symbol with
  | some symbols => set { c with symbols := symbols }
  | none => report span (.redeclared name)

/-- Report a fault about two types if both are known and differ. -/
def compareTypes (span : Span) (fault : Ty → Ty → TypeFault) : Option Ty → Option Ty → CheckM Unit
  | some a, some b => if a = b then return else report span (fault a b)
  | _, _ => return

/-- A reference to a name. -/
def inferVar (span : Span) (name : String) : CheckM (Option Ty) := do
  let c ← get
  match c.symbols.lookup name c.scopes.active with
  | some (_, symbol) => return symbol.type?
  | none =>
    report span (.unbound name)
    return none

/-- The type of a parameter. -/
def paramType (p : Param) : Ty := (p.typeExpr.map Ty.ofTypeExpr).getD .undefined

/-- Bind the parameters of a function literal. -/
def defineParams : List Param → CheckM Unit
  | [] => return
  | p :: rest => do
    define p.span p.name ⟨.parameter, some (paramType p)⟩
    defineParams rest

/-- Enter the scope of a function literal. -/
def enterFunction : CheckM Unit :=
  modify fun c => { c with scopes := c.scopes.pushFunction }

/-- Enter the scope of a loop. -/
def enterLoop : CheckM Unit :=
  modify fun c => { c with scopes := c.scopes.pushLoop }

/-- Leave the innermost scope. -/
def leaveScope : CheckM Unit :=
  modify fun c => { c with scopes := c.scopes.pop }

/-- Make another declaration the innermost one. -/
def setOwner (owner : Option String) : CheckM Unit :=
  modify fun c => { c with owner := owner }

/-- Remember the fields of a tuple literal, if all have a type, under the innermost declaration. -/
def recordTuple (fields : List (String × Option Ty)) : CheckM (Option Ty) := do
  match Rule.all? (fields.map Prod.snd) with
  | none => return none
  | some types =>
    let c ← get
    match c.owner with
    | some owner =>
      let fields := (fields.map Prod.fst).zip types
      set { c with tuples := c.tuples.record (c.slot owner) fields }
    | none => pure ()
    return some (.tuple types)

/-- The type of a field of an expression, as far as the tuple table knows it: only a variable whose
tuple was recorded in the innermost open scope has known fields. -/
def knownField (c : Checker) (target : Expr) (field : String) : Option Ty :=
  match target with
  | .var _ owner => c.tuples.field? (c.slot owner) field
  | _ => none

/-- Judge a field access. -/
def settleField (span : Span) (target : Expr) (type : Option Ty) (field : String) :
    CheckM (Option Ty) := do
  let c ← get
  settle span (Rule.field (c.knownField target field) type)

/-- Bind the variable of a loop, if it has one. -/
def defineLoopVariable (span : Span) (name : Option String) (type : Option Ty) : CheckM Unit :=
  match name with
  | some name => define span name ⟨.loopVariable, type⟩
  | none => return

mutual

/-- The type of an expression, if it has one. -/
def infer : Expr → CheckM (Option Ty)
  | .literal _ v => return some (.primitive v.primitive)
  | .var s x => inferVar s x
  | .binary _ op l r => do
    let left ← infer l
    let right ← infer r
    settle l.span (Rule.binary op left right)
  | .conditional _ p t e => do
    let predicate ← infer p
    let thenType ← infer t
    let elseType ← infer e
    settle t.span (Rule.conditional predicate thenType elseType)
  | .function _ params result body => do
    enterFunction
    defineParams params
    modify fun c => { c with depth := c.depth + 1 }
    let type ← inferBody body
    modify fun c => { c with depth := c.depth - 1 }
    leaveScope
    settle body.span (Rule.function (params.map paramType) (result.map Ty.ofTypeExpr) type)
  | .array s es => do
    let types ← inferAll es
    settle s (Rule.array types)
  | .map s es => do
    let types ← inferEntries es
    settle s (Rule.map types)
  | .tuple _ es => do
    let fields ← inferElements 0 es
    recordTuple fields
  | .call s f es => do
    let callee ← infer f
    let types ← inferAll es
    settle s (Rule.call callee types)
  | .index s t i => do
    let target ← infer t
    let type ← infer i
    settle s (Rule.index target type)
  | .field s t x => do
    let target ← infer t
    settleField s t target x
  | .ordinal s t n => do
    let target ← infer t
    settleField s t target (toString n)

/-- The types of some expressions. -/
def inferAll : List Expr → CheckM (List (Option Ty))
  | [] => return []
  | e :: rest => do
    let type ← infer e
    let types ← inferAll rest
    return type :: types

/-- The types of the keys and values of some entries. -/
def inferEntries : List Entry → CheckM (List (Option Ty × Option Ty))
  | [] => return []
  | ⟨_, k, v⟩ :: rest => do
    let key ← infer k
    let value ← infer v
    let types ← inferEntries rest
    return (key, value) :: types

/-- The names and types of the elements of a tuple, from the given place on. -/
def inferElements (place : Nat) : List Element → CheckM (List (String × Option Ty))
  | [] => return []
  | ⟨s, x, v⟩ :: rest => do
    let type ← infer v
    let fields ← inferElements (place + 1) rest
    return (Element.fieldName ⟨s, x, v⟩ place, type) :: fields

/-- The type of what a function body returns. -/
def inferBody : Body → CheckM (Option Ty)
  | .expr _ e => infer e
  | .block _ stmts => inferBlock (some .undefined) stmts

/-- The type of what a block returns: the last return that stands directly in it decides, and
`type` is what the returns before these statements say. -/
def inferBlock (type : Option Ty) : List Stmt → CheckM (Option Ty)
  | [] => return type
  | .returnNothing _ :: rest => inferBlock (some .undefined) rest
  | .returnValue _ e :: rest => do
    let type ← infer e
    inferBlock type rest
  | s :: rest => do
    checkStmt s
    inferBlock type rest

/-- Check a statement. -/
def checkStmt : Stmt → CheckM Unit
  | .declaration _ d => checkDeclaration d
  | .assign s t v => do
    let target ← infer t
    let value ← infer v
    compareTypes s .assignment value target
  | .call s f es => do
    let callee ← infer f
    let types ← inferAll es
    let _ ← settle s (Rule.call callee types)
  | .ifThen _ c t => do
    let _ ← infer c
    checkStmts t
  | .ifElse _ c t e => do
    let _ ← infer c
    checkStmts t
    checkStmts e
  | .loop _ h b => do
    enterLoop
    checkHeader h
    checkStmts b
    leaveScope
  | .returnNothing s => do
    if (← get).depth = 0 then report s .strayReturn
  | .returnValue s e => do
    let _ ← infer e
    if (← get).depth = 0 then report s .strayReturn
  | .breakLoop _ => return
  | .print _ es => do
    let _ ← inferAll es

/-- Check some statements. -/
def checkStmts : List Stmt → CheckM Unit
  | [] => return
  | s :: rest => do
    checkStmt s
    checkStmts rest

/-- Check the header of a loop, inside the scope of the loop. -/
def checkHeader : Header → CheckM Unit
  | .items s x e => do
    let type ← infer e
    defineLoopVariable s x type
  | .range s x a b => do
    let first ← infer a
    defineLoopVariable s x first
    let last ← infer b
    compareTypes s .loopBounds first last
  | .condition _ e => do
    let _ ← infer e

/-- Check a declaration. The value of a name that its scope binds already is not looked at. A value
that differs from its annotation still gives the name its type. -/
def checkDeclaration : Declaration → CheckM Unit
  | ⟨s, x, typeExpr, v⟩ => do
    let c ← get
    if c.symbols.contains (c.slot x) then
      report s (.redeclared x)
    else
      setOwner (some x)
      let type ← infer v
      setOwner c.owner
      compareTypes s .declaredType type (typeExpr.map Ty.ofTypeExpr)
      define s x ⟨.declared, type⟩

end

/-- Check some declarations, one after the other. -/
def checkDeclarations : List Declaration → CheckM Unit
  | [] => return
  | d :: rest => do
    checkDeclaration d
    checkDeclarations rest

/-- Check a program, after whatever was checked before. -/
def check (c : Checker) (p : Program) : Checker := ((checkDeclarations p.declarations).run c).2

end Checker

end ExprCheck
