import ExprCheck.Program

/-!
# Types

The types that the checker works with. Two types are equal when they are built alike. Besides the
types that a program can write there is `undefined`, the type of a parameter without an annotation
and of a function that returns nothing.
-/

namespace ExprCheck

/-- A type. -/
inductive Ty where
  /-- A type without parts. -/
  | primitive (p : Primitive)
  /-- A function type, by its parameter types followed by its result type. -/
  | function (signature : List Ty)
  /-- An array type. -/
  | array (element : Ty)
  /-- A map type. -/
  | map (key value : Ty)
  /-- A tuple type. -/
  | tuple (fields : List Ty)
  /-- The type of what no expression determines. -/
  | undefined
deriving Repr

namespace Ty

mutual

/-- Equality of types is decided part by part. -/
def decEq : (a b : Ty) → Decidable (a = b)
  | primitive p, primitive q =>
    if h : p = q then isTrue (h ▸ rfl) else isFalse fun e => h (Ty.primitive.inj e)
  | function ss, function ts =>
    match decEqList ss ts with
    | isTrue h => isTrue (h ▸ rfl)
    | isFalse h => isFalse fun e => h (Ty.function.inj e)
  | array a, array b =>
    match decEq a b with
    | isTrue h => isTrue (h ▸ rfl)
    | isFalse h => isFalse fun e => h (Ty.array.inj e)
  | map k v, map l w =>
    match decEq k l, decEq v w with
    | isTrue h, isTrue i => isTrue (h ▸ i ▸ rfl)
    | isFalse h, _ => isFalse fun e => h (Ty.map.inj e).1
    | _, isFalse h => isFalse fun e => h (Ty.map.inj e).2
  | tuple ss, tuple ts =>
    match decEqList ss ts with
    | isTrue h => isTrue (h ▸ rfl)
    | isFalse h => isFalse fun e => h (Ty.tuple.inj e)
  | undefined, undefined => isTrue rfl
  | primitive _, function _ | primitive _, array _ | primitive _, map _ _ | primitive _, tuple _
  | primitive _, undefined | function _, primitive _ | function _, array _ | function _, map _ _
  | function _, tuple _ | function _, undefined | array _, primitive _ | array _, function _
  | array _, map _ _ | array _, tuple _ | array _, undefined | map _ _, primitive _
  | map _ _, function _ | map _ _, array _ | map _ _, tuple _ | map _ _, undefined
  | tuple _, primitive _ | tuple _, function _ | tuple _, array _ | tuple _, map _ _
  | tuple _, undefined | undefined, primitive _ | undefined, function _ | undefined, array _
  | undefined, map _ _ | undefined, tuple _ => isFalse nofun

/-- Equality of lists of types is decided type by type. -/
def decEqList : (as bs : List Ty) → Decidable (as = bs)
  | [], [] => isTrue rfl
  | [], _ :: _ | _ :: _, [] => isFalse nofun
  | a :: as, b :: bs =>
    match decEq a b, decEqList as bs with
    | isTrue h, isTrue i => isTrue (h ▸ i ▸ rfl)
    | isFalse h, _ => isFalse fun e => h (List.cons.inj e).1
    | _, isFalse h => isFalse fun e => h (List.cons.inj e).2

end

instance : DecidableEq Ty := decEq

/-- The types without parts, under short names. -/
abbrev boolean : Ty := primitive .boolean
@[inherit_doc boolean] abbrev integer : Ty := primitive .integer
@[inherit_doc boolean] abbrev real : Ty := primitive .real
@[inherit_doc boolean] abbrev rational : Ty := primitive .rational
@[inherit_doc boolean] abbrev complex : Ty := primitive .complex
@[inherit_doc boolean] abbrev string : Ty := primitive .string

/-- The type of functions with the given parameter types and result type. -/
def arrow (params : List Ty) (result : Ty) : Ty := function (params ++ [result])

/-- The parameter types and the result type of a function type. -/
def signature? : Ty → Option (List Ty × Ty)
  | function signature => signature.getLast?.map (signature.dropLast, ·)
  | _ => none

/-- The name of the outermost construction of a type. -/
def name : Ty → String
  | primitive .boolean => "BooleanType"
  | primitive .integer => "IntegerType"
  | primitive .real => "RealType"
  | primitive .rational => "RationalType"
  | primitive .complex => "ComplexType"
  | primitive .string => "StringType"
  | function _ => "FunctionType"
  | array _ => "ArrayType"
  | map _ _ => "MapType"
  | tuple _ => "TupleType"
  | undefined => "UndefinedType"

/-- The names of some types, as a list in brackets. -/
def nameList (types : List Ty) : String :=
  "[" ++ ", ".intercalate (types.map name) ++ "]"

mutual

/-- A type with all its parts. -/
def render : Ty → String
  | function signature => "FunctionType(" ++ renderSignature signature ++ ")"
  | array element => "ArrayType(" ++ render element ++ ")"
  | map key value => "MapType(" ++ render key ++ ", " ++ render value ++ ")"
  | tuple fields => "TupleType(" ++ renderList fields ++ ")"
  | primitive p => name (primitive p)
  | undefined => name undefined

/-- Types separated by commas. -/
def renderList : List Ty → String
  | [] => ""
  | [t] => render t
  | t :: u :: rest => render t ++ ", " ++ renderList (u :: rest)

/-- Parameter types separated by commas, and the result type after an arrow. -/
def renderSignature : List Ty → String
  | [] => ""
  | [result] => "-> " ++ render result
  | [param, result] => render param ++ " -> " ++ render result
  | t :: u :: v :: rest => render t ++ ", " ++ renderSignature (u :: v :: rest)

end

mutual

/-- The type that an annotation writes. -/
def ofTypeExpr : TypeExpr → Ty
  | .primitive _ p => primitive p
  | .func _ params result => arrow (ofTypeExprs params) (ofTypeExpr result)
  | .array _ element => array (ofTypeExpr element)
  | .map _ key value => map (ofTypeExpr key) (ofTypeExpr value)
  | .tuple _ fields => tuple (ofTypeExprs fields)

/-- The types that some annotations write. -/
def ofTypeExprs : List TypeExpr → List Ty
  | [] => []
  | a :: rest => ofTypeExpr a :: ofTypeExprs rest

end

end Ty

end ExprCheck
