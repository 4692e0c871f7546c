import ExprCheck.Ty

/-!
# Type faults

Why a program that can be read does not check. A fault is a cause; its wording is in one place.
-/

namespace ExprCheck

/-- Why a program does not check. -/
inductive TypeFault where
  /-- A name that no open scope binds. -/
  | unbound (name : String)
  /-- A name that its scope binds already. -/
  | redeclared (name : String)
  /-- An operator that does not accept its operands. -/
  | operands (op : Operator) (left right : Ty)
  /-- A choice between values of two types. -/
  | branches (thenType elseType : Ty)
  /-- A function whose body has another type than its annotation says. -/
  | returnType (declared actual : Ty)
  /-- An array without elements. -/
  | emptyArray
  /-- An array of elements of several types. -/
  | mixedArray (elements : List Ty)
  /-- A map without entries. -/
  | emptyMap
  /-- A map of entries of several types. -/
  | mixedMap (entries : List (Ty × Ty))
  /-- A call of something that is not a function. -/
  | notCallable (callee : Ty)
  /-- A call with too few or too many arguments. -/
  | arity (due given : Nat)
  /-- A call with arguments of other types than the function takes. -/
  | arguments (due given : List Ty)
  /-- An index into something that is neither an array nor a map. -/
  | notIndexable (target : Ty)
  /-- An array index of another type than the array takes. -/
  | arrayIndex (due given : Ty)
  /-- A map index of another type than the map takes. -/
  | mapIndex (due given : Ty)
  /-- A field access to something that is not a tuple. -/
  | notTuple (target : Ty)
  /-- A declaration whose value has another type than its annotation says. -/
  | declaredType (actual declared : Ty)
  /-- An assignment of a value of another type than the target's. -/
  | assignment (value target : Ty)
  /-- A loop between bounds of two types. -/
  | loopBounds (first last : Ty)
  /-- A return that no function literal encloses. -/
  | strayReturn
deriving DecidableEq, Repr

namespace TypeFault

/-- The names of the types of a map entry, in parentheses. -/
def entryNames (entry : Ty × Ty) : String := s!"({entry.1.name}, {entry.2.name})"

/-- The wording of a fault. -/
def message : TypeFault → String
  | unbound name => s!"Variable {name} is referenced before assignment"
  | redeclared name => s!"Variable {name} is already declared."
  | operands op left right =>
    s!"{op.nodeName} can't be applied to values of {left.name} and {right.name}"
  | branches t e => s!"If expression returns different values of {t.name} and {e.name}"
  | returnType declared actual =>
    s!"Function defined return type {declared.name} doesn't correspond to actual return type "
      ++ actual.name
  | emptyArray => "Cannot infer element type of an empty array"
  | mixedArray elements => "Array elements have different types " ++ Ty.nameList elements
  | emptyMap => "Cannot infer key and value types of an empty map"
  | mixedMap entries =>
    "Map elements have different types [" ++ ", ".intercalate (entries.map entryNames) ++ "]"
  | notCallable callee => s!"Value of type {callee.name} can't be called"
  | arity due given => s!"Wrong number of parameters, expected {due}, received {given}"
  | arguments due given =>
    "Incompatible parameter types: expected " ++ Ty.nameList due ++ ", but received "
      ++ Ty.nameList given
  | notIndexable target =>
    s!"Variable of type {target.name} is not subscriptable, should be one of [MapType, ArrayType]"
  | arrayIndex due given => s!"Array index should be of {due.name}, but received {given.name}"
  | mapIndex due given => s!"Map index should be of {due.name}, but received {given.name}"
  | notTuple target => s!"{target.name} is not a TupleType"
  | declaredType actual declared =>
    s!"Variable type {actual.render} doesn't correspond to actual declaration type "
      ++ declared.render
  | assignment value target =>
    s!"Value of {value.name} can't be assigned to variable of {target.name}"
  | loopBounds first last =>
    s!"Loop range borders must have same type, but received {first.name}..{last.name}"
  | strayReturn => "Return statement outside of a function body"

end TypeFault

/-- A fault and the text it is about. -/
structure TypeError where
  /-- The fault. -/
  fault : TypeFault
  /-- Where it is. -/
  span : Span
deriving DecidableEq, Repr

/-- An error with its position in front. -/
def TypeError.render (e : TypeError) : String :=
  s!"{e.span.position.render}: {e.fault.message}"

end ExprCheck
