import ExprCheck.Promotion
import ExprCheck.TypeFault

/-!
# Typing rules

What the types of the parts of an expression say about the type of the whole. The type of a part is
missing when the part has a fault of its own; a rule that needs it then stays silent, so that one
fault is reported once.
-/

namespace ExprCheck

/-- What a rule says about an expression. -/
inductive Verdict where
  /-- It has this type. -/
  | type (t : Ty)
  /-- It has no type, for a reason reported elsewhere. -/
  | silent
  /-- It has no type, for this reason. -/
  | fault (f : TypeFault)
deriving DecidableEq, Repr

namespace Rule

/-- The types of all parts, unless one is missing. -/
def all? : List (Option Ty) → Option (List Ty)
  | [] => some []
  | none :: _ => none
  | some t :: rest => (all? rest).map (t :: ·)

/-- An operator applied to two operands. -/
def binary (op : Operator) : Option Ty → Option Ty → Verdict
  | some left, some right =>
    match Promotion.result? op.family left right with
    | some t => .type t
    | none => .fault (.operands op left right)
  | _, _ => .silent

/-- A choice: both branches have the same type. Any predicate will do. -/
def conditional : Option Ty → Option Ty → Option Ty → Verdict
  | some _, some t, some e => if t = e then .type t else .fault (.branches t e)
  | _, _, _ => .silent

/-- A function literal, from the types of its parameters, its annotation and the type of its
body. -/
def function (params : List Ty) (declared : Option Ty) : Option Ty → Verdict
  | none => .silent
  | some body =>
    match declared with
    | none => .type (.arrow params body)
    | some d => if d = body then .type (.arrow params body) else .fault (.returnType d body)

/-- An array: it has elements, all of one type. -/
def array (elements : List (Option Ty)) : Verdict :=
  match all? elements with
  | none => .silent
  | some [] => .fault .emptyArray
  | some (first :: rest) =>
    if rest.all (· = first) then .type (.array first) else .fault (.mixedArray (first :: rest))

/-- The types of all entries, unless one is missing. -/
def allEntries? : List (Option Ty × Option Ty) → Option (List (Ty × Ty))
  | [] => some []
  | (some k, some v) :: rest => (allEntries? rest).map ((k, v) :: ·)
  | _ :: _ => none

/-- A map: it has entries, all keys of one type and all values of one type. -/
def map (entries : List (Option Ty × Option Ty)) : Verdict :=
  match allEntries? entries with
  | none => .silent
  | some [] => .fault .emptyMap
  | some (first :: rest) =>
    if rest.all (· = first) then .type (.map first.1 first.2)
    else .fault (.mixedMap (first :: rest))

/-- A call: as many arguments as parameters, of the same types. The number of arguments is checked
even when some of them have no type. -/
def call (callee : Option Ty) (args : List (Option Ty)) : Verdict :=
  match callee with
  | none => .silent
  | some f =>
    match f.signature? with
    | none => .fault (.notCallable f)
    | some (params, result) =>
      if params.length ≠ args.length then .fault (.arity params.length args.length)
      else
        match all? args with
        | none => .silent
        | some given =>
          if params = given then .type result else .fault (.arguments params given)

/-- An index: it has the type of the elements of an array, or of the keys of a map, and the access
has that type too. -/
def index : Option Ty → Option Ty → Verdict
  | some target, some i =>
    match target with
    | .array element => if i = element then .type i else .fault (.arrayIndex element i)
    | .map key _ => if i = key then .type i else .fault (.mapIndex key i)
    | other => .fault (.notIndexable other)
  | _, _ => .silent

/-- A field access: the target is a tuple. The type of the field is known only for a tuple that the
tuple table holds. -/
def field (known : Option Ty) : Option Ty → Verdict
  | none => .silent
  | some (.tuple _) =>
    match known with
    | some t => .type t
    | none => .silent
  | some other => .fault (.notTuple other)

end Rule

end ExprCheck
