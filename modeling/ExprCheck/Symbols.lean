import ExprCheck.Scope
import ExprCheck.Ty

/-!
# Symbols

What is known about names. The symbol table keeps every name ever bound, under the scope that binds
it; the tuple table keeps the field names and field types of tuples that were written directly in a
declaration. Entries of both stay for the whole run, whether their scope is still open or not.
-/

namespace ExprCheck

/-- How a name was bound. -/
inductive SymbolKind where
  | declared | parameter | loopVariable
deriving DecidableEq, Repr

/-- The word for a kind of symbol. -/
def SymbolKind.render : SymbolKind → String
  | declared => "variable"
  | parameter => "parameter"
  | loopVariable => "loop variable"

/-- The type that is held for a bound name. -/
structure HeldType where
  /-- The type to show. -/
  type : Ty
  /-- Whether the type of the name could not be determined, so that references to it have none. -/
  isPoisoned : Bool
deriving DecidableEq, Repr

namespace HeldType

/-- What is held for a name whose value has the given type, or none. -/
def of : Option Ty → HeldType
  | some t => ⟨t, false⟩
  | none => ⟨.undefined, true⟩

instance : Coe (Option Ty) HeldType := ⟨of⟩

/-- The type of references to the name, if they have one. -/
def known? (h : HeldType) : Option Ty := if h.isPoisoned then none else some h.type

@[simp] theorem known?_of (type : Option Ty) : (of type).known? = type := by
  cases type <;> rfl

end HeldType

/-- What is known about a bound name. -/
structure Symbol where
  /-- How it was bound. -/
  kind : SymbolKind
  /-- Its type. -/
  held : HeldType
deriving DecidableEq, Repr

namespace Symbol

/-- The type to show for a name. -/
def type (s : Symbol) : Ty := s.held.type

/-- Whether the type of the name could not be determined. -/
def isPoisoned (s : Symbol) : Bool := s.held.isPoisoned

/-- The type of references to the name, if they have one. -/
def type? (s : Symbol) : Option Ty := s.held.known?

@[simp] theorem type?_mk (kind : SymbolKind) (type : Option Ty) :
    (mk kind (.of type)).type? = type := HeldType.known?_of type

end Symbol

/-- A name in a scope. -/
structure Slot where
  /-- The scope. -/
  scope : Scope
  /-- The name. -/
  name : String
deriving DecidableEq, Repr

namespace Slot

/-- Listing order: by scope, then by name, character by character. -/
def order (a b : Slot) : Ordering :=
  (a.scope.order b.scope).then (compare a.name b.name)

end Slot

/-- The symbols of a run, the newest first. -/
structure SymbolTable where
  /-- The bindings. No slot occurs twice in a table built by `define?`. -/
  bindings : List (Slot × Symbol)
deriving DecidableEq, Repr

namespace SymbolTable

/-- The table without symbols. -/
def empty : SymbolTable := ⟨[]⟩

instance : Inhabited SymbolTable := ⟨empty⟩

/-- The symbol in a slot. -/
def get? (t : SymbolTable) (slot : Slot) : Option Symbol := t.bindings.lookup slot

/-- Whether a slot holds a symbol. -/
def contains (t : SymbolTable) (slot : Slot) : Bool := (t.get? slot).isSome

/-- Put a symbol into a slot, unless it holds one already. -/
def define? (t : SymbolTable) (slot : Slot) (symbol : Symbol) : Option SymbolTable :=
  if t.contains slot then none else some ⟨(slot, symbol) :: t.bindings⟩

/-- The symbol that a name stands for where the given scopes are open: the one in the innermost of
them that binds the name. -/
def lookup (t : SymbolTable) (name : String) (active : List Scope) : Option (Scope × Symbol) :=
  active.findSome? fun scope => (t.get? ⟨scope, name⟩).map (scope, ·)

/-- The number of symbols. -/
def size (t : SymbolTable) : Nat := t.bindings.length

/-- All symbols with their slots, in listing order. -/
def entries (t : SymbolTable) : List (Slot × Symbol) :=
  t.bindings.mergeSort fun a b => (a.1.order b.1).isLE

/-- One line of a listing. -/
def renderEntry (slot : Slot) (symbol : Symbol) : String :=
  let mark := if symbol.isPoisoned then " [undetermined]" else ""
  s!"{slot.scope.render}::{slot.name}: {symbol.type.render} ({symbol.kind.render}){mark}"

/-- The listing of a table, line by line. -/
def listing (t : SymbolTable) : List String :=
  t.entries.map fun (slot, symbol) => renderEntry slot symbol

end SymbolTable

/-- A field of a tuple: its name and its type. -/
abbrev TupleField := String × Ty

/-- The tuples of a run, the newest first. -/
structure TupleTable where
  /-- The fields of each tuple, under the declaration that holds it. A newer tuple hides older ones
  in the same slot. -/
  tuples : List (Slot × List TupleField)
deriving DecidableEq, Repr

namespace TupleTable

/-- The table without tuples. -/
def empty : TupleTable := ⟨[]⟩

instance : Inhabited TupleTable := ⟨empty⟩

/-- Record the fields of the tuple in a slot. -/
def record (t : TupleTable) (slot : Slot) (fields : List TupleField) : TupleTable :=
  ⟨(slot, fields) :: t.tuples⟩

/-- The fields of the tuple in a slot. -/
def fields? (t : TupleTable) (slot : Slot) : Option (List TupleField) := t.tuples.lookup slot

/-- The type of a field of the tuple in a slot. -/
def field? (t : TupleTable) (slot : Slot) (field : String) : Option Ty := do
  (← t.fields? slot).lookup field

end TupleTable

end ExprCheck
