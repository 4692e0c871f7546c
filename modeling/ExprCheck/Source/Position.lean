/-!
# Positions in a source text

A `Position` is what a reader of a report sees: a line and a column, both counted from one, the
column in characters. A `Location` pairs it with the byte offset of the same place, and is what the
lexer carries along while it walks a text.
-/

namespace ExprCheck

/-- A line and a column, both counted from one and without a bound. Counts that are kept in 32 bits
agree with them as long as both are below `2 ^ 32`. -/
structure Position where
  /-- The line. -/
  line : Nat
  /-- The column, in characters. -/
  column : Nat
deriving DecidableEq, Repr

namespace Position

/-- The position of the first character of a text. -/
def first : Position := ⟨1, 1⟩

instance : Inhabited Position := ⟨first⟩

/-- The position right after a character `c` that stands at `p`. -/
def after (p : Position) (c : Char) : Position :=
  if c = '\n' then ⟨p.line + 1, 1⟩ else ⟨p.line, p.column + 1⟩

/-- Text order: by line, then by column. -/
def order (p q : Position) : Ordering :=
  (compare p.line q.line).then (compare p.column q.column)

instance : Ord Position := ⟨order⟩

/-- The form in which reports show a position: `line:column`. -/
def render (p : Position) : String :=
  s!"{p.line}:{p.column}"

end Position

/-- A place in a text: its byte offset and its position. -/
structure Location where
  /-- Bytes before the place. -/
  offset : Nat
  /-- Line and column of the place. -/
  position : Position
deriving DecidableEq, Repr

namespace Location

/-- Where a text begins. -/
def start : Location := ⟨0, Position.first⟩

instance : Inhabited Location := ⟨start⟩

/-- The place right after a character `c` that stands at `l`. -/
def advance (l : Location) (c : Char) : Location :=
  ⟨l.offset + c.utf8Size, l.position.after c⟩

/-- The place right after a `text` that begins at `l`. -/
def skip (l : Location) (text : List Char) : Location :=
  text.foldl advance l

end Location

end ExprCheck
