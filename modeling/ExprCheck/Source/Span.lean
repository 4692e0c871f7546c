import ExprCheck.Source.Position

/-!
# Spans

A `Span` is the stretch of source text that a token or a node of the program covers. Besides its
two byte offsets it remembers the position of its first character, so that a report needs no
access to the text to say where a problem is.
-/

namespace ExprCheck

/-- The bytes `start, …, stop - 1` of a text, with the position of the first of them. -/
structure Span where
  /-- Offset of the first byte. -/
  start : Nat
  /-- Offset of the first byte that is no longer covered. -/
  stop : Nat
  /-- Position of the first character. -/
  position : Position
deriving DecidableEq, Repr

namespace Span

/-- The empty span at the beginning of a text. -/
def origin : Span := ⟨0, 0, Position.first⟩

instance : Inhabited Span := ⟨origin⟩

/-- The span between two places. -/
def between (l m : Location) : Span := ⟨l.offset, m.offset, l.position⟩

/-- The smallest span that covers both. It begins where the earlier of the two begins, and the
first of the two counts as the earlier one when they begin together. -/
def merge (s t : Span) : Span :=
  let earlier := if s.start ≤ t.start then s else t
  ⟨earlier.start, max s.stop t.stop, earlier.position⟩

end Span

end ExprCheck
