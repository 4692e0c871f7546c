import ExprCheck.Source.Span
import ExprCheck.Text.Utf8

/-!
# Line index

A `LineIndex` answers which line and column a byte offset falls on. It is built once for a text and
keeps the offsets at which lines begin: zero, and one past each newline.
-/

namespace ExprCheck

/-- A text together with the offsets at which its lines begin. -/
structure LineIndex where
  /-- The text. -/
  text : List Char
  /-- The offsets at which lines begin, in increasing order. -/
  starts : List Nat

namespace LineIndex

/-- The offsets right after the newlines of a text that begins at `offset`. -/
def newlineEnds (offset : Nat) : List Char → List Nat
  | [] => []
  | c :: rest =>
    let next := offset + c.utf8Size
    if c = '\n' then next :: newlineEnds next rest else newlineEnds next rest

/-- The line index of a text. -/
def ofText (text : List Char) : LineIndex := ⟨text, 0 :: newlineEnds 0 text⟩

/-- The number of lines. A newline at the very end begins one more, empty line. -/
def lineCount (index : LineIndex) : Nat := index.starts.length

/-- The line that holds an offset, counted from zero: the last one that begins at or before it. -/
def lineAt (index : LineIndex) (offset : Nat) : Nat :=
  index.starts.countP (· ≤ offset) - 1

/-- The offset at which a line begins; the end of the text for a line that does not exist. -/
def lineStart (index : LineIndex) (line : Nat) : Nat :=
  index.starts.getD line (Text.byteLength index.text)

/-- The position of an offset. An offset past the end stands for the end. The column counts the
characters before the offset on its line, or the bytes when the offset is inside a character. Where
positions are kept in 32 bits, this is the position of texts with fewer than `2 ^ 32` lines, none of
which has `2 ^ 32` columns. -/
def position (index : LineIndex) (offset : Nat) : Position :=
  let offset := min offset (Text.byteLength index.text)
  let line := index.lineAt offset
  let start := index.lineStart line
  let rest := Text.dropBytes index.text start
  let before :=
    if Text.isBoundary rest (offset - start) then (Text.takeBytes rest (offset - start)).length
    else offset - start
  ⟨line + 1, before + 1⟩

/-- The span between two offsets, which are kept as they are. -/
def span (index : LineIndex) (start stop : Nat) : Span := ⟨start, stop, index.position start⟩

end LineIndex

end ExprCheck
