import ExprCheck.Diagnostic.Basic
import ExprCheck.Diagnostic.Ink
import ExprCheck.Source.LineIndex
import ExprCheck.Text.Blank
import ExprCheck.Text.Width

/-!
# Excerpts

How a diagnostic is shown: its headline, then the lines of the source file that its label is about,
with carets below a label on one line and a bracket beside a label on several.
-/

namespace ExprCheck

/-- A source file. -/
structure SourceFile where
  /-- Its name. -/
  name : String
  /-- Its text. -/
  text : List Char

namespace Excerpt

open Stroke

/-! ## Lines and their characters -/

/-- The text of a line without the line end. -/
def lineText (index : LineIndex) (line : Nat) : List Char :=
  let start := index.lineStart line
  let text := Text.takeBytes (Text.dropBytes index.text start) (index.lineStart (line + 1) - start)
  (text.reverse.dropWhile fun c => c = '\n' || c = '\r' || c = '\x00').reverse

/-- A character of a line. -/
structure Cell where
  /-- Its offset within the line, in bytes. -/
  offset : Nat
  /-- The number of columns it takes. -/
  width : Nat
  /-- The character. -/
  char : Char

/-- The offset of the end of a character. -/
def Cell.stop (cell : Cell) : Nat := cell.offset + cell.char.utf8Size

/-- Tabs reach up to the next column that is a multiple of this. -/
def tabWidth : Nat := 4

/-- The characters of a line from the given offset and column on. -/
def cellsFrom (offset column : Nat) : List Char → List Cell
  | [] => []
  | c :: rest =>
    let width := if c = '\t' then tabWidth - column % tabWidth else Text.width c
    ⟨offset, width, c⟩ :: cellsFrom (offset + c.utf8Size) (column + width) rest

/-- The characters of a line. -/
def cells (line : List Char) : List Cell := cellsFrom 0 0 line

/-- What is written for a character: blanks for a tab, and the character itself otherwise. -/
def Cell.render (cell : Cell) : String :=
  if cell.char = '\t' then "".pushn ' ' cell.width else cell.char.toString

/-- Write some characters, those that `labelled` tells with the label's pen. The pen is changed only
where it has to be; `inside` says whether it is the label's. -/
def sourceStrokes (labelled : Cell → Bool) : Bool → List Cell → List Stroke
  | inside, [] => if inside then [drop] else []
  | inside, cell :: rest =>
    let change :=
      match inside, labelled cell with
      | false, true => [take .label]
      | true, false => [drop]
      | _, _ => []
    change ++ text cell.render :: sourceStrokes labelled (labelled cell) rest

/-! ## Borders -/

/-- The space left of the border, as wide as the widest line number, and one blank. -/
def gutter (padding : Nat) : Stroke := text ("".pushn ' ' (padding + 1))

/-- A line number, and one blank. -/
def numberedGutter (padding line : Nat) : List Stroke :=
  let number := toString (line + 1)
  painted .border ("".pushn ' ' (padding - number.length) ++ number) ++ [text " "]

/-- The border. -/
def border : List Stroke := painted .border "│"

/-- The border where lines are left out. -/
def brokenBorder : List Stroke := painted .border "·"

/-! ## Labels on one line -/

/-- The carets below a line, and blanks up to them, for a label on the bytes from `start` to `stop`
of the line. -/
def caretStrokes (start stop : Nat) : Bool → List Cell → List Stroke
  | inside, [] => if inside then [drop] else []
  | inside, cell :: rest =>
    let labelled : Bool := max start cell.offset < min stop cell.stop
    let change :=
      match inside, labelled with
      | false, true => [take .label]
      | true, false => [drop]
      | _, _ => []
    let fill : String :=
      if labelled then "".pushn '^' cell.width
      else if cell.offset < stop then "".pushn ' ' cell.width
      else ""
    change ++ text fill :: caretStrokes start stop labelled rest

/-- A line and the carets below it. One more column stands behind the end of the line, for a label
that begins there. At least one byte is labelled. -/
def singleLine (index : LineIndex) (padding line : Nat) (label : Label) : List Stroke :=
  let lineStart := index.lineStart line
  let start := label.start - lineStart
  let stop := max (label.stop - lineStart) (start + 1)
  let chars := lineText index line
  let labelled (cell : Cell) : Bool := max start cell.offset < min stop cell.stop
  let behind : Cell := ⟨Text.byteLength chars, 1, '\x00'⟩
  let message :=
    if label.message.isEmpty then [] else text " " :: painted .label label.message
  numberedGutter padding line ++ border ++ [text " "]
    ++ sourceStrokes labelled false (cells chars) ++ [newline]
    ++ [gutter padding] ++ border ++ [text " "]
    ++ caretStrokes start stop false (cells chars ++ [behind]) ++ message ++ [newline]

/-! ## Labels on several lines -/

/-- The part of a bracket that stands beside a line. -/
inductive Mark where
  /-- The bracket begins at this byte of the line. -/
  | top (start : Nat)
  /-- The bracket passes the line. -/
  | side
  /-- The bracket ends before this byte of the line. -/
  | bottom (stop : Nat)
  /-- The bracket does not reach the line. -/
  | absent

/-- A piece of a bracket in front of a line. -/
def bracket (piece : String) : List Stroke := text " " :: painted .label piece

/-- The bracket in front of a line whose corner is not on it. -/
def Mark.passing : Mark → List Stroke
  | side | bottom _ => bracket "│"
  | top _ | absent => [text "  "]

/-- Whether a bracket can begin in front of a line, because only blanks stand before the label. -/
def beginsInFront (chars : List Char) (start : Nat) : Bool :=
  start ≤ Text.byteLength (chars.takeWhile Text.isBlank)

/-- The bracket in front of a line. -/
def Mark.front (chars : List Char) : Mark → List Stroke
  | top start => if beginsInFront chars start then bracket "╭" else Mark.passing (top start)
  | mark => mark.passing

/-- Whether a character of a line belongs to the label. -/
def Mark.covers : Mark → Cell → Bool
  | top start, cell => start ≤ cell.offset
  | side, _ => true
  | bottom stop, cell => cell.stop ≤ stop
  | absent, _ => false

/-- A line of dashes as long as the characters of a line that `p` tells, ended by a caret. -/
def dashes (p : Cell → Bool) (chars : List Char) : String :=
  let width := ((cells chars).takeWhile p).foldr (fun cell n => cell.width + n) 0
  "".pushn '─' width ++ "^"

/-- The corner of a bracket, below the line that it points to. -/
def Mark.corner (padding : Nat) (message : String) (chars : List Char) : Mark → List Stroke
  | top start =>
    if beginsInFront chars start then []
    else
      [gutter padding] ++ border ++ bracket "╭"
        ++ painted .label (dashes (fun cell => cell.offset ≤ start) chars) ++ [newline]
  | bottom stop =>
    let tail := if message.isEmpty then "" else " " ++ message
    [gutter padding] ++ border ++ bracket "╰"
      ++ painted .label (dashes (fun cell => cell.offset < stop) chars ++ tail) ++ [newline]
  | side | absent => []

/-- A line with its part of a bracket. -/
def markedLine (index : LineIndex) (padding : Nat) (message : String) (line : Nat) (mark : Mark) :
    List Stroke :=
  let chars := lineText index line
  numberedGutter padding line ++ border ++ mark.front chars ++ [text " "]
    ++ sourceStrokes mark.covers false (cells chars) ++ [newline]
    ++ mark.corner padding message chars

/-- How many lines after the first line of a label are shown. -/
def linesAfterStart : Nat := 3

/-- How many lines before the last line of a label are shown. -/
def linesBeforeEnd : Nat := 1

/-- The lines of a label that are shown in any case, with their marks, from top to bottom. A label
that ends before it begins has its two ends the other way round and nothing between them. -/
def shownLines (index : LineIndex) (label : Label) : List (Nat × Mark) :=
  let first := index.lineAt label.start
  let last := index.lineAt label.stop
  let top := (first, Mark.top (label.start - index.lineStart first))
  let bottom := (last, Mark.bottom (label.stop - index.lineStart last))
  if first < last then
    let between := (List.range (last - first - 1)).map (first + 1 + ·)
    let shown := between.filter fun line =>
      line - first ≤ linesAfterStart || last - line ≤ linesBeforeEnd
    [top] ++ shown.map (·, Mark.side) ++ [bottom]
  else [bottom, top]

/-- The mark of a line that lies between two lines that are shown. -/
def betweenMark (index : LineIndex) (label : Label) : Mark :=
  if index.lineAt label.start < index.lineAt label.stop then .side else .absent

/-- Lines with their marks. Where a single line is left out between two of them it is shown after
all; more lines are replaced by a break of the border. -/
def markedLines (index : LineIndex) (padding : Nat) (label : Label) :
    List (Nat × Mark) → List Stroke
  | [] => []
  | [(line, mark)] => markedLine index padding label.message line mark
  | (line, mark) :: (next, nextMark) :: rest =>
    let gap :=
      if next - line ≤ 1 then []
      else if next - line = 2 then
        markedLine index padding label.message (line + 1) (betweenMark index label)
      else [gutter padding] ++ brokenBorder ++ mark.passing ++ [newline]
    markedLine index padding label.message line mark ++ gap
      ++ markedLines index padding label ((next, nextMark) :: rest)

/-! ## Whole reports -/

/-- Where a label begins: the name of the file, the line and the column. -/
def locus (file : SourceFile) (index : LineIndex) (start : Nat) : String :=
  let line := index.lineAt start
  let lineStart := index.lineStart line
  let upTo := min start (index.lineStart (line + 1))
  let before := Text.takeBytes (Text.dropBytes index.text lineStart) (upTo - lineStart)
  s!"{file.name}:{line + 1}:{before.length + 1}"

/-- The excerpt of a file that shows a label. -/
def excerpt (file : SourceFile) (label : Label) : List Stroke :=
  let index := LineIndex.ofText file.text
  let first := index.lineAt label.start
  let last := index.lineAt label.stop
  let padding := max (toString (first + 1)).length (toString (last + 1)).length
  [gutter padding] ++ painted .border "┌─"
    ++ [text (" " ++ locus file index label.start), newline, gutter padding] ++ border
    ++ if first = last then [newline] ++ singleLine index padding first label
      else [text "  ", newline] ++ markedLines index padding label (shownLines index label)

/-- The headline of a report. -/
def headlineStrokes (message : String) : List Stroke :=
  [take .severity, text "error", take .headline, text (": " ++ message), drop, newline]

/-- What a diagnostic shows of some files, if its label is on one of them. -/
def body? (files : List SourceFile) (id : Nat) : Option Label → Option (List Stroke)
  | none => some []
  | some label => files[id]?.map (excerpt · label)

end Excerpt

/-- A diagnostic as a report on the source file number `id`: headline, excerpt and an empty line.
Nothing is written about a file that does not exist. -/
def Diagnostic.report (d : Diagnostic) (files : List SourceFile) (id : Nat) (colored : Bool) :
    String :=
  match Excerpt.body? files id d.label? with
  | some body =>
    Stroke.renderAll colored (Excerpt.headlineStrokes d.headline ++ body ++ [Stroke.newline])
  | none => ""

end ExprCheck
