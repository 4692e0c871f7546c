/-!
# Ink

Reports are written with or without colours. A report is a list of strokes: texts, and changes of
the pen between them. Without colours the changes of the pen leave no trace.
-/

namespace ExprCheck

/-- The pens that a report uses. -/
inductive Pen where
  /-- For the severity in the headline. -/
  | severity
  /-- For the rest of the headline. -/
  | headline
  /-- For line numbers and the border of an excerpt. -/
  | border
  /-- For the text that a report is about, and for what points at it. -/
  | label
deriving DecidableEq, Repr

/-- The escape sequence that goes back to the ordinary pen. -/
def Pen.ordinary : String := "\x1b[0m"

/-- The escape sequences that take up a pen: the ordinary one first, then its weight and colour. -/
def Pen.code : Pen → String
  | severity => ordinary ++ "\x1b[1m\x1b[38;5;9m"
  | headline => ordinary ++ "\x1b[1m"
  | border => ordinary ++ "\x1b[34m"
  | label => ordinary ++ "\x1b[31m"

/-- A stroke. -/
inductive Stroke where
  /-- Write a text. -/
  | text (s : String)
  /-- Take up a pen. -/
  | take (pen : Pen)
  /-- Go back to the ordinary pen. -/
  | drop
deriving DecidableEq, Repr

namespace Stroke

/-- What a stroke leaves on the page. -/
def render (colored : Bool) : Stroke → String
  | text s => s
  | take pen => if colored then pen.code else ""
  | drop => if colored then Pen.ordinary else ""

/-- What some strokes leave on the page. -/
def renderAll (colored : Bool) (strokes : List Stroke) : String :=
  String.join (strokes.map (render colored))

/-- A text written with a pen. -/
def painted (pen : Pen) (s : String) : List Stroke := [take pen, text s, drop]

/-- The end of a line. -/
def newline : Stroke := text "\n"

end Stroke

end ExprCheck
