import ExprCheck.Token.Basic

/-!
# Cutting a text into tokens

A text is cut into pieces from the left. Each piece is the longest that can stand there: a blank
stretch, a comment, a token, or, where no token can begin, some junk that is reported. The pieces
of a text put together again give the text, and no piece is empty, so cutting is a recursion on the
characters: `scanFrom` counts down the characters that still belong to the current piece.
-/

namespace ExprCheck

namespace Lexer

/-- Characters that separate tokens. -/
def isBlank (c : Char) : Bool :=
  c = ' ' || c = '\t' || c = '\n' || c = '\r' || c = '\x0c'

/-- Characters that begin a word: the unaccented letters and the underscore. -/
def isWordStart (c : Char) : Bool := c.isAlpha || c = '_'

/-- Characters that go on with a word. -/
def isWordPart (c : Char) : Bool := c.isAlphanum || c = '_'

/-- The digits that `input` begins with. -/
def digits (input : List Char) : List Char := input.takeWhile Char.isDigit

/-- The mark `sep` with the digits after it, if `input` begins so with at least one digit;
otherwise nothing. -/
def digitsAfter (sep : Char) : List Char → List Char
  | [] => []
  | c :: rest =>
    match digits rest with
    | [] => []
    | ds => if c = sep then c :: ds else []

/-- A whole number with an optional fraction. -/
def decimal (input : List Char) : List Char :=
  let whole := digits input
  whole ++ digitsAfter '.' (input.drop whole.length)

/-- The longest number that `input`, which begins with a digit, begins with, and its class. The
forms are `12`, `1.5`, `3\4` and `1i2.5`; where a longer form breaks off, the longest complete one
before it is taken. -/
def number (input : List Char) : TextClass × List Char :=
  let whole := digits input
  let quotient := digitsAfter '\\' (input.drop whole.length)
  if quotient ≠ [] then (.rational, whole ++ quotient)
  else
    let re := decimal input
    let plain := (if re.length = whole.length then .integer else .real, re)
    match input.drop re.length with
    | 'i' :: rest => if digits rest = [] then plain else (.complex, re ++ 'i' :: decimal rest)
    | _ => plain

/-- The rest of a string token after its opening quote, and whether the closing quote was found.
A backslash takes the next character with it, unless that is a newline. -/
def stringTail : List Char → List Char × Bool
  | [] => ([], false)
  | '"' :: _ => (['"'], true)
  | '\\' :: [] => ([], false)
  | '\\' :: c :: rest =>
    if c = '\n' then ([], false)
    else
      let (tail, closed) := stringTail rest
      ('\\' :: c :: tail, closed)
  | c :: rest =>
    let (tail, closed) := stringTail rest
    (c :: tail, closed)

/-- A piece of text. -/
inductive Piece where
  /-- Blanks or a comment. -/
  | blank (text : List Char)
  /-- A token. -/
  | token (kind : Kind) (text : List Char)
  /-- Text at which no token begins. -/
  | junk (text : List Char)
deriving Repr

/-- The characters of a piece. -/
def Piece.text : Piece → List Char
  | .blank text => text
  | .token _ text => text
  | .junk text => text

/-- The first piece of the text `c :: rest`. -/
def firstPiece (c : Char) (rest : List Char) : Piece :=
  if isBlank c then .blank (c :: rest.takeWhile isBlank)
  else if c = '/' && rest.head? = some '/' then .blank (c :: rest.takeWhile (· ≠ '\n'))
  else if c.isDigit then
    let (cls, text) := number (c :: rest)
    .token (.text cls (String.ofList text)) text
  else if isWordStart c then
    let word := c :: rest.takeWhile isWordPart
    .token (Kind.ofWord (String.ofList word)) word
  else if c = '"' then
    let (tail, closed) := stringTail rest
    let text := c :: tail
    if closed then .token (.text .string (String.ofList text)) text else .junk text
  else
    match Punct.leading? (c :: rest) with
    | some p => .token p p.chars
    | none => .junk [c]

end Lexer

/-- What the lexer reports about a piece that is not blank. -/
inductive Scanned where
  /-- A token. -/
  | token (t : Token)
  /-- Text at which no token begins. -/
  | junk (text : String) (span : Span)
deriving Repr

namespace Lexer

/-- The report on a piece that begins at `l`. -/
def report? (l : Location) : Piece → Option Scanned
  | .blank _ => none
  | .token kind text => some (.token ⟨kind, .between l (l.skip text)⟩)
  | .junk text => some (.junk (String.ofList text) (.between l (l.skip text)))

/-- The reports on a text that begins at `l`, of which the first `inside` characters belong to a
piece already reported. -/
def scanFrom (l : Location) (inside : Nat) : List Char → List Scanned
  | [] => []
  | c :: rest =>
    match inside with
    | n + 1 => scanFrom (l.advance c) n rest
    | 0 =>
      let piece := firstPiece c rest
      let later := scanFrom (l.advance c) (piece.text.length - 1) rest
      match report? l piece with
      | some found => found :: later
      | none => later

/-- The reports on a whole text. -/
def scan (text : List Char) : List Scanned := scanFrom .start 0 text

/-- The token that stands for the end of a text. -/
def eof (text : List Char) : Token :=
  let l := Location.start.skip text
  ⟨.eof, .between l l⟩

end Lexer

end ExprCheck
