/-!
# Control sequences

A text can hold characters that steer a terminal: single control characters, and sequences that
begin with the escape character. Text that comes from outside is shown without them.

Tabs and line ends are shown wherever they steer nothing. One that stands inside a sequence pauses
it: what follows is shown, up to the next control character, where the sequence goes on.
-/

namespace ExprCheck.Text

/-- How far a control sequence has come. -/
inductive Sequence where
  /-- There is none. -/
  | outside
  /-- After the escape character. -/
  | opened
  /-- After the escape character and some characters that only precede a final one. -/
  | announced
  /-- In a control sequence proper, which ends with a letter or the like. -/
  | control
  /-- At the beginning of a string for a device. -/
  | device
  /-- In the parameters of a string for a device. -/
  | deviceParameters
  /-- After the parameters of a string for a device. -/
  | deviceAnnounced
  /-- In a string that only the string terminator ends. -/
  | body
  /-- In a command to the terminal's own system, which a bell ends. -/
  | command
deriving DecidableEq, Repr

/-- Whether a character is a tab, a line end or a page end. -/
def isLayout (c : Char) : Bool := c = '\t' || c = '\n' || c = '\x0c' || c = '\r'

/-- Whether a character is shown outside of all sequences. -/
def isShown (c : Char) : Bool := isLayout c || (0x20 ≤ c.toNat && c.toNat ≠ 0x7f)

/-- Whether the encoding of a character has the byte of the string terminator in it. -/
def holdsTerminator (c : Char) : Bool := 0x80 ≤ c.toNat && (String.utf8EncodeChar c).contains 0x9c

namespace Sequence

/-- Where a sequence is after one more character. The escape character begins a new sequence, and
two of the control characters cancel any. -/
def next (s : Sequence) (c : Char) : Sequence :=
  let n := c.toNat
  if n = 0x1b then opened
  else if n = 0x18 || n = 0x1a then outside
  else
    match s with
    | outside => outside
    | opened =>
      if c = '[' then control
      else if c = ']' then command
      else if c = 'P' then device
      else if c = 'X' || c = '^' || c = '_' then body
      else if 0x20 ≤ n && n < 0x30 then announced
      else if 0x30 ≤ n && n < 0x7f then outside
      else opened
    | announced => if 0x30 ≤ n && n < 0x7f then outside else announced
    | control => if 0x40 ≤ n && n < 0x7f then outside else control
    | device =>
      if 0x20 ≤ n && n < 0x30 then deviceAnnounced
      else if 0x30 ≤ n && n < 0x40 then deviceParameters
      else if 0x40 ≤ n && n < 0x7f then body
      else device
    | deviceParameters =>
      if 0x20 ≤ n && n < 0x30 then deviceAnnounced
      else if 0x3c ≤ n && n < 0x7f then body
      else deviceParameters
    | deviceAnnounced => if 0x30 ≤ n && n < 0x7f then body else deviceAnnounced
    | body => if holdsTerminator c then outside else body
    | command => if c = '\x07' then outside else command

/-- Whether a character is shown although a sequence has come so far. -/
def shows (s : Sequence) (c : Char) : Bool :=
  match s with
  | outside => isShown c
  | opened | announced | control => isLayout c
  | _ => false

end Sequence

/-- What is shown of a text that begins in a sequence, which may be paused. -/
def shownFrom : Sequence → Bool → List Char → List Char
  | _, _, [] => []
  | s, true, c :: rest =>
    if isShown c then c :: shownFrom (if c.toNat < 0x80 then s else .outside) true rest
    else shownFrom (s.next c) false rest
  | s, false, c :: rest =>
    if s.shows c then c :: shownFrom s true rest else shownFrom (s.next c) false rest

/-- A text without control sequences. -/
def withoutControls (text : String) : String :=
  String.ofList (shownFrom .outside false text.toList)

end ExprCheck.Text
