import ExprCheck.Program
import ExprCheck.ReadFault

/-!
# Reading constants

The value that the text of a token stands for. Whole numbers are bounded; real numbers are rounded
to the nearest floating-point number, ties to even.
-/

namespace ExprCheck

namespace Literal

/-- The largest whole number that a program can write. -/
def maxInteger : Nat := Nat.pow 2 63 - 1

/-- The largest ordinal that can select a tuple element. -/
def maxOrdinal : Nat := Nat.pow 2 64 - 1

/-- The number that decimal digits write. -/
def natOfDigits (digits : List Char) : Nat :=
  digits.foldl (fun n c => 10 * n + (c.toNat - '0'.toNat)) 0

/-- The whole number that digits write, within its bound. -/
def readInteger (digits : List Char) : Except ReadFault Int :=
  let n := natOfDigits digits
  if n ≤ maxInteger then .ok n else .error (.integerOutOfRange (String.ofList digits))

/-- The ordinal that digits write, within its bound. -/
def readOrdinal (digits : List Char) : Except ReadFault Nat :=
  let n := natOfDigits digits
  if n ≤ maxOrdinal then .ok n else .error (.ordinalTooLarge (String.ofList digits))

/-- The text before the first `sep` and the text after it. -/
def splitAt (sep : Char) (text : List Char) : List Char × List Char :=
  (text.takeWhile (· ≠ sep), (text.dropWhile (· ≠ sep)).drop 1)

/-- The real number that `digits` or `digits.digits` writes. -/
def readReal (text : List Char) : Float :=
  let (whole, fraction) := splitAt '.' text
  Float.ofScientific (natOfDigits (whole ++ fraction)) true fraction.length

/-- The character that a backslash before `c` stands for, together with `c`. -/
def escaped : Char → Char
  | 'n' => '\n'
  | 't' => '\t'
  | 'r' => '\r'
  | '0' => '\x00'
  | c => c

/-- A text with its escapes resolved. -/
def unescape : List Char → List Char
  | [] => []
  | '\\' :: c :: rest => escaped c :: unescape rest
  | c :: rest => c :: unescape rest

/-- The text that a string token stands for: without its quotes and with its escapes resolved. -/
def readString (text : List Char) : List Char := unescape (text.drop 1).dropLast

/-- The constant that a token writes; a fault if it writes none. -/
def ofKind : Kind → Except ReadFault Literal
  | .keyword .trueKw => .ok (.boolean true)
  | .keyword .falseKw => .ok (.boolean false)
  | .text .integer s => return .integer (← readInteger s.toList)
  | .text .real s => return .real (readReal s.toList)
  | .text .rational s => do
    let (above, below) := splitAt '\\' s.toList
    let numerator ← readInteger above
    let denominator ← readInteger below
    if denominator = 0 then throw (.zeroDenominator s)
    return .rational numerator denominator
  | .text .complex s =>
    let (re, im) := splitAt 'i' s.toList
    return .complex (readReal re) (readReal im)
  | .text .string s => return .string (String.ofList (readString s.toList))
  | found => .error (.expectedExpression found)

end Literal

end ExprCheck
