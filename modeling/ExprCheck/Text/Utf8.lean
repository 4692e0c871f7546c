/-!
# Byte lengths of texts

Offsets into a source text count the bytes of its UTF-8 encoding, while the text itself is handled
as a list of characters. This module measures and cuts lists of characters by bytes.
-/

namespace ExprCheck.Text

/-- The number of bytes that encode `text`. -/
def byteLength (text : List Char) : Nat :=
  text.foldr (fun c n => c.utf8Size + n) 0

/-- What is left of `text` after its first `n` bytes. A character that `n` cuts in two is dropped
whole. -/
def dropBytes : List Char → Nat → List Char
  | text, 0 => text
  | [], _ + 1 => []
  | c :: rest, n + 1 => dropBytes rest (n + 1 - c.utf8Size)

/-- The characters that lie entirely within the first `n` bytes of `text`. -/
def takeBytes : List Char → Nat → List Char
  | [], _ => []
  | c :: rest, n => if c.utf8Size ≤ n then c :: takeBytes rest (n - c.utf8Size) else []

/-- Whether the first `n` bytes of `text` are a whole number of its characters. -/
def isBoundary : List Char → Nat → Bool
  | _, 0 => true
  | [], _ + 1 => false
  | c :: rest, n + 1 => c.utf8Size ≤ n + 1 && isBoundary rest (n + 1 - c.utf8Size)

end ExprCheck.Text
