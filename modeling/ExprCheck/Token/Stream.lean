import ExprCheck.ReadFault
import ExprCheck.Token.Lexer

/-!
# Streams of tokens

A `Stream` hands out the tokens of a text one after the other and lets its user look ahead any
number of tokens. Tokens that were looked at wait in a buffer; everything behind them waits as it
was scanned. Junk is reported to whoever first reaches it, once: the stream then goes on behind it.
After the last token the end of the text comes up again and again.

Reading never undoes anything: a failing step keeps the stream as the failure left it, which is why
`ReadM` keeps its state next to an error.
-/

namespace ExprCheck

/-- The tokens of a text that are still to come. -/
structure Stream where
  /-- Tokens looked at and not taken, the next one first. -/
  buffer : List Token
  /-- What was scanned behind the buffer. -/
  pending : List Scanned
  /-- The token that stands for the end of the text. -/
  eof : Token
  /-- The text covered by the token taken last. -/
  last : Span

/-- The stream of a whole text. -/
def Stream.ofText (text : List Char) : Stream :=
  ⟨[], Lexer.scan text, Lexer.eof text, Span.origin⟩

/-- A bound on the number of tokens before the end of the text. -/
def Stream.remaining (s : Stream) : Nat := s.buffer.length + s.pending.length

/-- A step that reads from a stream and may fail. -/
abbrev ReadM := EStateM ReadError Stream

namespace ReadM

/-- Fail with a fault in the given text. -/
def fail {α : Type} (fault : ReadFault) (span : Span) : ReadM α := throw ⟨fault, span⟩

/-- Take a token from behind the buffer. -/
def scanNext : ReadM Token := do
  let s ← get
  match s.pending with
  | [] => return s.eof
  | .token t :: rest => set { s with pending := rest }; return t
  | .junk text span :: rest => set { s with pending := rest }; fail (.junk text) span

/-- Take the next token. -/
def next : ReadM Token := do
  let s ← get
  let t ← match s.buffer with
    | t :: rest => set { s with buffer := rest }; pure t
    | [] => scanNext
  modify fun s => { s with last := t.span }
  return t

/-- Scan tokens into the buffer, `n` of them. -/
def fill : Nat → ReadM Unit
  | 0 => return
  | n + 1 => do
    let t ← scanNext
    modify fun s => { s with buffer := s.buffer ++ [t] }
    fill n

/-- Look at the token that is `n` tokens away. -/
def peekAt (n : Nat) : ReadM Token := do
  fill (n + 1 - (← get).buffer.length)
  let s ← get
  return s.buffer.getD n s.eof

/-- Look at the next token. -/
def peek : ReadM Token := peekAt 0

/-- Whether the token that is `n` tokens away is of the given kind, whatever its text. -/
def checkAt (n : Nat) (kind : Kind) : ReadM Bool := do
  return (← peekAt n).kind.terminal = kind.terminal

/-- Whether the next token is of the given kind, whatever its text. -/
def check (kind : Kind) : ReadM Bool := checkAt 0 kind

/-- Take the next token if it is of the given kind, and say whether it was. -/
def accept (kind : Kind) : ReadM Bool := do
  if ← check kind then
    let _ ← next
    return true
  else
    return false

/-- Take the next token, which must be of the given kind. It is taken also if it is not. -/
def expect (kind : Kind) : ReadM Token := do
  let t ← next
  if t.kind.terminal = kind.terminal then return t
  else fail (.expected kind t.kind) t.span

/-- The text from `start` to the end of the token taken last. -/
def spanFrom (start : Span) : ReadM Span := do
  return start.merge (← get).last

end ReadM

/-- The tokens among some reports, with `eof` after them; or the first junk. -/
def tokensOf (eof : Token) : List Scanned → Except ReadError (List Token)
  | [] => .ok [eof]
  | .token t :: rest => (tokensOf eof rest).map (t :: ·)
  | .junk text span :: _ => .error ⟨.junk text, span⟩

/-- All tokens of a text, the end included; or its first junk. -/
def tokenize (text : List Char) : Except ReadError (List Token) :=
  tokensOf (Lexer.eof text) (Lexer.scan text)

end ExprCheck
