import ExprCheck.Source.Span

/-!
# Tokens

The words and marks of the language. Keywords and punctuation marks are closed sets with a fixed
spelling each; the remaining tokens carry the text that spells them. `Terminal` forgets that text:
it is what the grammar looks at.
-/

namespace ExprCheck

/-- A reserved word. -/
inductive Keyword where
  | isKw | funcKw | doKw | endKw | returnKw | printKw
  | ifKw | thenKw | elseKw | forKw | inKw | whileKw | loopKw | breakKw
  | andKw | orKw | xorKw
  | trueKw | falseKw
  | integerKw | realKw | rationalKw | complexKw | stringKw | booleanKw
deriving DecidableEq, Repr

namespace Keyword

/-- Every keyword, once. -/
def all : List Keyword :=
  [isKw, funcKw, doKw, endKw, returnKw, printKw, ifKw, thenKw, elseKw, forKw, inKw, whileKw,
    loopKw, breakKw, andKw, orKw, xorKw, trueKw, falseKw, integerKw, realKw, rationalKw,
    complexKw, stringKw, booleanKw]

/-- The spelling of a keyword. -/
def text : Keyword → String
  | isKw => "is" | funcKw => "func" | doKw => "do" | endKw => "end"
  | returnKw => "return" | printKw => "print"
  | ifKw => "if" | thenKw => "then" | elseKw => "else" | forKw => "for" | inKw => "in"
  | whileKw => "while" | loopKw => "loop" | breakKw => "break"
  | andKw => "and" | orKw => "or" | xorKw => "xor"
  | trueKw => "true" | falseKw => "false"
  | integerKw => "integer" | realKw => "real" | rationalKw => "rational"
  | complexKw => "complex" | stringKw => "string" | booleanKw => "boolean"

/-- The keyword that a word spells, if any. -/
def ofText? (word : String) : Option Keyword :=
  all.find? (·.text = word)

end Keyword

/-- A punctuation mark or symbolic operator. -/
inductive Punct where
  | assign | arrow | range | le | ge | eqEq | notEq
  | plus | minus | star | slash | lt | gt
  | lparen | rparen | lbrace | rbrace | lbracket | rbracket
  | semicolon | comma | colon | dot
deriving DecidableEq, Repr

namespace Punct

/-- Every mark, once; the marks of two characters come first, so that the first one that a text
begins with is also the longest. -/
def all : List Punct :=
  [assign, arrow, range, le, ge, eqEq, notEq, plus, minus, star, slash, lt, gt, lparen, rparen,
    lbrace, rbrace, lbracket, rbracket, semicolon, comma, colon, dot]

/-- The spelling of a mark, as characters. -/
def chars : Punct → List Char
  | assign => [':', '='] | arrow => ['=', '>'] | range => ['.', '.']
  | le => ['<', '='] | ge => ['>', '='] | eqEq => ['=', '='] | notEq => ['!', '=']
  | plus => ['+'] | minus => ['-'] | star => ['*'] | slash => ['/']
  | lt => ['<'] | gt => ['>']
  | lparen => ['('] | rparen => [')'] | lbrace => ['\x7b'] | rbrace => ['\x7d']
  | lbracket => ['['] | rbracket => [']']
  | semicolon => [';'] | comma => [','] | colon => [':'] | dot => ['.']

/-- The spelling of a mark. -/
def text (p : Punct) : String := String.ofList p.chars

/-- The longest mark that a text begins with, if any. -/
def leading? (input : List Char) : Option Punct :=
  all.find? fun p => p.chars.isPrefixOf input

end Punct

/-- The classes of tokens that are told apart only by their text. -/
inductive TextClass where
  | identifier | integer | real | rational | complex | string
deriving DecidableEq, Repr

/-- What a token is. The text of a string token includes its quotes. -/
inductive Kind where
  | keyword (k : Keyword)
  | punct (p : Punct)
  | text (c : TextClass) (s : String)
  | eof
deriving DecidableEq, Repr

/-- A kind without its text: the alphabet of the grammar. -/
inductive Terminal where
  | keyword (k : Keyword)
  | punct (p : Punct)
  | text (c : TextClass)
  | eof
deriving DecidableEq, Repr

namespace Kind

instance : Coe Keyword Kind := ⟨keyword⟩

instance : Coe Punct Kind := ⟨punct⟩

/-- The terminal of a kind. -/
def terminal : Kind → Terminal
  | keyword k => .keyword k
  | punct p => .punct p
  | text c _ => .text c
  | eof => .eof

/-- How messages show a token of this kind. -/
def render : Kind → String
  | keyword k => k.text
  | punct p => p.text
  | text _ s => s
  | eof => "end of file"

/-- A word is a keyword if one is spelt so, and an identifier otherwise. -/
def ofWord (word : String) : Kind :=
  match Keyword.ofText? word with
  | some k => keyword k
  | none => text .identifier word

end Kind

/-- A token: its kind and the text it covers. -/
structure Token where
  /-- What the token is. -/
  kind : Kind
  /-- Where it stands. -/
  span : Span
deriving DecidableEq, Repr

end ExprCheck
