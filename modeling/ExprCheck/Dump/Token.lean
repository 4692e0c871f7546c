import ExprCheck.Dump.Outline
import ExprCheck.Text.Quoted
import ExprCheck.Token.Basic

/-!
# Dumping tokens
-/

namespace ExprCheck

/-- The name of a keyword in dumps. -/
def Keyword.tag : Keyword → String
  | isKw => "Is" | funcKw => "Func" | doKw => "Do" | endKw => "End" | returnKw => "Return"
  | printKw => "Print" | ifKw => "If" | thenKw => "Then" | elseKw => "Else" | forKw => "For"
  | inKw => "In" | whileKw => "While" | loopKw => "Loop" | breakKw => "Break" | andKw => "And"
  | orKw => "Or" | xorKw => "Xor" | trueKw => "True" | falseKw => "False"
  | integerKw => "IntegerKw" | realKw => "RealKw" | rationalKw => "RationalKw"
  | complexKw => "ComplexKw" | stringKw => "StringKw" | booleanKw => "BooleanKw"

/-- The name of a mark in dumps. -/
def Punct.tag : Punct → String
  | assign => "ColonEq" | arrow => "FatArrow" | range => "DotDot" | le => "LtEq" | ge => "GtEq"
  | eqEq => "EqEq" | notEq => "NotEq" | plus => "Plus" | minus => "Minus" | star => "Star"
  | slash => "Slash" | lt => "Lt" | gt => "Gt" | lparen => "LParen" | rparen => "RParen"
  | lbrace => "LBrace" | rbrace => "RBrace" | lbracket => "LBracket" | rbracket => "RBracket"
  | semicolon => "Semi" | comma => "Comma" | colon => "Colon" | dot => "Dot"

/-- The name of a text class in dumps. -/
def TextClass.tag : TextClass → String
  | identifier => "Identifier" | integer => "IntLiteral" | real => "RealLiteral"
  | rational => "RationalLiteral" | complex => "ComplexLiteral" | string => "StringLiteral"

/-- The name of a kind in dumps, without its text. -/
def Kind.tag : Kind → String
  | keyword k => k.tag
  | punct p => p.tag
  | text c _ => c.tag
  | eof => "Eof"

namespace Dump

open Outline

/-- A number. -/
def nat (n : Nat) : Outline := atom (toString n)

/-- A text. -/
def text (s : String) : Outline := atom (Text.quote s)

/-- A position. -/
def position (p : Position) : Outline :=
  record "Position" [("line", nat p.line), ("column", nat p.column)]

/-- A span. -/
def span (s : Span) : Outline :=
  record "Span" [("start", nat s.start), ("end", nat s.stop), ("position", position s.position)]

/-- The kind of a token. -/
def kind : Kind → Outline
  | .text c s => tuple c.tag [text s]
  | k => atom k.tag

/-- A token. -/
def token (t : Token) : Outline := record "Token" [("kind", kind t.kind), ("span", span t.span)]

end Dump

end ExprCheck
