import Mathlib
import ExprCheck.Program

/-!
# The grammar

The grammar of the language, with the syntax tree of each derivation. A judgment `IsExpr ks e` says
that the nonterminal derives the token kinds `ks`, and that `e` is the tree of this derivation; the
spans in a tree are arbitrary.

A terminal with a meaning is judged by its characters: the digits and escapes of a token say which
constant it writes.

Lists between brackets may end in a comma, and a tuple type may be empty. Otherwise the rules are
those of a layered grammar: operators of one layer group from the left, and comparisons do not
group at all.
-/

namespace ExprCheck.Grammar

/-- Items with commas between them, and possibly one behind the last. -/
inductive Items {α : Type} (Item : List Kind → α → Prop) : List Kind → List α → Prop where
  | nil : Items Item [] []
  | one {ks x} : Item ks x → Items Item ks [x]
  | more {ks ls x xs} : Item ks x → Items Item ls xs →
    Items Item (ks ++ .punct .comma :: ls) (x :: xs)

/-- A semicolon, or nothing. -/
inductive OptSemicolon : List Kind → Prop where
  | absent : OptSemicolon []
  | present : OptSemicolon [.punct .semicolon]

/-! ## Terminals with a meaning -/

/-- Decimal digits, and the number that they write. -/
inductive IsNumber : List Char → Nat → Prop where
  | digit {d} : d < 10 → IsNumber [d.digitChar] d
  | more {cs n d} : IsNumber cs n → d < 10 → IsNumber (cs ++ [d.digitChar]) (10 * n + d)

/-- Digits around a point, and the floating-point number nearest to the number that they write. -/
inductive IsFraction : List Char → Float → Prop where
  | intro {cs ds n} : cs ≠ [] → ds ≠ [] → IsNumber (cs ++ ds) n →
    IsFraction (cs ++ '.' :: ds) (Float.ofScientific n true ds.length)

/-- A part of a complex number, with or without a point. -/
inductive IsDecimal : List Char → Float → Prop where
  | whole {cs n} : IsNumber cs n → IsDecimal cs (Float.ofScientific n true 0)
  | fraction {cs x} : IsFraction cs x → IsDecimal cs x

/-- A character behind a backslash, and what it stands for. It cannot be a line break. -/
inductive IsEscape : Char → Char → Prop where
  | newline : IsEscape 'n' '\n'
  | tab : IsEscape 't' '\t'
  | carriageReturn : IsEscape 'r' '\r'
  | null : IsEscape '0' '\x00'
  | itself {c} : c ∉ ['n', 't', 'r', '0', '\n'] → IsEscape c c

/-- What stands between the quotes of a string, and the text that is meant. -/
inductive IsContent : List Char → List Char → Prop where
  | nil : IsContent [] []
  | plain {c cs text} : c ∉ ['"', '\\'] → IsContent cs text → IsContent (c :: cs) (c :: text)
  | escape {c d cs text} : IsEscape c d → IsContent cs text →
    IsContent ('\\' :: c :: cs) (d :: text)

/-- The constant that a token writes. -/
inductive IsLiteral : Kind → Literal → Prop where
  | yes : IsLiteral (.keyword .trueKw) (.boolean true)
  | no : IsLiteral (.keyword .falseKw) (.boolean false)
  | integer {cs n} : IsNumber cs n → n < 2 ^ 63 →
    IsLiteral (.text .integer (String.ofList cs)) (.integer n)
  | real {cs x} : IsFraction cs x → IsLiteral (.text .real (String.ofList cs)) (.real x)
  | rational {cs ds n d} : IsNumber cs n → n < 2 ^ 63 → IsNumber ds d → d < 2 ^ 63 → d ≠ 0 →
    IsLiteral (.text .rational (String.ofList (cs ++ '\\' :: ds))) (.rational n d)
  | complex {cs ds x y} : IsDecimal cs x → IsDecimal ds y →
    IsLiteral (.text .complex (String.ofList (cs ++ 'i' :: ds))) (.complex x y)
  | string {cs text} : IsContent cs text →
    IsLiteral (.text .string (String.ofList ('"' :: (cs ++ ['"'])))) (.string (String.ofList text))

/-! ## Types -/

inductive IsType : List Kind → TypeExpr → Prop where
  | primitive {s} (p : Primitive) : IsType [.keyword p.keyword] (.primitive s p)
  | func {s ks ls params result} : Items IsType ks params → IsType ls result →
    IsType (.keyword .funcKw :: .punct .lparen ::
      (ks ++ .punct .rparen :: .punct .colon :: ls)) (.func s params result)
  | array {s ks t} : IsType ks t →
    IsType (.punct .lbracket :: (ks ++ [.punct .rbracket])) (.array s t)
  | map {s ks ls k v} : IsType ks k → IsType ls v →
    IsType (.punct .lbrace :: (ks ++ .punct .colon :: (ls ++ [.punct .rbrace]))) (.map s k v)
  | tuple {s ks ts} : Items IsType ks ts →
    IsType (.punct .lparen :: (ks ++ [.punct .rparen])) (.tuple s ts)

/-- An annotation behind a colon, or nothing. -/
inductive OptType : List Kind → Option TypeExpr → Prop where
  | absent : OptType [] none
  | present {ks t} : IsType ks t → OptType (.punct .colon :: ks) (some t)

/-- A parameter of a function literal. -/
inductive IsParam : List Kind → Param → Prop where
  | intro {s x ks t} : OptType ks t → IsParam (.text .identifier x :: ks) ⟨s, x, t⟩

/-- The variable of a loop, or nothing. -/
inductive IsBinder : List Kind → Option String → Prop where
  | absent : IsBinder [] none
  | present {x} : IsBinder [.text .identifier x, .keyword .inKw] (some x)

/-! ## Expressions, statements and declarations -/

mutual

inductive IsExpr : List Kind → Expr → Prop where
  | relation {ks e} : IsRelation ks e → IsExpr ks e
  | logical {s ks ls op l r} : IsExpr ks l → op ∈ [Operator.and, .or, .xor] → IsRelation ls r →
    IsExpr (ks ++ op.kind :: ls) (.binary s op l r)

inductive IsRelation : List Kind → Expr → Prop where
  | factor {ks e} : IsFactor ks e → IsRelation ks e
  | comparison {s ks ls op l r} : IsFactor ks l →
    op ∈ [Operator.lt, .le, .gt, .ge, .eq, .ne] → IsFactor ls r →
    IsRelation (ks ++ op.kind :: ls) (.binary s op l r)

inductive IsFactor : List Kind → Expr → Prop where
  | term {ks e} : IsTerm ks e → IsFactor ks e
  | sum {s ks ls op l r} : IsFactor ks l → op ∈ [Operator.add, .sub] → IsTerm ls r →
    IsFactor (ks ++ op.kind :: ls) (.binary s op l r)

inductive IsTerm : List Kind → Expr → Prop where
  | secondary {ks e} : IsSecondary ks e → IsTerm ks e
  | product {s ks ls op l r} : IsTerm ks l → op ∈ [Operator.mul, .div] → IsSecondary ls r →
    IsTerm (ks ++ op.kind :: ls) (.binary s op l r)

inductive IsSecondary : List Kind → Expr → Prop where
  | primary {ks e} : IsPrimary ks e → IsSecondary ks e
  | call {s ks ls f es} : IsSecondary ks f → Items IsExpr ls es →
    IsSecondary (ks ++ .punct .lparen :: (ls ++ [.punct .rparen])) (.call s f es)
  | index {s ks ls t i} : IsSecondary ks t → IsExpr ls i →
    IsSecondary (ks ++ .punct .lbracket :: (ls ++ [.punct .rbracket])) (.index s t i)
  | field {s ks t x} : IsSecondary ks t →
    IsSecondary (ks ++ [.punct .dot, .text .identifier x]) (.field s t x)
  | ordinal {s ks t cs n} : IsSecondary ks t → IsNumber cs n → n < 2 ^ 64 →
    IsSecondary (ks ++ [.punct .dot, .text .integer (String.ofList cs)]) (.ordinal s t n)

inductive IsPrimary : List Kind → Expr → Prop where
  | literal {s k v} : IsLiteral k v → IsPrimary [k] (.literal s v)
  | var {s x} : IsPrimary [.text .identifier x] (.var s x)
  | conditional {s ks ls ms p t e} : IsExpr ks p → IsExpr ls t → IsExpr ms e →
    IsPrimary (.keyword .ifKw :: (ks ++ .keyword .thenKw :: (ls ++ .keyword .elseKw ::
      (ms ++ [.keyword .endKw])))) (.conditional s p t e)
  | function {s ks ls ms params result body} : Items IsParam ks params → OptType ls result →
    IsBody ms body →
    IsPrimary (.keyword .funcKw :: .punct .lparen :: (ks ++ .punct .rparen :: (ls ++ ms)))
      (.function s params result body)
  | array {s ks es} : Items IsExpr ks es →
    IsPrimary (.punct .lbracket :: (ks ++ [.punct .rbracket])) (.array s es)
  | map {s ks es} : Items IsEntry ks es →
    IsPrimary (.punct .lbrace :: (ks ++ [.punct .rbrace])) (.map s es)
  /-- A tuple has a comma behind its first element. -/
  | tuple {s ks ls e es} : IsElement ks e → Items IsElement ls es →
    IsPrimary (.punct .lparen :: (ks ++ .punct .comma :: (ls ++ [.punct .rparen])))
      (.tuple s (e :: es))
  /-- A tuple of one element needs no comma if the element has a name. -/
  | named {s s' x ks e} : IsExpr ks e →
    IsPrimary (.punct .lparen :: .text .identifier x :: .keyword .isKw :: (ks ++ [.punct .rparen]))
      (.tuple s [⟨s', some x, e⟩])
  /-- Parentheses do not show in the tree. -/
  | parenthesized {s ks e} : IsExpr ks e →
    IsPrimary (.punct .lparen :: (ks ++ [.punct .rparen])) (e.withSpan s)

/-- An entry of a map literal. -/
inductive IsEntry : List Kind → Entry → Prop where
  | intro {s ks ls k v} : IsExpr ks k → IsExpr ls v →
    IsEntry (ks ++ .punct .colon :: ls) ⟨s, k, v⟩

/-- An element of a tuple literal. -/
inductive IsElement : List Kind → Element → Prop where
  | unnamed {s ks e} : IsExpr ks e → IsElement ks ⟨s, none, e⟩
  | named {s x ks e} : IsExpr ks e →
    IsElement (.text .identifier x :: .keyword .isKw :: ks) ⟨s, some x, e⟩

/-- The body of a function literal. -/
inductive IsBody : List Kind → Body → Prop where
  | expr {s ks e} : IsExpr ks e → IsBody (.punct .arrow :: ks) (.expr s e)
  | block {s ks stmts} : IsStmts ks stmts →
    IsBody (.keyword .doKw :: (ks ++ [.keyword .endKw])) (.block s stmts)

inductive IsDeclaration : List Kind → Declaration → Prop where
  | intro {s x ks ls t e} : OptType ks t → IsExpr ls e →
    IsDeclaration (.text .identifier x :: (ks ++ .keyword .isKw :: ls)) ⟨s, x, t, e⟩

inductive IsStmt : List Kind → Stmt → Prop where
  | declaration {s ks d} : IsDeclaration ks d → IsStmt ks (.declaration s d)
  | assign {s ks ls t v} : IsSecondary ks t → IsExpr ls v →
    IsStmt (ks ++ .punct .assign :: ls) (.assign s t v)
  | call {s s' ks f es} : IsSecondary ks (.call s' f es) → IsStmt ks (.call s f es)
  | ifThen {s ks ls c t} : IsExpr ks c → IsStmts ls t →
    IsStmt (.keyword .ifKw :: (ks ++ .keyword .thenKw :: (ls ++ [.keyword .endKw])))
      (.ifThen s c t)
  | ifElse {s ks ls ms c t e} : IsExpr ks c → IsStmts ls t → IsStmts ms e →
    IsStmt (.keyword .ifKw :: (ks ++ .keyword .thenKw :: (ls ++ .keyword .elseKw ::
      (ms ++ [.keyword .endKw])))) (.ifElse s c t e)
  | loop {s ks ls h b} : IsHeader ks h → IsStmts ls b →
    IsStmt (ks ++ .keyword .loopKw :: (ls ++ [.keyword .endKw])) (.loop s h b)
  | returnNothing {s} : IsStmt [.keyword .returnKw] (.returnNothing s)
  | returnValue {s ks e} : IsExpr ks e → IsStmt (.keyword .returnKw :: ks) (.returnValue s e)
  | breakLoop {s} : IsStmt [.keyword .breakKw] (.breakLoop s)
  | print {s ks es} : Items IsExpr ks es →
    IsStmt (.keyword .printKw :: .punct .lparen :: (ks ++ [.punct .rparen])) (.print s es)

inductive IsStmts : List Kind → List Stmt → Prop where
  | nil : IsStmts [] []
  | cons {ks ls ms s rest} : IsStmt ks s → OptSemicolon ls → IsStmts ms rest →
    IsStmts (ks ++ (ls ++ ms)) (s :: rest)

/-- What stands between `for` or `while` and the body of a loop. -/
inductive IsHeader : List Kind → Header → Prop where
  | items {s ks ls x e} : IsBinder ks x → IsExpr ls e →
    IsHeader (.keyword .forKw :: (ks ++ ls)) (.items s x e)
  | range {s ks ls ms x a b} : IsBinder ks x → IsExpr ls a → IsExpr ms b →
    IsHeader (.keyword .forKw :: (ks ++ (ls ++ .punct .range :: ms))) (.range s x a b)
  | condition {s ks e} : IsExpr ks e → IsHeader (.keyword .whileKw :: ks) (.condition s e)

end

inductive IsDeclarations : List Kind → List Declaration → Prop where
  | nil : IsDeclarations [] []
  | cons {ks ls ms d rest} : IsDeclaration ks d → OptSemicolon ls → IsDeclarations ms rest →
    IsDeclarations (ks ++ (ls ++ ms)) (d :: rest)

/-- The start symbol. -/
def IsProgram (ks : List Kind) (p : Program) : Prop := IsDeclarations ks p.declarations

end ExprCheck.Grammar
