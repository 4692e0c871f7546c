import Mathlib
import ExprCheck.Proofs.ConstantReaders
import ExprCheck.Proofs.Edits

/-!
# Programs as tokens

How a program is written down so that nothing about its shape is left to precedence. Operands,
callees, targets and the bases of indices stand in parentheses unless they are constants or
variables, a tuple of one unnamed element keeps a comma behind it, and a semicolon follows every
declaration and every statement.

A tree is `WellFormed` if the language can write all its constants.
-/

namespace ExprCheck

/-! ## Constants as tokens

Decimal digits write a whole number. How a real number is written is left open: `spell` gives the
digits chosen for each, and all that matters is that they read back. -/

def decimalDigits (n : Nat) : List Char := Nat.toDigits 10 n

/-- A character inside quotes. -/
def escapeChar : Char → List Char
  | '"' => ['\\', '"']
  | '\\' => ['\\', '\\']
  | '\n' => ['\\', 'n']
  | '\t' => ['\\', 't']
  | '\r' => ['\\', 'r']
  | '\x00' => ['\\', '0']
  | c => [c]

/-- Digits, perhaps with a fraction, that read as the given number. -/
structure Spells (text : List Char) (x : Float) : Prop where
  nonempty : text ≠ []
  decimal : Lexer.decimal text = text
  reads : Literal.readReal text = x

section

variable (spell : Float → List Char)

def Literal.kind : Literal → Kind
  | .boolean true => .keyword .trueKw
  | .boolean false => .keyword .falseKw
  | .integer n => .text .integer (String.ofList (decimalDigits n.toNat))
  | .real x => .text .real (String.ofList (spell x))
  | .rational n d =>
    .text .rational (String.ofList (decimalDigits n.toNat ++ '\\' :: decimalDigits d.toNat))
  | .complex re im => .text .complex (String.ofList (spell re ++ 'i' :: spell im))
  | .string s => .text .string (String.ofList ('"' :: (s.toList.flatMap escapeChar ++ ['"'])))

/-- The constants that the language can write. -/
def Literal.WellFormed : Literal → Prop
  | .boolean _ | .string _ => True
  | .integer n => 0 ≤ n ∧ n ≤ maxInteger
  | .real x => Spells (spell x) x
  | .rational n d => (0 ≤ n ∧ n ≤ maxInteger) ∧ 1 ≤ d ∧ d ≤ maxInteger
  | .complex re im => Spells (spell re) re ∧ Spells (spell im) im

end

/-! ## Trees as tokens -/

/-- Items with a comma between any two of them. -/
def commas : List (List Kind) → List Kind
  | [] => []
  | [ks] => ks
  | ks :: ls :: rest => ks ++ .punct .comma :: commas (ls :: rest)

mutual

@[simp]
def TypeExpr.kinds : TypeExpr → List Kind
  | .primitive _ p => [.keyword p.keyword]
  | .func _ params result =>
    .keyword .funcKw :: .punct .lparen ::
      (commas (typesKinds params) ++ .punct .rparen :: .punct .colon :: result.kinds)
  | .array _ element => .punct .lbracket :: (element.kinds ++ [.punct .rbracket])
  | .map _ key value =>
    .punct .lbrace :: (key.kinds ++ .punct .colon :: (value.kinds ++ [.punct .rbrace]))
  | .tuple _ fields => .punct .lparen :: (commas (typesKinds fields) ++ [.punct .rparen])

@[simp]
def typesKinds : List TypeExpr → List (List Kind)
  | [] => []
  | t :: ts => t.kinds :: typesKinds ts

end

/-- An annotation, if there is one, behind a colon. -/
def optTypeKinds : Option TypeExpr → List Kind
  | none => []
  | some t => .punct .colon :: t.kinds

def Param.kinds (p : Param) : List Kind := .text .identifier p.name :: optTypeKinds p.typeExpr

/-- The variable of a loop, if it has one. -/
def binderKinds : Option String → List Kind
  | none => []
  | some x => [.text .identifier x, .keyword .inKw]

/-- The name of a tuple element, if it has one. -/
def labelKinds : Option String → List Kind
  | none => []
  | some x => [.text .identifier x, .keyword .isKw]

/-- Constants and variables need no parentheses. -/
def Expr.isAtomic : Expr → Bool
  | .literal _ _ | .var _ _ => true
  | _ => false

def guarded (atomic : Bool) (ks : List Kind) : List Kind :=
  if atomic then ks else .punct .lparen :: (ks ++ [.punct .rparen])

/-- The comma that tells a tuple of one unnamed element from an expression in parentheses. -/
def loneComma : List Element → List Kind
  | [⟨_, none, _⟩] => [.punct .comma]
  | _ => []

section

variable (spell : Float → List Char)

mutual

@[simp]
def Expr.kinds : Expr → List Kind
  | .literal _ v => [v.kind spell]
  | .var _ x => [.text .identifier x]
  | .binary _ op l r => guarded l.isAtomic l.kinds ++ op.kind :: guarded r.isAtomic r.kinds
  | .conditional _ p t e =>
    .keyword .ifKw :: (p.kinds ++ .keyword .thenKw :: (t.kinds ++ .keyword .elseKw ::
      (e.kinds ++ [.keyword .endKw])))
  | .function _ ps r b =>
    .keyword .funcKw :: .punct .lparen :: (commas (ps.map Param.kinds) ++ .punct .rparen ::
      (optTypeKinds r ++ b.kinds))
  | .array _ es => .punct .lbracket :: (commas (exprsKinds es) ++ [.punct .rbracket])
  | .map _ es => .punct .lbrace :: (commas (entriesKinds es) ++ [.punct .rbrace])
  | .tuple _ es =>
    .punct .lparen :: (commas (elementsKinds es) ++ (loneComma es ++ [.punct .rparen]))
  | .call _ f es =>
    guarded f.isAtomic f.kinds ++ .punct .lparen :: (commas (exprsKinds es) ++ [.punct .rparen])
  | .index _ t i =>
    guarded t.isAtomic t.kinds ++ .punct .lbracket :: (i.kinds ++ [.punct .rbracket])
  | .field _ t x => guarded t.isAtomic t.kinds ++ [.punct .dot, .text .identifier x]
  | .ordinal _ t n =>
    guarded t.isAtomic t.kinds ++
      [.punct .dot, .text .integer (String.ofList (decimalDigits n))]

@[simp]
def exprsKinds : List Expr → List (List Kind)
  | [] => []
  | e :: es => e.kinds :: exprsKinds es

@[simp]
def Entry.kinds : Entry → List Kind
  | ⟨_, k, v⟩ => k.kinds ++ .punct .colon :: v.kinds

@[simp]
def entriesKinds : List Entry → List (List Kind)
  | [] => []
  | e :: es => e.kinds :: entriesKinds es

@[simp]
def Element.kinds : Element → List Kind
  | ⟨_, x, e⟩ => labelKinds x ++ e.kinds

@[simp]
def elementsKinds : List Element → List (List Kind)
  | [] => []
  | e :: es => e.kinds :: elementsKinds es

@[simp]
def Body.kinds : Body → List Kind
  | .expr _ e => .punct .arrow :: e.kinds
  | .block _ ss => .keyword .doKw :: (stmtsKinds ss ++ [.keyword .endKw])

@[simp]
def Stmt.kinds : Stmt → List Kind
  | .declaration _ d => d.kinds
  | .assign _ t e => guarded t.isAtomic t.kinds ++ .punct .assign :: e.kinds
  | .call _ f es =>
    guarded f.isAtomic f.kinds ++ .punct .lparen :: (commas (exprsKinds es) ++ [.punct .rparen])
  | .ifThen _ c ss =>
    .keyword .ifKw :: (c.kinds ++ .keyword .thenKw :: (stmtsKinds ss ++ [.keyword .endKw]))
  | .ifElse _ c ss rs =>
    .keyword .ifKw :: (c.kinds ++ .keyword .thenKw :: (stmtsKinds ss ++ .keyword .elseKw ::
      (stmtsKinds rs ++ [.keyword .endKw])))
  | .loop _ h ss => h.kinds ++ .keyword .loopKw :: (stmtsKinds ss ++ [.keyword .endKw])
  | .returnNothing _ => [.keyword .returnKw]
  | .returnValue _ e => .keyword .returnKw :: e.kinds
  | .breakLoop _ => [.keyword .breakKw]
  | .print _ es =>
    .keyword .printKw :: .punct .lparen :: (commas (exprsKinds es) ++ [.punct .rparen])

@[simp]
def stmtsKinds : List Stmt → List Kind
  | [] => []
  | s :: ss => s.kinds ++ .punct .semicolon :: stmtsKinds ss

@[simp]
def Header.kinds : Header → List Kind
  | .items _ x e => .keyword .forKw :: (binderKinds x ++ e.kinds)
  | .range _ x a b => .keyword .forKw :: (binderKinds x ++ (a.kinds ++ .punct .range :: b.kinds))
  | .condition _ c => .keyword .whileKw :: c.kinds

@[simp]
def Declaration.kinds : Declaration → List Kind
  | ⟨_, x, t, e⟩ => .text .identifier x :: (optTypeKinds t ++ .keyword .isKw :: e.kinds)

end

/-! ## Trees that can be written -/

mutual

@[simp]
def Expr.WellFormed : Expr → Prop
  | .literal _ v => v.WellFormed spell
  | .var _ _ => True
  | .binary _ _ l r => l.WellFormed ∧ r.WellFormed
  | .conditional _ p t e => p.WellFormed ∧ t.WellFormed ∧ e.WellFormed
  | .function _ _ _ b => b.WellFormed
  | .array _ es => ExprsWellFormed es
  | .map _ es => EntriesWellFormed es
  | .tuple _ es => es ≠ [] ∧ ElementsWellFormed es
  | .call _ f es => f.WellFormed ∧ ExprsWellFormed es
  | .index _ t i => t.WellFormed ∧ i.WellFormed
  | .field _ t _ => t.WellFormed
  | .ordinal _ t n => t.WellFormed ∧ n ≤ Literal.maxOrdinal

@[simp]
def ExprsWellFormed : List Expr → Prop
  | [] => True
  | e :: es => e.WellFormed ∧ ExprsWellFormed es

@[simp]
def Entry.WellFormed : Entry → Prop
  | ⟨_, k, v⟩ => k.WellFormed ∧ v.WellFormed

@[simp]
def EntriesWellFormed : List Entry → Prop
  | [] => True
  | e :: es => e.WellFormed ∧ EntriesWellFormed es

@[simp]
def Element.WellFormed : Element → Prop
  | ⟨_, _, e⟩ => e.WellFormed

@[simp]
def ElementsWellFormed : List Element → Prop
  | [] => True
  | e :: es => e.WellFormed ∧ ElementsWellFormed es

@[simp]
def Body.WellFormed : Body → Prop
  | .expr _ e => e.WellFormed
  | .block _ ss => StmtsWellFormed ss

@[simp]
def Stmt.WellFormed : Stmt → Prop
  | .declaration _ d => d.WellFormed
  | .assign _ t e => t.WellFormed ∧ e.WellFormed
  | .call _ f es => f.WellFormed ∧ ExprsWellFormed es
  | .ifThen _ c ss => c.WellFormed ∧ StmtsWellFormed ss
  | .ifElse _ c ss rs => c.WellFormed ∧ StmtsWellFormed ss ∧ StmtsWellFormed rs
  | .loop _ h ss => h.WellFormed ∧ StmtsWellFormed ss
  | .returnNothing _ => True
  | .returnValue _ e => e.WellFormed
  | .breakLoop _ => True
  | .print _ es => ExprsWellFormed es

@[simp]
def StmtsWellFormed : List Stmt → Prop
  | [] => True
  | s :: ss => s.WellFormed ∧ StmtsWellFormed ss

@[simp]
def Header.WellFormed : Header → Prop
  | .items _ _ e => e.WellFormed
  | .range _ _ a b => a.WellFormed ∧ b.WellFormed
  | .condition _ c => c.WellFormed

@[simp]
def Declaration.WellFormed : Declaration → Prop
  | ⟨_, _, _, e⟩ => e.WellFormed

end

def declarationsKinds : List Declaration → List Kind
  | [] => []
  | d :: ds => d.kinds spell ++ .punct .semicolon :: declarationsKinds ds

/-- The tokens that write a program. -/
def Program.kinds (p : Program) : List Kind := declarationsKinds spell p.declarations

/-- A program that the language can write: its whole numbers and ordinals are in range, its real
numbers are spelt by digits that read back, and none of its tuples is empty. Names may be anything
here: a token that is an identifier is taken for a name whatever it says. -/
def Program.WellFormed (p : Program) : Prop := ∀ d ∈ p.declarations, d.WellFormed spell

end

/-! ## Lists of parts -/

variable {spell : Float → List Char}

theorem typesKinds_eq_map (ts : List TypeExpr) : typesKinds ts = ts.map TypeExpr.kinds := by
  induction ts with
  | nil => rfl
  | cons t ts ih => rw [typesKinds, ih, List.map_cons]

theorem exprsKinds_eq_map (es : List Expr) :
    exprsKinds spell es = es.map (Expr.kinds spell) := by
  induction es with
  | nil => rfl
  | cons e es ih => rw [exprsKinds, ih, List.map_cons]

theorem entriesKinds_eq_map (es : List Entry) :
    entriesKinds spell es = es.map (Entry.kinds spell) := by
  induction es with
  | nil => rfl
  | cons e es ih => rw [entriesKinds, ih, List.map_cons]

theorem elementsKinds_eq_map (es : List Element) :
    elementsKinds spell es = es.map (Element.kinds spell) := by
  induction es with
  | nil => rfl
  | cons e es ih => rw [elementsKinds, ih, List.map_cons]

/-- All constants of a list can be written if those of each of its expressions can. -/
theorem exprsWellFormed_iff (es : List Expr) :
    ExprsWellFormed spell es ↔ ∀ e ∈ es, e.WellFormed spell := by
  induction es with
  | nil => simp [ExprsWellFormed]
  | cons e es ih => rw [ExprsWellFormed, ih, List.forall_mem_cons]

theorem entriesWellFormed_iff (es : List Entry) :
    EntriesWellFormed spell es ↔ ∀ e ∈ es, e.WellFormed spell := by
  induction es with
  | nil => simp [EntriesWellFormed]
  | cons e es ih => rw [EntriesWellFormed, ih, List.forall_mem_cons]

theorem elementsWellFormed_iff (es : List Element) :
    ElementsWellFormed spell es ↔ ∀ e ∈ es, e.WellFormed spell := by
  induction es with
  | nil => simp [ElementsWellFormed]
  | cons e es ih => rw [ElementsWellFormed, ih, List.forall_mem_cons]

/-! ## Constants read back -/

section

open Literal

/-- The digits of a number write that number. -/
theorem natOfDigits_decimalDigits (n : Nat) : natOfDigits (decimalDigits n) = n := by
  have h : natOfDigits (decimalDigits n) = Nat.ofDigitChars 10 (decimalDigits n) 0 := by
    rw [Nat.ofDigitChars_eq_foldl]
    rfl
  rw [h, decimalDigits, Nat.ofDigitChars_ten_toDigits]

/-- A whole number within its bounds is read back from its digits. -/
theorem readInteger_decimalDigits {n : Int} (hn : 0 ≤ n) (hm : n ≤ maxInteger) :
    readInteger (decimalDigits n.toNat) = .ok n := by
  have hle : n.toNat ≤ maxInteger := by omega
  simp only [readInteger, natOfDigits_decimalDigits, if_pos hle, Int.toNat_of_nonneg hn]

theorem readOrdinal_decimalDigits {n : Nat} (hn : n ≤ maxOrdinal) :
    readOrdinal (decimalDigits n) = .ok n := by
  simp only [readOrdinal, natOfDigits_decimalDigits, if_pos hn]

/-- Resolving escapes gives a character back from how it stands inside quotes. -/
theorem unescape_escapeChar (c : Char) (rest : List Char) :
    unescape (escapeChar c ++ rest) = c :: unescape rest := by
  fun_cases escapeChar c
  case case7 _ hslash _ _ _ _ =>
    rw [List.singleton_append, unescape]
    intro _ _ heq
    exact absurd heq hslash
  all_goals rfl

theorem unescape_flatMap (cs : List Char) : unescape (cs.flatMap escapeChar) = cs := by
  induction cs with
  | nil => rfl
  | cons c cs ih => rw [List.flatMap_cons, unescape_escapeChar, ih]

theorem isDigit_of_mem_digits {input : List Char} {c : Char} (h : c ∈ Lexer.digits input) :
    c.isDigit :=
  List.mem_takeWhile_imp h

/-- A fraction is made of its mark and digits. -/
theorem mem_digitsAfter {sep c : Char} {input : List Char} (h : c ∈ Lexer.digitsAfter sep input) :
    c.isDigit ∨ c = sep := by
  cases input with
  | nil => simp [Lexer.digitsAfter] at h
  | cons d rest =>
    rw [Lexer.digitsAfter] at h
    split at h
    · simp at h
    · split_ifs at h with hsep
      · rcases List.mem_cons.mp h with rfl | hc
        · exact .inr hsep
        · exact .inl (isDigit_of_mem_digits hc)
      · simp at h

/-- The digits of a real part do not hold the mark that separates it from the imaginary part. -/
theorem Spells.notMem {text : List Char} {x : Float} (h : Spells text x) : 'i' ∉ text := by
  intro hi
  rw [← h.decimal] at hi
  rcases List.mem_append.mp hi with hc | hc
  · exact absurd (isDigit_of_mem_digits hc) (by decide)
  · exact absurd (mem_digitsAfter hc) (by decide)

/-- The digits of a numerator do not hold the mark that separates it from the denominator. -/
theorem notMem_decimalDigits (n : Nat) : '\\' ∉ decimalDigits n := by
  intro h
  exact absurd (Nat.isDigit_of_mem_toDigits (by decide) (by decide) h) (by decide)

/-- A text is read back from how it stands between quotes. -/
theorem readString_quoted (s : String) :
    readString ('"' :: (s.toList.flatMap escapeChar ++ ['"'])) = s.toList := by
  rw [readString, List.drop_one, List.tail_cons, List.dropLast_concat, unescape_flatMap]

/-- The token of a constant that can be written stands for that constant. -/
theorem ofKind_kind : ∀ {v : Literal}, v.WellFormed spell → ofKind (v.kind spell) = .ok v
  | .boolean true, _ | .boolean false, _ => rfl
  | .integer n, ⟨hn, hm⟩ => by
    simp only [Literal.kind, ofKind, String.toList_ofList, readInteger_decimalDigits hn hm]
    rfl
  | .real x, h => by
    simp only [Literal.kind, ofKind, String.toList_ofList, h.reads]
    rfl
  | .rational n d, ⟨⟨hn, hm⟩, hd, hm'⟩ => by
    have hd₀ : 0 ≤ d := by omega
    have hne : d ≠ 0 := by omega
    simp only [Literal.kind, ofKind, String.toList_ofList,
      splitAt_append_cons (notMem_decimalDigits _), readInteger_decimalDigits hn hm,
      readInteger_decimalDigits hd₀ hm']
    simp [bind, Except.bind, hne, pure, Except.pure]
  | .complex re im, ⟨hre, him⟩ => by
    simp only [Literal.kind, ofKind, String.toList_ofList, splitAt_append_cons hre.notMem,
      hre.reads, him.reads]
    rfl
  | .string s, _ => by
    simp only [Literal.kind, ofKind, String.toList_ofList, readString_quoted, String.ofList_toList]
    rfl

end

/-! ## No tree is written with the end of the text -/

/-- Lists hold what their items hold, and commas. -/
theorem eof_notMem_commas {kss : List (List Kind)} (h : ∀ ks ∈ kss, Kind.eof ∉ ks) :
    Kind.eof ∉ commas kss := by
  fun_induction commas kss with
  | case1 => simp
  | case2 ks => exact h ks (by simp)
  | case3 ks ls rest ih =>
    have hks := h ks (by simp)
    have hrest := ih fun ms hms => h ms (List.mem_cons_of_mem _ hms)
    simp [hks, hrest]

theorem eof_notMem_guarded {atomic : Bool} {ks : List Kind} (h : Kind.eof ∉ ks) :
    Kind.eof ∉ guarded atomic ks := by
  cases atomic <;> simp [guarded, h]

mutual

theorem eof_notMem_typeKinds : (t : TypeExpr) → Kind.eof ∉ t.kinds
  | .primitive _ _ => by simp
  | .func _ params result => by
    have hparams := eof_notMem_commas (eof_notMem_typesKinds params)
    simp [hparams, eof_notMem_typeKinds result]
  | .array _ element => by simp [eof_notMem_typeKinds element]
  | .map _ key value => by
    simp [eof_notMem_typeKinds key, eof_notMem_typeKinds value]
  | .tuple _ fields => by
    have hfields := eof_notMem_commas (eof_notMem_typesKinds fields)
    simp [hfields]

theorem eof_notMem_typesKinds : (ts : List TypeExpr) → ∀ ks ∈ typesKinds ts, Kind.eof ∉ ks
  | [] => by simp
  | t :: ts => by
    rw [typesKinds, List.forall_mem_cons]
    exact ⟨eof_notMem_typeKinds t, eof_notMem_typesKinds ts⟩

end

theorem eof_notMem_optTypeKinds (t : Option TypeExpr) : Kind.eof ∉ optTypeKinds t := by
  cases t with
  | none => simp [optTypeKinds]
  | some t => simp [optTypeKinds, eof_notMem_typeKinds t]

theorem eof_notMem_paramKinds (ps : List Param) : ∀ ks ∈ ps.map Param.kinds, Kind.eof ∉ ks := by
  simp [Param.kinds, eof_notMem_optTypeKinds]

theorem eof_notMem_binderKinds (x : Option String) : Kind.eof ∉ binderKinds x := by
  cases x <;> simp [binderKinds]

theorem eof_notMem_labelKinds (x : Option String) : Kind.eof ∉ labelKinds x := by
  cases x <;> simp [labelKinds]

theorem eof_notMem_loneComma (es : List Element) : Kind.eof ∉ loneComma es := by
  fun_cases loneComma es <;> simp

theorem operator_kind_ne_eof (op : Operator) : Kind.eof ≠ op.kind := by
  cases op <;> simp [Operator.kind]

theorem literal_kind_ne_eof (v : Literal) : Kind.eof ≠ v.kind spell := by
  fun_cases Literal.kind <;> simp

mutual

/-- By recursion over the tree: a reader that looks behind the tokens of a tree does not mistake
them for the end of the text. -/
theorem eof_notMem_kinds : (e : Expr) → Kind.eof ∉ e.kinds spell
  | .literal _ v => by simp [literal_kind_ne_eof v]
  | .var _ _ => by simp
  | .binary _ op l r => by
    simp [operator_kind_ne_eof op, eof_notMem_guarded (eof_notMem_kinds l),
      eof_notMem_guarded (eof_notMem_kinds r)]
  | .conditional _ p t e => by
    simp [eof_notMem_kinds p, eof_notMem_kinds t, eof_notMem_kinds e]
  | .function _ ps r b => by
    have hps := eof_notMem_commas (eof_notMem_paramKinds ps)
    simp [hps, eof_notMem_optTypeKinds r, eof_notMem_bodyKinds b]
  | .array _ es => by simp [eof_notMem_commas (eof_notMem_exprsKinds es)]
  | .map _ es => by simp [eof_notMem_commas (eof_notMem_entriesKinds es)]
  | .tuple _ es => by
    simp [eof_notMem_commas (eof_notMem_elementsKinds es), eof_notMem_loneComma es]
  | .call _ f es => by
    simp [eof_notMem_guarded (eof_notMem_kinds f),
      eof_notMem_commas (eof_notMem_exprsKinds es)]
  | .index _ t i => by
    simp [eof_notMem_guarded (eof_notMem_kinds t), eof_notMem_kinds i]
  | .field _ t _ | .ordinal _ t _ => by
    simp [eof_notMem_guarded (eof_notMem_kinds t)]

theorem eof_notMem_exprsKinds : (es : List Expr) → ∀ ks ∈ exprsKinds spell es, Kind.eof ∉ ks
  | [] => by simp
  | e :: es => by
    rw [exprsKinds, List.forall_mem_cons]
    exact ⟨eof_notMem_kinds e, eof_notMem_exprsKinds es⟩

theorem eof_notMem_entriesKinds : (es : List Entry) → ∀ ks ∈ entriesKinds spell es, Kind.eof ∉ ks
  | [] => by simp
  | ⟨_, k, v⟩ :: es => by
    rw [entriesKinds, List.forall_mem_cons]
    refine ⟨?_, eof_notMem_entriesKinds es⟩
    simp [eof_notMem_kinds k, eof_notMem_kinds v]

theorem eof_notMem_elementsKinds :
    (es : List Element) → ∀ ks ∈ elementsKinds spell es, Kind.eof ∉ ks
  | [] => by simp
  | ⟨_, x, e⟩ :: es => by
    rw [elementsKinds, List.forall_mem_cons]
    refine ⟨?_, eof_notMem_elementsKinds es⟩
    simp [eof_notMem_labelKinds x, eof_notMem_kinds e]

theorem eof_notMem_bodyKinds : (b : Body) → Kind.eof ∉ b.kinds spell
  | .expr _ e => by simp [eof_notMem_kinds e]
  | .block _ ss => by simp [eof_notMem_stmtsKinds ss]

theorem eof_notMem_stmtKinds : (s : Stmt) → Kind.eof ∉ s.kinds spell
  | .declaration _ d => by simp [eof_notMem_declarationKinds d]
  | .assign _ t e => by
    simp [eof_notMem_guarded (eof_notMem_kinds t), eof_notMem_kinds e]
  | .call _ f es => by
    simp [eof_notMem_guarded (eof_notMem_kinds f),
      eof_notMem_commas (eof_notMem_exprsKinds es)]
  | .ifThen _ c ss => by simp [eof_notMem_kinds c, eof_notMem_stmtsKinds ss]
  | .ifElse _ c ss rs => by
    simp [eof_notMem_kinds c, eof_notMem_stmtsKinds ss, eof_notMem_stmtsKinds rs]
  | .loop _ h ss => by simp [eof_notMem_headerKinds h, eof_notMem_stmtsKinds ss]
  | .returnValue _ e => by simp [eof_notMem_kinds e]
  | .returnNothing _ | .breakLoop _ => by simp
  | .print _ es => by simp [eof_notMem_commas (eof_notMem_exprsKinds es)]

theorem eof_notMem_stmtsKinds : (ss : List Stmt) → Kind.eof ∉ stmtsKinds spell ss
  | [] => by simp
  | s :: ss => by simp [eof_notMem_stmtKinds s, eof_notMem_stmtsKinds ss]

theorem eof_notMem_headerKinds : (h : Header) → Kind.eof ∉ h.kinds spell
  | .items _ x e => by simp [eof_notMem_binderKinds x, eof_notMem_kinds e]
  | .range _ x a b => by
    simp [eof_notMem_binderKinds x, eof_notMem_kinds a, eof_notMem_kinds b]
  | .condition _ c => by simp [eof_notMem_kinds c]

theorem eof_notMem_declarationKinds : (d : Declaration) → Kind.eof ∉ d.kinds spell
  | ⟨_, _, t, e⟩ => by simp [eof_notMem_optTypeKinds t, eof_notMem_kinds e]

end

theorem eof_notMem_declarationsKinds (ds : List Declaration) :
    Kind.eof ∉ declarationsKinds spell ds := by
  induction ds with
  | nil => simp [declarationsKinds]
  | cons d ds ih => simp [declarationsKinds, eof_notMem_declarationKinds d, ih]

/-! ## First tokens

What a reader decides by looking ahead depends on the first token of what follows and, if that is a
name, on the second. -/

/-- The tokens that an operand in its parentheses can begin with. -/
def opensOperand : Kind → Bool
  | .text _ _ | .keyword .trueKw | .keyword .falseKw | .punct .lparen => true
  | _ => false

/-- The tokens that an expression can begin with. -/
def opensExpr : Kind → Bool
  | .keyword .ifKw | .keyword .funcKw | .punct .lbracket | .punct .lbrace => true
  | k => opensOperand k

/-- The tokens by which a name in front of them is declared. -/
def marksName : Kind → Bool
  | .keyword .isKw | .keyword .inKw | .punct .colon => true
  | _ => false

/-- An operator behind a name does not make a declaration of it. -/
theorem marksName_operator (op : Operator) : marksName op.kind = false := by
  cases op <;> rfl

/-- A constant can be an operand without parentheses. -/
theorem opensOperand_literal (v : Literal) : opensOperand (v.kind spell) = true := by
  fun_cases Literal.kind <;> rfl

theorem literal_kind_ne_identifier (v : Literal) (x : String) :
    v.kind spell ≠ .text .identifier x := by
  fun_cases Literal.kind <;> simp

/-- An operand is a name or begins with something that is none. -/
theorem guarded_eq_cons (e : Expr) :
    ∃ k ks, guarded e.isAtomic (e.kinds spell) = k :: ks ∧ opensOperand k = true ∧
      ∀ x, k = .text .identifier x → ks = [] := by
  cases e with
  | literal _ v =>
    refine ⟨v.kind spell, [], by simp [guarded, Expr.isAtomic, Expr.kinds], ?_, fun _ _ => rfl⟩
    exact opensOperand_literal v
  | var _ x =>
    exact ⟨.text .identifier x, [], by simp [guarded, Expr.isAtomic, Expr.kinds], rfl,
      fun _ _ => rfl⟩
  | _ => exact ⟨.punct .lparen, _, rfl, rfl, fun _ h => by simp at h⟩

/-- An expression that begins with a name is that name, or goes on with a token that declares
nothing. -/
theorem kinds_eq_cons (e : Expr) :
    ∃ k ks, e.kinds spell = k :: ks ∧ opensExpr k = true ∧
      ∀ x, k = .text .identifier x →
        ks = [] ∨ ∃ k' ks', ks = k' :: ks' ∧ marksName k' = false := by
  -- What stands behind an operand is an operator or the mark of a suffix.
  have hoperand : ∀ (l : Expr) (k' : Kind) (ks' : List Kind), marksName k' = false →
      ∃ k ks, guarded l.isAtomic (l.kinds spell) ++ k' :: ks' = k :: ks ∧ opensExpr k = true ∧
        ∀ x, k = .text .identifier x →
          ks = [] ∨ ∃ k' ks', ks = k' :: ks' ∧ marksName k' = false := by
    intro l k' ks' hk'
    obtain ⟨k, ks, hks, hopens, hname⟩ := @guarded_eq_cons spell l
    refine ⟨k, ks ++ k' :: ks', by rw [hks, List.cons_append], ?_, ?_⟩
    · unfold opensExpr
      split <;> simp [hopens]
    · intro x hx
      rw [hname x hx]
      exact .inr ⟨k', ks', rfl, hk'⟩
  cases e with
  | literal _ v =>
    refine ⟨v.kind spell, [], by simp [Expr.kinds], ?_, fun _ _ => .inl rfl⟩
    unfold opensExpr
    split <;> simp [opensOperand_literal]
  | var _ x => exact ⟨.text .identifier x, [], by simp [Expr.kinds], rfl, fun _ _ => .inl rfl⟩
  | binary _ op l r =>
    rw [Expr.kinds]
    exact hoperand l _ _ (marksName_operator op)
  | call _ f es =>
    rw [Expr.kinds]
    exact hoperand f _ _ rfl
  | index _ t i =>
    rw [Expr.kinds]
    exact hoperand t _ _ rfl
  | field _ t x =>
    rw [Expr.kinds]
    exact hoperand t _ _ rfl
  | ordinal _ t n =>
    rw [Expr.kinds]
    exact hoperand t _ _ rfl
  | conditional _ _ _ _ | function _ _ _ _ | array _ _ | map _ _ | tuple _ _ =>
    rw [Expr.kinds]
    exact ⟨_, _, rfl, rfl, fun _ h => by simp at h⟩

/-- A list of types between parentheses is not over where a type begins. -/
theorem typeKinds_eq_cons (t : TypeExpr) : ∃ k ks, t.kinds = k :: ks ∧ k ≠ .punct .rparen := by
  cases t <;> exact ⟨_, _, by rw [TypeExpr.kinds], by simp⟩

/-! ## Lengths -/

theorem length_le_commas {kss : List (List Kind)} {ks : List Kind} (h : ks ∈ kss) :
    ks.length ≤ (commas kss).length := by
  fun_induction commas kss with
  | case1 => simp at h
  | case2 ls =>
    rw [List.mem_singleton.mp h]
  | case3 ls ms rest ih =>
    rw [List.length_append, List.length_cons]
    rcases List.mem_cons.mp h with rfl | h
    · omega
    · have := ih h
      omega

/-- A list has at most as many items as tokens, so the rounds of its reader suffice. -/
theorem length_le_length_commas {kss : List (List Kind)} (h : ∀ ks ∈ kss, ks ≠ []) :
    kss.length ≤ (commas kss).length := by
  fun_induction commas kss with
  | case1 => simp
  | case2 ks =>
    have hks : 0 < ks.length := List.length_pos_iff.mpr (h ks (by simp))
    exact hks
  | case3 ks ls rest ih =>
    have hrest := ih fun ms hms => h ms (List.mem_cons_of_mem _ hms)
    simp only [List.length_append, List.length_cons] at hrest ⊢
    omega

/-- Parentheses only add tokens. -/
theorem length_kinds_le_guarded (e : Expr) :
    (e.kinds spell).length ≤ (guarded e.isAtomic (e.kinds spell)).length := by
  unfold guarded
  split_ifs
  · exact Nat.le_refl _
  · simp only [List.length_cons, List.length_append]
    omega

theorem kinds_length_pos (e : Expr) : 0 < (e.kinds spell).length := by
  obtain ⟨k, ks, hks, -⟩ := @kinds_eq_cons spell e
  rw [hks]
  exact Nat.succ_pos _

end ExprCheck
