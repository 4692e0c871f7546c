import Mathlib
import ExprCheck.Proofs.AnnotationText
import ExprCheck.Proofs.ReadFailures

/-!
# Numerals

A numeral is a row of digits of any length, and may begin with zeros. Many numerals write the same
number; one of them, the canonical one, has no zeros to leave out.

A numeral is a token, and so are two numerals with a mark between them. What is read from such a
token is the number that it writes, or nothing if a bound is exceeded: a constant where an expression
is due, and the place of an element behind a dot.
-/

namespace ExprCheck

open ReadM Pattern

/-- One or more digits. -/
@[ext]
structure Numeral where
  chars : List Char
  mem : chars ∈ Pattern.digits

namespace Numeral

/-- The number that a numeral writes. -/
def value (d : Numeral) : Nat :=
  Nat.ofDigits 10 (d.chars.reverse.map fun c => c.toNat - '0'.toNat)

def text (d : Numeral) : String := String.ofList d.chars

/-- There is no zero to leave out. -/
def IsCanonical (d : Numeral) : Prop := d.chars.head? = some '0' → d.chars = ['0']

theorem chars_ne_nil (d : Numeral) : d.chars ≠ [] := (mem_digits.mp d.mem).1

theorem isDigit_of_mem (d : Numeral) {c : Char} (h : c ∈ d.chars) : c.isDigit = true :=
  (mem_digits.mp d.mem).2 c h

/-- Reading digits from the left sums up their values by place. -/
theorem natOfDigits_eq_ofDigits (cs : List Char) :
    Literal.natOfDigits cs = Nat.ofDigits 10 (cs.reverse.map fun c => c.toNat - '0'.toNat) := by
  induction cs using List.reverseRecOn with
  | nil => rfl
  | append_singleton cs c ih =>
    rw [List.reverse_append, List.reverse_singleton, List.singleton_append, List.map_cons,
      Nat.ofDigits_cons, ← ih, Literal.natOfDigits_concat]
    exact Nat.add_comm _ _

theorem natOfDigits_chars (d : Numeral) : Literal.natOfDigits d.chars = d.value :=
  natOfDigits_eq_ofDigits d.chars

/-! ## Canonical numerals -/

def ofNat (n : Nat) : Numeral where
  chars := decimalDigits n
  mem := mem_digits.mpr
    ⟨Nat.toDigits_ne_nil, fun _ hc => Nat.isDigit_of_mem_toDigits (by decide) (by decide) hc⟩

theorem value_ofNat (n : Nat) : (ofNat n).value = n := by
  rw [← natOfDigits_chars]
  exact natOfDigits_decimalDigits n

theorem text_ofNat (n : Nat) : (ofNat n).text = toString n := Nat.toString_eq_ofList_toDigits.symm

/-- The digits of a number other than zero do not begin with a zero. -/
theorem head?_toDigits {n : Nat} (hn : 0 < n) : (Nat.toDigits 10 n).head? ≠ some '0' := by
  induction n using Nat.strong_induction_on with
  | _ n ih =>
    by_cases hlt : n < 10
    · rw [Nat.toDigits_of_lt_base hlt]
      interval_cases n <;> decide
    · rw [Nat.toDigits_of_base_le (by decide) (by omega), List.head?_append_of_ne_nil _
        Nat.toDigits_ne_nil]
      exact ih (n / 10) (by omega) (by omega)

theorem isCanonical_ofNat (n : Nat) : (ofNat n).IsCanonical := by
  intro hhead
  rcases Nat.eq_zero_or_pos n with rfl | hn
  · exact Nat.toDigits_zero 10
  · exact absurd hhead (head?_toDigits hn)

/-- Without zeros to leave out, digits are those of the number they write. -/
theorem decimalDigits_natOfDigits {cs : List Char} (hne : cs ≠ [])
    (hdigits : ∀ c ∈ cs, c.isDigit = true) (hzero : cs.head? = some '0' → cs = ['0']) :
    decimalDigits (Literal.natOfDigits cs) = cs := by
  induction cs using List.reverseRecOn with
  | nil => exact absurd rfl hne
  | append_singleton cs c ih =>
    obtain ⟨hlt, hchar⟩ := digitChar_sub (hdigits c (by simp))
    have hvalue := Literal.natOfDigits_concat cs c
    have hlast : Nat.toDigits 10 (c.toNat - '0'.toNat) = [c] := by
      rw [Nat.toDigits_of_lt_base hlt, hchar]
    by_cases hcs : cs = []
    · subst hcs
      rw [hvalue]
      exact (congrArg (Nat.toDigits 10) (Nat.zero_add _)).trans hlast
    · -- a row of several digits does not begin with a zero, so what the first of them write is not 0
      have hhead : cs.head? ≠ some '0' := by
        intro hhead
        have hone := congrArg List.length (hzero (by rw [List.head?_append_of_ne_nil _ hcs, hhead]))
        rw [List.length_append, List.length_singleton, List.length_singleton] at hone
        exact hcs (List.eq_nil_of_length_eq_zero (by omega))
      have hrest := ih hcs (fun c hc => hdigits c (List.mem_append_left _ hc))
        fun h => absurd h hhead
      have hpos : 0 < Literal.natOfDigits cs := by
        rcases Nat.eq_zero_or_pos (Literal.natOfDigits cs) with h | h
        · rw [h] at hrest
          rw [← hrest] at hhead
          exact absurd rfl hhead
        · exact h
      rw [hvalue, decimalDigits, ← Nat.toDigits_append_toDigits (by decide) hpos hlt, hlast]
      exact congrArg (· ++ [c]) hrest

/-- There is one numeral without zeros to leave out for each number. -/
theorem IsCanonical.eq_ofNat {d : Numeral} (h : d.IsCanonical) : d = ofNat d.value := by
  refine Numeral.ext ?_
  have hdigits := decimalDigits_natOfDigits d.chars_ne_nil (fun _ => d.isDigit_of_mem) h
  rw [natOfDigits_chars] at hdigits
  exact hdigits.symm

/-! ## Numerals as tokens -/

/-- The text of a quotient. -/
def quotient (d e : Numeral) : List Char := d.chars ++ '\\' :: e.chars

theorem names_integer (d : Numeral) : (Kind.text .integer d.text).Names d.chars :=
  Lexer.names_text d.mem (by simp)

theorem names_quotient (d e : Numeral) :
    (Kind.text .rational (String.ofList (d.quotient e))).Names (d.quotient e) :=
  Lexer.names_text (mem_separated.mpr ⟨_, d.mem, _, e.mem, rfl⟩) (by simp)

theorem readInteger_chars (d : Numeral) :
    Literal.readInteger d.chars =
      if d.value ≤ 2 ^ 63 - 1 then .ok (d.value : Int) else .error (.integerOutOfRange d.text) := by
  rw [Literal.readInteger, natOfDigits_chars]
  rfl

theorem readOrdinal_chars (d : Numeral) :
    Literal.readOrdinal d.chars =
      if d.value ≤ 2 ^ 64 - 1 then .ok d.value else .error (.ordinalTooLarge d.text) := by
  rw [Literal.readOrdinal, natOfDigits_chars]
  rfl

theorem ofKind_integer (d : Numeral) :
    Literal.ofKind (.text .integer d.text) =
      if d.value ≤ 2 ^ 63 - 1 then .ok (.integer d.value)
      else .error (.integerOutOfRange d.text) := by
  rw [Literal.ofKind, text, String.toList_ofList, readInteger_chars]
  split <;> rfl

/-- The first thing that is wrong with a quotient, if anything is. -/
def quotientFault (d e : Numeral) : ReadFault :=
  if 2 ^ 63 - 1 < d.value then .integerOutOfRange d.text
  else if 2 ^ 63 - 1 < e.value then .integerOutOfRange e.text
  else .zeroDenominator (String.ofList (d.quotient e))

theorem ofKind_quotient (d e : Numeral) :
    Literal.ofKind (.text .rational (String.ofList (d.quotient e))) =
      if d.value ≤ 2 ^ 63 - 1 ∧ e.value ≤ 2 ^ 63 - 1 ∧ e.value ≠ 0 then
        .ok (.rational d.value e.value)
      else .error (d.quotientFault e) := by
  have hmark : '\\' ∉ d.chars := not_mem_of_mem_digits d.mem rfl
  rw [Literal.ofKind, String.toList_ofList, quotient, Literal.splitAt_append_cons hmark]
  simp only [readInteger_chars, quotientFault]
  by_cases hall : d.value ≤ 2 ^ 63 - 1 ∧ e.value ≤ 2 ^ 63 - 1 ∧ e.value ≠ 0
  · obtain ⟨hd, he, hzero⟩ := hall
    have hne : (e.value : Int) ≠ 0 := by omega
    rw [if_pos hd, if_pos he, if_pos ⟨hd, he, hzero⟩]
    simp only [bind, Except.bind, if_neg hne]
    rfl
  · rw [if_neg hall]
    by_cases hd : d.value ≤ 2 ^ 63 - 1
    · rw [if_pos hd, if_neg (Nat.not_lt.mpr hd)]
      by_cases he : e.value ≤ 2 ^ 63 - 1
      · have hzero : e.value = 0 := by
          by_contra hzero
          exact hall ⟨hd, he, hzero⟩
        rw [if_pos he, if_neg (Nat.not_lt.mpr he), hzero]
        rfl
      · rw [if_neg he, if_pos (Nat.lt_of_not_le he)]
        rfl
    · rw [if_neg hd, if_pos (Nat.lt_of_not_le hd)]
      rfl

end Numeral

/-! ## Readers at a token -/

/-- The expression that a text begins with, or the first fault in it. -/
def Expr.ofText (text : List Char) : Except ReadError Expr :=
  match Expr.read (Stream.ofText text) with
  | .ok e _ => .ok e
  | .error e _ => .error e

theorem Expr.ofText_of_runs {text : List Char} {e : Expr} {s' : Stream}
    (h : Runs Expr.read (Stream.ofText text) e s') : Expr.ofText text = .ok e := by
  have hread : Expr.read (Stream.ofText text) = .ok e s' := h
  rw [Expr.ofText, hread]

theorem Expr.ofText_of_fails {text : List Char} {e : ReadError} {s' : Stream}
    (h : Fails Expr.read (Stream.ofText text) e s') : Expr.ofText text = .error e := by
  have hread : Expr.read (Stream.ofText text) = .error e s' := h
  rw [Expr.ofText, hread]

namespace Grammar

variable {α : Type} {s : Stream} {us : List Scanned} {span : Span} {cls : TextClass} {w : String}
  {l : Level}

/-- The result, with a fault blamed on the given text. -/
def blamed (span : Span) (r : Except ReadFault α) : Except ReadError α := r.mapError (⟨·, span⟩)

/-- The reader gives the result. If it succeeds, `us` is left. -/
def Gives (m : ReadM α) (s : Stream) (us : List Scanned) : Except ReadError α → Prop
  | .ok a => ∃ s', Runs m s a s' ∧ s'.Shows us
  | .error e => ∃ s', Fails m s e s'

/-- The token of a constant is read as the constant, or refused. -/
theorem gives_primary (hcls : cls ≠ .identifier)
    (hs : s.Shows (.token ⟨.text cls w, span⟩ :: us)) :
    Gives (primary l) s us
      (blamed span ((Literal.ofKind (.text cls w)).map (.literal span))) := by
  cases hv : Literal.ofKind (.text cls w) with
  | ok v => exact exists_runs_primary_constant hs hv
  | error fault =>
    obtain ⟨u, s₁, hpeek, hu, hs₁, -⟩ := exists_runs_peekAt (n := 0) hs rfl
    obtain ⟨s₂, hnext, -⟩ := exists_runs_next hs₁
    refine ⟨s₂, fails_bind.mpr (.inr ⟨u, s₁, hpeek, ?_⟩)⟩
    rw [hu]
    refine fails_bind.mpr (.inr ⟨_, s₂, hnext, ?_⟩)
    split
    · next x hk => exact absurd (Kind.text.inj hk).1 hcls
    · rw [hv]
      exact fails_bind.mpr (.inl (fails_fail.mpr ⟨rfl, rfl⟩))

/-- A numeral behind a dot is read as a place, or refused. -/
theorem gives_selector (target : Expr) (hs : s.Shows (.token ⟨.text .integer w, span⟩ :: us)) :
    Gives (selector target) s us (blamed span
      ((Literal.readOrdinal w.toList).map (.ordinal (target.span.merge span) target))) := by
  obtain ⟨s₁, hnext, hs₁, hlast⟩ := exists_runs_next hs
  cases hn : Literal.readOrdinal w.toList with
  | ok n =>
    refine ⟨s₁, runs_bind.mpr ⟨_, s₁, hnext, ?_⟩, hs₁⟩
    simp only [hn]
    refine runs_bind.mpr ⟨n, s₁, runs_pure.mpr ⟨rfl, rfl⟩, ?_⟩
    refine runs_spanFrom_bind.mpr ?_
    rw [hlast]
    exact runs_pure.mpr ⟨rfl, rfl⟩
  | error fault =>
    refine ⟨s₁, fails_bind.mpr (.inr ⟨_, s₁, hnext, ?_⟩)⟩
    simp only [hn]
    exact fails_bind.mpr (.inl (fails_fail.mpr ⟨rfl, rfl⟩))

/-- A fault in the operand that an expression begins with is a fault in the expression. -/
theorem fails_read_of_operand {e : ReadError} {s' : Stream}
    (h : Fails (operand (level s.remaining)) s e s') : Fails Expr.read s e s' :=
  fails_get_bind.mpr (fails_bind.mpr (.inl h))

end Grammar

end ExprCheck
