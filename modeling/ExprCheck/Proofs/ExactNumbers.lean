import Mathlib
import ExprCheck.Proofs.DerivedParts
import ExprCheck.Proofs.OrdinalChains
import ExprCheck.Proofs.TupleFields

/-!
# Numbers are exact or refused

A numeral stands for its value or for nothing: where the value is above a bound, the token is refused,
however many zeros it begins with. There are three bounds in the language, for whole numbers, for the
two parts of a quotient, and for ordinals. What has been read from a text therefore holds no negative
number and no quotient by zero.

An ordinal becomes the name of a field, and the name is the canonical numeral of its value. This is
how the elements of a tuple that have no name of their own are called, so ordinals select the same
field if and only if they have the same value.
-/

namespace ExprCheck

open Lexer Grammar ReadM

/-! ## Constants -/

/-- A token of the given class is read as a constant or refused, where its text stands alone and
wherever a primary expression can stand. -/
structure ReadsConstant (cls : TextClass) (w : List Char) (r : Except ReadFault Literal) : Prop where
  alone : Expr.ofText w = blamed (.covering [] w) (r.map (.literal (.covering [] w)))
  anywhere : ∀ (l : Level) (s : Stream) (span : Span) (us : List Scanned),
    s.Shows (.token ⟨.text cls (String.ofList w), span⟩ :: us) →
      Gives (primary l) s us (blamed span (r.map (.literal span)))

theorem scan_of_names {cls : TextClass} {w : List Char}
    (hw : (Kind.text cls (String.ofList w)).Names w) :
    scan w = [.token ⟨.text cls (String.ofList w), .covering [] w⟩] := by
  have hend : Spaced [] := by rintro c ⟨⟩
  have hscan := scanFrom_written hw hend .start
  rw [List.append_nil] at hscan
  exact hscan

theorem readsConstant_ofKind {cls : TextClass} {w : List Char} (hcls : cls ≠ .identifier)
    (hw : (Kind.text cls (String.ofList w)).Names w) :
    ReadsConstant cls w (Literal.ofKind (.text cls (String.ofList w))) where
  alone := by
    have hshows := shows_ofText w
    rw [scan_of_names hw] at hshows
    cases hv : Literal.ofKind (.text cls (String.ofList w)) with
    | ok v =>
      obtain ⟨s', hrun, -⟩ := exists_runs_read_constant hshows hv rfl (by decide)
      exact Expr.ofText_of_runs hrun
    | error fault =>
      have hgives := gives_primary (l := level (Stream.ofText w).remaining) hcls hshows
      rw [hv] at hgives
      obtain ⟨s', hfails⟩ := hgives
      exact Expr.ofText_of_fails (fails_read_of_operand (fails_bind.mpr (.inl hfails)))
  anywhere := fun _ _ _ _ hs => gives_primary hcls hs

/-- The constants that tokens write have no sign and no zero below the line. -/
theorem bounds_of_isLiteral {k : Kind} {v : Literal} (h : IsLiteral k v) :
    (∀ n, v = .integer n → 0 ≤ n ∧ n ≤ 2 ^ 63 - 1) ∧
      ∀ n m, v = .rational n m → (0 ≤ n ∧ n ≤ 2 ^ 63 - 1) ∧ 1 ≤ m ∧ m ≤ 2 ^ 63 - 1 := by
  cases h with
  | integer _ hn =>
    refine ⟨?_, by rintro _ _ ⟨⟩⟩
    rintro n ⟨⟩
    omega
  | rational _ hn _ hm hzero =>
    refine ⟨by rintro _ ⟨⟩, ?_⟩
    rintro n m ⟨⟩
    omega
  | yes | no | real | complex | string => exact ⟨by rintro _ ⟨⟩, by rintro _ _ ⟨⟩⟩

/-! ## Ordinals -/

/-- A numeral is read as an ordinal or refused, behind a name and a dot and wherever a selection can
stand. -/
structure ReadsOrdinal (d : Numeral) (r : Except ReadFault Nat) : Prop where
  behindName : ∀ x : String, (Kind.text .identifier x).Written →
    (Expr.ofText (x.toList ++ '.' :: d.chars)).map Expr.bare =
      blamed (.covering (x.toList ++ ['.']) d.chars) (r.map (.ordinal .origin (.var .origin x)))
  anywhere : ∀ (target : Expr) (s : Stream) (span : Span) (us : List Scanned),
    s.Shows (.token ⟨.text .integer d.text, span⟩ :: us) →
      Gives (selector target) s us
        (blamed span (r.map (.ordinal (target.span.merge span) target)))

theorem readsOrdinal_readOrdinal (d : Numeral) :
    ReadsOrdinal d (Literal.readOrdinal d.chars) where
  behindName := by
    intro x hx
    have htext : x.toList ++ '.' :: d.chars = chainText [] x [d] := by
      rw [chainText, List.flatMap_singleton, List.nil_append]
    have hscan := Expr.scan_chainText_one hx d
    rw [htext, Numeral.readOrdinal_chars]
    by_cases hd : d.value ≤ 2 ^ 64 - 1
    · have hsmall : ∀ e ∈ [d], e.value ≤ 2 ^ 64 - 1 := by simpa using hd
      obtain ⟨e, he, hbare⟩ := Expr.exists_ofText_of_took hsmall ⟨[_, _, _], hscan, rfl⟩
      rw [if_pos hd, he, Except.map, hbare]
      rfl
    · have hshows := shows_ofText (chainText [] x [d])
      rw [hscan] at hshows
      obtain ⟨s', hfails⟩ := fails_read_of_selector hshows fun s₁ hs₁ => by
        have hgives := gives_selector (.var (.covering [] x.toList) x) hs₁
        rw [Numeral.text, String.toList_ofList, Numeral.readOrdinal_chars, if_neg hd] at hgives
        exact hgives
      rw [if_neg hd, Expr.ofText_of_fails hfails]
      rfl
  anywhere := by
    intro target s span us hs
    have hgives := gives_selector target hs
    rwa [Numeral.text, String.toList_ofList] at hgives

/-! ## Fields -/

namespace Checker

/-- A state in which the variable `t` is a tuple with only the given field. -/
def withField (name : String) : Checker :=
  { initial with
    symbols := ⟨[(initial.slot "t", ⟨.declared, .tuple [.integer], false⟩)]⟩
    tuples := TupleTable.empty.record (initial.slot "t") [(name, .integer)] }

theorem infer_ordinal (span : Span) (target : Expr) (n : Nat) :
    infer (.ordinal span target n) = infer (.field span target (toString n)) := by
  simp only [infer]

theorem answer_ordinal_withField (span span' : Span) (name : String) (n : Nat) :
    answer (infer (.ordinal span (.var span' "t") n)) (withField name) =
      if toString n = name then some .integer else none := by
  have hlookup : (withField name).symbols.lookup "t" (withField name).scopes.active =
      some (.main, ⟨.declared, .tuple [.integer], false⟩) := rfl
  obtain ⟨hanswer, -⟩ := infer_field_of_tuple hlookup rfl span span' (toString n)
  have hfield : (withField name).tuples.field? ((withField name).slot "t") (toString n) =
      [(name, Ty.integer)].lookup (toString n) := by
    simp [withField, TupleTable.field?, TupleTable.fields?, TupleTable.record, slot]
  rw [infer_ordinal, hanswer, hfield, List.lookup_cons]
  by_cases hname : toString n = name
  · rw [if_pos hname, beq_iff_eq.mpr hname]
  · rw [if_neg hname, beq_eq_false_iff_ne.mpr hname]
    rfl

/-- Ordinals that select alike in every state are equal. -/
theorem eq_of_answer_ordinal {n m : Nat}
    (h : ∀ c span target, answer (infer (.ordinal span target n)) c =
      answer (infer (.ordinal span target m)) c) : n = m := by
  have hanswers := h (withField (toString n)) .origin (.var .origin "t")
  rw [answer_ordinal_withField, answer_ordinal_withField, if_pos rfl] at hanswers
  by_cases hname : toString m = toString n
  · exact (Nat.repr_injective hname).symm
  · rw [if_neg hname] at hanswers
    cases hanswers

end Checker

open Checker

/-- A numeral is read as the number it writes, or refused at its token: as a whole number up to
`2 ^ 63 - 1`, as a part of a quotient that is not divided by zero, and as an ordinal up to
`2 ^ 64 - 1`. So no program that was read holds a negative number or a quotient by zero. An ordinal
selects the field that is called by the canonical numeral of its value, which is an element without a
name of its own at that place, and ordinals select alike if and only if their values are equal. -/
theorem numerals_exact (d e : Numeral) :
    ReadsConstant .integer d.chars
      (if d.value ≤ 2 ^ 63 - 1 then .ok (.integer d.value)
        else .error (.integerOutOfRange d.text)) ∧
    ReadsConstant .rational (d.quotient e)
      (if d.value ≤ 2 ^ 63 - 1 ∧ e.value ≤ 2 ^ 63 - 1 ∧ e.value ≠ 0 then
        .ok (.rational d.value e.value)
      else .error (d.quotientFault e)) ∧
    (∀ text p, Program.ofText text = .ok p → ∀ s v, p.Holds (.literal s v) →
      (∀ n, v = .integer n → 0 ≤ n ∧ n ≤ 2 ^ 63 - 1) ∧
      ∀ n m, v = .rational n m → (0 ≤ n ∧ n ≤ 2 ^ 63 - 1) ∧ 1 ≤ m ∧ m ≤ 2 ^ 63 - 1) ∧
    ReadsOrdinal d
      (if d.value ≤ 2 ^ 64 - 1 then .ok d.value else .error (.ordinalTooLarge d.text)) ∧
    (∃ c : Numeral, (∀ c' : Numeral, c'.IsCanonical ∧ c'.value = d.value ↔ c' = c) ∧
      (∀ span target,
        infer (.ordinal span target d.value) = infer (.field span target c.text)) ∧
      ∀ (element : Element) (place : Nat), element.name = none →
        (element.fieldName place = c.text ↔ d.value = place + 1)) ∧
    ((∀ c span target, answer (infer (.ordinal span target d.value)) c =
      answer (infer (.ordinal span target e.value)) c) ↔ d.value = e.value) := by
  refine ⟨?_, ?_, fun text p hp s v hv => ?_, ?_, ⟨.ofNat d.value, fun c' => ?_, ?_, ?_⟩, ?_⟩
  · have hreads : ReadsConstant .integer d.chars (Literal.ofKind (.text .integer d.text)) :=
      readsConstant_ofKind (by decide) d.names_integer
    rwa [d.ofKind_integer] at hreads
  · have hreads := readsConstant_ofKind (by decide) (d.names_quotient e)
    rwa [d.ofKind_quotient e] at hreads
  · obtain ⟨k, hk⟩ := isLiteral_of_holds hp hv
    exact bounds_of_isLiteral hk
  · have hreads := readsOrdinal_readOrdinal d
    rwa [d.readOrdinal_chars] at hreads
  · constructor
    · rintro ⟨hcanonical, hvalue⟩
      rw [← hvalue]
      exact hcanonical.eq_ofNat
    · rintro rfl
      exact ⟨Numeral.isCanonical_ofNat _, Numeral.value_ofNat _⟩
  · intro span target
    rw [infer_ordinal, Numeral.text_ofNat]
  · intro element place hname
    rw [Element.fieldName, hname, Numeral.text_ofNat]
    constructor
    · intro h
      exact (Nat.repr_injective h).symm
    · intro h
      rw [h]
      rfl
  · exact ⟨eq_of_answer_ordinal, fun h c span target => by rw [h]⟩

/-- The quotient that the first declaration of a program declares. -/
def Program.firstQuotient? (p : Program) : Option (Span × Int × Int) :=
  p.declarations.head?.bind fun d =>
    match d.value with
    | .literal s (.rational n m) => some (s, n, m)
    | _ => none

theorem Program.holds_of_firstQuotient? {p : Program} {s : Span} {n m : Int}
    (h : p.firstQuotient? = some (s, n, m)) : p.Holds (.literal s (.rational n m)) := by
  obtain ⟨d, hd, hvalue⟩ := Option.bind_eq_some_iff.mp h
  refine ⟨d, List.mem_of_head? hd, .step (List.mem_singleton_self _) ?_⟩
  split at hvalue
  · next heq =>
    cases hvalue
    rw [heq]
    exact .refl _
  · cases hvalue

/-- The digits of `2 ^ 63` behind two zeros. -/
def paddedBound : Numeral where
  chars := "009223372036854775808".toList
  mem := Pattern.mem_digits.mpr ⟨by decide, List.all_eq_true.mp (by decide +kernel)⟩

def quotientText : List Char := "x is 03\\4".toList

/-- What is too large for a whole number is not too large for an ordinal. -/
theorem numerals_exact_paddedBound :
    Expr.ofText "009223372036854775808".toList =
      .error ⟨.integerOutOfRange "009223372036854775808", ⟨0, 21, ⟨1, 1⟩⟩⟩ ∧
    (Expr.ofText "x.009223372036854775808".toList).map Expr.bare =
      .ok (.ordinal .origin (.var .origin "x") (2 ^ 63)) ∧
    ∃ p, Program.ofText quotientText = .ok p ∧
      p.Holds (.literal ⟨5, 9, ⟨1, 6⟩⟩ (.rational 3 4)) ∧
      ((0 : Int) ≤ 3 ∧ (3 : Int) ≤ 2 ^ 63 - 1) ∧ (1 : Int) ≤ 4 ∧ (4 : Int) ≤ 2 ^ 63 - 1 := by
  have hvalue : paddedBound.value = 2 ^ 63 := by decide +kernel
  have hspan : Span.covering [] paddedBound.chars = ⟨0, 21, ⟨1, 1⟩⟩ := by decide +kernel
  have htext : paddedBound.text = "009223372036854775808" := String.ofList_toList
  have hquotient : (Program.ofText quotientText).toOption.bind Program.firstQuotient? =
      some (⟨5, 9, ⟨1, 6⟩⟩, 3, 4) := by decide +kernel
  obtain ⟨hinteger, -, hprograms, hordinal, -⟩ := numerals_exact paddedBound paddedBound
  rw [hvalue, if_neg (by decide), htext] at hinteger
  rw [hvalue, if_pos (by decide)] at hordinal
  refine ⟨?_, ?_, ?_⟩
  · have halone := hinteger.alone
    rw [hspan] at halone
    exact halone
  · have hsplit : "x.009223372036854775808".toList = "x".toList ++ '.' :: paddedBound.chars := by
      decide +kernel
    rw [hsplit]
    exact hordinal.behindName "x" Expr.written_x
  · cases hread : Program.ofText quotientText with
    | error e => simp [hread, Except.toOption] at hquotient
    | ok p =>
      rw [hread] at hquotient
      have hholds := Program.holds_of_firstQuotient? hquotient
      exact ⟨p, rfl, hholds, (hprograms _ p hread _ _ hholds).2 3 4 rfl⟩

end ExprCheck
