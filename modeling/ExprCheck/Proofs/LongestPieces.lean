import Mathlib
import ExprCheck.Proofs.Patterns

/-!
# The first piece of a text

The first piece that a text is cut into is the longest one that can stand there. If something can be
skipped, the piece is the longest such text. Otherwise, if a token can begin there, the piece is the
longest token; and if none can, it is what is reported as junk.

The forms of numbers are the delicate part, because the longer ones begin like the shorter ones. A
number with a mark in it has all the digits of the input before that mark, so that what follows the
digits decides which forms are possible at all.
-/

namespace ExprCheck

open Pattern

namespace Lexer

/-! ## Runs of characters -/

theorem prefix_takeWhile {p : Char → Bool} {v input : List Char} (hv : ∀ c ∈ v, p c = true)
    (h : v <+: input) : v <+: input.takeWhile p := by
  obtain ⟨t, rfl⟩ := h
  rw [List.takeWhile_append_of_pos hv]
  exact List.prefix_append _ _

theorem prefix_drop {u t input : List Char} (h : u ++ t <+: input) : t <+: input.drop u.length := by
  have hdrop := h.drop u.length
  rwa [List.drop_left] at hdrop

/-- A run that is followed by another character is the whole run. -/
theorem eq_takeWhile {p : Char → Bool} {v t input : List Char} {d : Char}
    (hv : ∀ c ∈ v, p c = true) (hd : p d = false) (h : v ++ d :: t <+: input) :
    v = input.takeWhile p ∧ d :: t <+: input.drop v.length := by
  refine ⟨?_, prefix_drop h⟩
  obtain ⟨u, rfl⟩ := h
  rw [List.append_assoc, List.takeWhile_append_of_pos hv, List.cons_append,
    List.takeWhile_cons_of_neg (by simp [hd]), List.append_nil]

theorem append_drop_takeWhile (p : Char → Bool) (input : List Char) :
    input.takeWhile p ++ input.drop (input.takeWhile p).length = input :=
  List.prefix_iff_eq_append.mp (List.takeWhile_prefix p)

/-! ## Numbers -/

theorem digits_mem {input : List Char} (h : digits input ≠ []) : digits input ∈ Pattern.digits :=
  mem_digits.mpr ⟨h, fun _ hc => List.mem_takeWhile_imp hc⟩

theorem prefix_digits {v input : List Char} (hv : v ∈ Pattern.digits) (h : v <+: input) :
    v <+: digits input :=
  prefix_takeWhile (mem_digits.mp hv).2 h

theorem digits_ne_nil {v input : List Char} (hv : v ∈ Pattern.digits) (h : v <+: input) :
    digits input ≠ [] := by
  intro hnil
  have hpre := prefix_digits hv h
  rw [hnil, List.prefix_nil] at hpre
  exact (mem_digits.mp hv).1 hpre

theorem eq_digits {v t input : List Char} {d : Char} (hv : v ∈ Pattern.digits)
    (hd : d.isDigit = false) (h : v ++ d :: t <+: input) :
    v = digits input ∧ d :: t <+: input.drop v.length :=
  eq_takeWhile (mem_digits.mp hv).2 hd h

theorem digitsAfter_cons (sep c : Char) (rest : List Char) :
    digitsAfter sep (c :: rest) = if digits rest ≠ [] ∧ c = sep then c :: digits rest else [] := by
  rw [digitsAfter]
  split
  · next hnil => rw [if_neg fun h => h.1 hnil]
  · next ds hne =>
    have hne' : digits rest ≠ [] := hne
    by_cases hc : c = sep <;> simp [hc, hne']

theorem digitsAfter_cases (sep : Char) (input : List Char) :
    digitsAfter sep input = [] ∨ ∃ rest, input = sep :: rest ∧ digits rest ≠ [] ∧
      digitsAfter sep input = sep :: digits rest := by
  cases input with
  | nil => exact Or.inl rfl
  | cons c rest =>
    rw [digitsAfter_cons]
    by_cases h : digits rest ≠ [] ∧ c = sep
    · obtain ⟨hne, rfl⟩ := h
      exact Or.inr ⟨rest, rfl, hne, if_pos ⟨hne, rfl⟩⟩
    · exact Or.inl (if_neg h)

theorem digitsAfter_isPrefix (sep : Char) (input : List Char) : digitsAfter sep input <+: input := by
  rcases digitsAfter_cases sep input with h | ⟨rest, rfl, -, h⟩
  · rw [h]
    exact List.nil_prefix
  · rw [h, List.cons_prefix_cons]
    exact ⟨rfl, List.takeWhile_prefix _⟩

theorem digitsAfter_of_isPrefix {sep : Char} {v input : List Char} (hv : v ∈ Pattern.digits)
    (h : sep :: v <+: input) :
    ∃ rest, input = sep :: rest ∧ v <+: digits rest ∧ digitsAfter sep input = sep :: digits rest := by
  obtain ⟨t, rfl⟩ := h
  have hpre : v <+: v ++ t := List.prefix_append v t
  have hne : digits (v ++ t) ≠ [] := digits_ne_nil hv hpre
  exact ⟨v ++ t, rfl, prefix_digits hv hpre, (digitsAfter_cons _ _ _).trans (if_pos ⟨hne, rfl⟩)⟩

theorem digitsAfter_of_ne {sep d : Char} (h : d ≠ sep) (t : List Char) :
    digitsAfter sep (d :: t) = [] := by
  rw [digitsAfter_cons, if_neg fun hd => h hd.2]

/-- The digits that the input begins with, and what comes after them. -/
theorem digits_append (input : List Char) :
    digits input ++ input.drop (digits input).length = input :=
  append_drop_takeWhile _ input

theorem longest_decimal {input : List Char} (h : digits input ≠ []) :
    Longest Pattern.decimal input (decimal input) where
  mem := by
    rw [mem_decimal, decimal]
    rcases digitsAfter_cases '.' (input.drop (digits input).length) with hnil | ⟨rest, -, hne, heq⟩
    · left
      rw [hnil, List.append_nil]
      exact digits_mem h
    · right
      exact ⟨_, digits_mem h, _, digits_mem hne, by rw [heq]⟩
  isPrefix := by
    conv_rhs => rw [← digits_append input]
    exact (List.prefix_append_right_inj _).mpr (digitsAfter_isPrefix _ _)
  max := by
    intro v hv hpre
    rw [decimal, List.length_append]
    rcases mem_decimal.mp hv with hv | ⟨u, hu, x, hx, rfl⟩
    · have hle := (prefix_digits hv hpre).length_le
      omega
    · obtain ⟨rfl, hdot⟩ := eq_digits hu rfl hpre
      obtain ⟨rest, -, hx', heq⟩ := digitsAfter_of_isPrefix hx hdot
      have hle := hx'.length_le
      rw [heq]
      simp only [List.length_append, List.length_cons]
      omega

theorem digits_ne_nil_of_decimal {y input : List Char} (hy : y ∈ Pattern.decimal)
    (h : y <+: input) : digits input ≠ [] := by
  rcases mem_decimal.mp hy with hy | ⟨u, hu, x, -, rfl⟩
  · exact digits_ne_nil hy h
  · exact digits_ne_nil hu ((List.prefix_append u _).trans h)

/-- A decimal that is followed by a mark is the whole one. -/
theorem eq_decimal {u t input : List Char} {d : Char} (hu : u ∈ Pattern.decimal)
    (hd : d.isDigit = false) (hdot : d ≠ '.') (h : u ++ d :: t <+: input) :
    u = decimal input ∧ d :: t <+: input.drop u.length := by
  refine ⟨?_, prefix_drop h⟩
  rcases mem_decimal.mp hu with hu | ⟨x, hx, y, hy, rfl⟩
  · obtain ⟨rfl, hafter⟩ := eq_digits hu hd h
    obtain ⟨s, hs⟩ := hafter
    rw [decimal, ← hs, List.cons_append, digitsAfter_of_ne hdot, List.append_nil]
  · rw [List.append_assoc, List.cons_append] at h
    obtain ⟨rfl, hafter⟩ := eq_digits hx rfl h
    have hdoty : '.' :: y <+: '.' :: (y ++ d :: t) :=
      List.cons_prefix_cons.mpr ⟨rfl, List.prefix_append y _⟩
    obtain ⟨rest, hrest, -, hdigits⟩ := digitsAfter_of_isPrefix hy (hdoty.trans hafter)
    rw [hrest, List.cons_prefix_cons] at hafter
    rw [decimal, hdigits, (eq_digits hy hd hafter.2).1]

/-- A text in one of the forms of numbers that the input begins with: a whole number is within the
leading digits, and every other form has all of them, or the whole leading decimal, before its
mark. -/
theorem number_isPrefix {cls : TextClass} {v input : List Char} (hv : v ∈ ofClass cls)
    (hlead : leadOf (.text cls) = .number) (h : v <+: input) :
    (v ∈ Pattern.digits ∧ v <+: digits input) ∨
    (v ∈ Pattern.decimal ∧ ∃ x, v = digits input ++ '.' :: x ∧
      '.' :: x <+: input.drop (digits input).length) ∨
    (∃ x ∈ Pattern.digits, v = digits input ++ '\\' :: x ∧
      '\\' :: x <+: input.drop (digits input).length) ∨
    ∃ y ∈ Pattern.decimal, v = decimal input ++ 'i' :: y ∧
      'i' :: y <+: input.drop (decimal input).length := by
  cases cls with
  | identifier | string => cases hlead
  | integer => exact Or.inl ⟨hv, prefix_digits hv h⟩
  | real =>
    obtain ⟨u, hu, x, hx, rfl⟩ := mem_separated.mp hv
    obtain ⟨rfl, hafter⟩ := eq_digits hu rfl h
    exact Or.inr (Or.inl ⟨mem_decimal.mpr (Or.inr ⟨_, hu, x, hx, rfl⟩), x, rfl, hafter⟩)
  | rational =>
    obtain ⟨u, hu, x, hx, rfl⟩ := mem_separated.mp hv
    obtain ⟨rfl, hafter⟩ := eq_digits hu rfl h
    exact Or.inr (Or.inr (Or.inl ⟨x, hx, rfl, hafter⟩))
  | complex =>
    obtain ⟨u, hu, y, hy, rfl⟩ := mem_separated.mp hv
    obtain ⟨rfl, hafter⟩ := eq_decimal hu rfl (by decide) h
    exact Or.inr (Or.inr (Or.inr ⟨y, hy, rfl, hafter⟩))

/-- The number that is cut off is in its class, and is the longest in any form. -/
structure LongestNumber (input : List Char) (found : TextClass × List Char) : Prop where
  lead : leadOf (.text found.1) = .number
  mem : found.2 ∈ ofClass found.1
  isPrefix : found.2 <+: input
  max : ∀ cls, leadOf (.text cls) = .number → ∀ v ∈ ofClass cls, v <+: input →
    v.length ≤ found.2.length

theorem longestNumber_rational {input rest : List Char} (h : digits input ≠ [])
    (hafter : input.drop (digits input).length = '\\' :: rest) (hrest : digits rest ≠ []) :
    LongestNumber input (.rational, digits input ++ '\\' :: digits rest) where
  lead := rfl
  mem := mem_separated.mpr ⟨_, digits_mem h, _, digits_mem hrest, rfl⟩
  isPrefix := by
    conv_rhs => rw [← digits_append input, hafter]
    refine (List.prefix_append_right_inj _).mpr (List.cons_prefix_cons.mpr ⟨rfl, ?_⟩)
    exact List.takeWhile_prefix _
  max := by
    intro cls hlead v hv hpre
    have hdecimal : decimal input = digits input := by
      rw [decimal, hafter, digitsAfter_of_ne (by decide), List.append_nil]
    have hslash : ∀ {d : Char} {t : List Char}, d ≠ '\\' →
        ¬ d :: t <+: input.drop (digits input).length := by
      intro d t hd hpre
      rw [hafter, List.cons_prefix_cons] at hpre
      exact hd hpre.1
    rcases number_isPrefix hv hlead hpre with ⟨-, hle⟩ | ⟨-, x, -, hx⟩ | ⟨x, hx, rfl, hx'⟩ |
      ⟨y, -, -, hy⟩
    · have hle := hle.length_le
      simp only [List.length_append]
      omega
    · exact absurd hx (hslash (by decide))
    · rw [hafter, List.cons_prefix_cons] at hx'
      have hle := (prefix_digits hx hx'.2).length_le
      simp only [List.length_append, List.length_cons]
      omega
    · rw [hdecimal] at hy
      exact absurd hy (hslash (by decide))

/-- Without a quotient, all forms but a complex number are decimals. -/
theorem length_le_decimal {input : List Char} (h : digits input ≠ [])
    (hquotient : digitsAfter '\\' (input.drop (digits input).length) = []) {cls : TextClass}
    (hlead : leadOf (.text cls) = .number) {v : List Char} (hv : v ∈ ofClass cls)
    (hpre : v <+: input) : v.length ≤ (decimal input).length ∨
      ∃ y ∈ Pattern.decimal, v = decimal input ++ 'i' :: y ∧
        'i' :: y <+: input.drop (decimal input).length := by
  rcases number_isPrefix hv hlead hpre with ⟨hv', -⟩ | ⟨hv', -⟩ | ⟨x, hx, -, hx'⟩ | hcomplex
  · exact Or.inl ((longest_decimal h).max v (mem_decimal.mpr (Or.inl hv')) hpre)
  · exact Or.inl ((longest_decimal h).max v hv' hpre)
  · obtain ⟨rest, -, -, heq⟩ := digitsAfter_of_isPrefix hx hx'
    rw [hquotient] at heq
    cases heq
  · exact Or.inr hcomplex

theorem longestNumber_complex {input rest : List Char} (h : digits input ≠ [])
    (hquotient : digitsAfter '\\' (input.drop (digits input).length) = [])
    (hafter : input.drop (decimal input).length = 'i' :: rest) (hrest : digits rest ≠ []) :
    LongestNumber input (.complex, decimal input ++ 'i' :: decimal rest) where
  lead := rfl
  mem := mem_separated.mpr ⟨_, (longest_decimal h).mem, _, (longest_decimal hrest).mem, rfl⟩
  isPrefix := by
    conv_rhs => rw [← List.prefix_iff_eq_append.mp (longest_decimal h).isPrefix, hafter]
    refine (List.prefix_append_right_inj _).mpr (List.cons_prefix_cons.mpr ⟨rfl, ?_⟩)
    exact (longest_decimal hrest).isPrefix
  max := by
    intro cls hlead v hv hpre
    rcases length_le_decimal h hquotient hlead hv hpre with hle | ⟨y, hy, rfl, hy'⟩
    · simp only [List.length_append]
      omega
    · rw [hafter, List.cons_prefix_cons] at hy'
      have hle := (longest_decimal hrest).max y hy hy'.2
      simp only [List.length_append, List.length_cons]
      omega

theorem longestNumber_plain {input : List Char} (h : digits input ≠ [])
    (hquotient : digitsAfter '\\' (input.drop (digits input).length) = [])
    (hafter : ∀ rest, input.drop (decimal input).length = 'i' :: rest → digits rest = []) :
    LongestNumber input
      (if (decimal input).length = (digits input).length then .integer else .real,
        decimal input) where
  lead := by split <;> rfl
  mem := by
    rcases digitsAfter_cases '.' (input.drop (digits input).length) with hnil | ⟨rest, -, hne, heq⟩
    · have hdecimal : decimal input = digits input := by rw [decimal, hnil, List.append_nil]
      rw [hdecimal, if_pos rfl]
      exact digits_mem h
    · have hdecimal : decimal input = digits input ++ '.' :: digits rest := by rw [decimal, heq]
      rw [hdecimal, if_neg (by simp)]
      exact mem_separated.mpr ⟨_, digits_mem h, _, digits_mem hne, rfl⟩
  isPrefix := (longest_decimal h).isPrefix
  max := by
    intro cls hlead v hv hpre
    rcases length_le_decimal h hquotient hlead hv hpre with hle | ⟨y, hy, -, hy'⟩
    · exact hle
    · obtain ⟨t, ht⟩ := hy'
      exact absurd (hafter (y ++ t) ht.symm) (digits_ne_nil_of_decimal hy (List.prefix_append y t))

theorem longestNumber_number {input : List Char} (h : digits input ≠ []) :
    LongestNumber input (number input) := by
  unfold number
  rcases digitsAfter_cases '\\' (input.drop (digits input).length) with
    hnil | ⟨rest, hafter, hne, heq⟩
  · simp only [hnil, ne_eq, not_true_eq_false, if_false]
    split
    · next rest hafter =>
      split
      · next hrest =>
        refine longestNumber_plain h hnil fun rest' hafter' => ?_
        cases hafter.symm.trans hafter'
        exact hrest
      · next hrest => exact longestNumber_complex h hnil hafter hrest
    · next hafter => exact longestNumber_plain h hnil fun rest hrest => absurd hrest (hafter rest)
  · simp only [heq, ne_eq, reduceCtorEq, not_false_eq_true, if_true]
    exact longestNumber_rational h hafter hne

/-! ## Strings -/

/-- Items up to a quote are read as far as that quote. -/
theorem stringTail_of_items {body input : List Char} (hbody : Items body)
    (h : body ++ ['"'] <+: input) : stringTail input = (body ++ ['"'], true) := by
  induction hbody generalizing input with
  | nil =>
    obtain ⟨t, rfl⟩ := h
    rfl
  | @plain c r hquote hslash _ ih =>
    obtain ⟨t, rfl⟩ := h
    have htail := ih (List.prefix_append (r ++ ['"']) t)
    simp only [List.cons_append] at htail ⊢
    rw [stringTail.eq_5 _ _ (by simpa using hquote) (by simp [hslash]) (by simp [hslash]), htail]
  | @escaped c r hc _ ih =>
    obtain ⟨t, rfl⟩ := h
    have htail := ih (List.prefix_append (r ++ ['"']) t)
    simp only [List.cons_append] at htail ⊢
    rw [stringTail, if_neg hc, htail]

/-- What is read of a string after its opening quote: items and a closing quote, or else all the
items that the input begins with. -/
inductive ReadsTail (input : List Char) : List Char × Bool → Prop where
  | closed {body : List Char} : Items body → body ++ ['"'] <+: input →
    ReadsTail input (body ++ ['"'], true)
  | unclosed {tail : List Char} : Items tail → tail <+: input →
    (∀ v, Items v → v <+: input → v.length ≤ tail.length) → ReadsTail input (tail, false)

/-- An item in front is read as one. -/
theorem ReadsTail.extend {u rest : List Char} (hitem : ∀ r, Items r → Items (u ++ r))
    (hstrip : ∀ v, Items v → v <+: u ++ rest → v = [] ∨ ∃ r, Items r ∧ v = u ++ r)
    {found : List Char × Bool} (h : ReadsTail rest found) :
    ReadsTail (u ++ rest) (u ++ found.1, found.2) := by
  cases h with
  | closed hbody hpre =>
    rw [← List.append_assoc]
    refine .closed (hitem _ hbody) ?_
    rw [List.append_assoc]
    exact (List.prefix_append_right_inj u).mpr hpre
  | unclosed htail hpre hmax =>
    refine .unclosed (hitem _ htail) ((List.prefix_append_right_inj u).mpr hpre) ?_
    intro v hv hpre'
    rcases hstrip v hv hpre' with rfl | ⟨r, hr, rfl⟩
    · simp
    · have hle := hmax r hr ((List.prefix_append_right_inj u).mp hpre')
      simp only [List.length_append]
      omega

theorem readsTail_nothing {input : List Char} (h : ∀ v, Items v → v <+: input → v = []) :
    ReadsTail input ([], false) := by
  refine .unclosed .nil List.nil_prefix ?_
  intro v hv hpre
  rw [h v hv hpre]

theorem readsTail_stringTail (input : List Char) : ReadsTail input (stringTail input) := by
  fun_induction stringTail input with
  | case1 => exact readsTail_nothing fun v _ hpre => List.prefix_nil.mp hpre
  | case2 rest => exact .closed .nil (List.prefix_append ['"'] rest)
  | case3 =>
    refine readsTail_nothing fun v hv hpre => ?_
    cases hv with
    | nil => rfl
    | plain _ hslash _ => exact absurd (List.cons_prefix_cons.mp hpre).1 hslash
    | escaped _ _ => simp at hpre
  | case4 rest =>
    refine readsTail_nothing fun v hv hpre => ?_
    cases hv with
    | nil => rfl
    | plain _ hslash _ => exact absurd (List.cons_prefix_cons.mp hpre).1 hslash
    | escaped hc _ =>
      simp only [List.cons_prefix_cons] at hpre
      exact absurd hpre.2.1 hc
  | case5 c rest hc tail closed htail ih =>
    rw [htail] at ih
    refine ih.extend (u := ['\\', c]) (fun r => .escaped hc) ?_
    intro v hv hpre
    cases hv with
    | nil => exact Or.inl rfl
    | plain _ hslash _ => exact absurd (List.cons_prefix_cons.mp hpre).1 hslash
    | @escaped d r _ hr =>
      simp only [List.cons_append, List.cons_prefix_cons] at hpre
      exact Or.inr ⟨r, hr, by rw [hpre.2.1]; rfl⟩
  | case6 c rest hquote hend hmore tail closed htail ih =>
    have hslash : c ≠ '\\' := by
      rintro rfl
      cases rest with
      | nil => exact hend rfl rfl
      | cons d rest => exact hmore d rest rfl rfl
    rw [htail] at ih
    refine ih.extend (u := [c]) (fun r => .plain hquote hslash) ?_
    intro v hv hpre
    cases hv with
    | nil => exact Or.inl rfl
    | @plain d r _ _ hr => exact Or.inr ⟨r, hr, by rw [(List.cons_prefix_cons.mp hpre).1]; rfl⟩
    | escaped _ _ => exact absurd (List.cons_prefix_cons.mp hpre).1.symm hslash

/-! ## Words and marks -/

theorem names_text {cls : TextClass} {w : List Char} (hw : w ∈ ofClass cls)
    (hword : cls = .identifier → ∀ k : Keyword, w ≠ k.text.toList) :
    (Kind.text cls (String.ofList w)).Names w where
  mem := hw
  text := by
    rintro cls s ⟨⟩
    rfl
  keyword := by
    intro hcls k
    exact hword (Terminal.text.inj hcls) k

theorem names_ofWord {w : List Char} (hw : w ∈ ofClass .identifier) :
    (Kind.ofWord (String.ofList w)).Names w := by
  unfold Kind.ofWord
  cases hk : Keyword.ofText? (String.ofList w) with
  | some k =>
    have htext : k.text = String.ofList w := by simpa using List.find?_some hk
    refine ⟨?_, by simp, by simp [Kind.terminal]⟩
    show w = k.text.toList
    rw [htext, String.toList_ofList]
  | none =>
    refine names_text hw fun _ k hmem => ?_
    have htext : k.text = String.ofList w := by rw [hmem, String.ofList_toList]
    have hnone := List.find?_eq_none.mp hk k k.mem_all
    simp [htext] at hnone

theorem longest_identifier {c : Char} (hc : isWordStart c = true) (rest : List Char) :
    Longest (ofClass .identifier) (c :: rest) (c :: rest.takeWhile isWordPart) where
  mem := mem_identifier.mpr ⟨c, _, rfl, hc, fun _ hd => List.mem_takeWhile_imp hd⟩
  isPrefix := List.cons_prefix_cons.mpr ⟨rfl, List.takeWhile_prefix _⟩
  max := by
    intro v hv hpre
    obtain ⟨d, r, rfl, -, hr⟩ := mem_identifier.mp hv
    have hle := (prefix_takeWhile hr (List.cons_prefix_cons.mp hpre).2).length_le
    simp only [List.length_cons]
    omega

/-- The first mark of the list that the input begins with is the longest one, because the longer
ones come first. -/
theorem length_le_of_leading? {input : List Char} {p : Punct} (h : Punct.leading? input = some p) :
    p.chars <+: input ∧ ∀ q : Punct, q.chars <+: input → q.chars.length ≤ p.chars.length := by
  have hsorted : Punct.all.Pairwise fun p q => q.chars.length ≤ p.chars.length := by decide
  obtain ⟨hp, before, later, hall, hbefore⟩ := List.find?_eq_some_iff_append.mp h
  refine ⟨List.isPrefixOf_iff_prefix.mp hp, ?_⟩
  intro q hq
  have hmem : q ∈ before ++ p :: later := hall ▸ q.mem_all
  rcases List.mem_append.mp hmem with hbefore' | hlater
  · have hnot := hbefore q hbefore'
    simp [List.isPrefixOf_iff_prefix.mpr hq] at hnot
  · rcases List.mem_cons.mp hlater with rfl | hlater
    · exact Nat.le_refl _
    · rw [hall, List.pairwise_append] at hsorted
      exact (List.pairwise_cons.mp hsorted.2.1).1 q hlater

theorem not_prefix_of_leading? {input : List Char} (h : Punct.leading? input = none) (q : Punct) :
    ¬ q.chars <+: input := by
  intro hq
  have hnone := List.find?_eq_none.mp h q q.mem_all
  exact hnone (List.isPrefixOf_iff_prefix.mpr hq)

/-! ## Blanks and comments -/

theorem longest_blanks {c : Char} (hc : isBlank c = true) (rest : List Char) :
    Longest skip (c :: rest) (c :: rest.takeWhile isBlank) where
  mem := by
    refine Or.inl (mem_blanks.mpr ⟨by simp, ?_⟩)
    intro d hd
    rcases List.mem_cons.mp hd with rfl | hd
    · exact hc
    · exact List.mem_takeWhile_imp hd
  isPrefix := List.cons_prefix_cons.mpr ⟨rfl, List.takeWhile_prefix _⟩
  max := by
    rintro v (hv | hv) hpre
    · have hle := (prefix_takeWhile (mem_blanks.mp hv).2 hpre).length_le
      rwa [List.takeWhile_cons_of_pos hc] at hle
    · obtain ⟨r, rfl, -⟩ := mem_comment.mp hv
      rw [← (List.cons_prefix_cons.mp hpre).1] at hc
      exact absurd hc (by decide)

theorem isBlank_of_isPrefix {v rest : List Char} {c : Char} (hv : v ∈ blanks) (h : v <+: c :: rest) :
    isBlank c = true := by
  obtain ⟨hne, hblank⟩ := mem_blanks.mp hv
  obtain ⟨d, r, rfl⟩ := List.exists_cons_of_ne_nil hne
  rw [← (List.cons_prefix_cons.mp h).1]
  exact hblank d List.mem_cons_self

theorem longest_comment (rest : List Char) :
    Longest skip ('/' :: '/' :: rest) ('/' :: '/' :: rest.takeWhile (· ≠ '\n')) where
  mem := by
    refine Or.inr (mem_comment.mpr ⟨_, rfl, fun d hd => ?_⟩)
    simpa using List.mem_takeWhile_imp hd
  isPrefix := by
    simp only [List.cons_prefix_cons, true_and]
    exact List.takeWhile_prefix _
  max := by
    rintro v (hv | hv) hpre
    · exact absurd (isBlank_of_isPrefix hv hpre) (by decide)
    · obtain ⟨r, rfl, hr⟩ := mem_comment.mp hv
      simp only [List.cons_prefix_cons, true_and] at hpre
      have hle := (prefix_takeWhile (p := (· ≠ '\n')) (by simpa using hr) hpre).length_le
      simp only [List.length_cons]
      omega

/-- No prefix of the input is in the language. -/
def Misses (l : Language Char) (input : List Char) : Prop := ∀ v ∈ l, ¬ v <+: input

theorem misses_skip {c : Char} {rest : List Char} (hc : isBlank c = false)
    (hcomment : ¬ (c = '/' ∧ rest.head? = some '/')) : Misses skip (c :: rest) := by
  rintro v (hv | hv) hpre
  · have hblank := isBlank_of_isPrefix hv hpre
    rw [hc] at hblank
    cases hblank
  · obtain ⟨r, rfl, -⟩ := mem_comment.mp hv
    obtain ⟨hslash, t, rfl⟩ := List.cons_prefix_cons.mp hpre
    exact hcomment ⟨hslash.symm, rfl⟩

/-! ## Pieces -/

/-- What the patterns say about a piece that an input begins with. -/
def Piece.Fits (input : List Char) : Piece → Prop
  | .blank w => Longest skip input w
  | .token k w => Misses skip input ∧ Longest Pattern.token input w ∧ k.Names w
  | .junk w => Misses skip input ∧ Misses Pattern.token input ∧ Longest Pattern.junk input w

/-- The first character of the input is that of every token it begins with. -/
theorem leadOf_of_isPrefix {t : Terminal} {v rest : List Char} {c : Char} (hv : v ∈ ofTerminal t)
    (h : v <+: c :: rest) : leadOf t = lead c := by
  obtain ⟨d, r, rfl, hlead⟩ := lead_of_mem hv
  rw [← hlead, (List.cons_prefix_cons.mp h).1]

theorem longest_token {c : Char} {rest w : List Char} {k : Kind} (hk : k.Names w)
    (hpre : w <+: c :: rest) (hmax : ∀ t, leadOf t = lead c → ∀ v ∈ ofTerminal t,
      v <+: c :: rest → v.length ≤ w.length) : Longest Pattern.token (c :: rest) w where
  mem := ⟨k.terminal, hk.mem⟩
  isPrefix := hpre
  max := by
    rintro v ⟨t, hv⟩ hpre'
    exact hmax t (leadOf_of_isPrefix hv hpre') v hv hpre'

theorem fits_number {c : Char} (hc : c.isDigit = true) (rest : List Char) :
    Longest Pattern.token (c :: rest) (number (c :: rest)).2 ∧
      (Kind.text (number (c :: rest)).1 (String.ofList (number (c :: rest)).2)).Names
        (number (c :: rest)).2 := by
  have hne : digits (c :: rest) ≠ [] := by simp [digits, hc]
  have hnumber := longestNumber_number hne
  have hnames : (Kind.text (number (c :: rest)).1 (String.ofList (number (c :: rest)).2)).Names
      (number (c :: rest)).2 := by
    refine names_text hnumber.mem fun hword => ?_
    have hlead := hnumber.lead
    rw [hword] at hlead
    cases hlead
  refine ⟨longest_token hnames hnumber.isPrefix ?_, hnames⟩
  intro t ht v hv hpre
  rw [lead_of_isDigit hc] at ht
  cases t with
  | text cls => exact hnumber.max cls ht v hv hpre
  | keyword _ | punct _ | eof => cases ht

theorem fits_word {c : Char} (hc : isWordStart c = true) (rest : List Char) :
    Longest Pattern.token (c :: rest) (c :: rest.takeWhile isWordPart) ∧
      (Kind.ofWord (String.ofList (c :: rest.takeWhile isWordPart))).Names
        (c :: rest.takeWhile isWordPart) := by
  have hword := longest_identifier hc rest
  have hnames := names_ofWord hword.mem
  refine ⟨longest_token hnames hword.isPrefix ?_, hnames⟩
  intro t ht v hv hpre
  rw [lead_of_isWordStart hc] at ht
  have hv' : v ∈ ofClass .identifier := by
    cases t with
    | keyword k => exact (show v = k.text.toList from hv) ▸ keyword_mem_identifier k
    | text cls =>
      cases cls with
      | identifier => exact hv
      | _ => cases ht
    | punct _ | eof => cases ht
  exact hword.max v hv' hpre

/-- After an opening quote, only a string can begin. -/
theorem string_of_isPrefix {v rest : List Char} (hv : v ∈ Pattern.token) (h : v <+: '"' :: rest) :
    ∃ body, Items body ∧ v = '"' :: (body ++ ['"']) ∧ body ++ ['"'] <+: rest := by
  obtain ⟨t, hv⟩ := hv
  have ht : leadOf t = .quote := leadOf_of_isPrefix hv h
  cases t with
  | text cls =>
    cases cls with
    | string =>
      obtain ⟨body, hbody, rfl⟩ := mem_string.mp hv
      exact ⟨body, hbody, rfl, (List.cons_prefix_cons.mp h).2⟩
    | _ => cases ht
  | keyword _ | punct _ | eof => cases ht

theorem fits_string {rest : List Char} (h : (stringTail rest).2 = true) :
    Longest Pattern.token ('"' :: rest) ('"' :: (stringTail rest).1) ∧
      (Kind.text .string (String.ofList ('"' :: (stringTail rest).1))).Names
        ('"' :: (stringTail rest).1) := by
  have htail := readsTail_stringTail rest
  cases hfound : stringTail rest with
  | mk tail closed =>
    rw [hfound] at h htail
    cases htail with
    | unclosed _ _ _ => cases h
    | @closed body hbody hpre =>
      have hmem : '"' :: (body ++ ['"']) ∈ ofClass .string := mem_string.mpr ⟨body, hbody, rfl⟩
      refine ⟨⟨⟨.text .string, hmem⟩, List.cons_prefix_cons.mpr ⟨rfl, hpre⟩, ?_⟩,
        names_text hmem fun hword => by cases hword⟩
      intro v hv hpre'
      obtain ⟨body', hbody', rfl, hrest⟩ := string_of_isPrefix hv hpre'
      obtain ⟨heq, -⟩ := Prod.mk.inj (hfound.symm.trans (stringTail_of_items hbody' hrest))
      rw [heq]

theorem fits_unclosed {rest : List Char} (h : (stringTail rest).2 = false) :
    Misses Pattern.token ('"' :: rest) ∧
      Longest Pattern.junk ('"' :: rest) ('"' :: (stringTail rest).1) := by
  have htail := readsTail_stringTail rest
  cases hfound : stringTail rest with
  | mk tail closed =>
    rw [hfound] at h htail
    cases htail with
    | closed _ _ => cases h
    | unclosed hitems hpre hmax =>
      constructor
      · intro v hv hpre'
        obtain ⟨body, hbody, -, hrest⟩ := string_of_isPrefix hv hpre'
        cases hfound.symm.trans (stringTail_of_items hbody hrest)
      · refine ⟨mem_junk.mpr (Or.inr ⟨tail, hitems, rfl⟩), List.cons_prefix_cons.mpr ⟨rfl, hpre⟩,
          ?_⟩
        intro v hv hpre'
        rcases mem_junk.mp hv with ⟨d, rfl⟩ | ⟨body, hbody, rfl⟩
        · simp
        · have hle := hmax body hbody (List.cons_prefix_cons.mp hpre').2
          simp only [List.length_cons]
          omega

/-- Where neither a number nor a word nor a string begins, only a mark can. -/
theorem mark_of_isPrefix {c : Char} {v rest : List Char} (hc : lead c = .mark)
    (hv : v ∈ Pattern.token) (h : v <+: c :: rest) : ∃ p : Punct, v = p.chars := by
  obtain ⟨t, hv⟩ := hv
  have ht := (leadOf_of_isPrefix hv h).trans hc
  cases t with
  | punct p => exact ⟨p, hv⟩
  | eof => exact hv.elim
  | keyword _ => cases ht
  | text cls => cases cls <;> cases ht

theorem fits_mark {c : Char} {rest : List Char} {p : Punct} (hc : lead c = .mark)
    (hp : Punct.leading? (c :: rest) = some p) :
    Longest Pattern.token (c :: rest) p.chars ∧ (Kind.punct p).Names p.chars := by
  obtain ⟨hpre, hmax⟩ := length_le_of_leading? hp
  refine ⟨⟨⟨.punct p, rfl⟩, hpre, ?_⟩, rfl, by simp, by simp [Kind.terminal]⟩
  intro v hv hpre'
  obtain ⟨q, rfl⟩ := mark_of_isPrefix hc hv hpre'
  exact hmax q hpre'

theorem fits_char {c : Char} {rest : List Char} (hc : lead c = .mark) (hquote : c ≠ '"')
    (hp : Punct.leading? (c :: rest) = none) :
    Misses Pattern.token (c :: rest) ∧ Longest Pattern.junk (c :: rest) [c] := by
  constructor
  · intro v hv hpre
    obtain ⟨q, rfl⟩ := mark_of_isPrefix hc hv hpre
    exact not_prefix_of_leading? hp q hpre
  · refine ⟨mem_junk.mpr (Or.inl ⟨c, rfl⟩), List.prefix_append [c] rest, ?_⟩
    intro v hv hpre
    rcases mem_junk.mp hv with ⟨d, rfl⟩ | ⟨body, -, rfl⟩
    · exact Nat.le_refl _
    · exact absurd (List.cons_prefix_cons.mp hpre).1.symm hquote

/-- The first piece of a text is the longest that fits there. -/
theorem fits_firstPiece (c : Char) (rest : List Char) :
    (firstPiece c rest).Fits (c :: rest) := by
  unfold firstPiece
  split
  · next hblank => exact longest_blanks hblank rest
  · next hblank =>
    split
    · next hcomment =>
      simp only [Bool.and_eq_true, decide_eq_true_eq] at hcomment
      obtain ⟨rfl, hhead⟩ := hcomment
      obtain ⟨r, rfl⟩ : ∃ r, rest = '/' :: r := List.head?_eq_some_iff.mp hhead
      exact longest_comment r
    · next hcomment =>
      have hskip : Misses skip (c :: rest) :=
        misses_skip (by simpa using hblank) (by simpa using hcomment)
      split
      · next hdigit => exact ⟨hskip, fits_number hdigit rest⟩
      · next hdigit =>
        split
        · next hword => exact ⟨hskip, fits_word hword rest⟩
        · next hword =>
          split
          · next hquote =>
            subst hquote
            have hstring := @fits_string rest
            have hunclosed := @fits_unclosed rest
            cases hfound : stringTail rest with
            | mk tail closed =>
              rw [hfound] at hstring hunclosed
              cases closed with
              | true => exact ⟨hskip, hstring rfl⟩
              | false => exact ⟨hskip, hunclosed rfl⟩
          · next hquote =>
            have hlead : lead c = .mark := by simp [lead, hdigit, hword, hquote]
            split
            · next p hp => exact ⟨hskip, fits_mark hlead hp⟩
            · next hp => exact ⟨hskip, fits_char hlead hquote hp⟩

/-- Every token that is reported shows a text that its kind allows. -/
theorem names_of_mem_scanFrom {l : Location} {n : Nat} {input : List Char} {t : Token}
    (h : .token t ∈ scanFrom l n input) : ∃ w, t.kind.Names w := by
  induction input generalizing l n with
  | nil => simp [scanFrom] at h
  | cons c rest ih =>
    cases n with
    | succ n => exact ih h
    | zero =>
      have hfits := fits_firstPiece c rest
      simp only [scanFrom] at h
      cases hpiece : firstPiece c rest with
      | blank w =>
        rw [hpiece, report?] at h
        exact ih h
      | junk w =>
        rw [hpiece, report?] at h
        exact ih ((List.mem_cons.mp h).resolve_left (by simp))
      | token k w =>
        rw [hpiece] at h hfits
        rcases List.mem_cons.mp h with heq | h
        · obtain rfl := Scanned.token.inj heq
          exact ⟨w, hfits.2.2⟩
        · exact ih h

end Lexer

end ExprCheck
