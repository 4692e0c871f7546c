import Mathlib
import ExprCheck.Literal
import ExprCheck.Proofs.Derivation
import ExprCheck.Proofs.Patterns

/-!
# Constants are read as the grammar writes them

The readers of constants are defined on every text: a mark may be missing where the text is cut, and
a character that is no digit counts all the same. The grammar says nothing about such texts. On the
texts that tokens have, the readers find the value that the grammar gives them.
-/

namespace ExprCheck

namespace Literal

theorem all_ne_of_notMem {sep : Char} {text : List Char} (h : sep ∉ text) :
    ∀ c ∈ text, decide (c ≠ sep) = true := by
  intro c hc
  simpa using fun heq : c = sep => h (heq ▸ hc)

theorem splitAt_append_cons {sep : Char} {above : List Char} (h : sep ∉ above)
    (below : List Char) : splitAt sep (above ++ sep :: below) = (above, below) := by
  have hall := all_ne_of_notMem h
  rw [splitAt, List.takeWhile_append_of_pos hall, List.dropWhile_append_of_pos hall]
  simp

/-- Without a mark, all of a text stands before it. -/
theorem splitAt_of_notMem {sep : Char} {text : List Char} (h : sep ∉ text) :
    splitAt sep text = (text, []) := by
  have hall := all_ne_of_notMem h
  rw [splitAt, List.takeWhile_eq_self_iff.mpr hall, List.dropWhile_eq_nil_iff.mpr hall]
  rfl

theorem natOfDigits_concat (cs : List Char) (c : Char) :
    natOfDigits (cs ++ [c]) = 10 * natOfDigits cs + (c.toNat - '0'.toNat) := by
  rw [natOfDigits, List.foldl_append]
  rfl

theorem lt_of_readInteger {digits : List Char} {n : Int} (h : readInteger digits = .ok n) :
    n = natOfDigits digits ∧ natOfDigits digits < 2 ^ 63 := by
  rw [readInteger] at h
  split at h
  · next hle =>
    cases h
    exact ⟨rfl, Nat.lt_of_le_of_lt hle (by decide)⟩
  · cases h

theorem lt_of_readOrdinal {digits : List Char} {n : Nat} (h : readOrdinal digits = .ok n) :
    n = natOfDigits digits ∧ natOfDigits digits < 2 ^ 64 := by
  rw [readOrdinal] at h
  split at h
  · next hle =>
    cases h
    exact ⟨rfl, Nat.lt_of_le_of_lt hle (by decide)⟩
  · cases h

end Literal

/-- A digit is the character of the number that is its distance from zero. -/
theorem digitChar_sub {c : Char} (h : c.isDigit = true) :
    c.toNat - '0'.toNat < 10 ∧ (c.toNat - '0'.toNat).digitChar = c := by
  have hbounds : 48 ≤ c.toNat ∧ c.toNat ≤ 57 := by
    simp only [Char.isDigit, Bool.and_eq_true, decide_eq_true_eq, UInt32.le_iff_toNat_le,
      ge_iff_le] at h
    exact h
  have hzero : '0'.toNat = 48 := rfl
  have hlt : c.toNat - '0'.toNat < 10 := by omega
  refine ⟨hlt, Char.toNat_inj.mp ?_⟩
  rw [Nat.toNat_digitChar_of_lt_ten hlt]
  omega

namespace Grammar

open Literal Pattern

/-! ## Numbers -/

/-- By induction from the right, where the reader and the grammar both put the last digit. -/
theorem isNumber_natOfDigits {cs : List Char} (hne : cs ≠ [])
    (hdigits : ∀ c ∈ cs, c.isDigit = true) : IsNumber cs (natOfDigits cs) := by
  induction cs using List.reverseRecOn with
  | nil => exact absurd rfl hne
  | append_singleton cs c ih =>
    obtain ⟨hlt, hchar⟩ := digitChar_sub (hdigits c (by simp))
    rw [natOfDigits_concat]
    by_cases hcs : cs = []
    · subst hcs
      have hone := IsNumber.digit hlt
      rw [hchar] at hone
      exact (Nat.zero_add _).symm ▸ hone
    · have hmore := IsNumber.more (ih hcs fun d hd => hdigits d (by simp [hd])) hlt
      rwa [hchar] at hmore

theorem isNumber_of_mem {cs : List Char} (h : cs ∈ digits) : IsNumber cs (natOfDigits cs) :=
  isNumber_natOfDigits (mem_digits.mp h).1 (mem_digits.mp h).2

theorem isFraction_readReal {cs ds : List Char} (hcs : cs ∈ digits) (hds : ds ∈ digits) :
    IsFraction (cs ++ '.' :: ds) (readReal (cs ++ '.' :: ds)) := by
  have hpoint : '.' ∉ cs := not_mem_of_mem_digits hcs rfl
  rw [mem_digits] at hcs hds
  have hall : ∀ c ∈ cs ++ ds, c.isDigit = true := by
    intro c hc
    exact (List.mem_append.mp hc).elim (hcs.2 c) (hds.2 c)
  rw [readReal, splitAt_append_cons hpoint]
  exact .intro hcs.1 hds.1 (isNumber_natOfDigits (by simp [hcs.1]) hall)

theorem isDecimal_readReal {cs : List Char} (h : cs ∈ decimal) : IsDecimal cs (readReal cs) := by
  rcases mem_decimal.mp h with hcs | ⟨us, hus, vs, hvs, rfl⟩
  · have hpoint : '.' ∉ cs := not_mem_of_mem_digits hcs rfl
    have hvalue : readReal cs = Float.ofScientific (natOfDigits cs) true 0 := by
      simp only [readReal, splitAt_of_notMem hpoint, List.append_nil, List.length_nil]
    rw [hvalue]
    exact .whole (isNumber_of_mem hcs)
  · exact .fraction (isFraction_readReal hus hvs)

/-! ## Strings -/

theorem isEscape_escaped {c : Char} (h : c ≠ '\n') : IsEscape c (escaped c) := by
  unfold escaped
  split
  · exact .newline
  · exact .tab
  · exact .carriageReturn
  · exact .null
  · next hn ht hr h0 =>
    refine .itself ?_
    simp only [List.mem_cons, List.not_mem_nil, or_false, not_or]
    exact ⟨hn, ht, hr, h0, h⟩

theorem isContent_unescape {cs : List Char} (h : Pattern.Items cs) :
    IsContent cs (unescape cs) := by
  induction h with
  | nil => exact .nil
  | plain hquote hslash _ ih =>
    rw [unescape]
    · exact .plain (by simp [hquote, hslash]) ih
    · intro _ _ heq
      exact absurd heq hslash
  | escaped hline _ ih => exact .escape (isEscape_escaped hline) ih

/-! ## Constants -/

theorem bind_eq_ok {α β ε : Type} {x : Except ε α} {f : α → Except ε β} {b : β}
    (h : x >>= f = .ok b) : ∃ a, x = .ok a ∧ f a = .ok b := by
  cases x with
  | ok a => exact ⟨a, rfl, h⟩
  | error e => cases h

/-- The text of a token whose kind tells its class. -/
theorem eq_ofList_of_names {cls : TextClass} {s : String} {w : List Char}
    (h : (Kind.text cls s).Names w) : s = String.ofList w ∧ w ∈ ofClass cls :=
  ⟨h.text cls s rfl, h.mem⟩

theorem isLiteral_of_text {cls : TextClass} {w : List Char} (hw : w ∈ ofClass cls) {v : Literal}
    (h : Literal.ofKind (.text cls (String.ofList w)) = .ok v) :
    IsLiteral (.text cls (String.ofList w)) v := by
  cases cls with
  | identifier => cases h
  | integer =>
    rw [Literal.ofKind, String.toList_ofList] at h
    obtain ⟨n, hn, h⟩ := bind_eq_ok h
    cases h
    obtain ⟨rfl, hlt⟩ := lt_of_readInteger hn
    exact .integer (isNumber_of_mem hw) hlt
  | real =>
    obtain ⟨cs, hcs, ds, hds, rfl⟩ := mem_separated.mp hw
    rw [Literal.ofKind, String.toList_ofList] at h
    cases h
    exact .real (isFraction_readReal hcs hds)
  | rational =>
    obtain ⟨cs, hcs, ds, hds, rfl⟩ := mem_separated.mp hw
    have hmark : '\\' ∉ cs := not_mem_of_mem_digits hcs rfl
    rw [Literal.ofKind, String.toList_ofList, splitAt_append_cons hmark] at h
    obtain ⟨n, hn, h⟩ := bind_eq_ok h
    obtain ⟨d, hd, h⟩ := bind_eq_ok h
    split at h
    · cases h
    · next hne =>
      cases h
      obtain ⟨rfl, hlt⟩ := lt_of_readInteger hn
      obtain ⟨rfl, hlt'⟩ := lt_of_readInteger hd
      exact .rational (isNumber_of_mem hcs) hlt (isNumber_of_mem hds) hlt' (by omega)
  | complex =>
    obtain ⟨cs, hcs, ds, hds, rfl⟩ := mem_separated.mp hw
    have hmark : 'i' ∉ cs := not_mem_of_mem_decimal hcs rfl (by decide)
    rw [Literal.ofKind, String.toList_ofList, splitAt_append_cons hmark] at h
    cases h
    exact .complex (isDecimal_readReal hcs) (isDecimal_readReal hds)
  | string =>
    obtain ⟨body, hbody, rfl⟩ := mem_string.mp hw
    rw [Literal.ofKind, String.toList_ofList, readString, List.drop_one, List.tail_cons,
      List.dropLast_concat] at h
    cases h
    exact .string (isContent_unescape hbody)

/-- A constant that is read off a token is the one that the token writes. -/
theorem isLiteral_of_ofKind {k : Kind} {w : List Char} (hw : k.Names w) {v : Literal}
    (h : Literal.ofKind k = .ok v) : IsLiteral k v := by
  cases k with
  | text cls s =>
    obtain ⟨rfl, hmem⟩ := eq_ofList_of_names hw
    exact isLiteral_of_text hmem h
  | keyword k =>
    cases k with
    | trueKw =>
      cases h
      exact .yes
    | falseKw =>
      cases h
      exact .no
    | _ => cases h
  | punct p => cases h
  | eof => cases h

end Grammar

end ExprCheck
