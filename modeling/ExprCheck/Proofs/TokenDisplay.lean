import Mathlib
import ExprCheck.Proofs.ScanAppend

/-!
# Reading back what tokens show

Tokens that are written one after the other with a space between them are read back as they are. A
space ends every token: only strings can have one inside, and a string ends with its closing quote.
So the longest token that begins where a token was written is that token, whatever follows the space.
-/

namespace ExprCheck

open Pattern

/-- The kind is that of a token that can be written: the text that it carries matches the pattern of
its class, and is no keyword if it is an identifier. -/
def Kind.Written : Kind → Prop
  | .keyword _ | .punct _ => True
  | .text cls s => s.toList ∈ ofClass cls ∧ (cls = .identifier → ∀ kw : Keyword, s ≠ kw.text)
  | .eof => False

theorem Kind.Written.names {k : Kind} (h : k.Written) : k.Names k.render.toList := by
  cases k with
  | keyword kw => exact ⟨rfl, by simp, by simp [Kind.terminal]⟩
  | punct p =>
    refine ⟨?_, by simp, by simp [Kind.terminal]⟩
    show p.text.toList = p.chars
    rw [Punct.text, String.toList_ofList]
  | text cls s =>
    have hnames := Lexer.names_text h.1 fun hcls kw hw =>
      h.2 hcls kw (String.toList_injective hw)
    rwa [String.ofList_toList] at hnames
  | eof => exact h.elim

namespace Pattern

/-- Only strings have spaces inside. -/
theorem space_notMem {t : Terminal} {w : List Char} (h : w ∈ ofTerminal t)
    (ht : t ≠ .text .string) : ' ' ∉ w := by
  have hword : ∀ {u : List Char}, u ∈ ofClass .identifier → ' ' ∉ u := by
    intro u hu hmem
    obtain ⟨c, r, rfl, hc, hr⟩ := mem_identifier.mp hu
    rcases List.mem_cons.mp hmem with rfl | hmem
    · exact absurd hc (by decide)
    · exact absurd (hr ' ' hmem) (by decide)
  have hdigits : ∀ {u : List Char}, u ∈ digits → ' ' ∉ u := fun hu => not_mem_of_mem_digits hu rfl
  have hdecimal : ∀ {u : List Char}, u ∈ decimal → ' ' ∉ u :=
    fun hu => not_mem_of_mem_decimal hu rfl (by decide)
  cases t with
  | keyword k =>
    obtain rfl : w = k.text.toList := h
    exact hword (keyword_mem_identifier k)
  | punct p =>
    obtain rfl : w = p.chars := h
    cases p <;> decide
  | eof => exact h.elim
  | text cls =>
    cases cls with
    | identifier => exact hword h
    | integer => exact hdigits h
    | real | rational =>
      obtain ⟨u, hu, v, hv, rfl⟩ := mem_separated.mp h
      simp [hdigits hu, hdigits hv]
    | complex =>
      obtain ⟨u, hu, v, hv, rfl⟩ := mem_separated.mp h
      simp [hdecimal hu, hdecimal hv]
    | string => exact absurd rfl ht

/-- A token that looks like a mark is one. -/
theorem eq_chars_of_lead {t : Terminal} {c : Char} {r : List Char} (h : c :: r ∈ ofTerminal t)
    (hc : lead c = .mark) : ∃ p : Punct, c :: r = p.chars := by
  have ht : leadOf t = .mark := (Lexer.leadOf_of_isPrefix h (List.prefix_refl _)).trans hc
  cases t with
  | punct p => exact ⟨p, h⟩
  | eof => exact h.elim
  | keyword _ => cases ht
  | text cls => cases cls <;> cases ht

theorem lead_of_isBlank {c : Char} (h : Lexer.isBlank c = true) : lead c = .mark := by
  simp only [Lexer.isBlank, Bool.or_eq_true, decide_eq_true_eq] at h
  rcases h with (((rfl | rfl) | rfl) | rfl) | rfl <;> decide

end Pattern

namespace Lexer

/-- A token that the text begins with is reported, and scanning goes on behind it. -/
theorem scanFrom_token {c : Char} {r tail : List Char} {k : Kind}
    (h : firstPiece c (r ++ tail) = .token k (c :: r)) (l : Location) :
    scanFrom l 0 (c :: r ++ tail) =
      .token ⟨k, .between l (l.skip (c :: r))⟩ :: scanFrom (l.skip (c :: r)) 0 tail := by
  obtain ⟨later, hlater, hscan⟩ := scanFrom_firstPiece l c (r ++ tail)
  rw [h] at hlater hscan
  have hsplit : c :: r ++ tail = c :: r ++ later := hlater
  obtain rfl := List.append_cancel_left hsplit
  exact hscan

/-- Where nothing is skipped, the first piece is the longest token. -/
theorem firstPiece_of_longest {c : Char} {r rest : List Char} {k : Kind} (hk : k.Names (c :: r))
    (hskip : Misses skip (c :: rest)) (htoken : Longest Pattern.token (c :: rest) (c :: r)) :
    firstPiece c rest = .token k (c :: r) := by
  have hfits := fits_firstPiece c rest
  cases hpiece : firstPiece c rest with
  | blank v =>
    rw [hpiece] at hfits
    exact absurd (Longest.isPrefix hfits) (hskip v (Longest.mem hfits))
  | token l v =>
    rw [hpiece] at hfits
    obtain rfl := hfits.2.1.unique htoken
    rw [hfits.2.2.unique hk]
  | junk v =>
    rw [hpiece] at hfits
    exact absurd htoken.isPrefix (hfits.2.1 _ htoken.mem)

section Spaced

variable {k : Kind} {w tail : List Char}

/-- Where a token was written and nothing or a space follows it, nothing is skipped. -/
theorem misses_skip_written (hk : k.Names w) (htail : ∀ c, tail.head? = some c → c = ' ') :
    Misses skip (w ++ tail) := by
  obtain ⟨c, r, rfl, -⟩ := lead_of_mem hk.mem
  refine misses_skip (Bool.eq_false_iff.mpr fun hblank => ?_) ?_
  · obtain ⟨p, hp⟩ := eq_chars_of_lead hk.mem (lead_of_isBlank hblank)
    have hmarks : ∀ p : Punct, p.chars.head?.any isBlank = false := by
      intro p
      cases p <;> decide
    have hmark := hmarks p
    rw [← hp, List.head?_cons, Option.any_some, hblank] at hmark
    cases hmark
  · rintro ⟨rfl, hslash⟩
    obtain ⟨p, hp⟩ := eq_chars_of_lead hk.mem (by decide)
    have hmarks : ∀ p : Punct, p.chars.head? = some '/' → p.chars = ['/'] := by
      intro p
      cases p <;> decide
    have hmark := hmarks p (by rw [← hp]; rfl)
    rw [← hp, List.cons.injEq] at hmark
    rw [hmark.2] at hslash
    exact absurd (htail '/' hslash) (by decide)

/-- It is the longest token there. -/
theorem longest_written (hk : k.Names w) (htail : ∀ c, tail.head? = some c → c = ' ') :
    Longest Pattern.token (w ++ tail) w where
  mem := ⟨k.terminal, hk.mem⟩
  isPrefix := List.prefix_append _ _
  max := by
    intro v hv hpre
    rcases List.prefix_or_prefix_of_prefix hpre (List.prefix_append w tail) with hle | ⟨t, rfl⟩
    · exact hle.length_le
    · cases t with
      | nil => simp
      | cons d t =>
        -- a longer token goes on with the space, so it is a string, and so is this one
        obtain ⟨rest, rfl⟩ : ∃ rest, tail = d :: rest := by
          obtain ⟨s, hs⟩ := (List.prefix_append_right_inj w).mp hpre
          exact ⟨t ++ s, hs.symm⟩
        obtain rfl := htail d rfl
        obtain ⟨u, hu⟩ := hv
        have hstring : u = .text .string := by
          by_contra hne
          exact space_notMem hu hne (by simp)
        subst hstring
        obtain ⟨c, r, rfl, -⟩ := lead_of_mem hk.mem
        obtain ⟨body, hbody, heq⟩ := mem_string.mp hu
        obtain ⟨rfl, hr⟩ := List.cons.inj heq
        obtain ⟨body', hbody', hw, hpre'⟩ := string_of_isPrefix ⟨_, hk.mem⟩
          (List.prefix_append ('"' :: r) (' ' :: t))
        have hlong := stringTail_of_items hbody ⟨[], (List.append_nil _).trans hr.symm⟩
        rw [stringTail_of_items hbody' hpre'] at hlong
        rw [heq, hw, (Prod.mk.inj hlong).1]

theorem firstPiece_written {c : Char} {r : List Char} (hk : k.Names (c :: r))
    (htail : ∀ c, tail.head? = some c → c = ' ') : firstPiece c (r ++ tail) = .token k (c :: r) :=
  firstPiece_of_longest hk (misses_skip_written hk htail) (longest_written hk htail)

theorem scanFrom_written (hk : k.Names w) (htail : ∀ c, tail.head? = some c → c = ' ')
    (l : Location) :
    scanFrom l 0 (w ++ tail) =
      .token ⟨k, .between l (l.skip w)⟩ :: scanFrom (l.skip w) 0 tail := by
  obtain ⟨c, r, rfl, -⟩ := lead_of_mem hk.mem
  exact scanFrom_token (firstPiece_written hk htail) l

end Spaced

/-- Tokens with single spaces between them. -/
theorem scanFrom_spaced {ks : List Kind} (h : ∀ k ∈ ks, k.Written) (l : Location) :
    ∃ ts : List Token, scanFrom l 0 ([' '].intercalate (ks.map fun k => k.render.toList)) =
      ts.map .token ∧ ts.map Token.kind = ks := by
  induction ks generalizing l with
  | nil => exact ⟨[], rfl, rfl⟩
  | cons k ks ih =>
    obtain ⟨hk, hks⟩ := List.forall_mem_cons.mp h
    cases ks with
    | nil =>
      have hscan : scanFrom l 0 (k.render.toList ++ []) = _ :=
        scanFrom_written hk.names (by simp) l
      rw [List.append_nil] at hscan
      refine ⟨[⟨k, .between l (l.skip k.render.toList)⟩], ?_, rfl⟩
      rw [List.map_singleton, List.intercalate_singleton, hscan]
      rfl
    | cons k' ks =>
      obtain ⟨ts, hts, hkinds⟩ := ih hks ((l.skip k.render.toList).advance ' ')
      have hscan : scanFrom l 0 (k.render.toList ++
          ' ' :: [' '].intercalate ((k' :: ks).map fun k => k.render.toList)) = _ :=
        scanFrom_written hk.names (by simp) l
      rw [scanFrom_blank rfl, hts] at hscan
      refine ⟨⟨k, .between l (l.skip k.render.toList)⟩ :: ts, ?_, by rw [List.map_cons, hkinds]⟩
      rw [List.map_cons, List.map_cons, List.intercalate_cons_cons, List.append_assoc]
      exact hscan

end Lexer

/-- Any tokens that can be written, joined by single spaces, are read back as they are. -/
theorem tokenize_spaced (ks : List Kind) (h : ∀ k ∈ ks, k.Written) :
    ∃ ts, tokenize (" ".intercalate (ks.map Kind.render)).toList = .ok ts ∧
      ts.map Token.kind = ks ++ [.eof] := by
  obtain ⟨ts, hscan, hkinds⟩ := Lexer.scanFrom_spaced h .start
  have htext : (" ".intercalate (ks.map Kind.render)).toList =
      [' '].intercalate (ks.map fun k => k.render.toList) := by
    rw [String.toList_intercalate, List.map_map]
    rfl
  rw [tokenize, htext, Lexer.scan, hscan, Grammar.tokensOf_map_token]
  exact ⟨_, rfl, by rw [List.map_append, hkinds]; rfl⟩

/-- Tokens that would run together without the spaces. -/
def clingingKinds : List Kind :=
  [.punct .slash, .punct .slash, .text .integer "1", .punct .dot, .text .real "2.5",
    .text .identifier "i3", .keyword .isKw, .text .string "\"// \\\" \""]

theorem tokenize_spaced_clingingKinds :
    (∀ k ∈ clingingKinds, k.Written) ∧
      ∃ ts, tokenize "/ / 1 . 2.5 i3 is \"// \\\" \"".toList = .ok ts ∧
        ts.map Token.kind = clingingKinds ++ [.eof] := by
  have hwritten : ∀ k ∈ clingingKinds, k.Written := by
    have hone : ['1'] ∈ digits := mem_digits.mpr ⟨by simp, by simp⟩
    have htwo : ['2'] ∈ digits := mem_digits.mpr ⟨by simp, by simp⟩
    have hfive : ['5'] ∈ digits := mem_digits.mpr ⟨by simp, by simp⟩
    have hword : ['i', '3'] ∈ ofClass .identifier :=
      mem_identifier.mpr ⟨'i', ['3'], rfl, by decide, by simp [Lexer.isWordPart]⟩
    have hstring : ['"', '/', '/', ' ', '\\', '"', ' ', '"'] ∈ ofClass .string :=
      mem_string.mpr ⟨['/', '/', ' ', '\\', '"', ' '],
        .plain (by decide) (by decide) (.plain (by decide) (by decide)
          (.plain (by decide) (by decide) (.escaped (by decide)
            (.plain (by decide) (by decide) .nil)))), rfl⟩
    simp only [clingingKinds, List.forall_mem_cons]
    refine ⟨trivial, trivial, ⟨hone, by simp⟩, trivial,
      ⟨mem_separated.mpr ⟨_, htwo, _, hfive, rfl⟩, by simp⟩, ⟨hword, fun _ kw => ?_⟩, trivial,
      ⟨hstring, by simp⟩, by simp⟩
    cases kw <;> decide
  exact ⟨hwritten, tokenize_spaced clingingKinds hwritten⟩

end ExprCheck
