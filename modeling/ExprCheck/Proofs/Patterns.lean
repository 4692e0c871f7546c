import Mathlib
import ExprCheck.Token.Lexer

/-!
# Patterns of tokens

The language that each kind of token is written in, as a regular language over characters, together
with the language of what may stand between tokens. Nothing here depends on how a text is cut up.

The patterns overlap only where a keyword is also a word. Otherwise a text that is a token is a
token of one kind only: the first character tells words, numbers, strings and marks apart, and the
characters inside tell the forms of numbers apart.
-/

namespace ExprCheck

open scoped Computability

theorem Punct.mem_all (p : Punct) : p ∈ Punct.all := by cases p <;> decide

theorem Keyword.mem_all (k : Keyword) : k ∈ Keyword.all := by cases k <;> decide

namespace Pattern

/-- One character with a property. -/
def oneOf (p : Char → Prop) : Language Char := {w | ∃ c, p c ∧ w = [c]}

/-- One or more. -/
def plus (l : Language Char) : Language Char := l * l∗

def digits : Language Char := plus (oneOf fun c => '0' ≤ c ∧ c ≤ '9')

/-- A whole number with an optional fraction. -/
def decimal : Language Char := digits * (1 + {['.']} * digits)

/-- The characters that a word begins with. -/
def wordStart : Language Char := oneOf fun c => ('a' ≤ c ∧ c ≤ 'z') ∨ ('A' ≤ c ∧ c ≤ 'Z') ∨ c = '_'

/-- The characters of a word. -/
def wordPart : Language Char := wordStart + oneOf fun c => '0' ≤ c ∧ c ≤ '9'

/-- What a string is made of: a character other than a quote or a backslash, or a backslash with
another character, which is not a newline. -/
def item : Language Char := oneOf (fun c => c ≠ '"' ∧ c ≠ '\\') + {['\\']} * oneOf (· ≠ '\n')

/-- The texts of a class of tokens. -/
def ofClass : TextClass → Language Char
  | .identifier => wordStart * wordPart∗
  | .integer => digits
  | .real => digits * {['.']} * digits
  | .rational => digits * {['\\']} * digits
  | .complex => decimal * {['i']} * decimal
  | .string => {['"']} * item∗ * {['"']}

/-- The texts of a terminal. The end of a text is not written. -/
def ofTerminal : Terminal → Language Char
  | .keyword k => {k.text.toList}
  | .punct p => {p.chars}
  | .text cls => ofClass cls
  | .eof => 0

/-- The texts of tokens. -/
def token : Language Char := {w | ∃ t, w ∈ ofTerminal t}

def blanks : Language Char := plus (oneOf fun c => c ∈ [' ', '\t', '\n', '\r', '\x0c'])

def comment : Language Char := {['/', '/']} * (oneOf (· ≠ '\n'))∗

/-- What is skipped between tokens: a run of blanks, or a comment. -/
def skip : Language Char := blanks + comment

/-- What is reported at once where no token begins: a character, or an opening quote with complete
items after it. -/
def junk : Language Char := oneOf (fun _ => True) + {['"']} * item∗

end Pattern

/-- A token of this kind may have the text `w`: it matches the pattern, and it is no keyword if it is
an identifier. -/
structure Kind.Names (k : Kind) (w : List Char) : Prop where
  mem : w ∈ Pattern.ofTerminal k.terminal
  text : ∀ cls s, k = .text cls s → s = String.ofList w
  keyword : k.terminal = .text .identifier → ∀ kw, w ∉ Pattern.ofTerminal (.keyword kw)

namespace Pattern

/-! ## Membership -/

theorem mem_oneOf {p : Char → Prop} {w : List Char} : w ∈ oneOf p ↔ ∃ c, p c ∧ w = [c] := Iff.rfl

/-- Any number of characters with a property: every character of the text has it. -/
theorem mem_oneOf_kstar {p : Char → Prop} {w : List Char} : w ∈ (oneOf p)∗ ↔ ∀ c ∈ w, p c := by
  rw [Language.mem_kstar]
  constructor
  · rintro ⟨ws, rfl, hws⟩ c hc
    obtain ⟨v, hv, hcv⟩ := List.mem_flatten.mp hc
    obtain ⟨d, hd, rfl⟩ := hws v hv
    rw [List.mem_singleton.mp hcv]
    exact hd
  · intro hw
    refine ⟨w.map ([·]), (List.flatMap_singleton' w).symm, ?_⟩
    intro v hv
    obtain ⟨c, hc, rfl⟩ := List.mem_map.mp hv
    exact ⟨c, hw c hc, rfl⟩

theorem mem_plus_oneOf {p : Char → Prop} {w : List Char} :
    w ∈ plus (oneOf p) ↔ w ≠ [] ∧ ∀ c ∈ w, p c := by
  unfold plus
  rw [Language.mem_mul]
  constructor
  · rintro ⟨_, ⟨c, hc, rfl⟩, v, hv, rfl⟩
    rw [mem_oneOf_kstar] at hv
    exact ⟨by simp, by simpa using ⟨hc, hv⟩⟩
  · rintro ⟨hne, hw⟩
    obtain ⟨c, v, rfl⟩ := List.exists_cons_of_ne_nil hne
    obtain ⟨hc, hv⟩ := List.forall_mem_cons.mp hw
    exact ⟨[c], ⟨c, hc, rfl⟩, v, mem_oneOf_kstar.mpr hv, rfl⟩

theorem oneOf_add (p q : Char → Prop) : oneOf p + oneOf q = oneOf fun c => p c ∨ q c := by
  ext w
  simp only [Language.mem_add, mem_oneOf, or_and_right, exists_or]

theorem mem_kstar_append {l : Language Char} {u v : List Char} (hu : u ∈ l) (hv : v ∈ l∗) :
    u ++ v ∈ l∗ := by
  rw [← Language.one_add_self_mul_kstar_eq_kstar]
  exact Or.inr ⟨u, hu, v, hv, rfl⟩

/-- Two languages with a mark between them. -/
theorem mem_separated {a b : Language Char} {sep : Char} {w : List Char} :
    w ∈ a * {[sep]} * b ↔ ∃ u ∈ a, ∃ v ∈ b, w = u ++ sep :: v := by
  constructor
  · rintro ⟨_, ⟨u, hu, _, rfl, rfl⟩, v, hv, rfl⟩
    exact ⟨u, hu, v, hv, by simp⟩
  · rintro ⟨u, hu, v, hv, rfl⟩
    exact ⟨u ++ [sep], ⟨u, hu, [sep], rfl, rfl⟩, v, hv, by simp⟩

/-- The bounds of the pattern are those of the test on characters. -/
theorem mem_digits {w : List Char} : w ∈ digits ↔ w ≠ [] ∧ ∀ c ∈ w, c.isDigit = true := by
  unfold digits
  rw [mem_plus_oneOf]
  have hdigit : ∀ c : Char, ('0' ≤ c ∧ c ≤ '9') ↔ c.isDigit = true := by
    intro c
    simp [Char.isDigit, Char.le_def]
  simp only [hdigit]

/-- A number with an optional fraction is one of two things. -/
theorem mem_decimal {w : List Char} :
    w ∈ decimal ↔ w ∈ digits ∨ ∃ u ∈ digits, ∃ v ∈ digits, w = u ++ '.' :: v := by
  unfold decimal
  rw [mul_add, mul_one, ← mul_assoc, Language.mem_add, mem_separated]

/-- The pattern of words agrees with the tests that the lexer makes on its characters. -/
theorem mem_identifier {w : List Char} :
    w ∈ ofClass .identifier ↔ ∃ c r, w = c :: r ∧ Lexer.isWordStart c = true ∧
      ∀ d ∈ r, Lexer.isWordPart d = true := by
  have hstart : wordStart = oneOf fun c => Lexer.isWordStart c = true := by
    unfold wordStart
    congr! 2 with c
    simp only [Lexer.isWordStart, Char.isAlpha, Char.isUpper, Char.isLower, Char.le_def,
      Bool.or_eq_true, Bool.and_eq_true, decide_eq_true_eq]
    tauto
  have hpart : wordPart = oneOf fun c => Lexer.isWordPart c = true := by
    unfold wordPart wordStart
    rw [oneOf_add]
    congr! 2 with c
    simp only [Lexer.isWordPart, Char.isAlphanum, Char.isAlpha, Char.isUpper, Char.isLower,
      Char.isDigit, Char.le_def, Bool.or_eq_true, Bool.and_eq_true, decide_eq_true_eq]
    tauto
  show w ∈ wordStart * wordPart∗ ↔ _
  rw [hstart, hpart, Language.mem_mul]
  constructor
  · rintro ⟨_, ⟨c, hc, rfl⟩, r, hr, rfl⟩
    exact ⟨c, r, rfl, hc, mem_oneOf_kstar.mp hr⟩
  · rintro ⟨c, r, rfl, hc, hr⟩
    exact ⟨[c], ⟨c, hc, rfl⟩, r, mem_oneOf_kstar.mpr hr, rfl⟩

theorem mem_blanks {w : List Char} :
    w ∈ blanks ↔ w ≠ [] ∧ ∀ c ∈ w, Lexer.isBlank c = true := by
  unfold blanks
  rw [mem_plus_oneOf]
  have hblank : ∀ c : Char, c ∈ [' ', '\t', '\n', '\r', '\x0c'] ↔ Lexer.isBlank c = true := by
    intro c
    simp [Lexer.isBlank, or_assoc]
  simp only [hblank]

theorem mem_comment {w : List Char} :
    w ∈ comment ↔ ∃ r, w = '/' :: '/' :: r ∧ ∀ c ∈ r, c ≠ '\n' := by
  unfold comment
  rw [Language.mem_mul]
  constructor
  · rintro ⟨_, rfl, r, hr, rfl⟩
    exact ⟨r, rfl, mem_oneOf_kstar.mp hr⟩
  · rintro ⟨r, rfl, hr⟩
    exact ⟨['/', '/'], rfl, r, mem_oneOf_kstar.mpr hr, rfl⟩

/-! ## Items of strings -/

/-- Sequences of items, character by character. -/
inductive Items : List Char → Prop where
  | nil : Items []
  | plain {c : Char} {r : List Char} : c ≠ '"' → c ≠ '\\' → Items r → Items (c :: r)
  | escaped {c : Char} {r : List Char} : c ≠ '\n' → Items r → Items ('\\' :: c :: r)

/-- The items of a string form a regular language, whose words can be built from the front. -/
theorem mem_item_kstar {w : List Char} : w ∈ item∗ ↔ Items w := by
  constructor
  · intro hw
    obtain ⟨ws, rfl, hws⟩ := Language.mem_kstar.mp hw
    induction ws with
    | nil => exact .nil
    | cons u rest ih =>
      obtain ⟨hu, hrest⟩ := List.forall_mem_cons.mp hws
      have htail : Items rest.flatten := ih hrest (Language.join_mem_kstar hrest)
      rcases hu with ⟨c, ⟨hquote, hslash⟩, rfl⟩ | ⟨_, rfl, _, ⟨c, hc, rfl⟩, rfl⟩
      · exact .plain hquote hslash htail
      · exact .escaped hc htail
  · intro hw
    induction hw with
    | nil => exact Language.nil_mem_kstar _
    | @plain c r hquote hslash _ ih =>
      have hitem : [c] ∈ item := Or.inl ⟨c, ⟨hquote, hslash⟩, rfl⟩
      exact mem_kstar_append hitem ih
    | @escaped c r hc _ ih =>
      have hitem : ['\\', c] ∈ item := Or.inr ⟨['\\'], rfl, [c], ⟨c, hc, rfl⟩, rfl⟩
      exact mem_kstar_append hitem ih

theorem mem_string {w : List Char} :
    w ∈ ofClass .string ↔ ∃ body, Items body ∧ w = '"' :: (body ++ ['"']) := by
  show w ∈ {['"']} * item∗ * {['"']} ↔ _
  constructor
  · rintro ⟨_, ⟨_, rfl, body, hbody, rfl⟩, _, rfl, rfl⟩
    exact ⟨body, mem_item_kstar.mp hbody, rfl⟩
  · rintro ⟨body, hbody, rfl⟩
    exact ⟨'"' :: body, ⟨['"'], rfl, body, mem_item_kstar.mpr hbody, rfl⟩, ['"'], rfl, rfl⟩

/-- What is reported as junk is one character or a string that is not closed. -/
theorem mem_junk {w : List Char} :
    w ∈ junk ↔ (∃ c, w = [c]) ∨ ∃ body, Items body ∧ w = '"' :: body := by
  unfold junk
  rw [Language.mem_add]
  refine or_congr ?_ ?_
  · simp [mem_oneOf]
  · constructor
    · rintro ⟨_, rfl, body, hbody, rfl⟩
      exact ⟨body, mem_item_kstar.mp hbody, rfl⟩
    · rintro ⟨body, hbody, rfl⟩
      exact ⟨['"'], rfl, body, mem_item_kstar.mpr hbody, rfl⟩

theorem junk_ne_nil {w : List Char} (h : w ∈ junk) : w ≠ [] := by
  rcases mem_junk.mp h with ⟨c, rfl⟩ | ⟨body, -, rfl⟩ <;> simp

theorem skip_ne_nil {w : List Char} (h : w ∈ skip) : w ≠ [] := by
  rcases h with h | h
  · exact (mem_blanks.mp h).1
  · obtain ⟨r, rfl, -⟩ := mem_comment.mp h
    simp

/-! ## First characters -/

/-- What the first character of a token says about it. -/
inductive Lead where
  | number | word | quote | mark
deriving DecidableEq

def lead (c : Char) : Lead :=
  if c.isDigit then .number else if Lexer.isWordStart c then .word
  else if c = '"' then .quote else .mark

def leadOf : Terminal → Lead
  | .keyword _ | .text .identifier => .word
  | .text .string => .quote
  | .text _ => .number
  | .punct _ | .eof => .mark

theorem lead_of_isDigit {c : Char} (h : c.isDigit = true) : lead c = .number := by
  simp [lead, h]

theorem lead_of_isWordStart {c : Char} (h : Lexer.isWordStart c = true) : lead c = .word := by
  have hdigit : c.isDigit = false := by
    by_contra hne
    simp only [Lexer.isWordStart, Char.isAlpha, Char.isUpper, Char.isLower, Char.isDigit,
      Bool.or_eq_true, Bool.and_eq_true, decide_eq_true_eq, Bool.not_eq_false,
      UInt32.le_iff_toNat_le, ge_iff_le] at h hne
    rcases h with (h | h) | rfl
    · simp at h hne
      omega
    · simp at h hne
      omega
    · simp at hne
  simp [lead, h, hdigit]

/-- Every keyword is written like an identifier, which is why `Kind.Names` has to exclude it. -/
theorem keyword_mem_identifier (k : Keyword) : k.text.toList ∈ ofClass .identifier := by
  have hword : (k.text.toList.head?.any Lexer.isWordStart &&
      k.text.toList.tail.all Lexer.isWordPart) = true := by
    cases k <;> decide
  rw [mem_identifier]
  cases hk : k.text.toList with
  | nil => simp [hk] at hword
  | cons c r =>
    simp only [hk, List.head?_cons, Option.any_some, List.tail_cons, Bool.and_eq_true,
      List.all_eq_true] at hword
    exact ⟨c, r, rfl, hword⟩

/-- The first character of a token tells to which of the four groups its terminal belongs. -/
theorem lead_of_mem {t : Terminal} {w : List Char} (h : w ∈ ofTerminal t) :
    ∃ c r, w = c :: r ∧ lead c = leadOf t := by
  have hnumber : ∀ {u : List Char}, u ∈ digits → ∀ v, ∃ c r, u ++ v = c :: r ∧ lead c = .number := by
    intro u hu v
    obtain ⟨hne, hdigit⟩ := mem_digits.mp hu
    obtain ⟨c, r, rfl⟩ := List.exists_cons_of_ne_nil hne
    exact ⟨c, r ++ v, rfl, lead_of_isDigit (hdigit c List.mem_cons_self)⟩
  have hword : ∀ {u : List Char}, u ∈ ofClass .identifier → ∃ c r, u = c :: r ∧ lead c = .word := by
    intro u hu
    obtain ⟨c, r, rfl, hc, -⟩ := mem_identifier.mp hu
    exact ⟨c, r, rfl, lead_of_isWordStart hc⟩
  cases t with
  | keyword k =>
    obtain rfl : w = k.text.toList := h
    exact hword (keyword_mem_identifier k)
  | punct p =>
    obtain rfl : w = p.chars := h
    cases p <;> exact ⟨_, _, rfl, by decide⟩
  | eof => exact h.elim
  | text cls =>
    cases cls with
    | identifier => exact hword h
    | integer =>
      have hinteger := hnumber h []
      rw [List.append_nil] at hinteger
      exact hinteger
    | real =>
      obtain ⟨u, hu, v, -, rfl⟩ := mem_separated.mp h
      exact hnumber hu _
    | rational =>
      obtain ⟨u, hu, v, -, rfl⟩ := mem_separated.mp h
      exact hnumber hu _
    | complex =>
      obtain ⟨u, hu, v, -, rfl⟩ := mem_separated.mp h
      rcases mem_decimal.mp hu with hu | ⟨x, hx, y, -, rfl⟩
      · exact hnumber hu _
      · rw [List.append_assoc]
        exact hnumber hx _
    | string =>
      obtain ⟨body, -, rfl⟩ := mem_string.mp h
      exact ⟨_, _, rfl, by decide⟩

/-! ## One kind for a text -/

/-- The form of a number, by the marks in it. -/
def numberClass (w : List Char) : TextClass :=
  if '\\' ∈ w then .rational else if 'i' ∈ w then .complex else if '.' ∈ w then .real else .integer

/-- No mark stands inside a row of digits. -/
theorem not_mem_of_mem_digits {w : List Char} (h : w ∈ digits) {c : Char} (hc : c.isDigit = false) :
    c ∉ w := by
  intro hmem
  have hdigit := (mem_digits.mp h).2 c hmem
  rw [hc] at hdigit
  cases hdigit

theorem not_mem_of_mem_decimal {w : List Char} (h : w ∈ decimal) {c : Char}
    (hc : c.isDigit = false) (hdot : c ≠ '.') : c ∉ w := by
  rcases mem_decimal.mp h with h | ⟨u, hu, v, hv, rfl⟩
  · exact not_mem_of_mem_digits h hc
  · simp [not_mem_of_mem_digits hu hc, not_mem_of_mem_digits hv hc, hdot]

/-- The marks in a number tell its class. -/
theorem numberClass_of_mem {cls : TextClass} (hcls : leadOf (.text cls) = .number) {w : List Char}
    (h : w ∈ ofClass cls) : numberClass w = cls := by
  cases cls with
  | identifier | string => cases hcls
  | integer =>
    have hnot : ∀ {c : Char}, c.isDigit = false → c ∉ w := not_mem_of_mem_digits h
    simp [numberClass, hnot (show '\\'.isDigit = false from rfl),
      hnot (show 'i'.isDigit = false from rfl), hnot (show '.'.isDigit = false from rfl)]
  | real =>
    obtain ⟨u, hu, v, hv, rfl⟩ := mem_separated.mp h
    have hu' : ∀ {c : Char}, c.isDigit = false → c ∉ u := not_mem_of_mem_digits hu
    have hv' : ∀ {c : Char}, c.isDigit = false → c ∉ v := not_mem_of_mem_digits hv
    simp [numberClass, hu' (show '\\'.isDigit = false from rfl),
      hu' (show 'i'.isDigit = false from rfl), hv' (show '\\'.isDigit = false from rfl),
      hv' (show 'i'.isDigit = false from rfl)]
  | rational =>
    obtain ⟨u, hu, v, hv, rfl⟩ := mem_separated.mp h
    simp [numberClass]
  | complex =>
    obtain ⟨u, hu, v, hv, rfl⟩ := mem_separated.mp h
    have hu' : '\\' ∉ u := not_mem_of_mem_decimal hu rfl (by decide)
    have hv' : '\\' ∉ v := not_mem_of_mem_decimal hv rfl (by decide)
    simp [numberClass, hu', hv']

/-- A text belongs to one class among those that begin alike. -/
theorem class_unique {cls cls' : TextClass} (hlead : leadOf (.text cls) = leadOf (.text cls'))
    {w : List Char} (h : w ∈ ofClass cls) (h' : w ∈ ofClass cls') : cls = cls' := by
  by_cases hnumber : leadOf (.text cls) = .number
  · rw [← numberClass_of_mem hnumber h, numberClass_of_mem (hlead.symm.trans hnumber) h']
  · cases cls <;> cases cls' <;> simp_all [leadOf]

theorem chars_injective {p q : Punct} (h : p.chars = q.chars) : p = q := by
  have hall : ∀ p ∈ Punct.all, ∀ q ∈ Punct.all, p.chars = q.chars → p = q := by decide
  exact hall p p.mem_all q q.mem_all h

theorem text_injective {k l : Keyword} (h : k.text = l.text) : k = l := by
  have hall : ∀ k ∈ Keyword.all, ∀ l ∈ Keyword.all, k.text = l.text → k = l := by decide
  exact hall k k.mem_all l l.mem_all h

end Pattern

theorem Kind.Names.ne_nil {k : Kind} {w : List Char} (h : k.Names w) : w ≠ [] := by
  obtain ⟨c, r, rfl, -⟩ := Pattern.lead_of_mem h.mem
  simp

theorem Kind.Names.ne_eof {k : Kind} {w : List Char} (h : k.Names w) : k ≠ .eof := by
  rintro rfl
  exact h.mem.elim

/-- A text names at most one kind of token. -/
theorem Kind.Names.unique {k l : Kind} {w : List Char} (hk : k.Names w) (hl : l.Names w) : k = l := by
  obtain ⟨c, r, rfl, hlead⟩ := Pattern.lead_of_mem hk.mem
  obtain ⟨c', r', heq, hlead'⟩ := Pattern.lead_of_mem hl.mem
  cases heq
  have hsame := hlead.symm.trans hlead'
  cases k with
  | eof => exact hk.mem.elim
  | punct p =>
    cases l with
    | punct q => rw [Pattern.chars_injective (hk.mem.symm.trans hl.mem)]
    | eof => exact hl.mem.elim
    | keyword b => cases hsame
    | text cls s => cases cls <;> cases hsame
  | keyword a =>
    cases l with
    | keyword b =>
      have htext : a.text.toList = b.text.toList := hk.mem.symm.trans hl.mem
      rw [Pattern.text_injective (String.toList_injective htext)]
    | text cls s =>
      cases cls with
      | identifier => exact absurd hk.mem (hl.keyword rfl a)
      | _ => cases hsame
    | punct q => cases hsame
    | eof => cases hsame
  | text cls s =>
    cases l with
    | text cls' s' =>
      rw [hk.text cls s rfl, hl.text cls' s' rfl, Pattern.class_unique hsame hk.mem hl.mem]
    | keyword b =>
      cases cls with
      | identifier => exact absurd hl.mem (hk.keyword rfl b)
      | _ => cases hsame
    | punct q => cases cls <;> cases hsame
    | eof => exact hl.mem.elim

/-! ## Longest prefixes -/

/-- The text is the longest prefix of the input in the language. -/
structure Longest (l : Language Char) (input w : List Char) : Prop where
  mem : w ∈ l
  isPrefix : w <+: input
  max : ∀ v ∈ l, v <+: input → v.length ≤ w.length

theorem Longest.input_ne_nil {l : Language Char} {input w : List Char} (h : Longest l input w)
    (hw : w ≠ []) : input ≠ [] := by
  rintro rfl
  exact hw (List.prefix_nil.mp h.isPrefix)

theorem Longest.unique {l : Language Char} {input v w : List Char} (hv : Longest l input v)
    (hw : Longest l input w) : v = w := by
  have hvw : v <+: w := List.prefix_of_prefix_length_le hv.isPrefix hw.isPrefix
    (hw.max v hv.mem hv.isPrefix)
  exact hvw.eq_of_length_le (hv.max w hw.mem hw.isPrefix)

end ExprCheck
