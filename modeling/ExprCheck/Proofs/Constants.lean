import Mathlib
import ExprCheck.Proofs.TokenDisplay
import ExprCheck.Proofs.Recovery
import ExprCheck.Proofs.ExprReadBack

/-!
# Constants in a text

A constant is one token, and an expression that begins with it is that constant unless an operator
or a suffix follows. Strings are the constants that are not written as they are: between quotes, a
quote and a backslash have a backslash before them, and some characters have a letter of their own.

The lexer and `Literal.unescape` walk through the escapes of a string separately. They agree on where
each escape ends: `Literal.readString?` reads a string token without the two things that
`Literal.readString` takes for granted, and it never fails on a token that the lexer has made.
-/

namespace ExprCheck

open ReadM Text

/-! ## Expressions that are constants -/

namespace Grammar

variable {s : Stream} {t : Token} {us : List Scanned} {v : Literal} {k : Kind} {l : Level}

theorem exists_runs_atom (hs : s.Shows (.token t :: us)) (hv : Literal.ofKind t.kind = .ok v) :
    ∃ s', Runs atom s (.literal t.span v) s' ∧ s'.Shows us := by
  obtain ⟨s₁, hnext, hs₁, -⟩ := exists_runs_next hs
  refine ⟨s₁, runs_bind.mpr ⟨t, s₁, hnext, ?_⟩, hs₁⟩
  split
  · next name hk =>
    rw [hk] at hv
    cases hv
  · rw [hv]
    exact runs_bind.mpr ⟨v, s₁, runs_pure.mpr ⟨rfl, rfl⟩, runs_pure.mpr ⟨rfl, rfl⟩⟩

theorem exists_runs_primary_constant (hs : s.Shows (.token t :: us))
    (hv : Literal.ofKind t.kind = .ok v) :
    ∃ s', Runs (primary l) s (.literal t.span v) s' ∧ s'.Shows us := by
  obtain ⟨u, s₁, hpeek, hu, hs₁, -⟩ := exists_runs_peekAt (n := 0) hs rfl
  obtain ⟨s₂, hatom, hs₂⟩ := exists_runs_atom hs₁ hv
  refine ⟨s₂, runs_bind.mpr ⟨u, s₁, hpeek, ?_⟩, hs₂⟩
  -- no other primary expression begins with the token of a constant
  rw [hu]
  split
  case h_6 => exact hatom
  all_goals
    next hk =>
      rw [hk] at hv
      cases hv

/-- Where a constant stands and neither a suffix nor an operator follows, the expression is that
constant. -/
theorem exists_runs_expr_constant (hl : 0 < l.rounds) (hs : s.Shows (.token t :: us))
    (hv : Literal.ofKind t.kind = .ok v) (hk : upcoming? us 0 = some k) (hcloses : Closes k)
    (least : Nat) :
    ∃ s', Runs (expr l least) s (.literal t.span v) s' ∧ s'.Shows us := by
  obtain ⟨n, hn⟩ : ∃ n, l.rounds = n + 1 := Nat.exists_eq_succ_of_ne_zero hl.ne'
  obtain ⟨hoperator, hparen, hbracket, hdot⟩ := hcloses
  obtain ⟨s₁, hprimary, hs₁⟩ := exists_runs_primary_constant (l := l) hs hv
  obtain ⟨s₂, hcall, hs₂⟩ := exists_runs_accept_not hs₁ hk hparen
  obtain ⟨s₃, hindex, hs₃⟩ := exists_runs_accept_not hs₂ hk hbracket
  obtain ⟨s₄, hselect, hs₄⟩ := exists_runs_accept_not hs₃ hk hdot
  obtain ⟨u, s₅, hpeek, hu, hs₅, -⟩ := exists_runs_peekAt hs₄ hk
  have hsuffixes : Runs (suffixes l l.rounds (.literal t.span v)) s₁ (.literal t.span v) s₄ := by
    rw [hn, suffixes]
    refine runs_bind.mpr ⟨false, s₂, hcall, ?_⟩
    refine runs_bind.mpr ⟨false, s₃, hindex, ?_⟩
    exact runs_bind.mpr ⟨false, s₄, hselect, runs_pure.mpr ⟨rfl, rfl⟩⟩
  have hoperand : Runs (operand l) s (.literal t.span v) s₄ :=
    runs_bind.mpr ⟨_, s₁, hprimary, hsuffixes⟩
  refine ⟨s₅, runs_bind.mpr ⟨_, s₄, hoperand, ?_⟩, hs₅⟩
  rw [hn, operators]
  refine runs_bind.mpr ⟨u, s₅, hpeek, ?_⟩
  rw [hu, hoperator]
  exact runs_pure.mpr ⟨rfl, rfl⟩

/-- Reading an expression takes the constant and leaves what follows it alone. -/
theorem exists_runs_read_constant (hs : s.Shows (.token t :: us))
    (hv : Literal.ofKind t.kind = .ok v) (hk : upcoming? us 0 = some k) (hcloses : Closes k) :
    ∃ s', Runs Expr.read s (.literal t.span v) s' ∧ s'.Shows us := by
  have hrounds : 0 < (level s.remaining).rounds := by
    rw [level_rounds]
    exact Nat.succ_pos _
  obtain ⟨s', hrun, hs'⟩ := exists_runs_expr_constant hrounds hs hv hk hcloses 0
  exact ⟨s', runs_get_bind.mpr hrun, hs'⟩

end Grammar

/-! ## Strings -/

/-- The text that writes a string. -/
def Literal.quoted (s : String) : List Char := '"' :: (s.toList.flatMap escapeChar ++ ['"'])

namespace Lexer

open Pattern

theorem items_flatMap_escapeChar (cs : List Char) : Items (cs.flatMap escapeChar) := by
  induction cs with
  | nil => exact .nil
  | cons c cs ih =>
    rw [List.flatMap_cons]
    fun_cases escapeChar c
    case case7 hquote hslash _ _ _ _ => exact .plain hquote hslash ih
    all_goals exact .escaped (by decide) ih

theorem scanFrom_quoted (s : String) (l : Location) (tail : List Char) :
    scanFrom l 0 (Literal.quoted s ++ tail) =
      .token ⟨.text .string (String.ofList (Literal.quoted s)),
        .between l (l.skip (Literal.quoted s))⟩ ::
          scanFrom (l.skip (Literal.quoted s)) 0 tail := by
  refine scanFrom_token ?_ l
  have htail := stringTail_of_items (items_flatMap_escapeChar s.toList)
    (List.prefix_append (s.toList.flatMap escapeChar ++ ['"']) tail)
  rw [firstPiece, if_neg (by decide), if_neg (by simp), if_neg (by decide), if_neg (by decide),
    if_pos rfl, htail]
  rfl

end Lexer

namespace Literal

/-- The characters between two offsets, both of them in the text and between characters. -/
def slice? (text : List Char) (start stop : Nat) : Option (List Char) :=
  if start ≤ stop && stop ≤ byteLength text && isBoundary text start && isBoundary text stop then
    some (slice text start stop)
  else none

/-- A text with its escapes resolved, unless its last character is a backslash that begins one. -/
def unescape? : List Char → Option (List Char)
  | [] => some []
  | ['\\'] => none
  | '\\' :: c :: rest => (unescape? rest).map (escaped c :: ·)
  | c :: rest => (unescape? rest).map (c :: ·)

/-- The text that a string token stands for, unless it has no quotes to take off or breaks off
inside an escape. -/
def readString? (text : List Char) : Option (List Char) :=
  (slice? text 1 (byteLength text - 1)).bind unescape?

theorem unescape?_of_items {body : List Char} (h : Pattern.Items body) :
    unescape? body = some (unescape body) := by
  induction h with
  | nil => rfl
  | @plain c r hquote hslash _ ih =>
    rw [unescape?, unescape, ih]
    · rfl
    · simp [hslash]
    · simp [hslash]
    · simp [hslash]
  | @escaped c r hc _ ih =>
    rw [unescape?, unescape, ih]
    rfl

/-- The quotes of a string take one byte each. -/
theorem slice?_quotes (body : List Char) :
    slice? ('"' :: (body ++ ['"'])) 1 (byteLength ('"' :: (body ++ ['"'])) - 1) = some body := by
  have hquote : byteLength ['"'] = 1 := rfl
  have hlength : byteLength ('"' :: (body ++ ['"'])) = 1 + byteLength body + 1 := by
    rw [← List.singleton_append, byteLength_append, byteLength_append, hquote, Nat.add_assoc]
  have hstart := isBoundary_append ['"'] (body ++ ['"'])
  have hstop := isBoundary_append (['"'] ++ body) ['"']
  have hslice := slice_append ['"'] body ['"']
  rw [byteLength_append] at hstop
  rw [hquote] at hstart hstop hslice
  rw [List.append_assoc] at hstop
  rw [List.singleton_append] at hstart hstop hslice
  rw [slice?, hlength, Nat.add_sub_cancel, hstart, hstop, hslice]
  simp [Nat.add_assoc]

theorem readString?_of_mem {w : List Char} (h : w ∈ Pattern.ofClass .string) :
    readString? w = some (readString w) := by
  obtain ⟨body, hbody, rfl⟩ := Pattern.mem_string.mp h
  rw [readString?, slice?_quotes, Option.bind_some, unescape?_of_items hbody, readString,
    List.drop_one, List.tail_cons, List.dropLast_concat]

end Literal

/-- The text that writes a string is one token and nothing else, whatever comes behind it, and is
read as that string. Any string token of any text has its two quotes and breaks off inside no
escape. -/
theorem string_tokens (s : String) (text : List Char) :
    (∀ l tail, Lexer.scanFrom l 0 (Literal.quoted s ++ tail) =
      .token ⟨.text .string (String.ofList (Literal.quoted s)),
        .between l (l.skip (Literal.quoted s))⟩ ::
          Lexer.scanFrom (l.skip (Literal.quoted s)) 0 tail) ∧
    tokenize (Literal.quoted s) =
      .ok [⟨.text .string (String.ofList (Literal.quoted s)), .covering [] (Literal.quoted s)⟩,
        Lexer.eof (Literal.quoted s)] ∧
    (∃ s', Expr.read.run (Stream.ofText (Literal.quoted s)) =
      .ok (.literal (.covering [] (Literal.quoted s)) (.string s)) s' ∧ s'.Shows []) ∧
    ∀ t w, .token t ∈ Lexer.scan text → t.kind = .text .string w →
      Literal.readString? w.toList = some (Literal.readString w.toList) := by
  have hscan : Lexer.scan (Literal.quoted s) =
      [.token ⟨.text .string (String.ofList (Literal.quoted s)),
        .covering [] (Literal.quoted s)⟩] := by
    have hall := Lexer.scanFrom_quoted s .start []
    rw [List.append_nil] at hall
    exact hall
  refine ⟨Lexer.scanFrom_quoted s, by rw [tokenize, hscan]; rfl, ?_, ?_⟩
  · have hshows := shows_ofText (Literal.quoted s)
    rw [hscan] at hshows
    have hvalue : Literal.ofKind (.text .string (String.ofList (Literal.quoted s))) =
        .ok (.string s) := by
      rw [Literal.ofKind, String.toList_ofList, Literal.quoted, readString_quoted,
        String.ofList_toList]
      rfl
    exact Grammar.exists_runs_read_constant hshows hvalue rfl (by decide)
  · intro t w ht hk
    obtain ⟨u, hu⟩ := Lexer.names_of_mem_scanFrom ht
    have hmem := hu.mem
    rw [hk] at hu hmem
    obtain rfl := hu.text .string w rfl
    rw [String.toList_ofList]
    exact Literal.readString?_of_mem hmem

/-- Junk, a string with an escaped quote, an escaped letter of two bytes and a run of backslashes
before its closing quote, and a name. -/
def escapesText : List Char := "@ \"\\\\\\\"\\é\\\\\\\\\\\\\" n".toList

theorem string_tokens_escapesText :
    ∃ t, .token t ∈ Lexer.scan escapesText ∧
      t.kind = .text .string "\"\\\\\\\"\\é\\\\\\\\\\\\\"" ∧
      Literal.readString? "\"\\\\\\\"\\é\\\\\\\\\\\\\"".toList = some "\\\"é\\\\\\".toList := by
  have hmem : .token ⟨.text .string "\"\\\\\\\"\\é\\\\\\\\\\\\\"", ⟨2, 17, ⟨1, 3⟩⟩⟩ ∈
      Lexer.scan escapesText :=
    List.mem_cons_of_mem _ List.mem_cons_self
  exact ⟨_, hmem, rfl, (string_tokens "" escapesText).2.2.2 _ _ hmem rfl⟩

end ExprCheck
