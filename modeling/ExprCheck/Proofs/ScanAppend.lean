import Mathlib
import ExprCheck.Proofs.Places
import ExprCheck.Proofs.Rereading

/-!
# A text behind another one

A line end separates two texts: no token or comment of the first one goes on into the second. So
the tokens of both together are those of the first, and behind them those of the second, moved by
the bytes and lines of the first.
-/

namespace ExprCheck

namespace Lexer

/-! ## Pieces before a line end -/

section Lines

variable (u v : List Char)

/-- A run of characters stops at a character that is not of its kind. -/
theorem takeWhile_stop {p : Char → Bool} {d : Char} (hd : p d = false) :
    (u ++ d :: v).takeWhile p = u.takeWhile p := by
  induction u with
  | nil => simp [hd]
  | cons c u ih => rw [List.cons_append, List.takeWhile_cons, List.takeWhile_cons, ih]

theorem digits_line : digits (u ++ '\n' :: v) = digits u := takeWhile_stop u v rfl

/-- A fraction or a denominator does not go over the end of a line. -/
theorem digitsAfter_line {sep : Char} (hsep : '\n' ≠ sep) :
    digitsAfter sep (u ++ '\n' :: v) = digitsAfter sep u := by
  cases u with
  | nil => exact digitsAfter_of_ne hsep v
  | cons c u => rw [List.cons_append, digitsAfter_cons, digitsAfter_cons, digits_line]

theorem digits_isPrefix : digits u <+: u := List.takeWhile_prefix _

theorem decimal_isPrefix : decimal u <+: u := by
  have hafter := digitsAfter_isPrefix '.' (u.drop (digits u).length)
  have happend := (List.prefix_append_right_inj (digits u)).mpr hafter
  rw [digits_append] at happend
  exact happend

theorem decimal_line : decimal (u ++ '\n' :: v) = decimal u := by
  unfold decimal
  simp only [digits_line]
  rw [List.drop_append_of_le_length (digits_isPrefix u).length_le, digitsAfter_line _ _ (by decide)]

/-- No form of number goes over the end of a line. -/
theorem number_line : number (u ++ '\n' :: v) = number u := by
  unfold number
  simp only [digits_line, decimal_line]
  rw [List.drop_append_of_le_length (digits_isPrefix u).length_le,
    List.drop_append_of_le_length (decimal_isPrefix u).length_le,
    digitsAfter_line _ _ (by decide)]
  cases hrest : u.drop (decimal u).length with
  | nil => rfl
  | cons c rest =>
    by_cases hc : c = 'i'
    · subst hc
      simp only [List.cons_append, digits_line, decimal_line]
    · simp [hc]

/-- A string that is closed stays as it is. -/
theorem stringTail_append (h : (stringTail u).2 = true) :
    stringTail (u ++ v) = stringTail u := by
  have hreads := readsTail_stringTail u
  generalize stringTail u = found at h hreads ⊢
  cases hreads with
  | closed hbody hpre => exact stringTail_of_items hbody (hpre.trans (List.prefix_append u v))
  | unclosed => cases h

theorem isPrefixOf_line {w : List Char} (hw : '\n' ∉ w) :
    w.isPrefixOf (u ++ '\n' :: v) = w.isPrefixOf u := by
  induction w generalizing u with
  | nil => simp
  | cons c w ih =>
    obtain ⟨hc, hw⟩ := not_or.mp (mt List.mem_cons.mpr hw)
    cases u with
    | nil => simp [List.isPrefixOf, Ne.symm hc]
    | cons d u => simp [List.isPrefixOf, ih u hw]

/-- No mark goes over the end of a line. -/
theorem leading?_line : Punct.leading? (u ++ '\n' :: v) = Punct.leading? u := by
  have hmarks : ∀ p : Punct, '\n' ∉ p.chars := by
    intro p
    cases p <;> decide
  unfold Punct.leading?
  congr 1
  funext p
  exact isPrefixOf_line u v (hmarks p)

/-- Blanks apart, a piece ends before the line does. -/
theorem firstPiece_line {c : Char} (hblank : isBlank c = false)
    (hjunk : ∀ w, firstPiece c u ≠ .junk w) : firstPiece c (u ++ '\n' :: v) = firstPiece c u := by
  have hhead : ((u ++ '\n' :: v).head? = some '/') = (u.head? = some '/') := by
    cases u with
    | nil => simp
    | cons d u => rfl
  unfold firstPiece at hjunk ⊢
  simp only [hblank, hhead, Bool.false_eq_true, if_false] at hjunk ⊢
  by_cases hcomment : (decide (c = '/') && decide (u.head? = some '/')) = true
  · rw [if_pos hcomment, if_pos hcomment, takeWhile_stop u v rfl]
  · rw [if_neg hcomment] at hjunk ⊢
    rw [if_neg hcomment]
    by_cases hdigit : c.isDigit = true
    · have hnumber := number_line (c :: u) v
      rw [List.cons_append] at hnumber
      rw [if_pos hdigit, if_pos hdigit, hnumber]
    · rw [if_neg hdigit] at hjunk ⊢
      rw [if_neg hdigit]
      by_cases hword : isWordStart c = true
      · rw [if_pos hword, if_pos hword, takeWhile_stop u v rfl]
      · rw [if_neg hword] at hjunk ⊢
        rw [if_neg hword]
        by_cases hquote : c = '"'
        · rw [if_pos hquote] at hjunk ⊢
          rw [if_pos hquote]
          have hclosed : (stringTail u).2 = true := by
            by_contra hopen
            exact hjunk _ (if_neg hopen)
          rw [stringTail_append u ('\n' :: v) hclosed]
        · have hmark := leading?_line (c :: u) v
          rw [List.cons_append] at hmark
          rw [if_neg hquote, if_neg hquote, hmark]

end Lines

/-! ## The tokens of both texts -/

theorem scanFrom_of_isBlank {c : Char} (hc : isBlank c = true) (l : Location)
    (rest : List Char) :
    scanFrom l 0 (c :: rest) = scanFrom (l.advance c) (rest.takeWhile isBlank).length rest := by
  have hpiece : firstPiece c rest = .blank (c :: rest.takeWhile isBlank) := if_pos hc
  rw [scanFrom, hpiece]
  rfl

/-- A blank is passed over, whether or not others follow it. -/
theorem scanFrom_blank {c : Char} (hc : isBlank c = true) (l : Location) (rest : List Char) :
    scanFrom l 0 (c :: rest) = scanFrom (l.advance c) 0 rest := by
  rw [scanFrom_of_isBlank hc]
  cases rest with
  | nil => rfl
  | cons d rest =>
    cases hd : isBlank d with
    | true =>
      rw [scanFrom_of_isBlank hd, List.takeWhile_cons, if_pos hd]
      rfl
    | false => simp [hd]

/-- A text without junk is cut up the same in front of a line end and another text, and the other
text is cut up on its own. -/
theorem scanFrom_line (v : List Char) {u : List Char} {l : Location} {ts : List Token}
    (h : scanFrom l 0 u = ts.map .token) :
    scanFrom l 0 (u ++ '\n' :: v) = scanFrom l 0 u ++ scanFrom (l.skip (u ++ ['\n'])) 0 v := by
  induction hn : u.length using Nat.strong_induction_on generalizing u l ts with
  | _ n ih =>
    cases u with
    | nil => exact scanFrom_blank rfl l v
    | cons c r =>
      cases hblank : isBlank c with
      | true =>
        rw [scanFrom_blank hblank] at h
        rw [List.cons_append, scanFrom_blank hblank, scanFrom_blank hblank]
        exact ih r.length (by rw [← hn, List.length_cons]; omega) h rfl
      | false =>
        obtain ⟨later, hsplit, hscan⟩ := scanFrom_firstPiece l c r
        obtain ⟨later', hsplit', hscan'⟩ := scanFrom_firstPiece l c (r ++ '\n' :: v)
        have hjunk : ∀ w, firstPiece c r ≠ .junk w := by
          intro w hw
          rw [hscan, hw] at h
          cases ts with
          | nil => simp [report?] at h
          | cons t ts => simp [report?] at h
        rw [firstPiece_line r v hblank hjunk] at hsplit' hscan'
        have hlater : later' = later ++ '\n' :: v := by
          have hboth := hsplit'.symm
          rw [← List.cons_append, hsplit, List.append_assoc] at hboth
          exact List.append_cancel_left hboth
        have hshorter : later.length < n := by
          have hlength := congrArg List.length hsplit
          have hpos := List.length_pos_iff.mpr (fits_firstPiece c r).ne_nil
          rw [List.length_append] at hlength
          omega
        obtain ⟨ts', hts'⟩ : ∃ ts' : List Token,
            scanFrom (l.skip (firstPiece c r).text) 0 later = ts'.map .token := by
          rw [hscan] at h
          obtain ⟨_, ts', -, -, hts'⟩ := List.append_eq_map_iff.mp h
          exact ⟨ts', hts'.symm⟩
        have hplace : (l.skip (firstPiece c r).text).skip (later ++ ['\n']) =
            l.skip (c :: r ++ ['\n']) := by
          rw [← skip_append, ← List.append_assoc, ← hsplit]
        rw [List.cons_append, hscan', hlater, ih later.length hshorter hts' rfl, hscan, hplace,
          List.append_assoc]

end Lexer

/-! ## Moving along -/

/-- The place that many bytes and lines further on. -/
def Location.shift (bytes lines : Nat) (l : Location) : Location :=
  ⟨l.offset + bytes, ⟨l.position.line + lines, l.position.column⟩⟩

/-- The span that many bytes and lines further on, in the same column. -/
def Span.shift (bytes lines : Nat) (s : Span) : Span :=
  ⟨s.start + bytes, s.stop + bytes, ⟨s.position.line + lines, s.position.column⟩⟩

/-- The report, at another place. -/
def Scanned.move (f : Span → Span) : Scanned → Scanned
  | .token t => .token (t.move f)
  | .junk text span => .junk text (f span)

section Shift

variable (bytes lines : Nat)

/-- What two spans cover together is moved by moving them. -/
theorem Span.shift_merge (s t : Span) :
    (s.merge t).shift bytes lines = (s.shift bytes lines).merge (t.shift bytes lines) := by
  unfold Span.merge Span.shift
  by_cases h : s.start ≤ t.start
  · simp [h, Nat.add_max_add_right]
  · simp [h, Nat.add_max_add_right]

theorem Location.shift_advance (l : Location) (c : Char) :
    (l.shift bytes lines).advance c = (l.advance c).shift bytes lines := by
  have hoffset : l.offset + bytes + c.utf8Size = l.offset + c.utf8Size + bytes := by omega
  have hline : l.position.line + lines + 1 = l.position.line + 1 + lines := by omega
  unfold Location.advance Location.shift Position.after
  by_cases hc : c = '\n'
  · simp only [if_pos hc, hoffset, hline]
  · simp only [if_neg hc, hoffset]

theorem Location.shift_skip (l : Location) (text : List Char) :
    (l.shift bytes lines).skip text = (l.skip text).shift bytes lines := by
  induction text generalizing l with
  | nil => rfl
  | cons c text ih =>
    show ((l.shift bytes lines).advance c).skip text = ((l.advance c).skip text).shift bytes lines
    rw [Location.shift_advance, ih]

theorem Lexer.report?_shift (l : Location) (piece : Piece) :
    Lexer.report? (l.shift bytes lines) piece =
      (Lexer.report? l piece).map (Scanned.move (Span.shift bytes lines)) := by
  cases piece with
  | blank text => rfl
  | token kind text =>
    rw [Lexer.report?, Location.shift_skip]
    rfl
  | junk text =>
    rw [Lexer.report?, Location.shift_skip]
    rfl

/-- Scanning does not depend on where a text stands, except for the spans of its reports. -/
theorem Lexer.scanFrom_shift (l : Location) (n : Nat) (text : List Char) :
    Lexer.scanFrom (l.shift bytes lines) n text =
      (Lexer.scanFrom l n text).map (Scanned.move (Span.shift bytes lines)) := by
  induction text generalizing l n with
  | nil => simp [Lexer.scanFrom]
  | cons c text ih =>
    cases n with
    | succ n =>
      rw [Lexer.scanFrom, Lexer.scanFrom, Location.shift_advance, ih]
    | zero =>
      simp only [Lexer.scanFrom, Location.shift_advance, ih, Lexer.report?_shift]
      cases Lexer.report? l (Lexer.firstPiece c text) <;> rfl

end Shift

/-! ## Two texts -/

/-- The same span behind a text and a line end. -/
def Span.behind (text : List Char) : Span → Span :=
  Span.shift (Text.byteLength text + 1) (LineIndex.ofText text).lineCount

/-- Behind a text and a line end, the text that follows begins on a line of its own. -/
theorem skip_line (text : List Char) :
    Location.start.skip (text ++ ['\n']) =
      Location.start.shift (Text.byteLength text + 1) (LineIndex.ofText text).lineCount := by
  obtain ⟨lines, line, hsplit, hline, -, hposition⟩ := LineIndex.exists_lastLine text
  have hplace : (Location.start.skip text).position.line =
      (LineIndex.newlineEnds 0 text).length + 1 := by
    have hskip : Location.start.skip text = (Location.start.skip lines).skip line := by
      rw [← Lexer.skip_append, ← hsplit]
    rw [hskip, position_skip_of_line _ hline, hposition]
  have hskip : Location.start.skip (text ++ ['\n']) =
      (Location.start.skip text).advance '\n' := by
    rw [Lexer.skip_append]
    rfl
  have hoffset : (Location.start.skip text).offset = Text.byteLength text := by
    rw [offset_skip]
    exact Nat.zero_add _
  have hlines : (LineIndex.ofText text).lineCount = (LineIndex.newlineEnds 0 text).length + 1 := rfl
  rw [hskip, Location.advance, Position.after, if_pos rfl, hoffset, hplace, hlines, Location.shift]
  simp only [Location.start, Position.first, Location.mk.injEq, Position.mk.injEq, and_true]
  constructor
  · have hsize : '\n'.utf8Size = 1 := rfl
    omega
  · omega

/-- The reports about two texts, one below the other, are those about the first and, moved, those
about the second. -/
theorem scan_append {text : List Char} {ts : List Token} (h : Lexer.scan text = ts.map .token)
    (text' : List Char) :
    Lexer.scan (text ++ '\n' :: text') =
      ts.map .token ++ (Lexer.scan text').map (Scanned.move (Span.behind text)) := by
  rw [Lexer.scan, Lexer.scanFrom_line text' h, skip_line, Lexer.scanFrom_shift]
  exact congrArg (· ++ _) h

end ExprCheck
