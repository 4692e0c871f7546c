import Mathlib
import ExprCheck.Proofs.MaximalMunch
import ExprCheck.Source.LineIndex

/-!
# Where the reports of the lexer stand

The lexer carries a place along while it walks a text, and counts lines and columns as it goes. A
line index counts them for any offset, from the ends of the lines. The two agree (`position_skip`),
so that what the lexer reports lies in the text (`Span.LiesIn`): from one character boundary to
another, with the position that the line index gives to the first of them.

The reports of a text stand one behind the other, and none is empty (`InOrder`).
-/

namespace ExprCheck

/-! ## Bytes -/

namespace Text

@[simp] theorem byteLength_nil : byteLength [] = 0 := rfl

@[simp] theorem byteLength_cons (c : Char) (text : List Char) :
    byteLength (c :: text) = c.utf8Size + byteLength text := rfl

@[simp] theorem byteLength_append (u v : List Char) :
    byteLength (u ++ v) = byteLength u + byteLength v := by
  induction u with
  | nil => simp
  | cons c u ih => simp [ih, Nat.add_assoc]

theorem byteLength_pos {u : List Char} (h : u ≠ []) : 0 < byteLength u := by
  obtain ⟨c, v, rfl⟩ := List.exists_cons_of_ne_nil h
  have hpos := c.utf8Size_pos
  simp only [byteLength_cons]
  omega

/-- Between two characters, offsets in bytes and splits of the text are the same thing. -/
theorem dropBytes_append (u v : List Char) : dropBytes (u ++ v) (byteLength u) = v := by
  induction u with
  | nil =>
    rw [byteLength_nil, List.nil_append]
    unfold dropBytes
    rfl
  | cons c u ih =>
    obtain ⟨n, hn⟩ : ∃ n, byteLength (c :: u) = n + 1 :=
      Nat.exists_eq_succ_of_ne_zero (byteLength_pos (by simp)).ne'
    have hrest : n + 1 - c.utf8Size = byteLength u := by
      rw [← hn, byteLength_cons]
      omega
    rw [hn, List.cons_append, dropBytes, hrest]
    exact ih

theorem takeBytes_append (u v : List Char) : takeBytes (u ++ v) (byteLength u) = u := by
  induction u with
  | nil =>
    cases v with
    | nil => rfl
    | cons c v =>
      have hpos := c.utf8Size_pos
      rw [byteLength_nil, List.nil_append, takeBytes, if_neg (by omega)]
  | cons c u ih => simp [takeBytes, ih]

theorem isBoundary_append (u v : List Char) : isBoundary (u ++ v) (byteLength u) = true := by
  induction u with
  | nil => simp [isBoundary]
  | cons c u ih =>
    obtain ⟨n, hn⟩ : ∃ n, byteLength (c :: u) = n + 1 :=
      Nat.exists_eq_succ_of_ne_zero (byteLength_pos (by simp)).ne'
    have hrest : n + 1 - c.utf8Size = byteLength u := by
      rw [← hn, byteLength_cons]
      omega
    have hle : c.utf8Size ≤ n + 1 := by
      rw [← hn, byteLength_cons]
      omega
    rw [hn, List.cons_append, isBoundary, hrest, ih]
    simpa using hle

end Text

open Text

/-! ## Lines and columns -/

theorem offset_skip (l : Location) (w : List Char) :
    (l.skip w).offset = l.offset + byteLength w := by
  induction w generalizing l with
  | nil => rfl
  | cons c w ih =>
    have hskip : (l.skip (c :: w)).offset = (l.advance c).offset + byteLength w := ih (l.advance c)
    rw [hskip, byteLength_cons, Location.advance, Nat.add_assoc]

/-- Within a line, every character is one column. -/
theorem position_skip_of_line (l : Location) {w : List Char} (hw : '\n' ∉ w) :
    (l.skip w).position = ⟨l.position.line, l.position.column + w.length⟩ := by
  induction w generalizing l with
  | nil => rfl
  | cons c w ih =>
    obtain ⟨hc, hw⟩ := not_or.mp (mt List.mem_cons.mpr hw)
    have hstep : (l.advance c).position = ⟨l.position.line, l.position.column + 1⟩ := by
      rw [Location.advance, Position.after, if_neg (Ne.symm hc)]
    have hskip := ih (l.advance c) hw
    rw [hstep] at hskip
    rw [show l.skip (c :: w) = (l.advance c).skip w from rfl, hskip, List.length_cons]
    simp only [Position.mk.injEq, true_and]
    omega

namespace LineIndex

/-- The line ends of a text are those of its first part and, further on, those of its second. -/
theorem newlineEnds_append (offset : Nat) (u v : List Char) :
    newlineEnds offset (u ++ v) = newlineEnds offset u ++ newlineEnds (offset + byteLength u) v := by
  induction u generalizing offset with
  | nil => rfl
  | cons c u ih =>
    rw [List.cons_append, newlineEnds, newlineEnds, ih, byteLength_cons, Nat.add_assoc]
    split <;> rfl

theorem lt_of_mem_newlineEnds {offset n : Nat} {u : List Char} (h : n ∈ newlineEnds offset u) :
    offset < n ∧ n ≤ offset + byteLength u := by
  induction u generalizing offset with
  | nil => simp [newlineEnds] at h
  | cons c u ih =>
    have hpos := c.utf8Size_pos
    have hlater : n ∈ newlineEnds (offset + c.utf8Size) u →
        offset < n ∧ n ≤ offset + byteLength (c :: u) := by
      intro hmem
      obtain ⟨hlt, hle⟩ := ih hmem
      rw [byteLength_cons]
      omega
    rw [newlineEnds] at h
    split at h
    · rcases List.mem_cons.mp h with rfl | h
      · rw [byteLength_cons]
        omega
      · exact hlater h
    · exact hlater h

/-- A text is cut before its last line. What comes before that line ends where the line begins, and
the lexer stands in the first column there. -/
theorem exists_lastLine (before : List Char) :
    ∃ lines line, before = lines ++ line ∧ '\n' ∉ line ∧
      (0 :: newlineEnds 0 before).getLast? = some (byteLength lines) ∧
      (Location.start.skip lines).position = ⟨(newlineEnds 0 before).length + 1, 1⟩ := by
  induction before using List.reverseRecOn with
  | nil => exact ⟨[], [], rfl, by simp, rfl, rfl⟩
  | append_singleton before c ih =>
    obtain ⟨lines, line, rfl, hline, hlast, hposition⟩ := ih
    have hends := newlineEnds_append 0 (lines ++ line) [c]
    rw [Nat.zero_add] at hends
    by_cases hc : c = '\n'
    · subst hc
      have hone : newlineEnds (byteLength (lines ++ line)) ['\n'] =
          [byteLength (lines ++ line ++ ['\n'])] := by
        rw [byteLength_append _ ['\n']]
        rfl
      refine ⟨lines ++ line ++ ['\n'], [], by simp, by simp, ?_, ?_⟩
      · rw [hends, hone, ← List.cons_append, List.getLast?_concat]
      · have hskip : Location.start.skip (lines ++ line ++ ['\n']) =
            ((Location.start.skip lines).skip line).advance '\n' := by
          rw [Lexer.skip_append, Lexer.skip_append]
          rfl
        rw [hskip, Location.advance, Position.after, if_pos rfl, position_skip_of_line _ hline,
          hposition, hends, hone]
        simp
    · have hnone : newlineEnds (byteLength (lines ++ line)) [c] = [] := by
        rw [newlineEnds, if_neg hc]
        rfl
      rw [hnone, List.append_nil] at hends
      refine ⟨lines, line ++ [c], by simp, ?_, by rw [hends]; exact hlast,
        by rw [hends]; exact hposition⟩
      simp [hline, Ne.symm hc]

end LineIndex

open LineIndex in
/-- The lexer counts lines and columns as a line index does. -/
theorem position_skip (before rest : List Char) :
    (LineIndex.ofText (before ++ rest)).position (byteLength before) =
      (Location.start.skip before).position := by
  obtain ⟨lines, line, hsplit, hline, hlast, hposition⟩ := exists_lastLine before
  have hmin : min (byteLength before) (byteLength (before ++ rest)) = byteLength before := by
    rw [byteLength_append]
    omega
  have hstarts : (ofText (before ++ rest)).starts =
      (0 :: newlineEnds 0 before) ++ newlineEnds (byteLength before) rest := by
    rw [ofText, newlineEnds_append, Nat.zero_add]
    rfl
  -- the lines that begin at or before the end of `before` are those that begin in it
  have hcount : (ofText (before ++ rest)).lineAt (byteLength before) =
      (newlineEnds 0 before).length := by
    have hin : (0 :: newlineEnds 0 before).countP (· ≤ byteLength before) =
        (newlineEnds 0 before).length + 1 := by
      refine List.countP_eq_length.mpr ?_
      intro n hn
      rcases List.mem_cons.mp hn with rfl | hn
      · simp
      · simpa using (lt_of_mem_newlineEnds hn).2
    have hout : (newlineEnds (byteLength before) rest).countP (· ≤ byteLength before) = 0 := by
      refine List.countP_eq_zero.mpr ?_
      intro n hn
      simpa using (lt_of_mem_newlineEnds hn).1
    rw [lineAt, hstarts, List.countP_append, hin, hout]
    rfl
  have hstart : (ofText (before ++ rest)).lineStart (newlineEnds 0 before).length =
      byteLength lines := by
    have hget : (0 :: newlineEnds 0 before)[(newlineEnds 0 before).length]? =
        some (byteLength lines) := by
      rw [← hlast, List.getLast?_eq_getElem?]
      rfl
    rw [lineStart, hstarts, List.getD_eq_getElem?_getD, List.getElem?_append_left (by simp), hget]
    rfl
  have hoffset : byteLength before - byteLength lines = byteLength line := by
    rw [hsplit, byteLength_append]
    omega
  have hdrop : dropBytes (ofText (before ++ rest)).text (byteLength lines) = line ++ rest := by
    have htext : (ofText (before ++ rest)).text = lines ++ (line ++ rest) := by
      rw [hsplit, List.append_assoc]
      rfl
    rw [htext, dropBytes_append]
  have htext : byteLength (ofText (before ++ rest)).text = byteLength (before ++ rest) := rfl
  have hskip := position_skip_of_line (Location.start.skip lines) hline
  rw [← Lexer.skip_append, ← hsplit, hposition] at hskip
  simp only [position, htext, hmin, hcount, hstart, hdrop, hoffset, isBoundary_append,
    takeBytes_append, if_true, hskip]
  rw [Nat.add_comm 1]

/-! ## Spans that lie in a text -/

namespace Span

/-- The span goes from one character boundary of the text to another, and its position is that of
its first byte. -/
structure LiesIn (text : List Char) (s : Span) : Prop where
  start_le_stop : s.start ≤ s.stop
  stop_le : s.stop ≤ byteLength text
  startBoundary : isBoundary text s.start = true
  stopBoundary : isBoundary text s.stop = true
  position : s.position = (LineIndex.ofText text).position s.start

/-- The span ends at or before the beginning of the other. -/
def Before (s t : Span) : Prop := s.stop ≤ t.start

/-- The span covers no text outside the other. -/
def Inside (s outer : Span) : Prop := outer.start ≤ s.start ∧ s.stop ≤ outer.stop

theorem Inside.trans {s t u : Span} (h : s.Inside t) (h' : t.Inside u) : s.Inside u :=
  ⟨Nat.le_trans h'.1 h.1, Nat.le_trans h.2 h'.2⟩

theorem start_covering (before w : List Char) : (covering before w).start = byteLength before := by
  show (Location.start.skip before).offset = _
  rw [offset_skip]
  exact Nat.zero_add _

theorem stop_covering (before w : List Char) :
    (covering before w).stop = byteLength before + byteLength w := by
  show (Location.start.skip (before ++ w)).offset = _
  rw [offset_skip, byteLength_append]
  exact Nat.zero_add _

theorem liesIn_covering (before w later : List Char) :
    (covering before w).LiesIn (before ++ (w ++ later)) where
  start_le_stop := by
    rw [start_covering, stop_covering]
    omega
  stop_le := by
    rw [stop_covering, byteLength_append, byteLength_append]
    omega
  startBoundary := by
    rw [start_covering]
    exact isBoundary_append _ _
  stopBoundary := by
    rw [stop_covering, ← byteLength_append, ← List.append_assoc]
    exact isBoundary_append _ _
  position := by
    rw [start_covering, position_skip]
    rfl

theorem liesIn_origin (text : List Char) : origin.LiesIn text := liesIn_covering [] [] text

/-- What two spans in a text cover together lies in the text. -/
theorem LiesIn.merge {text : List Char} {s t : Span} (hs : s.LiesIn text) (ht : t.LiesIn text) :
    (s.merge t).LiesIn text := by
  have hstop : isBoundary text (max s.stop t.stop) = true := by
    rcases Nat.le_total s.stop t.stop with h | h
    · rw [Nat.max_eq_right h]
      exact ht.stopBoundary
    · rw [Nat.max_eq_left h]
      exact hs.stopBoundary
  have hlast : max s.stop t.stop ≤ byteLength text := Nat.max_le.mpr ⟨hs.stop_le, ht.stop_le⟩
  have hle := hs.start_le_stop
  have hle' := ht.start_le_stop
  unfold Span.merge
  by_cases h : s.start ≤ t.start
  · rw [if_pos h]
    exact ⟨by simp only; omega, hlast, hs.startBoundary, hstop, hs.position⟩
  · rw [if_neg h]
    exact ⟨by simp only; omega, hlast, ht.startBoundary, hstop, ht.position⟩

end Span

/-! ## The reports of a text -/

/-- The text that a report is about. -/
def Scanned.span : Scanned → Span
  | .token t => t.span
  | .junk _ span => span

/-- The reports stand one behind the other, and none of them is empty. -/
structure InOrder (us : List Scanned) : Prop where
  pairwise : us.Pairwise fun u v => u.span.Before v.span
  nonempty : ∀ u ∈ us, u.span.start < u.span.stop

theorem inOrder_nil : InOrder [] := ⟨.nil, by simp⟩

/-- Reports in order stay so in each of two parts, and the first part comes before the second. -/
theorem InOrder.of_append {us vs : List Scanned} (h : InOrder (us ++ vs)) :
    InOrder us ∧ InOrder vs ∧ ∀ u ∈ us, ∀ v ∈ vs, u.span.Before v.span := by
  obtain ⟨hu, hv, huv⟩ := List.pairwise_append.mp h.pairwise
  exact ⟨⟨hu, fun u hmem => h.nonempty u (List.mem_append_left _ hmem)⟩,
    ⟨hv, fun v hmem => h.nonempty v (List.mem_append_right _ hmem)⟩, huv⟩

/-- The report on a piece covers the piece. -/
theorem span_report {before : List Char} {piece : Lexer.Piece} {u : Scanned}
    (h : Lexer.report? (Location.start.skip before) piece = some u) :
    u.span = .covering before piece.text := by
  cases piece with
  | blank w => cases h
  | token k w =>
    rw [report?_token] at h
    cases h
    rfl
  | junk w =>
    rw [report?_junk] at h
    cases h
    rfl

/-- What the lexer reports from a place on lies in the text, behind that place and in order. -/
theorem scanFrom_inOrder (before rest : List Char) :
    InOrder (Lexer.scanFrom (Location.start.skip before) 0 rest) ∧
      ∀ u ∈ Lexer.scanFrom (Location.start.skip before) 0 rest,
        byteLength before ≤ u.span.start ∧ u.span.LiesIn (before ++ rest) := by
  induction hn : rest.length using Nat.strong_induction_on generalizing before rest with
  | _ n ih =>
    cases rest with
    | nil => exact ⟨inOrder_nil, by simp [Lexer.scanFrom]⟩
    | cons c r =>
      obtain ⟨later, hsplit, hscan⟩ :=
        Lexer.scanFrom_firstPiece (Location.start.skip before) c r
      have hne := (Lexer.fits_firstPiece c r).ne_nil
      generalize Lexer.firstPiece c r = piece at hsplit hscan hne
      have hshort : later.length < n := by
        have hpos := List.length_pos_of_ne_nil hne
        have hsum := congrArg List.length hsplit
        rw [List.length_append] at hsum
        omega
      obtain ⟨horder, hlies⟩ := ih later.length hshort (before ++ piece.text) later rfl
      rw [Lexer.skip_append] at horder hlies
      rw [hscan, hsplit]
      cases hreport : Lexer.report? (Location.start.skip before) piece with
      | none =>
        refine ⟨horder, fun u hu => ?_⟩
        obtain ⟨hle, hin⟩ := hlies u hu
        rw [byteLength_append] at hle
        rw [List.append_assoc] at hin
        exact ⟨by omega, hin⟩
      | some found =>
        have hspan := span_report hreport
        have hfound : found.span.LiesIn (before ++ (piece.text ++ later)) := by
          rw [hspan]
          exact Span.liesIn_covering before piece.text later
        have hstart : found.span.start = byteLength before := by
          rw [hspan, Span.start_covering]
        have hstop : found.span.stop = byteLength before + byteLength piece.text := by
          rw [hspan, Span.stop_covering]
        have hpos := byteLength_pos hne
        refine ⟨⟨List.pairwise_cons.mpr ⟨fun u hu => ?_, horder.pairwise⟩, ?_⟩, ?_⟩
        · obtain ⟨hle, -⟩ := hlies u hu
          rw [byteLength_append] at hle
          rw [Span.Before, hstop]
          exact hle
        · intro u hu
          rcases List.mem_cons.mp hu with rfl | hu
          · omega
          · exact horder.nonempty u hu
        · intro u hu
          rcases List.mem_cons.mp hu with rfl | hu
          · exact ⟨by omega, hfound⟩
          · obtain ⟨hle, hin⟩ := hlies u hu
            rw [byteLength_append] at hle
            rw [List.append_assoc] at hin
            exact ⟨by omega, hin⟩

theorem inOrder_scan (text : List Char) : InOrder (Lexer.scan text) :=
  (scanFrom_inOrder [] text).1

theorem liesIn_of_mem_scan {text : List Char} {u : Scanned} (h : u ∈ Lexer.scan text) :
    u.span.LiesIn text :=
  ((scanFrom_inOrder [] text).2 u h).2

theorem span_eof (text : List Char) : (Lexer.eof text).span = .covering text [] := by
  rw [Span.covering, List.append_nil]
  rfl

theorem liesIn_eof (text : List Char) : (Lexer.eof text).span.LiesIn text := by
  have h := Span.liesIn_covering text [] []
  rwa [List.append_nil, List.append_nil, ← span_eof] at h

end ExprCheck
