import Mathlib
import ExprCheck.Proofs.Constants

/-!
# Positions by counting

A line index finds the position of an offset from the offsets at which lines begin. On a boundary
between characters, this is the position that counting gives: newlines for the line, and characters
since the last of them for the column (`Position.counted`). Each character leads to a later position,
so offsets between characters have different positions, in the order of the offsets.

An offset need not lie between characters, or in the text. `LineIndex.position?` goes through the same
steps as `LineIndex.position` and gives up where one of them leaves its range. It never does, as long
as lines and columns of the text can be counted in 32 bits.
-/

namespace ExprCheck

/-! ## Counting -/

namespace Position

/-- The position behind a text that stands at the beginning. -/
def counted (before : List Char) : Position :=
  ⟨1 + before.count '\n', 1 + (before.rtakeWhile (· ≠ '\n')).length⟩

theorem counted_concat (before : List Char) (c : Char) :
    counted (before ++ [c]) = (counted before).after c := by
  by_cases hc : c = '\n'
  · subst hc
    rw [after, if_pos rfl, counted, List.rtakeWhile_concat_neg _ _ _ (by simp)]
    simp [counted, Nat.add_assoc]
  · rw [after, if_neg hc, counted, List.rtakeWhile_concat_pos _ _ _ (by simpa using hc)]
    simp [counted, hc, Nat.add_assoc]

theorem order_eq_lt_iff {p q : Position} :
    p.order q = .lt ↔ p.line < q.line ∨ (p.line = q.line ∧ p.column < q.column) := by
  rw [order, Ordering.then_eq_lt, Nat.compare_eq_lt, Nat.compare_eq_eq, Nat.compare_eq_lt]

theorem order_trans {p q r : Position} (h : p.order q = .lt) (h' : q.order r = .lt) :
    p.order r = .lt := by
  rw [order_eq_lt_iff] at h h' ⊢
  omega

theorem order_self_ne (p : Position) : p.order p ≠ .lt := by
  rw [Ne, order_eq_lt_iff]
  omega

/-- A character leads to a later position, on its line or on the next one. -/
theorem order_after (p : Position) (c : Char) : p.order (p.after c) = .lt := by
  rw [order_eq_lt_iff, after]
  split
  · exact Or.inl (Nat.lt_succ_self _)
  · exact Or.inr ⟨rfl, Nat.lt_succ_self _⟩

end Position

open Text

theorem position_start_skip (before : List Char) :
    (Location.start.skip before).position = .counted before := by
  induction before using List.reverseRecOn with
  | nil => rfl
  | append_singleton before c ih =>
    rw [Lexer.skip_append, Position.counted_concat, ← ih]
    rfl

theorem order_skip (l : Location) {w : List Char} (hw : w ≠ []) :
    l.position.order (l.skip w).position = .lt := by
  induction w generalizing l with
  | nil => exact absurd rfl hw
  | cons c w ih =>
    have hstep : l.position.order (l.advance c).position = .lt := l.position.order_after c
    cases w with
    | nil => exact hstep
    | cons d w => exact Position.order_trans hstep (ih (l.advance c) (by simp))

/-! ## Boundaries -/

namespace Text

/-- A boundary is the end of a piece that the text begins with. -/
theorem exists_append_of_isBoundary {text : List Char} {n : Nat} (h : isBoundary text n = true) :
    ∃ u v, text = u ++ v ∧ byteLength u = n := by
  fun_induction isBoundary text n with
  | case1 text => exact ⟨[], text, rfl, rfl⟩
  | case2 => cases h
  | case3 c rest n ih =>
    simp only [Bool.and_eq_true, decide_eq_true_eq] at h
    obtain ⟨u, v, rfl, hu⟩ := ih h.2
    refine ⟨c :: u, v, rfl, ?_⟩
    rw [byteLength_cons, hu]
    omega

theorem isBoundary_append_add (u v : List Char) (n : Nat) :
    isBoundary (u ++ v) (byteLength u + n) = isBoundary v n := by
  induction u with
  | nil => rw [byteLength_nil, List.nil_append, Nat.zero_add]
  | cons c u ih =>
    have hpos := c.utf8Size_pos
    obtain ⟨m, hm⟩ : ∃ m, byteLength (c :: u) + n = m + 1 :=
      ⟨byteLength (c :: u) + n - 1, by rw [byteLength_cons]; omega⟩
    rw [byteLength_cons] at hm
    have hrest : m + 1 - c.utf8Size = byteLength u + n := by omega
    have hle : c.utf8Size ≤ m + 1 := by omega
    rw [byteLength_cons, hm, List.cons_append, isBoundary, hrest, ih]
    simp [hle]

theorem length_takeBytes_le (text : List Char) (n : Nat) : (takeBytes text n).length ≤ n := by
  fun_induction takeBytes text n with
  | case1 => simp
  | case2 c rest n hle ih =>
    have hpos := c.utf8Size_pos
    rw [List.length_cons]
    omega
  | case3 => simp

end Text

/-! ## The beginnings of lines -/

namespace LineIndex

theorem pairwise_newlineEnds (offset : Nat) (text : List Char) :
    (newlineEnds offset text).Pairwise (· < ·) := by
  induction text generalizing offset with
  | nil => exact .nil
  | cons c rest ih =>
    rw [newlineEnds]
    split
    · exact List.pairwise_cons.mpr ⟨fun n hn => (lt_of_mem_newlineEnds hn).1, ih _⟩
    · exact ih _

theorem pairwise_starts (text : List Char) : (ofText text).starts.Pairwise (· < ·) :=
  List.pairwise_cons.mpr ⟨fun _ hn => (lt_of_mem_newlineEnds hn).1, pairwise_newlineEnds 0 text⟩

theorem length_newlineEnds_le (offset : Nat) (text : List Char) :
    (newlineEnds offset text).length ≤ byteLength text := by
  induction text generalizing offset with
  | nil => exact Nat.le_refl 0
  | cons c rest ih =>
    have hpos := c.utf8Size_pos
    have hrest := ih (offset + c.utf8Size)
    rw [newlineEnds, byteLength_cons]
    split
    · rw [List.length_cons]
      omega
    · omega

/-- Lines begin between characters. -/
theorem exists_append_of_mem_newlineEnds {offset n : Nat} {text : List Char}
    (h : n ∈ newlineEnds offset text) : ∃ u v, text = u ++ v ∧ offset + byteLength u = n := by
  induction text generalizing offset with
  | nil => simp [newlineEnds] at h
  | cons c rest ih =>
    have hlater : n ∈ newlineEnds (offset + c.utf8Size) rest →
        ∃ u v, c :: rest = u ++ v ∧ offset + byteLength u = n := by
      intro hmem
      obtain ⟨u, v, rfl, hu⟩ := ih hmem
      exact ⟨c :: u, v, rfl, by rw [byteLength_cons, ← Nat.add_assoc, hu]⟩
    rw [newlineEnds] at h
    split at h
    · rcases List.mem_cons.mp h with rfl | h
      · exact ⟨[c], rest, rfl, rfl⟩
      · exact hlater h
    · exact hlater h

theorem exists_append_of_mem_starts {n : Nat} {text : List Char}
    (h : n ∈ (ofText text).starts) : ∃ u v, text = u ++ v ∧ byteLength u = n := by
  rcases List.mem_cons.mp h with rfl | h
  · exact ⟨[], text, rfl, rfl⟩
  · obtain ⟨u, v, hsplit, hu⟩ := exists_append_of_mem_newlineEnds h
    exact ⟨u, v, hsplit, by rw [← hu, Nat.zero_add]⟩

/-- In ascending order, the numbers up to a bound come first. -/
theorem split_ascending {ns : List Nat} (h : ns.Pairwise (· < ·)) (bound : Nat) :
    (ns.takeWhile (· ≤ bound)).length = ns.countP (· ≤ bound) ∧
      ∀ n ∈ ns.dropWhile (· ≤ bound), bound < n := by
  induction ns with
  | nil => simp
  | cons n ns ih =>
    obtain ⟨hn, hns⟩ := List.pairwise_cons.mp h
    by_cases hle : n ≤ bound
    · obtain ⟨hlength, hrest⟩ := ih hns
      rw [List.takeWhile_cons_of_pos (by simpa using hle),
        List.dropWhile_cons_of_pos (by simpa using hle), List.countP_cons_of_pos (by simpa using hle),
        List.length_cons, hlength]
      exact ⟨rfl, hrest⟩
    · have hlater : ∀ m ∈ n :: ns, bound < m := by
        intro m hm
        rcases List.mem_cons.mp hm with rfl | hm
        · omega
        · have hlt := hn m hm
          omega
      have hcount : (n :: ns).countP (· ≤ bound) = 0 :=
        List.countP_eq_zero.mpr fun m hm => by simpa using hlater m hm
      rw [hcount]
      simpa [List.takeWhile_cons, List.dropWhile_cons, hle] using hlater

/-! ## Steps that may leave their range -/

/-- A difference, unless it is negative. -/
def minus? (m n : Nat) : Option Nat := if n ≤ m then some (m - n) else none

/-- A number, unless it takes more than 32 bits. -/
def word? (n : Nat) : Option Nat := if n < 2 ^ 32 then some n else none

/-- The line that holds an offset, counted from zero, if there is one and the lines that begin at or
before the offset come before all others. -/
def lineAt? (index : LineIndex) (offset : Nat) : Option Nat :=
  if ∀ start ∈ index.starts.dropWhile (· ≤ offset), offset < start then
    minus? (index.starts.takeWhile (· ≤ offset)).length 1
  else none

/-- The position of an offset, unless one of the steps that find it leaves its range. -/
def position? (index : LineIndex) (offset : Nat) : Option Position := do
  let offset := min offset (byteLength index.text)
  let line ← index.lineAt? offset
  let start ← index.starts[line]?
  let column ← ((Literal.slice? index.text start offset).map List.length).or (minus? offset start)
  return ⟨← word? (line + 1), ← word? (column + 1)⟩

/-- The first line begins at or before any offset. -/
theorem countP_starts_pos (text : List Char) (offset : Nat) :
    1 ≤ (ofText text).starts.countP (· ≤ offset) :=
  List.countP_pos_iff.mpr ⟨0, List.mem_cons_self, by simp⟩

theorem lineAt?_eq (text : List Char) (offset : Nat) :
    (ofText text).lineAt? offset = some ((ofText text).lineAt offset) := by
  obtain ⟨hlength, hlater⟩ := split_ascending (pairwise_starts text) offset
  rw [lineAt?, if_pos hlater, hlength, minus?, if_pos (countP_starts_pos text offset), lineAt]

/-- The line of an offset exists and begins at or before it. -/
theorem lineStart_lineAt (text : List Char) (offset : Nat) :
    (ofText text).starts[(ofText text).lineAt offset]? =
        some ((ofText text).lineStart ((ofText text).lineAt offset)) ∧
      (ofText text).lineStart ((ofText text).lineAt offset) ≤ offset := by
  have hpos := countP_starts_pos text offset
  obtain ⟨hlength, -⟩ := split_ascending (pairwise_starts text) offset
  have hlt : (ofText text).lineAt offset <
      ((ofText text).starts.takeWhile (· ≤ offset)).length := by
    rw [hlength, lineAt]
    omega
  have hget : (ofText text).starts[(ofText text).lineAt offset]? =
      some ((ofText text).starts.takeWhile (· ≤ offset))[(ofText text).lineAt offset] := by
    conv_lhs => rw [← List.takeWhile_append_dropWhile (p := (· ≤ offset)) (l := (ofText text).starts)]
    rw [List.getElem?_append_left hlt, List.getElem?_eq_getElem hlt]
  have hmem := List.mem_takeWhile_imp (List.getElem_mem hlt)
  have hstart : (ofText text).lineStart ((ofText text).lineAt offset) =
      ((ofText text).starts.takeWhile (· ≤ offset))[(ofText text).lineAt offset] := by
    rw [lineStart, List.getD_eq_getElem?_getD, hget]
    rfl
  rw [hstart]
  exact ⟨hget, by simpa using hmem⟩

/-- The column, counted from zero, that is the given number of bytes into a line. -/
def columnIn (line : List Char) (n : Nat) : Nat :=
  if isBoundary line n then (takeBytes line n).length else n

theorem columnIn_le (line : List Char) (n : Nat) : columnIn line n ≤ n := by
  unfold columnIn
  split
  · exact length_takeBytes_le line n
  · exact Nat.le_refl n

/-- Lines begin between characters, so what stands before an offset on its line can be cut out of the
text if the offset lies between characters too. -/
theorem column?_eq {text : List Char} {start offset : Nat} (hstart : start ∈ (ofText text).starts)
    (hle : start ≤ offset) (hoffset : offset ≤ byteLength text) :
    ((Literal.slice? text start offset).map List.length).or (minus? offset start) =
      some (columnIn (dropBytes text start) (offset - start)) := by
  obtain ⟨u, v, rfl, rfl⟩ := exists_append_of_mem_starts hstart
  have hboundary := isBoundary_append_add u v (offset - byteLength u)
  rw [Nat.add_sub_cancel' hle] at hboundary
  simp only [Literal.slice?, slice, columnIn, minus?, dropBytes_append, isBoundary_append, hboundary,
    hle, hoffset, decide_true, Bool.true_and, if_true]
  split
  · rfl
  · rfl

theorem lineAt_le (text : List Char) (offset : Nat) :
    (ofText text).lineAt offset ≤ byteLength text := by
  have hcount : (ofText text).starts.countP (· ≤ offset) ≤ (ofText text).starts.length :=
    List.countP_le_length
  have hlength : (ofText text).starts.length = (newlineEnds 0 text).length + 1 := rfl
  have hends := length_newlineEnds_le 0 text
  rw [lineAt]
  omega

theorem word?_of_le {m n : Nat} (hm : m < 2 ^ 32 - 1) (hn : n ≤ m) : word? (n + 1) = some (n + 1) :=
  if_pos (by omega)

/-- No step leaves its range, whatever the offset is. -/
theorem position?_eq {text : List Char} (h : byteLength text < 2 ^ 32 - 1) (offset : Nat) :
    (ofText text).position? offset = some ((ofText text).position offset) := by
  have hmin : min offset (byteLength text) ≤ byteLength text := Nat.min_le_right _ _
  have htext : (ofText text).text = text := rfl
  unfold position? position
  rw [htext]
  generalize min offset (byteLength text) = o at hmin ⊢
  obtain ⟨hget, hle⟩ := lineStart_lineAt text o
  have hcolumn := column?_eq (List.mem_of_getElem? hget) hle hmin
  have hwidth := columnIn_le (dropBytes text ((ofText text).lineStart ((ofText text).lineAt o)))
    (o - (ofText text).lineStart ((ofText text).lineAt o))
  simp only [Option.bind_eq_bind, lineAt?_eq, Option.bind_some, hget, hcolumn,
    word?_of_le h (lineAt_le text o), word?_of_le h (Nat.le_trans hwidth (by omega))]
  rfl

/-! ## The positions of boundaries -/

variable {text : List Char}

theorem position_of_le {offset : Nat} (h : byteLength text ≤ offset) :
    (ofText text).position offset = (ofText text).position (byteLength text) := by
  have hend : min offset (byteLength (ofText text).text) =
      min (byteLength text) (byteLength (ofText text).text) := by
    rw [show (ofText text).text = text from rfl, Nat.min_eq_right h, Nat.min_self]
  unfold position
  rw [hend]

/-- Later boundaries have later positions. -/
theorem order_position {offset offset' : Nat} (h : isBoundary text offset = true)
    (h' : isBoundary text offset' = true) (hlt : offset < offset') :
    ((ofText text).position offset).order ((ofText text).position offset') = .lt := by
  obtain ⟨u, rest, rfl, rfl⟩ := exists_append_of_isBoundary h
  obtain ⟨v, rest', hsplit, rfl⟩ := exists_append_of_isBoundary h'
  -- the longer of two pieces that a text begins with begins with the shorter one
  obtain ⟨w, rfl⟩ : ∃ w, v = u ++ w := by
    rcases List.append_eq_append_iff.mp hsplit with ⟨w, hv, -⟩ | ⟨w, hu, -⟩
    · exact ⟨w, hv⟩
    · rw [hu, byteLength_append] at hlt
      omega
  have hw : w ≠ [] := by
    rintro rfl
    simp at hlt
  have hlater := position_skip (u ++ w) rest'
  rw [← hsplit, Lexer.skip_append] at hlater
  rw [position_skip, hlater]
  exact order_skip _ hw

theorem position_injective {offset offset' : Nat} (h : isBoundary text offset = true)
    (h' : isBoundary text offset' = true)
    (heq : (ofText text).position offset = (ofText text).position offset') : offset = offset' := by
  rcases Nat.lt_trichotomy offset offset' with hlt | hsame | hlt
  · have hlater := order_position h h' hlt
    rw [heq] at hlater
    exact absurd hlater (Position.order_self_ne _)
  · exact hsame
  · have hlater := order_position h' h hlt
    rw [heq] at hlater
    exact absurd hlater (Position.order_self_ne _)

/-- Between characters, the position of an offset is what counting gives; past the end, it is that of
the end. Offsets between characters have different positions, in the order of the offsets. No offset
at all, between characters or not, makes a step leave its range. -/
theorem position_counted (h : byteLength text < 2 ^ 32 - 1) :
    (∀ before rest, text = before ++ rest →
      (ofText text).position (byteLength before) =
        ⟨1 + before.count '\n', 1 + (before.rtakeWhile (· ≠ '\n')).length⟩) ∧
    (∀ offset, byteLength text ≤ offset →
      (ofText text).position offset = (ofText text).position (byteLength text)) ∧
    (∀ offset offset', isBoundary text offset = true → isBoundary text offset' = true →
      (offset < offset' →
        ((ofText text).position offset).order ((ofText text).position offset') = .lt) ∧
      ((ofText text).position offset = (ofText text).position offset' → offset = offset')) ∧
    ∀ offset, (ofText text).position? offset = some ((ofText text).position offset) := by
  refine ⟨?_, fun offset => position_of_le,
    fun offset offset' h h' => ⟨order_position h h', position_injective h h'⟩, position?_eq h⟩
  rintro before rest rfl
  rw [position_skip, position_start_skip, Position.counted]

/-- Three lines with letters of several bytes, the last one empty. Offset 6 lies behind the first
letter of the second line, offset 4 inside it, and offset 100 past the end. -/
theorem position_counted_severalBytes :
    (ofText "é\n∀x\n".toList).position 6 = ⟨2, 2⟩ ∧
    (ofText "é\n∀x\n".toList).position 100 = (ofText "é\n∀x\n".toList).position 8 ∧
    ((ofText "é\n∀x\n".toList).position 7).order ((ofText "é\n∀x\n".toList).position 8) = .lt ∧
    (ofText "é\n∀x\n".toList).position? 4 = some ⟨2, 2⟩ := by
  have hshort : byteLength "é\n∀x\n".toList < 2 ^ 32 - 1 := by decide +kernel
  obtain ⟨hcounted, hend, hordered, hrange⟩ := position_counted hshort
  refine ⟨?_, ?_, ?_, ?_⟩
  · exact hcounted "é\n∀".toList "x\n".toList rfl
  · exact hend 100 (by decide +kernel)
  · exact (hordered 7 8 (by decide +kernel) (by decide +kernel)).1 (by decide)
  · exact (hrange 4).trans (by decide +kernel)

end LineIndex

end ExprCheck
