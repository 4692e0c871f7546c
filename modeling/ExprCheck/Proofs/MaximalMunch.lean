import Mathlib
import ExprCheck.Proofs.LongestPieces
import ExprCheck.Proofs.TokenView

/-!
# Longest match

Wherever the scanner stands in a text, it skips as much as can be skipped and then gives the longest
token that the rest begins with, or an error if no token begins there.

What is skipped is a sequence of runs of blanks and comments. Such a sequence can be cut up in many
ways, since a comment may end anywhere on its line and a run of blanks anywhere. Cutting off the
longest first piece does no harm: what is left of a sequence behind it is a sequence again
(`skip_closed`).
-/

namespace ExprCheck

open Pattern
open scoped Computability

namespace Lexer

/-! ## Sequences of blanks and comments -/

/-- A sequence can be cut wherever each piece that the cut goes through can be cut. -/
theorem kstar_of_append {a b : List Char} (h : a ++ b ∈ skip∗)
    (hcut : ∀ u t, u ≠ [] → t ≠ [] → u <:+ a → t <+: b → u ++ t ∈ skip → t ∈ skip) :
    b ∈ skip∗ := by
  obtain ⟨ws, hws, hskip⟩ := Language.mem_kstar.mp h
  induction ws generalizing a with
  | nil =>
    obtain ⟨-, rfl⟩ := List.append_eq_nil_iff.mp hws
    exact Language.nil_mem_kstar _
  | cons s rest ih =>
    obtain ⟨hs, hrest⟩ := List.forall_mem_cons.mp hskip
    rcases List.append_eq_append_iff.mp hws with ⟨t, hst, hbt⟩ | ⟨t, hat, hflat⟩
    · have hlater : rest.flatten ∈ skip∗ := Language.join_mem_kstar hrest
      by_cases ht : t = []
      · rw [hbt, ht]
        exact hlater
      · have hmem : t ∈ skip := by
          by_cases ha : a = []
          · rwa [hst, ha] at hs
          · exact hcut a t ha ht List.suffix_rfl ⟨_, hbt.symm⟩ (hst ▸ hs)
        rw [hbt]
        exact mem_kstar_append hmem hlater
    · refine ih (hflat ▸ Language.join_mem_kstar hrest) ?_ hflat.symm hrest
      intro u t' hu ht' hsuffix
      exact hcut u t' hu ht' (hsuffix.trans ⟨s, hat.symm⟩)

/-- Behind the longest first piece, a sequence goes on as a sequence. -/
theorem skip_closed {w rest v : List Char} (hw : Longest skip (w ++ rest) w)
    (hv : w ++ v ∈ skip∗) (hpre : v <+: rest) : v ∈ skip∗ := by
  refine kstar_of_append hv ?_
  intro u t hu ht hsuffix htv hut
  have hblanks : u ++ t ∈ blanks → t ∈ skip := by
    intro hut
    exact Or.inl (mem_blanks.mpr ⟨ht, fun c hc => (mem_blanks.mp hut).2 c (by simp [hc])⟩)
  rcases hut with hut | hut
  · exact hblanks hut
  · -- a comment is never cut, neither behind blanks nor in front of the end of its line
    obtain ⟨r, hr, hline⟩ := mem_comment.mp hut
    rcases hw.mem with hmem | hmem
    · obtain ⟨c, u', rfl⟩ := List.exists_cons_of_ne_nil hu
      have hc : isBlank c = true := (mem_blanks.mp hmem).2 c (hsuffix.subset List.mem_cons_self)
      rw [List.cons_append, List.cons.injEq] at hr
      rw [hr.1] at hc
      exact absurd hc (by decide)
    · obtain ⟨d, t', rfl⟩ := List.exists_cons_of_ne_nil ht
      obtain ⟨later, hlater⟩ := htv.trans hpre
      have hd : d ≠ '\n' := by
        have hmem' : d ∈ '/' :: '/' :: r := hr ▸ List.mem_append_right u List.mem_cons_self
        simp only [List.mem_cons] at hmem'
        rcases hmem' with rfl | rfl | hdr
        · decide
        · decide
        · exact hline d hdr
      obtain ⟨r', rfl, hr'⟩ := mem_comment.mp hmem
      have hlonger : '/' :: '/' :: (r' ++ [d]) ∈ skip := by
        refine Or.inr (mem_comment.mpr ⟨_, rfl, ?_⟩)
        intro c hc
        rcases List.mem_append.mp hc with hc | hc
        · exact hr' c hc
        · rw [List.mem_singleton.mp hc]
          exact hd
      have hle := hw.max _ hlonger ⟨t' ++ later, by simp [← hlater]⟩
      simp at hle

theorem longest_kstar_append {w rest blank : List Char} (hw : Longest skip (w ++ rest) w)
    (hblank : Longest skip∗ rest blank) : Longest skip∗ (w ++ rest) (w ++ blank) where
  mem := mem_kstar_append hw.mem hblank.mem
  isPrefix := (List.prefix_append_right_inj w).mpr hblank.isPrefix
  max := by
    intro v hv hpre
    rcases List.prefix_or_prefix_of_prefix hpre (List.prefix_append w rest) with hle | ⟨t, rfl⟩
    · have hle := hle.length_le
      simp only [List.length_append]
      omega
    · have ht := (List.prefix_append_right_inj w).mp hpre
      have hle := hblank.max t (skip_closed hw hv ht) ht
      simp only [List.length_append]
      omega

theorem longest_kstar_nil {input : List Char} (h : Misses skip input) : Longest skip∗ input [] where
  mem := Language.nil_mem_kstar _
  isPrefix := List.nil_prefix
  max := by
    intro v hv hpre
    obtain ⟨ws, rfl, hws⟩ := Language.mem_kstar.mp hv
    cases ws with
    | nil => exact Nat.le_refl _
    | cons s rest =>
      have hs := hws s List.mem_cons_self
      exact absurd ((List.prefix_append s _).trans hpre) (h s hs)

/-! ## Scanning piece by piece -/

theorem skip_append (l : Location) (u v : List Char) : l.skip (u ++ v) = (l.skip u).skip v :=
  List.foldl_append

/-- Counting down to the end of a piece is going on behind it. -/
theorem scanFrom_drop (l : Location) (n : Nat) (input : List Char) :
    scanFrom l n input = scanFrom (l.skip (input.take n)) 0 (input.drop n) := by
  induction input generalizing l n with
  | nil => simp [scanFrom]
  | cons c rest ih =>
    cases n with
    | zero => rfl
    | succ n =>
      rw [scanFrom, ih]
      rfl

theorem Piece.Fits.isPrefix {input : List Char} {piece : Piece} (h : piece.Fits input) :
    piece.text <+: input := by
  cases piece with
  | blank w => exact Longest.isPrefix h
  | token k w => exact h.2.1.isPrefix
  | junk w => exact h.2.2.isPrefix

theorem Piece.Fits.ne_nil {input : List Char} {piece : Piece} (h : piece.Fits input) :
    piece.text ≠ [] := by
  cases piece with
  | blank w => exact skip_ne_nil (Longest.mem h)
  | token k w => exact h.2.2.ne_nil
  | junk w => exact junk_ne_nil h.2.2.mem

theorem scanFrom_firstPiece (l : Location) (c : Char) (rest : List Char) :
    ∃ later, c :: rest = (firstPiece c rest).text ++ later ∧
      scanFrom l 0 (c :: rest) = (report? l (firstPiece c rest)).toList ++
        scanFrom (l.skip (firstPiece c rest).text) 0 later := by
  have hfits := fits_firstPiece c rest
  obtain ⟨later, hlater⟩ := hfits.isPrefix
  obtain ⟨d, w, hw⟩ := List.exists_cons_of_ne_nil hfits.ne_nil
  refine ⟨later, hlater.symm, ?_⟩
  have hcons : d = c ∧ w ++ later = rest := by
    rw [hw] at hlater
    exact List.cons.inj hlater
  have hgo : scanFrom (l.advance c) ((firstPiece c rest).text.length - 1) rest =
      scanFrom (l.skip (firstPiece c rest).text) 0 later := by
    have hlen : (firstPiece c rest).text.length - 1 = w.length := by simp [hw]
    rw [scanFrom_drop, hlen, hw, hcons.1, ← hcons.2, List.take_left, List.drop_left]
    rfl
  rw [scanFrom, hgo]
  cases report? l (firstPiece c rest) <;> rfl

/-- The scanner passes over the longest sequence of blanks and comments without a report. -/
theorem scanFrom_skip (rest : List Char) :
    ∃ blank left, rest = blank ++ left ∧ Longest skip∗ rest blank ∧ Misses skip left ∧
      ∀ l, scanFrom l 0 rest = scanFrom (l.skip blank) 0 left := by
  induction hn : rest.length using Nat.strong_induction_on generalizing rest with
  | _ n ih =>
    cases rest with
    | nil =>
      have hmiss : Misses skip [] := fun v hv hpre => skip_ne_nil hv (List.prefix_nil.mp hpre)
      exact ⟨[], [], rfl, longest_kstar_nil hmiss, hmiss, fun _ => rfl⟩
    | cons c r =>
      have hfits := fits_firstPiece c r
      cases hpiece : firstPiece c r with
      | blank w =>
        rw [hpiece] at hfits
        have hw : Longest skip (c :: r) w := hfits
        have hscan := fun l => scanFrom_firstPiece l c r
        rw [hpiece] at hscan
        obtain ⟨later, hlater⟩ := hw.isPrefix
        have hshort : later.length < n := by
          have hpos := List.length_pos_of_ne_nil (skip_ne_nil hw.mem)
          have hsum := congrArg List.length hlater
          simp only [List.length_append] at hsum
          omega
        obtain ⟨blank, left, hsplit, hlongest, hmiss, hgo⟩ := ih later.length hshort later rfl
        refine ⟨w ++ blank, left, ?_, ?_, hmiss, ?_⟩
        · rw [List.append_assoc, ← hsplit, hlater]
        · rw [← hlater]
          exact longest_kstar_append (hlater.symm ▸ hw) hlongest
        · intro l
          obtain ⟨later', hlater', heq⟩ := hscan l
          obtain rfl : later = later' := List.append_cancel_left (hlater.trans hlater')
          rw [heq, skip_append]
          exact hgo _
      | token k w =>
        rw [hpiece] at hfits
        exact ⟨[], c :: r, rfl, longest_kstar_nil hfits.1, hfits.1, fun _ => rfl⟩
      | junk w =>
        rw [hpiece] at hfits
        exact ⟨[], c :: r, rfl, longest_kstar_nil hfits.1, hfits.1, fun _ => rfl⟩

end Lexer

/-! ## The scanner at its place -/

/-- The scanner stands behind `before` in the text and has `rest` in front of it. -/
structure Stream.Stands (text before rest : List Char) (s : Stream) : Prop where
  split : text = before ++ rest
  pending : s.pending = Lexer.scanFrom (Location.start.skip before) 0 rest
  eof : s.eof = Lexer.eof text

theorem Stream.stands_ofText (text : List Char) : (Stream.ofText text).Stands text [] text :=
  ⟨rfl, rfl, rfl⟩

/-- The stretch of a text that `w` covers behind `before`. -/
def Span.covering (before w : List Char) : Span :=
  .between (Location.start.skip before) (Location.start.skip (before ++ w))

/-- What the scanner gives next where it has skipped all it can, and where it stands then. -/
inductive Stream.Gives (text before left : List Char) (s : Stream) : Prop where
  | eof : left = [] → ReadM.scanNext.run s = .ok (Lexer.eof text) s → Gives text before left s
  | token {k : Kind} {w later : List Char} {s' : Stream} : left = w ++ later →
    Longest Pattern.token left w → k.Names w →
    ReadM.scanNext.run s = .ok ⟨k, .covering before w⟩ s' → s'.Stands text (before ++ w) later →
    Gives text before left s
  | junk {w later : List Char} {s' : Stream} : left = w ++ later →
    Lexer.Misses Pattern.token left → Longest Pattern.junk left w →
    ReadM.scanNext.run s = .error ⟨.junk (String.ofList w), .covering before w⟩ s' →
    s'.Stands text (before ++ w) later → Gives text before left s

theorem report?_token (before : List Char) (k : Kind) (w : List Char) :
    Lexer.report? (Location.start.skip before) (.token k w) =
      some (.token ⟨k, .covering before w⟩) := by
  rw [Span.covering, Lexer.skip_append]
  rfl

theorem report?_junk (before w : List Char) :
    Lexer.report? (Location.start.skip before) (.junk w) =
      some (.junk (String.ofList w) (.covering before w)) := by
  rw [Span.covering, Lexer.skip_append]
  rfl

theorem run_scanNext_junk {s : Stream} {text : String} {span : Span} {rest : List Scanned}
    (h : s.pending = .junk text span :: rest) :
    ReadM.scanNext.run s = .error ⟨.junk text, span⟩ { s with pending := rest } := by
  obtain ⟨buffer, pending, eof, last⟩ := s
  obtain rfl : pending = .junk text span :: rest := h
  rfl

open Lexer in
theorem Stream.Stands.gives {text before rest : List Char} {s : Stream}
    (h : s.Stands text before rest) :
    ∃ blank left, rest = blank ++ left ∧ Longest skip∗ rest blank ∧ Misses skip left ∧
      s.Gives text (before ++ blank) left := by
  obtain ⟨blank, left, hsplit, hlongest, hmiss, hscan⟩ := scanFrom_skip rest
  refine ⟨blank, left, hsplit, hlongest, hmiss, ?_⟩
  have hpending : s.pending = scanFrom (Location.start.skip (before ++ blank)) 0 left := by
    rw [h.pending, hscan, skip_append]
  cases left with
  | nil => exact .eof rfl (ReadM.runs_scanNext.mpr (Or.inl ⟨hpending, h.eof.symm, rfl⟩))
  | cons c r =>
    obtain ⟨later, hlater, hpiece⟩ :=
      scanFrom_firstPiece (Location.start.skip (before ++ blank)) c r
    have hstands : ∀ w, (firstPiece c r).text = w → Stream.Stands text (before ++ blank ++ w) later
        { s with pending := scanFrom (Location.start.skip (before ++ blank ++ w)) 0 later } := by
      rintro w rfl
      refine ⟨?_, rfl, h.eof⟩
      rw [h.split, hsplit, hlater]
      simp
    have hfits := fits_firstPiece c r
    rw [hpiece, ← skip_append] at hpending
    cases hfirst : firstPiece c r with
    | blank w =>
      rw [hfirst] at hfits
      exact absurd (Longest.isPrefix hfits) (hmiss w (Longest.mem hfits))
    | token k w =>
      rw [hfirst] at hfits hpending hlater hstands
      refine .token hlater hfits.2.1 hfits.2.2 ?_ (hstands w rfl)
      rw [report?_token] at hpending
      exact ReadM.runs_scanNext.mpr (Or.inr ⟨_, hpending, rfl⟩)
    | junk w =>
      rw [hfirst] at hfits hpending hlater hstands
      refine .junk hlater hfits.2.1 hfits.2.2 ?_ (hstands w rfl)
      rw [report?_junk] at hpending
      exact run_scanNext_junk hpending

/-- A step of the scanner leads from a place in the text to a place in the text. -/
theorem Stream.Stands.step {text before rest : List Char} {s s' : Stream}
    (h : s.Stands text before rest) (hrun : (∃ t, ReadM.scanNext.run s = .ok t s') ∨
      ∃ e, ReadM.scanNext.run s = .error e s') : ∃ before' rest', s'.Stands text before' rest' := by
  obtain ⟨blank, left, -, -, -, hgives⟩ := h.gives
  rcases hrun with ⟨t, hrun⟩ | ⟨e, hrun⟩
  · cases hgives with
    | eof _ hrun' =>
      cases hrun.symm.trans hrun'
      exact ⟨before, rest, h⟩
    | token _ _ _ hrun' hstands =>
      cases hrun.symm.trans hrun'
      exact ⟨_, _, hstands⟩
    | junk _ _ _ hrun' _ => cases hrun.symm.trans hrun'
  · cases hgives with
    | eof _ hrun' => cases hrun.symm.trans hrun'
    | token _ _ _ hrun' _ => cases hrun.symm.trans hrun'
    | junk _ _ _ hrun' hstands =>
      cases hrun.symm.trans hrun'
      exact ⟨_, _, hstands⟩

/-- The streams that come up while a text is read. Tokens that wait in the buffer are no concern of
the scanner. -/
inductive Stream.Scanning (text : List Char) : Stream → Prop where
  | start : Scanning text (Stream.ofText text)
  | given {s s' : Stream} {t : Token} : Scanning text s → ReadM.scanNext.run s = .ok t s' →
    Scanning text s'
  | failed {s s' : Stream} {e : ReadError} : Scanning text s →
    ReadM.scanNext.run s = .error e s' → Scanning text s'
  | lookahead {s : Stream} (buffer : List Token) (last : Span) : Scanning text s →
    Scanning text { s with buffer := buffer, last := last }

/-- The scanner stands somewhere in its text at all times. -/
theorem Stream.Scanning.stands {text : List Char} {s : Stream} (h : s.Scanning text) :
    ∃ before rest, s.Stands text before rest := by
  induction h with
  | start => exact ⟨[], text, Stream.stands_ofText text⟩
  | given _ hrun ih =>
    obtain ⟨before, rest, hstands⟩ := ih
    exact hstands.step (Or.inl ⟨_, hrun⟩)
  | failed _ hrun ih =>
    obtain ⟨before, rest, hstands⟩ := ih
    exact hstands.step (Or.inr ⟨_, hrun⟩)
  | lookahead buffer last _ ih =>
    obtain ⟨before, rest, hstands⟩ := ih
    exact ⟨before, rest, hstands.split, hstands.pending, hstands.eof⟩

/-! ## Longest match -/

theorem offset_skip_le (l : Location) (w : List Char) : l.offset + w.length ≤ (l.skip w).offset := by
  induction w generalizing l with
  | nil => exact Nat.le_refl _
  | cons c w ih =>
    have hpos := c.utf8Size_pos
    have hle : l.offset + c.utf8Size + w.length ≤ (l.skip (c :: w)).offset := ih (l.advance c)
    rw [List.length_cons]
    omega

/-- Two prefixes of one text that cover the same stretch of it are the same. -/
theorem eq_of_covering_eq {before left v w : List Char} (hv : v <+: left) (hw : w <+: left)
    (h : Span.covering before v = Span.covering before w) : v = w := by
  have hoffset : ((Location.start.skip before).skip v).offset =
      ((Location.start.skip before).skip w).offset := by
    rw [← Lexer.skip_append, ← Lexer.skip_append]
    exact congrArg Span.stop h
  -- of two prefixes one begins with the other, and what it has more would take up room
  have hpre : ∀ {u t : List Char}, ((Location.start.skip before).skip u).offset =
      ((Location.start.skip before).skip (u ++ t)).offset → t = [] := by
    intro u t heq
    have hle := offset_skip_le ((Location.start.skip before).skip u) t
    rw [Lexer.skip_append _ u t] at heq
    exact List.eq_nil_of_length_eq_zero (by omega)
  rcases List.prefix_or_prefix_of_prefix hv hw with ⟨t, rfl⟩ | ⟨t, rfl⟩
  · rw [hpre hoffset, List.append_nil]
  · rw [hpre hoffset.symm, List.append_nil]

/-- The scanner gives a token of the kind `k` that covers `w`, with which the text in front of it
begins, and stands behind it then. -/
def Stream.Finds (text before left : List Char) (k : Kind) (w : List Char) (s : Stream) : Prop :=
  ∃ later s', left = w ++ later ∧ ReadM.scanNext.run s = .ok ⟨k, .covering before w⟩ s' ∧
    s'.Stands text (before ++ w) later

namespace Stream.Gives

variable {text before left : List Char} {s : Stream}

theorem finds_iff (h : s.Gives text before left) {k : Kind} (hk : k ≠ .eof) (w : List Char) :
    s.Finds text before left k w ↔ w ≠ [] ∧ Longest Pattern.token left w ∧ k.Names w := by
  cases h with
  | eof hleft hrun =>
    constructor
    · rintro ⟨later, s', -, hrun', -⟩
      injection hrun.symm.trans hrun' with htoken _
      exact absurd (congrArg Token.kind htoken).symm hk
    · rintro ⟨hne, hlongest, -⟩
      exact absurd hleft (hlongest.input_ne_nil hne)
  | @token k' w' later s' hleft hlongest hnames hrun hstands =>
    constructor
    · rintro ⟨later', s'', hleft', hrun', -⟩
      injection hrun.symm.trans hrun' with htoken _
      injection htoken with hkind hspan
      have hw : w' = w := eq_of_covering_eq hlongest.isPrefix ⟨later', hleft'.symm⟩ hspan
      subst hw hkind
      exact ⟨hnames.ne_nil, hlongest, hnames⟩
    · rintro ⟨-, hlongest', hnames'⟩
      obtain rfl := hlongest.unique hlongest'
      obtain rfl := hnames.unique hnames'
      exact ⟨later, s', hleft, hrun, hstands⟩
  | junk hleft hmiss hlongest hrun hstands =>
    constructor
    · rintro ⟨later', s'', -, hrun', -⟩
      cases hrun.symm.trans hrun'
    · rintro ⟨-, hlongest', -⟩
      exact absurd hlongest'.isPrefix (hmiss w hlongest'.mem)

theorem error_iff (h : s.Gives text before left) :
    (∃ e s', ReadM.scanNext.run s = .error e s') ↔
      left ≠ [] ∧ Lexer.Misses Pattern.token left := by
  cases h with
  | eof hleft hrun =>
    constructor
    · rintro ⟨e, s', hrun'⟩
      cases hrun.symm.trans hrun'
    · rintro ⟨hne, -⟩
      exact absurd hleft hne
  | token hleft hlongest hnames hrun hstands =>
    constructor
    · rintro ⟨e, s', hrun'⟩
      cases hrun.symm.trans hrun'
    · rintro ⟨-, hmiss⟩
      exact absurd hlongest.isPrefix (hmiss _ hlongest.mem)
  | junk hleft hmiss hlongest hrun hstands =>
    have hne := hlongest.input_ne_nil (junk_ne_nil hlongest.mem)
    exact ⟨fun _ => ⟨hne, hmiss⟩, fun _ => ⟨_, _, hrun⟩⟩

theorem eof_iff (h : s.Gives text before left) :
    (∃ t s', ReadM.scanNext.run s = .ok t s' ∧ t.kind = .eof) ↔ left = [] := by
  cases h with
  | eof hleft hrun => exact ⟨fun _ => hleft, fun _ => ⟨_, _, hrun, rfl⟩⟩
  | token hleft hlongest hnames hrun hstands =>
    constructor
    · rintro ⟨t, s', hrun', hkind⟩
      cases hrun.symm.trans hrun'
      obtain rfl : _ = Kind.eof := hkind
      exact hnames.mem.elim
    · intro hnil
      exact absurd hnil (hlongest.input_ne_nil hnames.ne_nil)
  | junk hleft hmiss hlongest hrun hstands =>
    constructor
    · rintro ⟨t, s', hrun', -⟩
      cases hrun.symm.trans hrun'
    · intro hnil
      exact absurd hnil (hlongest.input_ne_nil (junk_ne_nil hlongest.mem))

end Stream.Gives

/-- Wherever the scanner stands, let `left` be what is in front of it behind all that can be skipped.
It gives a token exactly for the longest token that `left` begins with, an error exactly if `left`
is not empty and begins with no token, and the end exactly if all in front of it can be skipped. An
error covers one character, or an opening quote with all complete items behind it. In each case the
scanner goes on behind what it has given. -/
theorem scanNext_longest_match (text before rest : List Char) (s : Stream)
    (h : s.Stands text before rest) :
    ∃ blank left, rest = blank ++ left ∧ Longest skip∗ rest blank ∧
      (∀ k w, k ≠ .eof → (s.Finds text (before ++ blank) left k w ↔
        w ≠ [] ∧ Longest Pattern.token left w ∧ k.Names w)) ∧
      ((∃ e s', ReadM.scanNext.run s = .error e s') ↔
        left ≠ [] ∧ ∀ v, v <+: left → v ∉ Pattern.token + skip) ∧
      (∀ e s', ReadM.scanNext.run s = .error e s' → ∃ w later, left = w ++ later ∧
        Longest Pattern.junk left w ∧
        e = ⟨.junk (String.ofList w), .covering (before ++ blank) w⟩ ∧
        s'.Stands text (before ++ blank ++ w) later) ∧
      ((∃ t s', ReadM.scanNext.run s = .ok t s' ∧ t.kind = .eof) ↔ rest ∈ skip∗) := by
  obtain ⟨blank, left, hsplit, hlongest, hmiss, hgives⟩ := h.gives
  refine ⟨blank, left, hsplit, hlongest, fun k w hk => hgives.finds_iff hk w, ?_, ?_, ?_⟩
  · rw [hgives.error_iff]
    refine and_congr_right fun _ => ⟨?_, ?_⟩
    · rintro htoken v hpre (hv | hv)
      · exact htoken v hv hpre
      · exact hmiss v hv hpre
    · intro hnone v hv hpre
      exact hnone v hpre (Or.inl hv)
  · intro e s' hrun
    cases hgives with
    | eof _ hrun' => cases hrun.symm.trans hrun'
    | token _ _ _ hrun' _ => cases hrun.symm.trans hrun'
    | @junk w later s'' hleft _ hjunk hrun' hstands =>
      cases hrun.symm.trans hrun'
      exact ⟨w, later, hleft, hjunk, rfl, hstands⟩
  · rw [hgives.eof_iff]
    constructor
    · rintro rfl
      rw [hsplit, List.append_nil]
      exact hlongest.mem
    · intro hrest
      have hle := hlongest.max rest hrest (List.prefix_refl rest)
      rw [hsplit, List.length_append] at hle
      exact List.eq_nil_of_length_eq_zero (by omega)

/-- A complex number behind a comment, with a range mark right after it. -/
def rangeText : List Char :=
  ['/', '/', ' ', 'c', '\n', '1', 'i', '2', '.', '.', '3']

open Lexer in
/-- There, the longest token is the number up to the range mark. -/
theorem scanNext_longest_match_rangeText :
    (Stream.ofText rangeText).Stands rangeText [] rangeText ∧
      Longest skip∗ rangeText ['/', '/', ' ', 'c', '\n'] ∧
      (Stream.ofText rangeText).Finds rangeText ['/', '/', ' ', 'c', '\n']
        ['1', 'i', '2', '.', '.', '3'] (.text .complex "1i2") ['1', 'i', '2'] ∧
      Longest Pattern.token ['1', 'i', '2', '.', '.', '3'] ['1', 'i', '2'] := by
  have hstands := Stream.stands_ofText rangeText
  have hnumber : Longest skip∗ ['1', 'i', '2', '.', '.', '3'] [] :=
    longest_kstar_nil (misses_skip (by decide) (by decide))
  have hnewline : Longest skip (['\n'] ++ ['1', 'i', '2', '.', '.', '3']) ['\n'] :=
    longest_blanks rfl _
  have hcomment : Longest skip (['/', '/', ' ', 'c'] ++ ['\n', '1', 'i', '2', '.', '.', '3'])
      ['/', '/', ' ', 'c'] :=
    longest_comment _
  have hskip : Longest skip∗ rangeText ['/', '/', ' ', 'c', '\n'] :=
    longest_kstar_append hcomment (longest_kstar_append hnewline hnumber)
  obtain ⟨blank, left, hsplit, hblank, htoken, -⟩ := scanNext_longest_match rangeText [] _ _ hstands
  obtain rfl := hblank.unique hskip
  have hleft : ['/', '/', ' ', 'c', '\n'] ++ ['1', 'i', '2', '.', '.', '3'] =
      ['/', '/', ' ', 'c', '\n'] ++ left := hsplit
  obtain rfl := List.append_cancel_left hleft
  have hfinds : (Stream.ofText rangeText).Finds rangeText ['/', '/', ' ', 'c', '\n']
      ['1', 'i', '2', '.', '.', '3'] (.text .complex "1i2") ['1', 'i', '2'] :=
    ⟨['.', '.', '3'], _, rfl, rfl, rfl, rfl, rfl⟩
  exact ⟨hstands, hskip, hfinds, ((htoken _ _ (by simp)).mp hfinds).2.1⟩

end ExprCheck
