import Mathlib
import ExprCheck.Proofs.Lookahead

/-!
# Tokens, junk and what lies between them

If tokens are taken one after the other, and taking goes on behind junk, the whole text is passed
through once. Each token shows the characters it covers, junk does so too, and what lies between them
is blank: `Cuts` says how a text is cut up from a place on, with each stretch of blanks as long as it
can be. Since nothing that is reported is empty, the end comes after as many reports as the text has
bytes at the latest, and it stays.
-/

namespace ExprCheck

open Pattern Text ReadM
open scoped Computability

/-- The characters from one offset to another. -/
def Text.slice (text : List Char) (start stop : Nat) : List Char :=
  takeBytes (dropBytes text start) (stop - start)

theorem Text.slice_append (u v w : List Char) :
    slice (u ++ (v ++ w)) (byteLength u) (byteLength u + byteLength v) = v := by
  rw [slice, dropBytes_append, Nat.add_sub_cancel_left, takeBytes_append]

/-- The characters that a report is about, as it shows them. -/
def Scanned.shown : Scanned → List Char
  | .token t => t.kind.render.toList
  | .junk text _ => text.toList

/-- A token shows the text that names its kind. -/
theorem Kind.Names.toList_render {k : Kind} {w : List Char} (h : k.Names w) :
    k.render.toList = w := by
  cases k with
  | keyword kw => exact (show w = kw.text.toList from h.mem).symm
  | punct p =>
    rw [Kind.render, Punct.text, String.toList_ofList]
    exact (show w = p.chars from h.mem).symm
  | text cls s => rw [Kind.render, h.text cls s rfl, String.toList_ofList]
  | eof => exact h.mem.elim

/-! ## Cutting up a text -/

/-- How what stands behind `before` is cut up: blanks, the text of a report, and so on. -/
inductive Cuts : List Char → List Char → List Scanned → Prop where
  | done {before rest : List Char} : rest ∈ skip∗ → Cuts before rest []
  | report {before blank later : List Char} {u : Scanned} {us : List Scanned} :
    Longest skip∗ (blank ++ (u.shown ++ later)) blank → u.shown ≠ [] →
    u.span = .covering (before ++ blank) u.shown → Cuts (before ++ blank ++ u.shown) later us →
    Cuts before (blank ++ (u.shown ++ later)) (u :: us)

open Lexer in
theorem cuts_scanFrom (before rest : List Char) :
    Cuts before rest (scanFrom (Location.start.skip before) 0 rest) := by
  induction hn : rest.length using Nat.strong_induction_on generalizing before rest with
  | _ n ih =>
    obtain ⟨blank, left, rfl, hlongest, hmiss, hscan⟩ := scanFrom_skip rest
    rw [hscan]
    cases left with
    | nil =>
      rw [List.append_nil]
      exact .done hlongest.mem
    | cons c r =>
      rw [← skip_append]
      obtain ⟨later, hlater, hpiece⟩ :=
        scanFrom_firstPiece (Location.start.skip (before ++ blank)) c r
      have hfits := fits_firstPiece c r
      have hne := hfits.ne_nil
      generalize firstPiece c r = piece at hlater hpiece hfits hne
      have hshort : later.length < n := by
        have hpos := List.length_pos_of_ne_nil hne
        rw [← hn, hlater]
        simp only [List.length_append]
        omega
      have hrest := ih later.length hshort (before ++ blank ++ piece.text) later rfl
      -- blanks have been passed over, so that the piece is reported and the report shows it
      have hreport : ∃ u, report? (Location.start.skip (before ++ blank)) piece = some u ∧
          u.shown = piece.text := by
        cases piece with
        | blank w => exact absurd (Longest.isPrefix hfits) (hmiss w (Longest.mem hfits))
        | token k w => exact ⟨_, report?_token _ k w, hfits.2.2.toList_render⟩
        | junk w => exact ⟨_, report?_junk _ w, String.toList_ofList⟩
      obtain ⟨u, hu, hshown⟩ := hreport
      rw [← hshown] at hlater hne hrest hpiece
      rw [hlater] at hlongest
      rw [hpiece, hu, ← skip_append, hlater]
      refine .report hlongest hne ?_ hrest
      rw [hshown]
      exact span_report hu

namespace Cuts

variable {before rest : List Char} {us : List Scanned}

/-- Every report takes up room. -/
theorem length_le (h : Cuts before rest us) : us.length ≤ byteLength rest := by
  induction h with
  | done _ => exact Nat.zero_le _
  | report _ hne _ _ ih =>
    have hpos := byteLength_pos hne
    simp only [List.length_cons, byteLength_append]
    omega

/-- What a report shows is what stands in its place. -/
theorem shown_eq_slice (h : Cuts before rest us) :
    ∀ u ∈ us, u.shown = slice (before ++ rest) u.span.start u.span.stop := by
  induction h with
  | done _ => simp
  | @report before blank later u us hlongest hne hspan _ ih =>
    intro v hv
    rcases List.mem_cons.mp hv with rfl | hv
    · have hslice := slice_append (before ++ blank) v.shown later
      rw [hspan, Span.start_covering, Span.stop_covering, ← List.append_assoc before, hslice]
    · have hslice := ih v hv
      simp only [List.append_assoc] at hslice
      exact hslice

end Cuts

/-- Where the stretches between some spans begin and end, with the stretch before the first span and
the one behind the last. -/
def gapsFrom (stop : Nat) : Nat → List Span → List (Nat × Nat)
  | start, [] => [(start, stop)]
  | start, s :: rest => (start, s.start) :: gapsFrom stop s.stop rest

/-- The gaps between the reports of a text. -/
def gaps (text : List Char) (us : List Scanned) : List (Nat × Nat) :=
  gapsFrom (byteLength text) 0 (us.map Scanned.span)

/-- The stretch is all that can be skipped where it begins. -/
def Blank (text : List Char) (gap : Nat × Nat) : Prop :=
  Longest skip∗ (dropBytes text gap.1) (slice text gap.1 gap.2)

theorem blank_append {u v w : List Char} (h : Longest skip∗ (v ++ w) v) :
    Blank (u ++ (v ++ w)) (byteLength u, byteLength (u ++ v)) := by
  rw [Blank, byteLength_append, slice_append, dropBytes_append]
  exact h

/-- Between reports nothing but blanks and comments is passed over. -/
theorem Cuts.blank {before rest : List Char} {us : List Scanned} (h : Cuts before rest us) :
    ∀ gap ∈ gapsFrom (byteLength (before ++ rest)) (byteLength before) (us.map Scanned.span),
      Blank (before ++ rest) gap := by
  induction h with
  | @done before rest hrest =>
    intro gap hgap
    rw [List.mem_singleton.mp hgap]
    have hall : Longest skip∗ (rest ++ []) rest :=
      ⟨hrest, List.prefix_append _ _, fun v _ hv => by simpa using hv.length_le⟩
    simpa using blank_append (u := before) hall
  | @report before blank later u us hlongest hne hspan _ ih =>
    intro gap hgap
    rw [List.map_cons, gapsFrom, hspan, Span.start_covering, Span.stop_covering] at hgap
    rcases List.mem_cons.mp hgap with rfl | hgap
    · exact blank_append hlongest
    · have hsplit : before ++ (blank ++ (u.shown ++ later)) =
          before ++ blank ++ u.shown ++ later := by simp
      rw [hsplit, ← byteLength_append] at hgap
      rw [hsplit]
      exact ih gap hgap

/-! ## Taking one token after the other -/

/-- The reports come up one by one, and then the end again and again. -/
theorem replies_next_pending {s : Stream} (hb : s.buffer = []) (m : Nat) :
    next.replies (s.pending.length + m) s =
      s.pending.map Scanned.reply ++ List.replicate m (.ok s.eof) := by
  obtain ⟨buffer, pending, eof, last⟩ := s
  obtain rfl : buffer = [] := hb
  induction pending generalizing last with
  | nil =>
    rw [List.length_nil, Nat.zero_add, List.map_nil, List.nil_append]
    induction m generalizing last with
    | zero => rfl
    | succ m ih =>
      rw [replies, List.replicate_succ]
      exact congrArg (_ :: ·) (ih _)
  | cons u rest ih =>
    rw [List.length_cons, Nat.add_right_comm, replies, List.map_cons, List.cons_append]
    cases u <;> exact congrArg (_ :: ·) (ih _)

/-- Taking tokens from a text, and going on after errors, comes to the end of the text after as many
reports as the text has bytes at the latest, and then the end comes again and again. The reports
before it are not empty and stand one behind the other, from one character boundary to another. Each
shows the characters it covers, and there are only blanks and comments between them. -/
theorem next_lossless (text : List Char) :
    ∃ us : List Scanned, us.length ≤ byteLength text ∧
      (∀ m, next.replies (us.length + m) (Stream.ofText text) =
        us.map Scanned.reply ++ List.replicate m (.ok (Lexer.eof text))) ∧
      (∀ t, .token t ∈ us → t.kind ≠ .eof) ∧
      (Lexer.eof text).kind = .eof ∧
      (Lexer.eof text).span.start = byteLength text ∧
      (Lexer.eof text).span.stop = byteLength text ∧
      InOrder us ∧
      (∀ u ∈ us, u.span.LiesIn text ∧ u.shown = slice text u.span.start u.span.stop) ∧
      ∀ gap ∈ gaps text us, Blank text gap := by
  have hcuts : Cuts [] text (Lexer.scan text) := cuts_scanFrom [] text
  have hreplies := replies_next_pending (s := Stream.ofText text) rfl
  refine ⟨Lexer.scan text, hcuts.length_le, hreplies, (shows_ofText text).tokens, rfl,
    ?_, ?_, inOrder_scan text, fun u hu => ⟨liesIn_of_mem_scan hu, hcuts.shown_eq_slice u hu⟩,
    hcuts.blank⟩
  · rw [span_eof, Span.start_covering]
  · rw [span_eof, Span.stop_covering]
    rfl

-- a string that a backslash at the end of a line breaks off is junk up to there, the backslash is
-- junk of its own, and the next line is read as if nothing had happened
example : (next.replies 4 (Stream.ofText "\"a b\\\nc".toList)).map (Except.map Token.kind) =
    [.error ⟨.junk "\"a b", ⟨0, 4, ⟨1, 1⟩⟩⟩, .error ⟨.junk "\\", ⟨4, 5, ⟨1, 5⟩⟩⟩,
      .ok (.text .identifier "c"), .ok .eof] := by decide +kernel

end ExprCheck
