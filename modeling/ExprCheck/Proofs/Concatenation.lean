import Mathlib
import ExprCheck.Proofs.GrammarRereading
import ExprCheck.Proofs.Moving
import ExprCheck.Proofs.ScanAppend

/-!
# Files one behind the other

Two files can be put together into one, with a line end between them, and checking this one is
checking the first and then the second. The declarations of the first are read as before, although
the text goes on where it ended; those of the second are read as before, although they stand further
down.
-/

namespace ExprCheck

open ReadM

namespace Grammar

/-! ## The tokens of a program -/

theorem IsDeclarations.length_le {ks : List Kind} {ds : List Declaration}
    (h : IsDeclarations ks ds) : ds.length ≤ ks.length := by
  induction h with
  | nil => exact Nat.le_refl 0
  | cons hd _ _ ih =>
    cases hd
    simp only [List.length_cons, List.length_append]
    omega

/-- A program begins with a name, if there is anything in it. -/
theorem IsDeclarations.terminal_head {k : Kind} {ks : List Kind} {ds : List Declaration}
    (h : IsDeclarations (k :: ks) ds) : k.terminal = anyIdentifier.terminal := by
  generalize hks : k :: ks = found at h
  cases h with
  | nil => cases hks
  | cons hd _ _ =>
    cases hd
    cases hks
    rfl

theorem runs_read_iff {s s' : Stream} {p : Program} :
    Runs Program.read s p s' ↔ ∃ start s₁ s₂ stop, Runs peek s start s₁ ∧
      Runs (declarations (level (s.remaining + 1)) (s.remaining + 2)) s₁ p.declarations s₂ ∧
      Runs peek s₂ stop s' ∧ p.span = start.span.merge stop.span := by
  unfold Program.read outermost
  constructor
  · intro hrun
    obtain ⟨outer, s₁, houter, hrun⟩ := runs_bind.mp hrun
    rw [runs_get_bind] at houter
    obtain ⟨rfl, rfl⟩ := runs_pure.mp houter
    obtain ⟨start, s₂, hstart, hrun⟩ := runs_bind.mp hrun
    obtain ⟨ds, s₃, hds, hrun⟩ := runs_bind.mp hrun
    obtain ⟨stop, _, hstop, hrun⟩ := runs_bind.mp hrun
    obtain ⟨rfl, rfl⟩ := runs_pure.mp hrun
    rw [level_rounds] at hds
    exact ⟨start, s₂, s₃, stop, hstart, hds, hstop, rfl⟩
  · rintro ⟨start, s₁, s₂, stop, hstart, hds, hstop, hspan⟩
    obtain ⟨span, ds⟩ := p
    obtain rfl : span = _ := hspan
    refine runs_bind.mpr ⟨_, s, runs_get_bind.mpr (runs_pure.mpr ⟨rfl, rfl⟩), ?_⟩
    refine runs_bind.mpr ⟨start, s₁, hstart, runs_bind.mpr ⟨ds, s₂, ?_, ?_⟩⟩
    · rw [level_rounds]
      exact hds
    · exact runs_bind.mpr ⟨stop, s', hstop, runs_pure.mpr ⟨rfl, rfl⟩⟩

/-- How the declarations of a text are read: behind a look at its first token, with a round for each
token and two to spare. -/
theorem declarations_of_ofText {text : List Char} {p : Program} (h : Program.ofText text = .ok p) :
    ∃ ts s s', Lexer.scan text = ts.map .token ∧ s.Holds ts ∧
      Runs (declarations (level (ts.length + 1)) (ts.length + 2)) s p.declarations s' ∧
      IsDeclarations (ts.map Token.kind) p.declarations := by
  obtain ⟨s₄, hrun⟩ := ofText_eq_ok_iff.mp h
  obtain ⟨ks, ⟨ts, hts, rfl⟩, -, hks⟩ := runs_program (Stream.lexed_ofText text) hrun
  rw [List.append_nil] at hts
  have hholds : (Stream.ofText text).Holds ts := by
    have hshow := shows_ofText text
    rw [hts] at hshow
    exact hshow
  have hremaining : (Stream.ofText text).remaining = ts.length := by
    simp [Stream.remaining, Stream.ofText, hts]
  obtain ⟨start, s₂, s₃, stop, hstart, hds, -, -⟩ := runs_read_iff.mp hrun
  rw [hremaining] at hds
  exact ⟨ts, s₂, s₃, hts, looks_peek hholds hstart, hds, hks⟩

/-! ## Reading both -/

/-- Tokens that others follow. -/
def leading (more : List Token)
    (hname : ∀ t rest, more = t :: rest → t.kind.terminal = anyIdentifier.terminal) : Setting where
  move := id
  more := more
  exact := False
  merge := fun _ _ => rfl
  name := hname
  alone := False.elim

/-- Tokens behind another text. -/
def trailing (text : List Char) : Setting :=
  .ofMove (Span.behind text) (Span.shift_merge _ _) False

theorem runs_declarations_nil {m : Level} {s : Stream} (hs : s.Holds []) (k : Nat) :
    ∃ s', Runs (declarations m (k + 1)) s [] s' ∧ s'.Holds [] := by
  obtain ⟨s', hpeek, hs', -, -⟩ := exists_runs_peek hs
  refine ⟨s', runs_bind.mpr ⟨_, s', hpeek, ?_⟩, hs'⟩
  have hkind : (([] : List Token).headD s.eof).kind = .eof := hs.eof
  rw [hkind]
  exact runs_pure.mpr ⟨rfl, rfl⟩

/-- The tokens of both texts, those of the second one moved. -/
theorem scan_of_both {text text' : List Char} {ts ts' : List Token}
    (h : Lexer.scan text = ts.map .token) (h' : Lexer.scan text' = ts'.map .token) :
    Lexer.scan (text ++ '\n' :: text') =
      (ts ++ ts'.map (Token.move (Span.behind text))).map .token := by
  rw [scan_append h, h', List.map_append, List.map_map, List.map_map]
  rfl

/-- A stream that shows both is read as the declarations of both. -/
theorem runs_declarations_both {text : List Char} {ts ts' : List Token} {n n' : Nat}
    {ds ds' : List Declaration} {s s₁ s' s₁' t : Stream} (hs : s.Holds ts) (hs' : s'.Holds ts')
    (hrun : Runs (declarations (level (ts.length + 1)) n) s ds s₁)
    (hrun' : Runs (declarations (level (ts'.length + 1)) n') s' ds' s₁')
    (hks : IsDeclarations (ts.map Token.kind) ds) (hks' : IsDeclarations (ts'.map Token.kind) ds')
    (ht : t.Holds (ts ++ ts'.map (Token.move (Span.behind text)))) :
    ∃ t', t'.Holds [] ∧
      Runs (declarations (level (ts.length + ts'.length + 1)) (ts.length + ts'.length + 2)) t
        (ds ++ ds'.map (Declaration.edit (.moving (Span.behind text)))) t' := by
  have hname : ∀ u rest, ts'.map (Token.move (Span.behind text)) = u :: rest →
      u.kind.terminal = anyIdentifier.terminal := by
    intro u rest hmore
    obtain ⟨v, vs, rfl, rfl, -⟩ := List.map_eq_cons_iff.mp hmore
    exact hks'.terminal_head
  have hfacing : (leading _ hname).Facing s t := by
    refine ⟨⟨ts, hs, ?_⟩, False.elim⟩
    show t.Holds (ts.map id ++ ts'.map (Token.move (Span.behind text)))
    rw [List.map_id]
    exact ht
  have hlevels : Levels (leading _ hname) (level (ts.length + 1))
      (level (ts.length + ts'.length + 1)) := levels ⟨by omega, False.elim⟩
  obtain ⟨t₁, ht₁, happend⟩ := runs_declarations_append hlevels hfacing hrun
  have hfacing' : (trailing text).Facing s' t₁ := by
    refine ⟨⟨ts', hs', ?_⟩, False.elim⟩
    show t₁.Holds (ts'.map (Token.move (Span.behind text)) ++ [])
    rw [List.append_nil]
    exact ht₁
  have hlevels' : Levels (trailing text) (level (ts'.length + 1))
      (level (ts.length + ts'.length + 1)) := levels ⟨by omega, False.elim⟩
  obtain ⟨t₂, ht₂, happend'⟩ := runs_declarations_append hlevels' hfacing' hrun'
  -- every declaration takes a token, so there are enough rounds
  have hlength := hks.length_le
  have hlength' := hks'.length_le
  rw [List.length_map] at hlength hlength'
  obtain ⟨t₃, hend, ht₃⟩ := runs_declarations_nil (m := level (ts.length + ts'.length + 1)) ht₂
    (ts.length + ts'.length + 1 - ds.length - ds'.length)
  have hrounds : ts.length + ts'.length + 2 = ds.length + (ds'.length +
      (ts.length + ts'.length + 1 - ds.length - ds'.length + 1)) := by omega
  have hsame : ds.map (Declaration.edit (leading _ hname).edit) = ds := by
    show ds.map (Declaration.edit (.moving id)) = ds
    rw [Edit.moving_id, Declaration.map_edit_same]
  have hboth := happend _ _ _ (happend' _ _ _ hend)
  rw [hsame, List.append_nil, ← hrounds] at hboth
  exact ⟨t₃, ht₃, hboth⟩

theorem ofText_append {text text' : List Char} {p p' : Program}
    (h : Program.ofText text = .ok p) (h' : Program.ofText text' = .ok p') :
    ∃ q, Program.ofText (text ++ '\n' :: text') = .ok q ∧
      q.declarations =
        p.declarations ++ p'.declarations.map (Declaration.edit (.moving (Span.behind text))) := by
  obtain ⟨ts, s, _, hscan, hs, hrun, hks⟩ := declarations_of_ofText h
  obtain ⟨ts', s', _, hscan', hs', hrun', hks'⟩ := declarations_of_ofText h'
  have hboth := scan_of_both hscan hscan'
  have ht : (Stream.ofText (text ++ '\n' :: text')).Holds
      (ts ++ ts'.map (Token.move (Span.behind text))) := by
    have hshow := shows_ofText (text ++ '\n' :: text')
    rw [hboth] at hshow
    exact hshow
  have hremaining : (Stream.ofText (text ++ '\n' :: text')).remaining =
      ts.length + ts'.length := by
    simp [Stream.remaining, Stream.ofText, hboth]
  obtain ⟨t₁, hstart, ht₁, -, -⟩ := exists_runs_peek ht
  obtain ⟨t₂, ht₂, hds⟩ := runs_declarations_both hs hs' hrun hrun' hks hks' ht₁
  obtain ⟨t₃, hstop, -, -, -⟩ := exists_runs_peek ht₂
  rw [← hremaining] at hds
  have hread : Runs Program.read _ ⟨Span.merge _ _, _⟩ t₃ :=
    runs_read_iff.mpr ⟨_, t₁, t₂, _, hstart, hds, hstop, rfl⟩
  exact ⟨_, ofText_eq_ok_iff.mpr ⟨t₃, hread⟩, rfl⟩

end Grammar

namespace Checker

/-- Two files that can be read can be read as one, and checking it finds what checking the first and
then the second finds, but that everything in the second stands further down. -/
theorem check_concatenated {text text' : List Char} {p p' : Program}
    (h : Program.ofText text = .ok p) (h' : Program.ofText text' = .ok p') :
    ∃ q, Program.ofText (text ++ '\n' :: text') = .ok q ∧
      q.declarations =
        p.declarations ++ p'.declarations.map (Declaration.edit (.moving (Span.behind text))) ∧
      (initial.check q).symbols = ((initial.check p).check p').symbols ∧
      ∃ new, ((initial.check p).check p').errors = (initial.check p).errors ++ new ∧
        (initial.check q).errors =
          (initial.check p).errors ++ new.map (TypeError.move (Span.behind text)) := by
  obtain ⟨q, hq, hds⟩ := Grammar.ofText_append h h'
  obtain ⟨new, hnew, hmoved⟩ := check_moving (Span.behind text) (initial.check p) p'
  have hcheck : initial.check q =
      (initial.check p).check (p'.edit (.moving (Span.behind text))) := by
    rw [check_eq_after, hds, after_checkDeclarations_append]
    rfl
  refine ⟨q, hq, hds, ?_, new, hnew, ?_⟩
  · rw [hcheck, hmoved]
  · rw [hcheck, hmoved]

/-- A file that ends inside a comment, with characters of more than one byte. -/
def commentedFile : List Char := "// größer\nf is func(a) => [a, none]\n// end".toList

/-- A file that declares a name of the other one again. -/
def clashingFile : List Char := "x is [1, missing]\nf is 2".toList

theorem check_concatenated_clashingFile :
    ∃ p p' q, Program.ofText commentedFile = .ok p ∧ Program.ofText clashingFile = .ok p' ∧
      Program.ofText (commentedFile ++ '\n' :: clashingFile) = .ok q ∧
      q.declarations =
        p.declarations ++ p'.declarations.map (Declaration.edit (.moving (Span.shift 45 3))) ∧
      (initial.check q).symbols = ((initial.check p).check p').symbols ∧
      ∃ new, ((initial.check p).check p').errors = (initial.check p).errors ++ new ∧
        new.map TypeError.span = [⟨9, 16, ⟨1, 10⟩⟩, ⟨18, 24, ⟨2, 1⟩⟩] ∧
        (initial.check q).errors =
          (initial.check p).errors ++ new.map (TypeError.move (Span.shift 45 3)) := by
  have hbehind : Span.behind commentedFile = Span.shift 45 3 := by
    have hbytes : Text.byteLength commentedFile = 44 := by decide +kernel
    have hlines : (LineIndex.ofText commentedFile).lineCount = 3 := by decide +kernel
    rw [Span.behind, hbytes, hlines]
  have herrors : (Program.ofText commentedFile).toOption.map
      (fun p => (initial.check p).errors.length) = some 1 := by decide +kernel
  have herrors' : ((Program.ofText commentedFile).toOption.bind fun p =>
      (Program.ofText clashingFile).toOption.map fun p' =>
        ((initial.check p).check p').errors.map TypeError.span) =
      some [⟨32, 36, ⟨2, 21⟩⟩, ⟨9, 16, ⟨1, 10⟩⟩, ⟨18, 24, ⟨2, 1⟩⟩] := by decide +kernel
  cases hp : Program.ofText commentedFile with
  | error e => simp [hp, Except.toOption] at herrors
  | ok p =>
    cases hp' : Program.ofText clashingFile with
    | error e => simp [hp, hp', Except.toOption] at herrors'
    | ok p' =>
      obtain ⟨q, hq, hds, hsymbols, new, hnew, hmoved⟩ := check_concatenated hp hp'
      rw [hbehind] at hds hmoved
      refine ⟨p, p', q, rfl, rfl, hq, hds, hsymbols, new, hnew, ?_, hmoved⟩
      rw [hp] at herrors herrors'
      rw [hp'] at herrors'
      obtain ⟨e, he⟩ := List.length_eq_one_iff.mp (Option.some.inj herrors)
      have hspans : ((initial.check p).check p').errors.map TypeError.span =
          [⟨32, 36, ⟨2, 21⟩⟩, ⟨9, 16, ⟨1, 10⟩⟩, ⟨18, 24, ⟨2, 1⟩⟩] := Option.some.inj herrors'
      rw [hnew, he] at hspans
      exact (List.cons.inj hspans).2

end Checker

end ExprCheck
