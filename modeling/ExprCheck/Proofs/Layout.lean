import Mathlib
import ExprCheck.Proofs.GrammarRereading
import ExprCheck.Proofs.Moving

/-!
# Layout

Blanks, line ends and comments only decide where the tokens of a text stand. Reading and checking
copy these places but never look at them, so two texts with the same tokens lead to the same result:
to the same program up to spans, with the same faults and symbols, or to the same failure.

Both texts are compared with a stream that has their tokens and no layout at all.
-/

namespace ExprCheck

open ReadM Grammar

/-- Tokens are met a second time without their places, and fail there in the same way. -/
def Setting.placeless : Setting := .ofMove toOrigin (fun _ _ => rfl) True

/-- The tokens of these kinds, without layout. -/
def Stream.ofKinds (ks : List Kind) : Stream :=
  ⟨[], ks.map fun k => .token ⟨k, Span.origin⟩, ⟨.eof, Span.origin⟩, Span.origin⟩

section Readings

variable {text : List Char} {ts : List Token}

theorem beside_ofKinds (h : Lexer.scan text = ts.map .token) :
    Setting.placeless.Beside (Stream.ofText text) (Stream.ofKinds (ts.map Token.kind)) where
  tokens := by
    have htext : (Stream.ofText text).Holds ts := by
      have hshow := shows_ofText text
      rw [h] at hshow
      exact hshow
    refine ⟨ts, htext, rfl, fun u hu => ?_, [], 0, rfl, ?_, Or.inl rfl⟩
    · rw [show Setting.placeless.more = [] from rfl, List.append_nil, List.map_map] at hu
      obtain ⟨t, ht, hu⟩ := List.mem_map.mp hu
      cases hu
      exact htext.tokens t (List.mem_map_of_mem ht)
    · simp [Stream.ofKinds, Setting.placeless, Setting.ofMove, Token.move, toOrigin]
  eof := fun _ => rfl
  last := rfl

/-- What a text is read as can be told from the kinds of its tokens. -/
theorem agree_ofKinds (h : Lexer.scan text = ts.map .token) :
    Setting.placeless.Agree Program.bare Program.read Program.read (Stream.ofText text)
      (Stream.ofKinds (ts.map Token.kind)) := by
  have hremaining : (Stream.ofKinds (ts.map Token.kind)).remaining =
      (Stream.ofText text).remaining := by
    simp [Stream.remaining, Stream.ofKinds, Stream.ofText, h]
  exact agree_program trivial (beside_ofKinds h) ⟨hremaining.ge, fun _ => hremaining.symm⟩

end Readings

/-- Up to spans, what a check finds is found in the bare program. -/
theorem check_bare (p : Program) :
    (Checker.initial.check p.bare).errors.map TypeError.fault =
      (Checker.initial.check p).errors.map TypeError.fault ∧
    (Checker.initial.check p.bare).symbols = (Checker.initial.check p).symbols := by
  obtain ⟨new, hnew, hbare⟩ := Checker.check_moving toOrigin Checker.initial p
  rw [show p.bare = p.edit (.moving toOrigin) from rfl, hbare, hnew, List.map_append,
    List.map_append, TypeError.map_fault_move]
  exact ⟨rfl, rfl⟩

/-- Two texts with the same tokens are both read, as programs that differ in spans only and in which
a check finds the same faults and symbols; or both are not, for the same reason. -/
theorem layout_irrelevant {text text' : List Char} {ts ts' : List Token}
    (h : tokenize text = .ok ts) (h' : tokenize text' = .ok ts')
    (hkinds : ts.map Token.kind = ts'.map Token.kind) :
    (∃ p p', Program.ofText text = .ok p ∧ Program.ofText text' = .ok p' ∧ p.bare = p'.bare ∧
      (Checker.initial.check p).errors.map TypeError.fault =
        (Checker.initial.check p').errors.map TypeError.fault ∧
      (Checker.initial.check p).symbols = (Checker.initial.check p').symbols) ∨
    (∃ e e', Program.ofText text = .error e ∧ Program.ofText text' = .error e' ∧
      e.fault = e'.fault) := by
  obtain ⟨us, hscan, rfl⟩ := exists_of_tokensOf h
  obtain ⟨us', hscan', rfl⟩ := exists_of_tokensOf h'
  have hus : us.map Token.kind = us'.map Token.kind := by
    simp only [List.map_append] at hkinds
    exact List.append_inj_left' hkinds rfl
  have hagree := agree_ofKinds hscan
  have hagree' := agree_ofKinds hscan'
  rw [← hus] at hagree'
  rcases hagree.compare trivial hagree' with
    ⟨p, p', s, s', hrun, hrun', hbare⟩ | ⟨e, e', s, s', hfail, hfail', hfault⟩
  · obtain ⟨hfaults, hsymbols⟩ := check_bare p
    obtain ⟨hfaults', hsymbols'⟩ := check_bare p'
    refine Or.inl ⟨p, p', ofText_eq_ok_iff.mpr ⟨s, hrun⟩, ofText_eq_ok_iff.mpr ⟨s', hrun'⟩, hbare,
      ?_, ?_⟩
    · rw [← hfaults, ← hfaults', hbare]
    · rw [← hsymbols, ← hsymbols', hbare]
  · exact Or.inr ⟨e, e', ofText_of_fails hfail, ofText_of_fails hfail', hfault⟩

/-- Two declarations on one line. -/
def denseText : List Char := "f is func(n:integer)=>[n,missing];x is 1+[2]".toList

/-- The same declarations, spread over several lines with comments. -/
def spreadText : List Char :=
  "// a list\nf is func ( n : integer )\n =>\t[ n , // first\n missing ]\n;\n\nx is 1+[2]//".toList

theorem layout_irrelevant_spreadText :
    ∃ p p', Program.ofText denseText = .ok p ∧ Program.ofText spreadText = .ok p' ∧
      p.span ≠ p'.span ∧ p.bare = p'.bare ∧
      (Checker.initial.check p).errors.length = 2 ∧
      (Checker.initial.check p).errors.map TypeError.fault =
        (Checker.initial.check p').errors.map TypeError.fault ∧
      (Checker.initial.check p).symbols = (Checker.initial.check p').symbols := by
  have hkinds : (tokenize denseText).toOption.map (List.map Token.kind) =
      (tokenize spreadText).toOption.map (List.map Token.kind) := by decide +kernel
  have htokens : (tokenize denseText).toOption.isSome = true := by decide +kernel
  have hspan : (Program.ofText denseText).toOption.map Program.span =
      some ⟨0, 44, ⟨1, 1⟩⟩ := by decide +kernel
  have hspan' : (Program.ofText spreadText).toOption.map Program.span =
      some ⟨10, 81, ⟨2, 1⟩⟩ := by decide +kernel
  have herrors : (Program.ofText denseText).toOption.map
      (fun p => (Checker.initial.check p).errors.length) = some 2 := by decide +kernel
  cases h : tokenize denseText with
  | error e => simp [h, Except.toOption] at htokens
  | ok ts =>
    cases h' : tokenize spreadText with
    | error e => simp [h, h', Except.toOption] at hkinds
    | ok ts' =>
      rw [h, h'] at hkinds
      rcases layout_irrelevant h h' (Option.some.inj hkinds) with
        ⟨p, p', hp, hp', hbare, hfaults, hsymbols⟩ | ⟨e, e', he, -, -⟩
      · rw [hp] at hspan herrors
        rw [hp'] at hspan'
        refine ⟨p, p', hp, hp', ?_, hbare, Option.some.inj herrors, hfaults, hsymbols⟩
        rw [Option.some.inj hspan, Option.some.inj hspan']
        decide
      · simp [he, Except.toOption] at hspan

end ExprCheck
