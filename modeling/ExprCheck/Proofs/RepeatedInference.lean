import Mathlib
import ExprCheck.Proofs.Commuting

/-!
# Asking for a type twice

Between declarations, the checker can be asked for the type of an expression. Its tables keep what
the functions and loops in the expression have bound, but all of it lies in scopes that will not be
entered again: no declaration is going on, so no tuple is recorded in the main scope, and expressions
bind names only in scopes that they open. The same question asked again therefore meets the same
state up to the numbers of scopes, which show up in no answer and in no error.
-/

namespace ExprCheck.Checker

variable {c : Checker}

/-- After an expression has been inferred, the checker is where it was before, up to the numbers of
the scopes still to be entered. -/
theorem Resting.renumbered_infer (hc : Resting c) (e : Expr) :
    ∃ f g : Nat → Nat, f.Injective ∧ g.Injective ∧
      Renumbered f g (fun _ => True) c.errors (after (infer e) c).errors c (after (infer e) c) := by
  have hkept := (confined_infer hc.placed.toValid e).toKept
  have hafter : Resting (after (infer e) c) := .inference e hc
  obtain ⟨k, hk⟩ := Nat.exists_eq_add_of_le hkept.nextFunction
  obtain ⟨l, hl⟩ := Nat.exists_eq_add_of_le hkept.nextLoop
  refine ⟨_, _, shiftFrom_injective _ _, shiftFrom_injective _ _,
    hc.placed.renumbered hafter.placed hkept hk hl fun slot hslot _ => ?_⟩
  exact entry_infer hc.placed.toValid e hslot (by simp [hc.owner])

/-- Under other scope numbers, an expression has the same type and the same errors are found in
it. -/
theorem Renumbered.infer {f g : Nat → Nat} {base base' : List TypeError} (hf : f.Injective)
    (hg : g.Injective) {d : Checker} (h : Renumbered f g (fun _ => True) base base' c d) (e : Expr) :
    answer (infer e) d = answer (infer e) c ∧
      Renumbered f g (fun _ => True) base base' (after (infer e) c) (after (infer e) d) := by
  have hsound : (renumbering f g (fun _ => True) base base').Sound := sound_renumbering hf hg
  have hfollows := infer_follows hsound false e fun _ _ => trivial
  rw [show (renumbering f g (fun _ => True) base base').edit = .same from rfl, Expr.edit_same]
    at hfollows
  rcases hfollows c d h (by simp [Within]) with hlost | ⟨hanswer, hrel, -⟩
  · exact hlost.elim
  · exact ⟨hanswer, hrel⟩

/-- Between declarations, inferring an expression changes no entry of the two tables, and inferring
it once more gives the same type and appends the same errors in the same order. All names and tuples
lie in scopes that were entered, and while there are few of these, 32 bits for their numbers tell
them apart. -/
theorem infer_again (c : Checker) (hc : Resting c) (e : Expr)
    (hfew : (after (infer e) (after (infer e) c)).scopes.Few) :
    (Set.InjOn Scope.narrowed
        {scope | (after (infer e) (after (infer e) c)).scopes.Allocated scope} ∧
      (after (infer e) (after (infer e) c)).Placed) ∧
    (∀ slot symbol, c.symbols.get? slot = some symbol →
      (after (infer e) c).symbols.get? slot = some symbol) ∧
    (∀ slot fields, c.tuples.fields? slot = some fields →
      (after (infer e) c).tuples.fields? slot = some fields) ∧
    answer (infer e) (after (infer e) c) = answer (infer e) c ∧
    ∃ new, (after (infer e) c).errors = c.errors ++ new ∧
      (after (infer e) (after (infer e) c)).errors = (after (infer e) c).errors ++ new := by
  have hconfined := confined_infer hc.placed.toValid e
  obtain ⟨f, g, hf, hg, hrenumbered⟩ := hc.renumbered_infer e
  obtain ⟨hanswer, hagain⟩ := hrenumbered.infer hf hg e
  obtain ⟨new, hfirst, hsecond⟩ := hagain.errors
  have hafter : Resting (after (infer e) (after (infer e) c)) := .inference e (.inference e hc)
  refine ⟨⟨hfew.narrowed_injOn, hafter.placed⟩, hconfined.symbols, fun slot fields hfields => ?_,
    hanswer, new, hfirst, hsecond⟩
  have hslot : c.scopes.Allocated slot.scope := hc.placed.tuples slot (by simp [hfields])
  have hentry := entry_infer hc.placed.toValid e hslot (by simp [hc.owner])
  exact (congrArg Prod.snd hentry).trans hfields

/-- The expression `func(x) do t is (a is x, 1); for x in missing loop print(t.a, x) end end`. -/
def looseEnds : Expr :=
  .function .origin [⟨.origin, "x", none⟩] none (.block .origin
    [.declaration .origin ⟨.origin, "t", none, .tuple .origin
      [⟨.origin, some "a", .var .origin "x"⟩, ⟨.origin, none, .literal .origin (.integer 1)⟩]⟩,
     .loop .origin (.items .origin (some "x") (.var .origin "missing"))
      [.print .origin [.field .origin (.var .origin "t") "a", .var .origin "x"]]])

/-- It leaves names and a tuple behind, in scopes that the second run does not meet. -/
theorem infer_again_looseEnds :
    Resting initial ∧ (after (infer looseEnds) (after (infer looseEnds) initial)).scopes.Few ∧
    (after (infer looseEnds) initial).symbols.get? ⟨.function 0, "t"⟩ =
      some ⟨.declared, .tuple [.undefined, .integer], false⟩ ∧
    (after (infer looseEnds) initial).tuples.fields? ⟨.function 0, "t"⟩ =
      some [("a", .undefined), ("2", .integer)] ∧
    answer (infer looseEnds) (after (infer looseEnds) initial) =
      some (.arrow [.undefined] .undefined) ∧
    (after (infer looseEnds) (after (infer looseEnds) initial)).errors =
      [⟨.unbound "missing", .origin⟩, ⟨.unbound "missing", .origin⟩] := by
  have hfew : (after (infer looseEnds) (after (infer looseEnds) initial)).scopes.Few := by
    decide +kernel
  obtain ⟨-, -, -, hanswer, new, hfirst, hsecond⟩ := infer_again initial .initial looseEnds hfew
  have htype : answer (infer looseEnds) initial = some (.arrow [.undefined] .undefined) := by
    decide +kernel
  have herrors : (after (infer looseEnds) initial).errors = [⟨.unbound "missing", .origin⟩] := by
    decide +kernel
  have hnew : new = [⟨.unbound "missing", .origin⟩] := hfirst.symm.trans herrors
  refine ⟨.initial, hfew, by decide +kernel, by decide +kernel, hanswer.trans htype, ?_⟩
  rw [hsecond, herrors, hnew]
  rfl

end ExprCheck.Checker
