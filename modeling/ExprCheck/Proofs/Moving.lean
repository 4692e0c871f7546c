import Mathlib
import ExprCheck.Proofs.EditedRuns

/-!
# Programs that stand elsewhere

Checking a program does not look at the spans of its nodes: it only copies them into what it
reports. So a program that is moved gets the same symbols and the same faults, each at its new
place. The bare program is a special case, where every node is moved to the origin.
-/

namespace ExprCheck

/-! ## Checking -/

/-- The error, at another place. -/
def TypeError.move (f : Span → Span) (e : TypeError) : TypeError := ⟨e.fault, f e.span⟩

theorem TypeError.map_fault_move (f : Span → Span) (es : List TypeError) :
    (es.map (TypeError.move f)).map TypeError.fault = es.map TypeError.fault := by
  rw [List.map_map]
  rfl

namespace Checker

/-- A run over a program and one over the program at another place, both of them after the same
errors. -/
def moved (f : Span → Span) (before : List TypeError) : Comparison :=
  .ofErrors (.moving f) (fun _ => False) fun es es' =>
    ∃ new, es = before ++ new ∧ es' = before ++ new.map (TypeError.move f)

/-- No step of the checker asks where a node stands, except to report an error there. -/
theorem sound_moved (f : Span → Span) (before : List TypeError) : (moved f before).Sound := by
  -- both runs append the same fault, each at its place
  have hadd : ∀ es es', (∃ new, es = before ++ new ∧ es' = before ++ new.map (TypeError.move f)) →
      ∀ span fault, ∃ new, es ++ [⟨fault, span⟩] = before ++ new ∧
        es' ++ [⟨fault, f span⟩] = before ++ new.map (TypeError.move f) := by
    rintro es es' ⟨new, rfl, rfl⟩ span fault
    refine ⟨new ++ [⟨fault, span⟩], List.append_assoc _ _ _, ?_⟩
    rw [List.map_append, List.append_assoc]
    rfl
  have hstepwise : (moved f before).Stepwise :=
    Comparison.stepwise_ofErrors (fun _ _ hlost _ => hlost)
      fun es es' hes span fault _ => hadd es es' hes span fault
  refine hstepwise.sound (Ty.map_ofTypeExpr_move f) (Ty.map_ofTypeExpr_move f) ?_
  intro c d hcd span a b
  refine ⟨?_, hadd _ _ hcd.errors span (.declaredType a b)⟩
  rw [hcd.same]
  rfl

/-- Checking a program at another place ends in the same state, but that what it reports is at that
place. -/
theorem check_moving (f : Span → Span) (c : Checker) (p : Program) :
    ∃ new, (c.check p).errors = c.errors ++ new ∧
      c.check (p.edit (.moving f)) =
        { c.check p with errors := c.errors ++ new.map (TypeError.move f) } := by
  have hstart : (moved f c.errors).Rel c c :=
    ⟨rfl, [], (List.append_nil _).symm, (List.append_nil _).symm⟩
  rcases check_follows (sound_moved f c.errors) (fun _ => trivial) hstart p with hlost | hrel
  · exact hlost.elim
  · obtain ⟨new, hnew, hnew'⟩ := hrel.errors
    exact ⟨new, hnew, hnew' ▸ hrel.same⟩

end Checker

end ExprCheck
