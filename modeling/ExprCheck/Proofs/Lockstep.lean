import Mathlib
import ExprCheck.Proofs.EditedRuns

/-!
# Two runs side by side

Facts that compare two runs of the walk over the same program say that the runs stay in step: from
related states every part of the walk gives the same answer and leads to related states again. Such
a fact is about a comparison of a program with itself, in which all names are seen and every run is
followed to its end.
-/

namespace ExprCheck.Checker

variable {α : Type} {R : Checker → Checker → Prop}

/-- From related states, a step gives one answer and leads to related states. -/
def Lockstep (R : Checker → Checker → Prop) (m : CheckM α) : Prop :=
  ∀ c d, R c d → answer m d = answer m c ∧ R (after m c) (after m d)

/-- The comparison of a run with another one over the same program. -/
def sameProgram (R : Checker → Checker → Prop) : Comparison :=
  ⟨.same, fun _ => True, fun _ => False, R⟩

/-- Steps that are followed when nothing is edited keep both runs in step. -/
theorem Comparison.Follows.lockstep {m : CheckM α} (hm : (sameProgram R).Follows false m m) :
    Lockstep R m := by
  intro c d hcd
  rcases hm c d hcd (by simp [Within]) with hlost | ⟨hanswer, hrel, -⟩
  · exact hlost.elim
  · exact ⟨hanswer, hrel⟩

theorem infer_lockstep (h : (sameProgram R).Sound) (e : Expr) : Lockstep R (infer e) := by
  have hfollows := infer_follows h false e fun _ _ => trivial
  rw [show (sameProgram R).edit = .same from rfl, Expr.edit_same] at hfollows
  exact hfollows.lockstep

theorem checkDeclarations_lockstep (h : (sameProgram R).Sound) (ds : List Declaration) :
    Lockstep R (checkDeclarations ds) := by
  have hfollows := checkDeclarations_follows h (fun _ => trivial) ds
  rw [show (sameProgram R).edit = .same from rfl, Declaration.map_edit_same] at hfollows
  exact hfollows.lockstep

end ExprCheck.Checker
