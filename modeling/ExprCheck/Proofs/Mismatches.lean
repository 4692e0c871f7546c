import Mathlib
import ExprCheck.Proofs.Annotations
import ExprCheck.Proofs.TypeText

/-!
# Mismatches as they are shown

A declaration whose value has another type than its annotation says is reported with both types. They
are compared as types and shown as texts, and the reader of the report sees only the texts. Since the
text of a type determines it, a report never shows the same text twice, and a declaration that shows
two different texts is always reported.
-/

namespace ExprCheck

namespace Checker

/-- A mismatch of a value and its annotation is between types that are shown differently. -/
def ShowsMismatch (f : TypeFault) : Prop :=
  ∀ actual declared, f = .declaredType actual declared → actual.render ≠ declared.render

/-- A run and the same run once more: what it adds to the errors `es` shows every mismatch. -/
def mismatchesShown (es : List TypeError) : Comparison :=
  .ofErrors .same (fun _ => False) fun found _ =>
    ∃ new, found = es ++ new ∧ ∀ e ∈ new, ShowsMismatch e.fault

/-- One more error that shows its mismatch. -/
theorem shown_concat {es found : List TypeError} {f : TypeFault} (span : Span)
    (h : ∃ new, found = es ++ new ∧ ∀ e ∈ new, ShowsMismatch e.fault) (hf : ShowsMismatch f) :
    ∃ new, found ++ [⟨f, span⟩] = es ++ new ∧ ∀ e ∈ new, ShowsMismatch e.fault := by
  obtain ⟨new, rfl, hnew⟩ := h
  refine ⟨new ++ [⟨f, span⟩], List.append_assoc _ _ _, ?_⟩
  intro e he
  rcases List.mem_append.mp he with he | he
  · exact hnew e he
  · obtain rfl := List.mem_singleton.mp he
    exact hf

theorem sound_mismatchesShown (es : List TypeError) : (mismatchesShown es).Sound := by
  have hother : ∀ f : TypeFault, (∀ a b, f ≠ .declaredType a b) → ShowsMismatch f :=
    fun f hf a b hab => absurd hab (hf a b)
  have hreport : ∀ {inside : Bool} {span : Span} {f : TypeFault}, ShowsMismatch f →
      (mismatchesShown es).Follows inside (report span f) (report span f) := by
    intro inside span f hf c d hcd _
    refine Or.inr ⟨rfl, ⟨?_, shown_concat span hcd.errors hf⟩, Balanced.refl c⟩
    rw [hcd.same]
    rfl
  have hstepwise : (mismatchesShown es).Stepwise :=
    Comparison.stepwise_ofErrors (fun _ _ hlost _ => hlost)
      fun found _ hfound span f hf => shown_concat span hfound (hother f hf)
  refine ⟨hstepwise, hstepwise.follows_result fun _ => rfl, ?_⟩
  · intro inside span declared type
    show Comparison.Follows _ _ _ (compareTypes span .declaredType type (declared.map Ty.ofTypeExpr))
    unfold compareTypes
    split
    · next a b =>
      split
      · exact follows_pure ()
      · next hne =>
        refine hreport ?_
        rintro _ _ ⟨⟩
        exact fun htext => hne (Ty.render_injective htext)
    · exact follows_pure ()

/-- Before a name is bound, the annotation of its value is compared as it is shown. -/
theorem errors_inferDeclared {d : Declaration} {annotated : TypeExpr} {actual : Ty} {c : Checker}
    (hd : d.typeExpr = some annotated)
    (hactual : answer (infer d.value) { c with owner := some d.name } = some actual) :
    (after (inferDeclared d) c).errors =
      (after (infer d.value) { c with owner := some d.name }).errors ++
        if actual.render = (Ty.ofTypeExpr annotated).render then []
        else [⟨.declaredType actual (Ty.ofTypeExpr annotated), d.span⟩] := by
  rw [inferDeclared, after_get]
  simp only [after_bind, after_setOwner, after_pure]
  rw [hactual, hd, Option.map_some, compareTypes]
  by_cases hsame : actual = Ty.ofTypeExpr annotated
  · rw [if_pos hsame, if_pos (congrArg Ty.render hsame)]
    exact (List.append_nil _).symm
  · rw [if_neg hsame, if_neg (Ty.render_injective.ne hsame)]
    rfl

/-- Types are shown alike only if they are alike. So an annotation is met if and only if it is shown
as the type of the value is, and whatever a run reports about an annotation shows two different
types. -/
theorem mismatch_shown (c : Checker) (p : Program) :
    (∀ s t : Ty, s.render = t.render ↔ s = t) ∧
    (∀ (d : Declaration) (annotated : TypeExpr) (actual : Ty), d.typeExpr = some annotated →
      answer (infer d.value) { c with owner := some d.name } = some actual →
      (after (inferDeclared d) c).errors =
        (after (infer d.value) { c with owner := some d.name }).errors ++
          if actual.render = (Ty.ofTypeExpr annotated).render then []
          else [⟨.declaredType actual (Ty.ofTypeExpr annotated), d.span⟩]) ∧
    ∃ new, (c.check p).errors = c.errors ++ new ∧
      ∀ e ∈ new, ∀ actual declared, e.fault = .declaredType actual declared →
        e.fault.message = "Variable type " ++ actual.render ++
          " doesn't correspond to actual declaration type " ++ declared.render ∧
        actual.render ≠ declared.render := by
  refine ⟨fun s t => Ty.render_injective.eq_iff, fun d annotated actual hd hactual =>
    errors_inferDeclared hd hactual, ?_⟩
  have hstart : (mismatchesShown c.errors).Rel c c :=
    ⟨rfl, [], (List.append_nil _).symm, by simp⟩
  rcases check_follows (sound_mismatchesShown c.errors) (fun _ => trivial) hstart p with
    hlost | hrel
  · exact hlost.elim
  · obtain ⟨new, herrors, hshown⟩ := hrel.errors
    refine ⟨new, herrors, fun e he actual declared hf => ⟨?_, hshown e he actual declared hf⟩⟩
    rw [hf]
    rfl

/-- The program `t: ((integer), integer, integer) is ((1, 2), 3)`: both types are shown with the same
names in the same order, and differ in where a parenthesis is closed. -/
def regroupedTuple : Program :=
  ⟨.origin, [⟨.origin, "t",
    some (.tuple .origin [.tuple .origin [.primitive .origin .integer],
      .primitive .origin .integer, .primitive .origin .integer]),
    .tuple .origin [⟨.origin, none, .tuple .origin [⟨.origin, none, .literal .origin (.integer 1)⟩,
        ⟨.origin, none, .literal .origin (.integer 2)⟩]⟩,
      ⟨.origin, none, .literal .origin (.integer 3)⟩]⟩]⟩

theorem mismatch_shown_regroupedTuple :
    (initial.check regroupedTuple).errors =
      [⟨.declaredType (.tuple [.tuple [.integer, .integer], .integer])
        (.tuple [.tuple [.integer], .integer, .integer]), .origin⟩] ∧
    (Ty.tuple [.tuple [.integer, .integer], .integer]).render ≠
      (Ty.tuple [.tuple [.integer], .integer, .integer]).render := by
  have herrors : (initial.check regroupedTuple).errors =
      [⟨.declaredType (.tuple [.tuple [.integer, .integer], .integer])
        (.tuple [.tuple [.integer], .integer, .integer]), .origin⟩] := by decide +kernel
  obtain ⟨new, hnew, hshown⟩ := (mismatch_shown initial regroupedTuple).2.2
  have hmem : ⟨.declaredType (.tuple [.tuple [.integer, .integer], .integer])
      (.tuple [.tuple [.integer], .integer, .integer]), .origin⟩ ∈ new := by
    rw [herrors] at hnew
    rw [← List.nil_append new, ← show initial.errors = [] from rfl, ← hnew]
    exact List.mem_cons_self
  exact ⟨herrors, (hshown _ hmem _ _ rfl).2⟩

end Checker

end ExprCheck
