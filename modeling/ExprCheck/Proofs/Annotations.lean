import Mathlib
import ExprCheck.Proofs.EditedRuns

/-!
# Annotations only check

The annotation of a declaration is compared with the type of its value and then forgotten: the name
gets the type of the value in any case. A program without these annotations therefore binds the same
names, records the same tuples and meets the same faults, except for those comparisons.

The annotation of a result is different, since a function that does not meet it has no type. It can
be dropped where it is met, which is everywhere in a program that checks.
-/

namespace ExprCheck

/-- Drops the annotations of declarations, at any depth. -/
def Edit.dropDeclared : Edit := ⟨id, fun _ => none, id⟩

/-- Drops the annotations of declarations and of the results of functions, at any depth. -/
def Edit.dropDeclaredAndResult : Edit := ⟨id, fun _ => none, fun _ => none⟩

/-- Whether the fault is a declaration whose value differs from its annotation. -/
def TypeFault.isDeclaredType : TypeFault → Bool
  | .declaredType _ _ => true
  | _ => false

theorem TypeFault.isDeclaredType_eq_false {f : TypeFault} (h : ∀ a b, f ≠ .declaredType a b) :
    f.isDeclaredType = false := by
  cases f with
  | declaredType a b => exact absurd rfl (h a b)
  | _ => rfl

/-- Without an annotation, a function literal gets the type that it gets with one, if it gets
any. -/
theorem Rule.function_fault_or (params : List Ty) (declared type : Option Ty) :
    (∃ f, Rule.function params declared type = .fault f) ∨
      Rule.function params none type = Rule.function params declared type := by
  cases type with
  | none => exact Or.inr rfl
  | some body =>
    cases declared with
    | none => exact Or.inr rfl
    | some d =>
      by_cases hd : d = body
      · exact Or.inr (if_pos hd).symm
      · exact Or.inl ⟨.returnType d body, if_neg hd⟩

namespace Checker

/-- The errors other than those about annotations of declarations. -/
def otherErrors (es : List TypeError) : List TypeError := es.filter (!·.fault.isDeclaredType)

theorem otherErrors_append (es es' : List TypeError) :
    otherErrors (es ++ es') = otherErrors es ++ otherErrors es' :=
  List.filter_append es es'

theorem otherErrors_singleton {f : TypeFault} (hf : ∀ a b, f ≠ .declaredType a b) (span : Span) :
    otherErrors [⟨f, span⟩] = [⟨f, span⟩] := by
  simp [otherErrors, TypeFault.isDeclaredType_eq_false hf]

/-- Where there is nothing to compare with, the first run may report something or not. -/
theorem follows_uncompared {k : Comparison} {inside : Bool} {span span' : Span}
    (hf : ∀ s t, k.Follows inside (report span (.declaredType s t)) (pure ())) (a b : Option Ty) :
    k.Follows inside (compareTypes span .declaredType a b)
      (compareTypes span' .declaredType a none) := by
  have hnone : compareTypes span' .declaredType a none = pure () := by
    cases a <;> rfl
  rw [hnone]
  unfold compareTypes
  split
  · split
    · exact follows_pure ()
    · exact hf _ _
  · exact follows_pure ()

/-! ## Without the annotations of declarations -/

/-- A run and one over the program without the annotations of declarations: the second one lacks the
errors about them. -/
def declaredDropped : Comparison :=
  .ofErrors .dropDeclared (fun _ => False) fun es es' => es' = otherErrors es

theorem sound_declaredDropped : declaredDropped.Sound := by
  have hreport : ∀ es es', es' = otherErrors es → ∀ span fault, (∀ a b, fault ≠ .declaredType a b) →
      es' ++ [⟨fault, span⟩] = otherErrors (es ++ [⟨fault, span⟩]) := by
    intro es es' hes span fault hf
    rw [otherErrors_append, otherErrors_singleton hf, hes]
  have hstepwise : declaredDropped.Stepwise :=
    Comparison.stepwise_ofErrors (fun _ _ hlost _ => hlost) hreport
  refine ⟨hstepwise, ?_, ?_⟩
  · -- results keep their annotations
    exact hstepwise.follows_result fun _ => rfl
  · -- what is reported about an annotation does not count
    intro inside span declared type
    refine follows_uncompared (fun s t c d hcd _ => ?_) type _
    refine Or.inr ⟨rfl, ⟨hcd.same, ?_⟩, Balanced.refl c⟩
    have herrors : d.errors = otherErrors c.errors := hcd.errors
    show d.errors = otherErrors (c.errors ++ [⟨.declaredType s t, span⟩])
    rw [otherErrors_append, herrors]
    exact (List.append_nil _).symm

/-! ## Without any annotations of declarations and results -/

/-- A run without errors and one over the program without the annotations. -/
def annotationsDropped : Comparison :=
  .ofErrors .dropDeclaredAndResult (· ≠ []) fun es es' => es' = es

theorem ne_nil_of_prefix {es es' : List TypeError} (h : es ≠ []) (hes : es <+: es') : es' ≠ [] := by
  obtain ⟨rest, rfl⟩ := hes
  simp [h]

theorem errors_report_ne_nil (c : Checker) (span : Span) (f : TypeFault) :
    (after (report span f) c).errors ≠ [] := by
  simp

theorem sound_annotationsDropped : annotationsDropped.Sound := by
  have hreport : ∀ es es' : List TypeError, es' = es → ∀ span fault,
      (∀ a b, fault ≠ .declaredType a b) → es' ++ [⟨fault, span⟩] = es ++ [⟨fault, span⟩] := by
    rintro es _ rfl span fault _
    rfl
  refine ⟨Comparison.stepwise_ofErrors (fun _ _ => ne_nil_of_prefix) hreport, ?_, ?_⟩
  · -- a result that meets its annotation has the type it has without one
    intro inside span params result type
    rcases Rule.function_fault_or params (result.map Ty.ofTypeExpr) type with ⟨f, hf⟩ | hsame
    · intro c d _ _
      rw [hf]
      exact Or.inl (errors_report_ne_nil c span f)
    · show Comparison.Follows _ _ _ (settle span (Rule.function params none type))
      rw [hsame]
      refine follows_settle fun f _ c d _ _ => ?_
      exact Or.inl (errors_report_ne_nil c span f)
  · intro inside span declared type
    refine follows_uncompared (fun s t c d _ _ => ?_) type _
    exact Or.inl (errors_report_ne_nil c span _)

/-! ## Programs without annotations -/

/-- Annotations of declarations only check: without them, at any depth, the same symbols and tuples
are found, and the same errors except for those about the annotations. In a program that checks, the
annotations of results can be dropped as well. -/
theorem check_without_annotations (p : Program) :
    (initial.check (p.edit .dropDeclared)).symbols = (initial.check p).symbols ∧
    (initial.check (p.edit .dropDeclared)).tuples = (initial.check p).tuples ∧
    (initial.check (p.edit .dropDeclared)).errors =
      (initial.check p).errors.filter (!·.fault.isDeclaredType) ∧
    ((initial.check p).errors = [] →
      (initial.check (p.edit .dropDeclaredAndResult)).errors = [] ∧
      (initial.check (p.edit .dropDeclaredAndResult)).symbols = (initial.check p).symbols) := by
  have hdeclared : SameButErrors (fun es es' => es' = otherErrors es) (initial.check p)
      (initial.check (p.edit .dropDeclared)) := by
    have hstart : declaredDropped.Rel initial initial := ⟨rfl, rfl⟩
    rcases check_follows sound_declaredDropped (fun _ => trivial) hstart p with hlost | hrel
    · exact hlost.elim
    · exact hrel
  refine ⟨hdeclared.symbols, hdeclared.tuples, hdeclared.errors, fun haccepted => ?_⟩
  have hstart : annotationsDropped.Rel initial initial := ⟨rfl, rfl⟩
  rcases check_follows sound_annotationsDropped (fun _ => trivial) hstart p with hlost | hrel
  · exact absurd haccepted hlost
  · exact ⟨hrel.errors.trans haccepted, hrel.symbols⟩

/-- The program `step is func(n: integer): integer do m: T is n; return m end`. -/
def annotatedStep (type : Primitive) : Program :=
  ⟨.origin, [⟨.origin, "step", none, .function .origin
    [⟨.origin, "n", some (.primitive .origin .integer)⟩] (some (.primitive .origin .integer))
    (.block .origin [
      .declaration .origin ⟨.origin, "m", some (.primitive .origin type), .var .origin "n"⟩,
      .returnValue .origin (.var .origin "m")])⟩]⟩

/-- With the right annotation it checks, with and without annotations; with a wrong one, dropping
the annotation takes the only error away. -/
theorem check_without_annotations_annotatedStep :
    (initial.check (annotatedStep .integer)).errors = [] ∧
    (initial.check ((annotatedStep .integer).edit .dropDeclaredAndResult)).errors = [] ∧
    (initial.check (annotatedStep .real)).errors =
      [⟨.declaredType (.primitive .integer) (.primitive .real), .origin⟩] ∧
    (initial.check ((annotatedStep .real).edit .dropDeclared)).errors = [] := by
  have haccepted : (initial.check (annotatedStep .integer)).errors = [] := by decide +kernel
  have hmismatch : (initial.check (annotatedStep .real)).errors =
      [⟨.declaredType (.primitive .integer) (.primitive .real), .origin⟩] := by decide +kernel
  have hdropped := (check_without_annotations (annotatedStep .real)).2.2.1
  rw [hmismatch] at hdropped
  exact ⟨haccepted, ((check_without_annotations _).2.2.2 haccepted).1, hmismatch, hdropped⟩

end Checker

end ExprCheck
