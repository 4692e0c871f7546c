import Mathlib
import ExprCheck.Proofs.TypingAgreement

/-!
# Expressions and their parts

The walk takes an expression in two steps: first it infers the types of the parts, one after the
other, and then it judges the expression by these types. `infer_eq_judge` says so. A function
literal has no parts in this sense, since its body belongs to a scope of its own. What holds of the
parts of an expression can therefore be carried over to the expression by a short induction,
`Expr.parts_induction`, that stays within one scope.
-/

namespace ExprCheck

namespace Expr

/-- Whether the type of an expression depends on the types of other expressions of its scope. -/
def isCompound : Expr → Bool
  | literal _ _ | var _ _ | function _ _ _ _ => false
  | _ => true

/-- The expressions that an expression is put together from, in the order of their inference. -/
def parts : Expr → List Expr
  | literal _ _ | var _ _ | function _ _ _ _ => []
  | binary _ _ l r => [l, r]
  | conditional _ p t e => [p, t, e]
  | array _ es => es
  | map _ es => es.flatMap fun e => [e.key, e.value]
  | tuple _ es => es.map Element.value
  | call _ f es => f :: es
  | index _ t i => [t, i]
  | field _ t _ | ordinal _ t _ => [t]

theorem sizeOf_parts {e part : Expr} (h : part ∈ e.parts) : sizeOf part < sizeOf e := by
  cases e with
  | literal _ _ | var _ _ | function _ _ _ _ => simp [parts] at h
  | binary s op l r =>
    simp only [parts, List.mem_cons, List.not_mem_nil, or_false] at h
    rcases h with rfl | rfl <;> simp only [binary.sizeOf_spec] <;> omega
  | conditional s p t e =>
    simp only [parts, List.mem_cons, List.not_mem_nil, or_false] at h
    rcases h with rfl | rfl | rfl <;> simp only [conditional.sizeOf_spec] <;> omega
  | array s es =>
    have hlt : sizeOf part < sizeOf es := List.sizeOf_lt_of_mem h
    simp only [array.sizeOf_spec]
    omega
  | map s es =>
    obtain ⟨⟨s', k, v⟩, hmem, hpart⟩ := List.mem_flatMap.mp h
    have hlt := List.sizeOf_lt_of_mem hmem
    simp only [List.mem_cons, List.not_mem_nil, or_false] at hpart
    simp only [Entry.mk.sizeOf_spec] at hlt
    rcases hpart with rfl | rfl <;> simp only [map.sizeOf_spec] <;> omega
  | tuple s es =>
    obtain ⟨⟨s', x, v⟩, hmem, rfl⟩ := List.mem_map.mp h
    have hlt := List.sizeOf_lt_of_mem hmem
    simp only [Element.mk.sizeOf_spec] at hlt
    simp only [tuple.sizeOf_spec]
    omega
  | call s f es =>
    simp only [call.sizeOf_spec]
    rcases List.mem_cons.mp h with rfl | hmem
    · omega
    · have hlt := List.sizeOf_lt_of_mem hmem
      omega
  | index s t i =>
    simp only [parts, List.mem_cons, List.not_mem_nil, or_false] at h
    rcases h with rfl | rfl <;> simp only [index.sizeOf_spec] <;> omega
  | field s t x =>
    obtain rfl := List.mem_singleton.mp h
    simp only [field.sizeOf_spec]
    omega
  | ordinal s t n =>
    obtain rfl := List.mem_singleton.mp h
    simp only [ordinal.sizeOf_spec]
    omega

/-- What holds of every expression whose parts have it holds of all. -/
theorem parts_induction {P : Expr → Prop} (h : ∀ e, (∀ part ∈ e.parts, P part) → P e) (e : Expr) :
    P e :=
  h e fun part _ => parts_induction h part
termination_by sizeOf e
decreasing_by exact sizeOf_parts ‹_›

end Expr

/-- The type that a verdict gives, if it gives one. -/
def Verdict.type? : Verdict → Option Ty
  | .type t => some t
  | _ => none

/-- The keys and values of a map, taken from a list in which they alternate. -/
def pairUp : List (Option Ty) → List (Option Ty × Option Ty)
  | k :: v :: rest => (k, v) :: pairUp rest
  | _ => []

namespace Checker

theorem answer_settle (span : Span) (v : Verdict) (c : Checker) :
    answer (settle span v) c = v.type? := by
  cases v <;> rfl

/-- What the walk does with an expression once it knows the types of the parts. -/
def judge : Expr → List (Option Ty) → CheckM (Option Ty)
  | .binary _ op l _, [left, right] => settle l.span (Rule.binary op left right)
  | .conditional _ _ t _, [predicate, thenType, elseType] =>
    settle t.span (Rule.conditional predicate thenType elseType)
  | .array s _, types => settle s (Rule.array types)
  | .map s _, types => settle s (Rule.map (pairUp types))
  | .tuple _ es, types => recordTuple ((fieldNames 0 es).zip types)
  | .call s _ _, callee :: types => settle s (Rule.call callee types)
  | .index s _ _, [target, type] => settle s (Rule.index target type)
  | .field s t x, [target] => settleField s t target x
  | .ordinal s t n, [target] => settleField s t target (toString n)
  | _, _ => return none

theorem inferEntries_eq (es : List Entry) :
    inferEntries es = do
      let types ← inferAll (es.flatMap fun e => [e.key, e.value])
      return pairUp types := by
  induction es with
  | nil => simp [inferEntries, inferAll, pairUp]
  | cons e rest ih =>
    obtain ⟨s, k, v⟩ := e
    simp [inferEntries, inferAll, ih, pairUp]

theorem inferElements_eq (place : Nat) (es : List Element) :
    inferElements place es = do
      let types ← inferAll (es.map Element.value)
      return (fieldNames place es).zip types := by
  induction es generalizing place with
  | nil => simp [inferElements, inferAll, fieldNames]
  | cons e rest ih =>
    obtain ⟨s, x, v⟩ := e
    simp [inferElements, inferAll, ih, fieldNames]

/-- An expression is judged after all its parts, and by nothing but their types. -/
theorem infer_eq_judge {e : Expr} (he : e.isCompound = true) :
    infer e = inferAll e.parts >>= judge e := by
  cases e with
  | literal _ _ | var _ _ | function _ _ _ _ => exact absurd he (by simp [Expr.isCompound])
  | binary s op l r => simp [infer, Expr.parts, inferAll, judge]
  | conditional s p t e => simp [infer, Expr.parts, inferAll, judge]
  | array s es =>
    rw [infer]
    rfl
  | map s es =>
    simp only [infer, inferEntries_eq, bind_assoc, pure_bind]
    rfl
  | tuple s es =>
    simp only [infer, inferElements_eq, bind_assoc, pure_bind]
    rfl
  | call s f es => simp [infer, Expr.parts, inferAll, judge]
  | index s t i => simp [infer, Expr.parts, inferAll, judge]
  | field s t x => simp [infer, Expr.parts, inferAll, judge]
  | ordinal s t n => simp [infer, Expr.parts, inferAll, judge]

theorem length_answer_inferAll (es : List Expr) (c : Checker) :
    (answer (inferAll es) c).length = es.length := by
  induction es generalizing c with
  | nil => rfl
  | cons e rest ih =>
    simp only [inferAll, answer_bind, answer_pure, List.length_cons]
    rw [ih]

end Checker

end ExprCheck
