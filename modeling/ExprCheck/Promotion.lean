import ExprCheck.Ty

/-!
# Operand types

Which pairs of operand types an operator family accepts, and the type of the result. Only
primitive types can be operands.
-/

namespace ExprCheck.Promotion

open Primitive

/-- The accepted pairs of a family, each with its result. -/
def table : Family → List ((Primitive × Primitive) × Primitive)
  | .additive =>
    [((integer, integer), integer), ((integer, real), real), ((real, integer), real),
      ((real, real), real), ((integer, rational), rational), ((rational, integer), rational),
      ((rational, rational), rational), ((integer, complex), complex), ((real, complex), complex),
      ((complex, integer), complex), ((complex, real), complex), ((complex, complex), complex)]
  | .division =>
    [((integer, integer), real), ((integer, real), real), ((real, integer), real),
      ((real, real), real), ((integer, rational), rational), ((rational, integer), rational),
      ((rational, rational), rational), ((complex, integer), complex), ((complex, real), complex),
      ((complex, complex), complex)]
  | .relational =>
    [((integer, integer), boolean), ((integer, real), boolean), ((real, integer), boolean),
      ((real, real), boolean), ((integer, rational), boolean), ((rational, integer), boolean),
      ((rational, rational), boolean), ((complex, complex), boolean)]
  | .logical => [((boolean, boolean), boolean)]

/-- The type of the result of an operator of the family, if it accepts the operands. -/
def result? (family : Family) : Ty → Ty → Option Ty
  | .primitive p, .primitive q => ((table family).lookup (p, q)).map Ty.primitive
  | _, _ => none

end ExprCheck.Promotion
