import Mathlib
import ExprCheck.Symbols

/-!
# Scope numbers and symbol tables

A scope is allocated once its number has been given out. Entering a scope allocates a new one and
leaving a scope gives no number back, so a table that holds only names of allocated scopes holds
none of a scope that is about to be entered.

Numbers cut to 32 bits would come round again. They do not while few scopes have been entered, and
until then they still tell the allocated scopes apart.
-/

namespace ExprCheck

/-- The scope whose number is cut to 32 bits. -/
def Scope.narrowed : Scope → Scope
  | .main => .main
  | .function n => .function (n % 2 ^ 32)
  | .loop n => .loop (n % 2 ^ 32)

namespace ScopeStack

/-- Whether the number of a scope has been given out. -/
def Allocated (s : ScopeStack) : Scope → Prop
  | .main => True
  | .function n => n < s.nextFunction
  | .loop n => n < s.nextLoop

/-- `t` is `s` with one more scope on top, which is entered for the first time. -/
structure Enters (scope : Scope) (s t : ScopeStack) : Prop where
  /-- The scope is the innermost one of `t`. -/
  active : t.active = scope :: s.active
  /-- Its number was still free. -/
  new : ¬ s.Allocated scope
  /-- Its number is the only one given out. -/
  allocated : ∀ x, t.Allocated x ↔ s.Allocated x ∨ x = scope
  nextFunction : s.nextFunction ≤ t.nextFunction
  nextLoop : s.nextLoop ≤ t.nextLoop

theorem enters_pushFunction (s : ScopeStack) :
    Enters (.function s.nextFunction) s s.pushFunction where
  active := rfl
  new := by simp [Allocated]
  allocated := by
    intro x
    cases x with
    | main => simp [Allocated]
    | function n =>
      simp only [Allocated, pushFunction, Scope.function.injEq]
      omega
    | loop n => simp [Allocated, pushFunction]
  nextFunction := Nat.le_succ _
  nextLoop := Nat.le_refl _

theorem enters_pushLoop (s : ScopeStack) : Enters (.loop s.nextLoop) s s.pushLoop where
  active := rfl
  new := by simp [Allocated]
  allocated := by
    intro x
    cases x with
    | main => simp [Allocated]
    | function n => simp [Allocated, pushLoop]
    | loop n =>
      simp only [Allocated, pushLoop, Scope.loop.injEq]
      omega
  nextFunction := Nat.le_refl _
  nextLoop := Nat.le_succ _

theorem Allocated.mono {s t : ScopeStack} (hf : s.nextFunction ≤ t.nextFunction)
    (hl : s.nextLoop ≤ t.nextLoop) {x : Scope} (h : s.Allocated x) : t.Allocated x := by
  cases x with
  | main => trivial
  | function n => exact Nat.lt_of_lt_of_le h hf
  | loop n => exact Nat.lt_of_lt_of_le h hl

@[simp] theorem pop_nextFunction (s : ScopeStack) : s.pop.nextFunction = s.nextFunction := by
  unfold pop
  split <;> rfl

@[simp] theorem pop_nextLoop (s : ScopeStack) : s.pop.nextLoop = s.nextLoop := by
  unfold pop
  split <;> rfl

@[simp] theorem allocated_pop (s : ScopeStack) (x : Scope) :
    s.pop.Allocated x ↔ s.Allocated x := by
  cases x <;> simp [Allocated]

/-- Leaving a scope that is not the outermost one uncovers the scopes below it. -/
theorem pop_active {s : ScopeStack} {scope : Scope} {rest : List Scope}
    (h : s.active = scope :: rest) (hr : rest ≠ []) : s.pop.active = rest := by
  obtain ⟨outer, rest', rfl⟩ := List.exists_cons_of_ne_nil hr
  unfold pop
  split
  · next h' => simp_all
  · next h' => exact absurd h (h' scope outer rest')

/-- Fewer than `2 ^ 32` function literals and fewer than `2 ^ 32` loops have been entered. -/
def Few (s : ScopeStack) : Prop := s.nextFunction < 2 ^ 32 ∧ s.nextLoop < 2 ^ 32

instance (s : ScopeStack) : Decidable s.Few := inferInstanceAs (Decidable (_ ∧ _))

theorem Few.narrowed_eq {s : ScopeStack} (h : s.Few) {x : Scope} (hx : s.Allocated x) :
    x.narrowed = x := by
  cases x with
  | main => rfl
  | function n => exact congrArg Scope.function (Nat.mod_eq_of_lt (Nat.lt_trans hx h.1))
  | loop n => exact congrArg Scope.loop (Nat.mod_eq_of_lt (Nat.lt_trans hx h.2))

/-- While few scopes have been entered, 32 bits tell them apart. -/
theorem Few.narrowed_injOn {s : ScopeStack} (h : s.Few) :
    Set.InjOn Scope.narrowed {scope | s.Allocated scope} := by
  intro x hx y hy hxy
  rwa [h.narrowed_eq hx, h.narrowed_eq hy] at hxy

end ScopeStack

namespace SymbolTable

theorem contains_eq_false {t : SymbolTable} {slot : Slot} :
    t.contains slot = false ↔ t.get? slot = none := by
  unfold contains
  cases t.get? slot <;> simp

theorem contains_eq_true {t : SymbolTable} {slot : Slot} :
    t.contains slot = true ↔ ∃ symbol, t.get? slot = some symbol := by
  unfold contains
  rw [Option.isSome_iff_exists]

/-- Putting a symbol into a free slot changes this slot only. -/
theorem define?_of_free {t : SymbolTable} {slot : Slot} (symbol : Symbol)
    (h : t.contains slot = false) :
    ∃ t', t.define? slot symbol = some t' ∧
      ∀ other, t'.get? other = if other = slot then some symbol else t.get? other := by
  refine ⟨⟨(slot, symbol) :: t.bindings⟩, by simp [define?, h], ?_⟩
  intro other
  unfold get?
  rw [List.lookup_cons]
  by_cases ho : other = slot
  · simp [ho]
  · have hb : (other == slot) = false := by simpa using ho
    rw [hb, if_neg ho]

theorem define?_of_taken {t : SymbolTable} {slot : Slot} (symbol : Symbol)
    (h : t.contains slot = true) : t.define? slot symbol = none := by
  simp [define?, h]

/-- The symbol that a name stands for is the one in the innermost scope, or the one that the name
stands for outside that scope. -/
theorem lookup_cons (t : SymbolTable) (name : String) (scope : Scope) (rest : List Scope) :
    t.lookup name (scope :: rest) =
      ((t.get? ⟨scope, name⟩).map (scope, ·)).or (t.lookup name rest) := by
  unfold lookup
  rw [List.findSome?_cons]
  cases t.get? ⟨scope, name⟩ <;> rfl

end SymbolTable

namespace TupleTable

theorem fields?_record (t : TupleTable) (slot : Slot) (fields : List TupleField) (other : Slot) :
    (t.record slot fields).fields? other = if other = slot then some fields else t.fields? other := by
  unfold fields? record
  rw [List.lookup_cons]
  by_cases ho : other = slot
  · simp [ho]
  · have hb : (other == slot) = false := by simpa using ho
    rw [hb, if_neg ho]

end TupleTable

end ExprCheck
