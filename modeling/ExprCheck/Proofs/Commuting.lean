import Mathlib
import ExprCheck.Proofs.Renumbering
import ExprCheck.Proofs.TupleRecords

/-!
# Independent declarations commute

Two declarations next to each other, neither of which refers to the name of the other, can change
places. Each of them touches the slot of its own name in the main scope and scopes that it opens
itself, so what the other one has done is for it a renumbering of the scopes still to be opened.
After both, the scopes opened by the first and by the second have changed places, and whatever
follows is checked under this renumbering.
-/

namespace ExprCheck

/-! ## Blocks of numbers -/

/-- Make room for `k` numbers at `a`. -/
def shiftFrom (a k n : Nat) : Nat := if n < a then n else n + k

/-- Let the `k` numbers from `a` on and the `m` numbers behind them change places. -/
def swapped (a k m n : Nat) : Nat :=
  if n < a then n else if n < a + k then n + m else if n < a + k + m then n - k else n

theorem shiftFrom_injective (a k : Nat) : (shiftFrom a k).Injective := by
  intro n m hnm
  unfold shiftFrom at hnm
  split at hnm <;> split at hnm <;> omega

theorem shiftFrom_of_lt {a k n : Nat} (h : n < a) : shiftFrom a k n = n := if_pos h

theorem shiftFrom_of_le {a k n : Nat} (h : a ≤ n) : shiftFrom a k n = n + k := if_neg (by omega)

theorem countsOn_shiftFrom (a k : Nat) : CountsOn (shiftFrom a k) a (a + k) := by
  intro n
  rw [shiftFrom_of_le (by omega)]
  omega

/-- Numbers behind the room that was made count on behind it. -/
theorem CountsOn.eq_of_shiftFrom {a k l b : Nat} (h : CountsOn (shiftFrom a k) (a + l) b) :
    b = a + l + k := by
  rw [← h.head, shiftFrom_of_le (by omega)]

theorem swapped_before {a k m n : Nat} (h : n < a) : swapped a k m n = n := if_pos h

theorem swapped_first {a k m n : Nat} (h₁ : a ≤ n) (h₂ : n < a + k) : swapped a k m n = n + m := by
  unfold swapped
  rw [if_neg (by omega), if_pos h₂]

theorem swapped_second {a k m n : Nat} (h₁ : a + k ≤ n) (h₂ : n < a + k + m) :
    swapped a k m n = n - k := by
  unfold swapped
  rw [if_neg (by omega), if_neg (by omega), if_pos h₂]

theorem swapped_behind {a k m n : Nat} (h : a + k + m ≤ n) : swapped a k m n = n := by
  unfold swapped
  rw [if_neg (by omega), if_neg (by omega), if_neg (by omega)]

theorem countsOn_swapped {a k m b b' : Nat} (h : b = a + k + m) (h' : b' = a + k + m) :
    CountsOn (swapped a k m) b b' := by
  intro n
  rw [swapped_behind (by omega)]
  omega

theorem swapped_swapped (a k m n : Nat) : swapped a m k (swapped a k m n) = n := by
  by_cases h₁ : n < a
  · rw [swapped_before h₁, swapped_before h₁]
  · by_cases h₂ : n < a + k
    · rw [swapped_first (by omega) h₂, swapped_second (by omega) (by omega)]
      omega
    · by_cases h₃ : n < a + k + m
      · rw [swapped_second (by omega) h₃, swapped_first (by omega) (by omega)]
        omega
      · have hbehind : a + k + m ≤ n := by omega
        rw [swapped_behind hbehind, swapped_behind (by omega)]

/-- The exchange of two blocks as a permutation. -/
def swapBlocks (a k m : Nat) : Equiv.Perm Nat where
  toFun := swapped a k m
  invFun := swapped a m k
  left_inv := swapped_swapped a k m
  right_inv := swapped_swapped a m k

/-- Seen from the first block, which ends at `b₁`, the exchange makes room for the second one; seen
from the second, which ends at `b₂` if it comes first, it makes room for the first; and what is behind
both, from `b` on, stays there. -/
theorem swapBlocks_cases {a k m b₁ b₂ b : Nat} (h₁ : b₁ = a + k) (h₂ : b₂ = a + m)
    (h : b = a + k + m) (n : Nat) :
    (n < b₁ ∧ swapBlocks a k m n = shiftFrom a m n) ∨
    (swapBlocks a k m n < b₂ ∧ shiftFrom a k (swapBlocks a k m n) = n) ∨
    (¬ n < b ∧ ¬ swapBlocks a k m n < b) := by
  have happly : swapBlocks a k m n = swapped a k m n := rfl
  rw [happly, h₁, h₂, h]
  by_cases h₁ : n < a
  · left
    exact ⟨by omega, by rw [swapped_before h₁, shiftFrom_of_lt h₁]⟩
  · by_cases h₂ : n < a + k
    · left
      exact ⟨h₂, by rw [swapped_first (by omega) h₂, shiftFrom_of_le (by omega)]⟩
    · by_cases h₃ : n < a + k + m
      · right; left
        rw [swapped_second (by omega) h₃, shiftFrom_of_le (by omega)]
        omega
      · right; right
        rw [swapped_behind (by omega)]
        exact ⟨h₃, h₃⟩

namespace ScopeStack

variable {s : ScopeStack} {scope : Scope}

theorem renumber_of_allocated (h : s.Allocated scope) (k l : Nat) :
    scope.renumber (shiftFrom s.nextFunction k) (shiftFrom s.nextLoop l) = scope := by
  cases scope with
  | main => rfl
  | function n => exact congrArg Scope.function (shiftFrom_of_lt h)
  | loop n => exact congrArg Scope.loop (shiftFrom_of_lt h)

theorem not_allocated_renumber {t : ScopeStack} {k l : Nat}
    (hf : t.nextFunction = s.nextFunction + k) (hl : t.nextLoop = s.nextLoop + l)
    (h : ¬ s.Allocated scope) :
    ¬ t.Allocated (scope.renumber (shiftFrom s.nextFunction k) (shiftFrom s.nextLoop l)) := by
  cases scope with
  | main => exact absurd trivial h
  | function n =>
    have hn : s.nextFunction ≤ n := Nat.le_of_not_lt h
    show ¬ shiftFrom s.nextFunction k n < t.nextFunction
    rw [shiftFrom_of_le hn]
    omega
  | loop n =>
    have hn : s.nextLoop ≤ n := Nat.le_of_not_lt h
    show ¬ shiftFrom s.nextLoop l n < t.nextLoop
    rw [shiftFrom_of_le hn]
    omega

/-- Where the exchange of two blocks of scopes takes a scope: one of the first block, or from
before, is moved over the second block; one of the second block comes from such a move over the
first; and all others have not been entered. -/
theorem swapBlocks_scope_cases {s₁ s₂ t : ScopeStack} {k₁ k₂ l₁ l₂ : Nat}
    (hf₁ : s₁.nextFunction = s.nextFunction + k₁) (hl₁ : s₁.nextLoop = s.nextLoop + l₁)
    (hf₂ : s₂.nextFunction = s.nextFunction + k₂) (hl₂ : s₂.nextLoop = s.nextLoop + l₂)
    (hf : t.nextFunction = s.nextFunction + k₁ + k₂) (hl : t.nextLoop = s.nextLoop + l₁ + l₂)
    (scope : Scope) {image : Scope} (himage : image =
      scope.renumber (swapBlocks s.nextFunction k₁ k₂) (swapBlocks s.nextLoop l₁ l₂)) :
    (s₁.Allocated scope ∧
      image = scope.renumber (shiftFrom s.nextFunction k₂) (shiftFrom s.nextLoop l₂)) ∨
    (s₂.Allocated image ∧ image ≠ .main ∧
      image.renumber (shiftFrom s.nextFunction k₁) (shiftFrom s.nextLoop l₁) = scope) ∨
    (¬ t.Allocated scope ∧ ¬ t.Allocated image) := by
  subst himage
  cases scope with
  | main => exact Or.inl ⟨trivial, rfl⟩
  | function n =>
    rcases swapBlocks_cases hf₁ hf₂ hf n with ⟨hn, himage⟩ | ⟨hn, hback⟩ | hnew
    · exact Or.inl ⟨hn, congrArg Scope.function himage⟩
    · exact Or.inr (Or.inl ⟨hn, by simp [Scope.renumber], congrArg Scope.function hback⟩)
    · exact Or.inr (Or.inr hnew)
  | loop n =>
    rcases swapBlocks_cases hl₁ hl₂ hl n with ⟨hn, himage⟩ | ⟨hn, hback⟩ | hnew
    · exact Or.inl ⟨hn, congrArg Scope.loop himage⟩
    · exact Or.inr (Or.inl ⟨hn, by simp [Scope.renumber], congrArg Scope.loop hback⟩)
    · exact Or.inr (Or.inr hnew)

end ScopeStack

namespace Checker

/-! ## What a declaration touches -/

theorem Confined.get? {c d : Checker} (h : Confined c d) {slot : Slot}
    (hslot : c.scopes.Allocated slot.scope) : d.symbols.get? slot = c.symbols.get? slot := by
  cases hc : c.symbols.get? slot with
  | some symbol => exact h.symbols slot symbol hc
  | none =>
    rw [← SymbolTable.contains_eq_false] at hc ⊢
    by_contra hd
    exact (h.binds slot hc (by simpa using hd)).1 hslot

/-- Inferring an expression touches no slot of a scope entered before, except that of the innermost
declaration. -/
theorem entry_infer {c : Checker} (hc : c.Valid) (e : Expr) {slot : Slot}
    (hslot : c.scopes.Allocated slot.scope) (hne : ∀ o, c.owner = some o → slot ≠ c.slot o) :
    (after (infer e) c).entry slot = c.entry slot := by
  have hsymbols := (confined_infer hc e).get? hslot
  have htuples : (after (infer e) c).tuples.fields? slot = c.tuples.fields? slot :=
    fields?_infer e hc hslot fun ⟨_, o, ho, hs⟩ => hne o ho hs
  rw [entry, hsymbols, htuples]
  rfl

theorem entry_compareTypes (span : Span) (fault : Ty → Ty → TypeFault) (a b : Option Ty)
    (c : Checker) (slot : Slot) : (after (compareTypes span fault a b) c).entry slot = c.entry slot := by
  unfold compareTypes
  split
  · split <;> rfl
  · rfl

/-- Inferring a declared value touches no slot of a scope entered before, except the declared
one. -/
theorem entry_inferDeclared {c : Checker} (hc : c.Valid) (d : Declaration) {slot : Slot}
    (hslot : c.scopes.Allocated slot.scope) (hne : slot ≠ c.slot d.name) :
    (after (inferDeclared d) c).entry slot = c.entry slot := by
  have howned : Valid { c with owner := some d.name } := hc.congr rfl rfl
  have hvalue := entry_infer howned d.value hslot fun o ho => Option.some.inj ho ▸ hne
  simp only [inferDeclared, after_bind, after_setOwner, after_pure, entry_compareTypes]
  exact hvalue

/-- A declaration touches no slot of a scope entered before, except its own. -/
theorem entry_checkDeclaration {c : Checker} (hc : c.Valid) (d : Declaration) {slot : Slot}
    (hslot : c.scopes.Allocated slot.scope) (hne : slot ≠ c.slot d.name) :
    (after (checkDeclaration d) c).entry slot = c.entry slot := by
  cases hbound : c.symbols.contains (c.slot d.name) with
  | true =>
    rw [after_checkDeclaration_bound d c hbound]
    rfl
  | false =>
    have hkept := (confined_inferDeclared hc d).toKept
    have hfree := free_after_inferDeclared hc d hbound
    have hinferred := entry_inferDeclared hc d hslot hne
    rw [after_checkDeclaration_unbound d c hbound]
    obtain ⟨t, ht, hget⟩ := after_define_free _ d.span
      ⟨.declared, .of (answer (inferDeclared d) c)⟩ hfree
    rw [ht, ← hinferred]
    have hother : slot ≠ (after (inferDeclared d) c).slot d.name := by
      rw [hkept.slot]
      exact hne
    show (t.get? slot, _) = _
    rw [hget, if_neg hother]
    rfl

theorem Placed.entry_of_not_allocated {c : Checker} (hc : c.Placed) {slot : Slot}
    (hslot : ¬ c.scopes.Allocated slot.scope) : c.entry slot = (none, none) := by
  have hsymbols : c.symbols.get? slot = none := by
    rw [← SymbolTable.contains_eq_false]
    by_contra hcontains
    exact hslot (hc.slots slot (by simpa using hcontains))
  have htuples : c.tuples.fields? slot = none := by
    by_contra hfields
    exact hslot (hc.tuples slot hfields)
  rw [entry, hsymbols, htuples]

/-- A part of the walk that leaves alone what is seen of the scopes entered before has done no more
than make room for those that it has opened itself. -/
theorem Placed.renumbered {c d : Checker} (hc : c.Placed) (hd : d.Placed) (hkept : Kept c d)
    {k l : Nat} (hf : d.scopes.nextFunction = c.scopes.nextFunction + k)
    (hl : d.scopes.nextLoop = c.scopes.nextLoop + l) {Sees : String → Prop}
    (hentries : ∀ slot, c.scopes.Allocated slot.scope → (slot.scope = .main → Sees slot.name) →
      d.entry slot = c.entry slot) :
    Renumbered (shiftFrom c.scopes.nextFunction k) (shiftFrom c.scopes.nextLoop l) Sees c.errors
      d.errors c d := by
  refine ⟨?_, ?_, ?_, hkept.owner, hkept.depth, ⟨[], by simp, by simp⟩, ?_⟩
  · have hsame : c.scopes.active.map (Scope.renumber (shiftFrom c.scopes.nextFunction k)
        (shiftFrom c.scopes.nextLoop l)) = c.scopes.active.map id :=
      List.map_congr_left fun scope hmem =>
        ScopeStack.renumber_of_allocated (hc.active scope hmem) k l
    rw [hsame, List.map_id, hkept.active]
  · rw [hf]
    exact countsOn_shiftFrom _ k
  · rw [hl]
    exact countsOn_shiftFrom _ l
  · intro slot hsees
    by_cases hslot : c.scopes.Allocated slot.scope
    · have hsame : slot.renumber (shiftFrom c.scopes.nextFunction k)
          (shiftFrom c.scopes.nextLoop l) = slot := by
        rw [Slot.renumber, ScopeStack.renumber_of_allocated hslot]
      rw [hsame]
      exact hentries slot hslot hsees
    · rw [hc.entry_of_not_allocated hslot]
      exact hd.entry_of_not_allocated (ScopeStack.not_allocated_renumber hf hl hslot)

/-! ## One declaration after another -/

/-- How many function scopes checking the declaration opens. -/
def openedFunctions (c : Checker) (d : Declaration) : Nat :=
  (after (checkDeclaration d) c).scopes.nextFunction - c.scopes.nextFunction

/-- How many loop scopes checking the declaration opens. -/
def openedLoops (c : Checker) (d : Declaration) : Nat :=
  (after (checkDeclaration d) c).scopes.nextLoop - c.scopes.nextLoop

section Pair

variable {c : Checker}

theorem Resting.counters (hc : Resting c) (d : Declaration) :
    (after (checkDeclaration d) c).scopes.nextFunction =
        c.scopes.nextFunction + c.openedFunctions d ∧
      (after (checkDeclaration d) c).scopes.nextLoop = c.scopes.nextLoop + c.openedLoops d := by
  have hkept := local_checkDeclaration hc.placed.toValid d
  exact ⟨(Nat.add_sub_of_le hkept.nextFunction).symm, (Nat.add_sub_of_le hkept.nextLoop).symm⟩

theorem Resting.slot (hc : Resting c) (x : String) : c.slot x = ⟨.main, x⟩ := by
  rw [Checker.slot, ScopeStack.current, hc.active]
  rfl

/-- What a declaration has done is, for those that do not ask about its name, room made for the
scopes that it has opened. -/
theorem Resting.renumbered_shift (hc : Resting c) (d : Declaration) :
    Renumbered (shiftFrom c.scopes.nextFunction (c.openedFunctions d))
      (shiftFrom c.scopes.nextLoop (c.openedLoops d)) (· ≠ d.name) c.errors
      (after (checkDeclaration d) c).errors c (after (checkDeclaration d) c) := by
  have hkept := (local_checkDeclaration hc.placed.toValid d).toKept
  have hafter : Resting (after (checkDeclaration d) c) := .declaration d hc
  refine hc.placed.renumbered hafter.placed hkept (hc.counters d).1 (hc.counters d).2 ?_
  intro slot hslot hsees
  refine entry_checkDeclaration hc.placed.toValid d hslot ?_
  rw [hc.slot]
  rintro rfl
  exact hsees rfl rfl

end Pair

end Checker

/-! ## Two declarations that change places -/

/-- Declarations of different names, neither of which refers to the name of the other. -/
structure Declaration.Independent (d₁ d₂ : Declaration) : Prop where
  names : d₁.name ≠ d₂.name
  left : d₁.name ∉ d₂.variables
  right : d₂.name ∉ d₁.variables

theorem Declaration.Independent.symm {d₁ d₂ : Declaration} (h : d₁.Independent d₂) :
    d₂.Independent d₁ :=
  ⟨h.names.symm, h.right, h.left⟩

namespace Checker

section Swap

variable {c : Checker} {d₁ d₂ : Declaration}

/-- A declaration does behind another one what it does without it, in scopes that make room. -/
theorem Resting.renumbered_behind (hc : Resting c) (h : d₁.Independent d₂) :
    Renumbered (shiftFrom c.scopes.nextFunction (c.openedFunctions d₂))
      (shiftFrom c.scopes.nextLoop (c.openedLoops d₂)) (· ≠ d₂.name) c.errors
      (after (checkDeclaration d₂) c).errors (after (checkDeclaration d₁) c)
      (after (checkDeclaration d₁) (after (checkDeclaration d₂) c)) := by
  refine (hc.renumbered_shift d₂).checkDeclaration (shiftFrom_injective _ _)
    (shiftFrom_injective _ _) h.names ?_
  rintro x hx rfl
  exact h.right hx

/-- What the first declaration leaves in its slots is the same in both orders. -/
theorem Resting.entry_first (hc : Resting c) (h : d₁.Independent d₂) (slot : Slot)
    (hslot : (after (checkDeclaration d₁) c).scopes.Allocated slot.scope)
    (hne : slot ≠ ⟨.main, d₂.name⟩) :
    (after (checkDeclaration d₁) (after (checkDeclaration d₂) c)).entry
      (slot.renumber (shiftFrom c.scopes.nextFunction (c.openedFunctions d₂))
        (shiftFrom c.scopes.nextLoop (c.openedLoops d₂))) =
    (after (checkDeclaration d₂) (after (checkDeclaration d₁) c)).entry slot := by
  have hfirst : Resting (after (checkDeclaration d₁) c) := .declaration d₁ hc
  have hsees : slot.scope = .main → slot.name ≠ d₂.name := by
    intro hmain hname
    exact hne (by rw [← hmain, ← hname])
  have hkept : slot ≠ (after (checkDeclaration d₁) c).slot d₂.name := by
    rw [hfirst.slot]
    exact hne
  rw [(hc.renumbered_behind h).entries slot hsees,
    entry_checkDeclaration hfirst.placed.toValid d₂ hslot hkept]

/-- The second of two declarations opens as many scopes as it does without the first. -/
theorem Resting.counters_pair (hc : Resting c) (h : d₁.Independent d₂) :
    (after (checkDeclaration d₁) (after (checkDeclaration d₂) c)).scopes.nextFunction =
        c.scopes.nextFunction + c.openedFunctions d₁ + c.openedFunctions d₂ ∧
      (after (checkDeclaration d₁) (after (checkDeclaration d₂) c)).scopes.nextLoop =
        c.scopes.nextLoop + c.openedLoops d₁ + c.openedLoops d₂ := by
  have hbehind := hc.renumbered_behind h
  obtain ⟨hfunctions, hloops⟩ := hc.counters d₁
  have hf := hbehind.functions
  have hl := hbehind.loops
  rw [hfunctions] at hf
  rw [hloops] at hl
  exact ⟨hf.eq_of_shiftFrom, hl.eq_of_shiftFrom⟩

theorem Resting.kept_pair (hc : Resting c) (d₁ d₂ : Declaration) :
    Kept c (after (checkDeclaration d₂) (after (checkDeclaration d₁) c)) := by
  have hfirst : Resting (after (checkDeclaration d₁) c) := .declaration d₁ hc
  exact (local_checkDeclaration hc.placed.toValid d₁).toKept.trans
    (local_checkDeclaration hfirst.placed.toValid d₂).toKept

/-- After both declarations, the scopes that they have opened have changed places. -/
theorem Resting.renumbered_swap (hc : Resting c) (h : d₁.Independent d₂)
    {c₁₂ c₂₁ : Checker} (hc₁₂ : c₁₂ = after (checkDeclaration d₂) (after (checkDeclaration d₁) c))
    (hc₂₁ : c₂₁ = after (checkDeclaration d₁) (after (checkDeclaration d₂) c)) :
    Renumbered (swapBlocks c.scopes.nextFunction (c.openedFunctions d₁) (c.openedFunctions d₂))
      (swapBlocks c.scopes.nextLoop (c.openedLoops d₁) (c.openedLoops d₂)) (fun _ => True)
      c₁₂.errors c₂₁.errors c₁₂ c₂₁ := by
  have hrest₁₂ : Resting c₁₂ := hc₁₂ ▸ .declaration d₂ (.declaration d₁ hc)
  have hrest₂₁ : Resting c₂₁ := hc₂₁ ▸ .declaration d₁ (.declaration d₂ hc)
  have hkept₁₂ : Kept c c₁₂ := hc₁₂ ▸ hc.kept_pair d₁ d₂
  have hkept₂₁ : Kept c c₂₁ := hc₂₁ ▸ hc.kept_pair d₂ d₁
  obtain ⟨hf₁, hl₁⟩ := hc.counters d₁
  obtain ⟨hf₂, hl₂⟩ := hc.counters d₂
  obtain ⟨hf₁₂, hl₁₂⟩ := hc.counters_pair h.symm
  obtain ⟨hf₂₁, hl₂₁⟩ := hc.counters_pair h
  have hfirst := hc.entry_first h
  have hsecond := hc.entry_first h.symm
  rw [← hc₁₂] at hf₁₂ hl₁₂
  rw [← hc₂₁] at hf₂₁ hl₂₁
  rw [← hc₁₂, ← hc₂₁] at hfirst hsecond
  refine ⟨?_, ?_, ?_, hkept₂₁.owner.trans hkept₁₂.owner.symm,
    hkept₂₁.depth.trans hkept₁₂.depth.symm, ⟨[], by simp, by simp⟩, ?_⟩
  · rw [hrest₂₁.active, hrest₁₂.active]
    rfl
  · exact countsOn_swapped (by omega) (by omega)
  · exact countsOn_swapped (by omega) (by omega)
  · intro slot _
    by_cases hslot : slot = ⟨.main, d₂.name⟩
    · -- the main scope keeps its place, so the slot of the second name is one of the second block
      subst hslot
      refine (hsecond ⟨.main, d₂.name⟩ trivial ?_).symm
      intro hname
      exact h.names (Slot.mk.inj hname).2.symm
    · rcases ScopeStack.swapBlocks_scope_cases hf₁ hl₁ hf₂ hl₂ hf₂₁ hl₂₁ slot.scope rfl with
        ⟨hallocated, himage⟩ | ⟨hallocated, hmain, hback⟩ | ⟨hnew, hnew'⟩
      · rw [Slot.renumber, himage]
        exact hfirst slot hallocated hslot
      · have hne : slot.renumber _ _ ≠ ⟨.main, d₁.name⟩ := fun hname => hmain (Slot.mk.inj hname).1
        rw [← hsecond (slot.renumber _ _) hallocated hne]
        exact congrArg (fun scope => c₁₂.entry ⟨scope, slot.name⟩) hback
      · have hnew₁₂ : ¬ c₁₂.scopes.Allocated slot.scope := by
          intro hallocated
          exact hnew (hallocated.mono (by omega) (by omega))
        rw [hrest₁₂.placed.entry_of_not_allocated hnew₁₂]
        exact hrest₂₁.placed.entry_of_not_allocated hnew'

/-- Both orders report the same errors. -/
theorem Resting.errors_perm (hc : Resting c) (h : d₁.Independent d₂) :
    (after (checkDeclaration d₁) (after (checkDeclaration d₂) c)).errors.Perm
      (after (checkDeclaration d₂) (after (checkDeclaration d₁) c)).errors := by
  obtain ⟨new₁, hfirst, hbehind₁⟩ := (hc.renumbered_behind h).errors
  obtain ⟨new₂, hsecond, hbehind₂⟩ := (hc.renumbered_behind h.symm).errors
  rw [hbehind₁, hbehind₂, hfirst, hsecond, List.append_assoc, List.append_assoc]
  exact List.Perm.append_left _ List.perm_append_comm

end Swap

theorem resting_checkDeclarations {c : Checker} (hc : Resting c) (ds : List Declaration) :
    Resting (after (checkDeclarations ds) c) := by
  induction ds generalizing c with
  | nil => exact hc
  | cons d rest ih => exact ih (.declaration d hc)

/-- Independent declarations commute: wherever they stand next to each other in a program, they can
change places, and the same errors are found, the main scope ends up with the same symbols, and all
other scopes do so up to a renumbering of functions and loops. -/
theorem check_swap (span : Span) (before behind : List Declaration) (d₁ d₂ : Declaration)
    (h : d₁.Independent d₂) :
    (initial.check ⟨span, before ++ d₂ :: d₁ :: behind⟩).errors.Perm
      (initial.check ⟨span, before ++ d₁ :: d₂ :: behind⟩).errors ∧
    (∀ x, (initial.check ⟨span, before ++ d₂ :: d₁ :: behind⟩).symbols.get? ⟨.main, x⟩ =
      (initial.check ⟨span, before ++ d₁ :: d₂ :: behind⟩).symbols.get? ⟨.main, x⟩) ∧
    ∃ f g : Equiv.Perm Nat, ∀ scope x,
      (initial.check ⟨span, before ++ d₂ :: d₁ :: behind⟩).symbols.get? ⟨scope.renumber f g, x⟩ =
        (initial.check ⟨span, before ++ d₁ :: d₂ :: behind⟩).symbols.get? ⟨scope, x⟩ := by
  have hsplit : ∀ a b, initial.check ⟨span, before ++ a :: b :: behind⟩ =
      after (checkDeclarations behind) (after (checkDeclaration b) (after (checkDeclaration a)
        (after (checkDeclarations before) initial))) := by
    intro a b
    rw [check_eq_after, after_checkDeclarations_append]
    rfl
  have hrest := resting_checkDeclarations .initial before
  have hpair := hrest.renumbered_swap h rfl rfl
  have hend := hpair.checkDeclarations (Equiv.injective _) (Equiv.injective _) behind
  rw [hsplit, hsplit]
  refine ⟨?_, ?_, ?_⟩
  · obtain ⟨new, herrors, herrors'⟩ := hend.errors
    rw [herrors, herrors']
    exact (hrest.errors_perm h).append_right new
  · intro x
    exact hend.symbols ⟨.main, x⟩ fun _ => trivial
  · exact ⟨_, _, fun scope x => hend.symbols ⟨scope, x⟩ fun _ => trivial⟩

/-- The declaration `f is func(g) => missing`, with a parameter that has the name of the other
declaration. -/
def shadowingDeclaration : Declaration :=
  ⟨.origin, "f", none, .function .origin [⟨.origin, "g", none⟩] none
    (.expr .origin (.var .origin "missing"))⟩

/-- The declaration `g is func(n) do for i in n loop print(i) end end`. -/
def loopingDeclaration : Declaration :=
  ⟨.origin, "g", none, .function .origin [⟨.origin, "n", none⟩] none
    (.block .origin [.loop .origin (.items .origin (some "i") (.var .origin "n"))
      [.print .origin [.var .origin "i"]]])⟩

/-- Both open a function scope; the parameters are in scope 0 and 1 in one order, and the other way
round in the other. -/
theorem check_swap_shadowingDeclaration :
    shadowingDeclaration.Independent loopingDeclaration ∧
    (initial.check ⟨.origin, [shadowingDeclaration, loopingDeclaration]⟩).symbols.get?
      ⟨.function 0, "g"⟩ ≠ none ∧
    (initial.check ⟨.origin, [loopingDeclaration, shadowingDeclaration]⟩).symbols.get?
      ⟨.function 0, "g"⟩ = none ∧
    (initial.check ⟨.origin, [shadowingDeclaration, loopingDeclaration]⟩).errors =
      [⟨.unbound "missing", .origin⟩] ∧
    (initial.check ⟨.origin, [loopingDeclaration, shadowingDeclaration]⟩).errors.Perm
      [⟨.unbound "missing", .origin⟩] := by
  have hindependent : shadowingDeclaration.Independent loopingDeclaration :=
    ⟨by decide, by decide, by decide⟩
  have herrors : (initial.check ⟨.origin, [shadowingDeclaration, loopingDeclaration]⟩).errors =
      [⟨.unbound "missing", .origin⟩] := by decide +kernel
  refine ⟨hindependent, by decide +kernel, by decide +kernel, herrors, ?_⟩
  rw [← herrors]
  exact (check_swap .origin [] [] _ _ hindependent).1

end Checker

end ExprCheck
