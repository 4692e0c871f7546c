import Mathlib
import ExprCheck.Proofs.Discipline

/-!
# Scopes as a stack of environments

A block-structured language needs a stack of environments: a block pushes an empty one, its end pops
it, and a name is searched for from the top. Here nothing is ever taken out of the symbol table. A
scope that is left stays in it, and what hides its names is that its number is not used again.

`ScopedTable.environments` reads a stack of environments off the open scopes and the table. It
commutes with every call (`environments_apply`), so that after any calls at all the two say the same
about every name.
-/

namespace ExprCheck

/-- A call on the open scopes and the symbol table. -/
inductive ScopeCall where
  | pushFunction
  | pushLoop
  | pop
  /-- Bind a name in the innermost open scope. -/
  | define (name : String) (symbol : Symbol)
deriving DecidableEq, Repr

namespace ScopeCall

/-- After `n` scopes have been entered, the calls leave all of these and those that they enter
themselves, but no others; and they bind names in such scopes only. -/
def closes : Nat → List ScopeCall → Bool
  | n, [] => n = 0
  | n, pushFunction :: rest => closes (n + 1) rest
  | n, pushLoop :: rest => closes (n + 1) rest
  | 0, pop :: _ => false
  | n + 1, pop :: rest => closes n rest
  | 0, define _ _ :: _ => false
  | n + 1, define _ _ :: rest => closes (n + 1) rest

/-- Calls from a push to the pop that belongs to it, or several such segments in a row. -/
def Balanced (calls : List ScopeCall) : Prop := closes 0 calls = true

end ScopeCall

/-! ## Environments -/

/-- The symbols of the names of one block. -/
abbrev Environment := List (String × Symbol)

namespace Environment

/-- Leave the innermost block, unless it is the outermost. -/
def pop : List Environment → List Environment
  | _ :: outer :: rest => outer :: rest
  | frames => frames

/-- Bind a name in the innermost block, unless it is bound there. -/
def define (name : String) (symbol : Symbol) : List Environment → List Environment
  | [] => []
  | frame :: rest =>
    if (frame.lookup name).isSome then frame :: rest else ((name, symbol) :: frame) :: rest

/-- The symbol of a name in the innermost block that binds it, and how many blocks are inside that
one. -/
def search? (name : String) : List Environment → Option (Nat × Symbol)
  | [] => none
  | frame :: rest =>
    match frame.lookup name with
    | some symbol => some (0, symbol)
    | none => (search? name rest).map fun (inside, symbol) => (inside + 1, symbol)

/-- What a call does to a stack of environments. -/
def apply (frames : List Environment) : ScopeCall → List Environment
  | .pushFunction | .pushLoop => [] :: frames
  | .pop => pop frames
  | .define name symbol => define name symbol frames

/-- The stack of environments after some calls. -/
def ofCalls (calls : List ScopeCall) : List Environment := calls.foldl apply [[]]

end Environment

/-! ## Scopes and symbols -/

/-- The open scopes and the symbol table. -/
structure ScopedTable where
  scopes : ScopeStack
  symbols : SymbolTable

namespace ScopedTable

/-- Only the main scope is open, and no name is bound. -/
def initial : ScopedTable := ⟨.initial, .empty⟩

/-- What a call does. A name that is bound already keeps its symbol. -/
def apply (t : ScopedTable) : ScopeCall → ScopedTable
  | .pushFunction => { t with scopes := t.scopes.pushFunction }
  | .pushLoop => { t with scopes := t.scopes.pushLoop }
  | .pop => { t with scopes := t.scopes.pop }
  | .define name symbol =>
    { t with symbols := (t.symbols.define? ⟨t.scopes.current, name⟩ symbol).getD t.symbols }

/-- What the calls lead to. -/
def ofCalls (calls : List ScopeCall) : ScopedTable := calls.foldl apply initial

/-- The scope that a push returns. -/
def pushed? (t : ScopedTable) : ScopeCall → Option Scope
  | .pushFunction => some t.scopes.pushFunction.current
  | .pushLoop => some t.scopes.pushLoop.current
  | .pop | .define _ _ => none

/-- The scopes that the pushes among some calls return, in order. -/
def pushedBy (t : ScopedTable) : List ScopeCall → List Scope
  | [] => []
  | call :: rest => (t.pushed? call).toList ++ (t.apply call).pushedBy rest

/-- The symbol that a name stands for, and its scope. -/
def lookup (t : ScopedTable) (name : String) : Option (Scope × Symbol) :=
  t.symbols.lookup name t.scopes.active

/-- The names that the table holds for a scope. -/
def environment (t : ScopedTable) (scope : Scope) : Environment :=
  (t.symbols.bindings.filter (·.1.scope = scope)).map fun (slot, symbol) => (slot.name, symbol)

/-- The open scopes as a stack of environments. -/
def environments (t : ScopedTable) : List Environment := t.scopes.active.map t.environment

/-- A checker with these scopes and symbols. -/
def toChecker (t : ScopedTable) : Checker :=
  { Checker.initial with scopes := t.scopes, symbols := t.symbols }

/-- The scopes are in order, and the main scope is the outermost one. -/
structure Ordered (t : ScopedTable) : Prop where
  valid : t.toChecker.Valid
  bottom : t.scopes.active.getLast? = some .main

/-! ## What a call keeps -/

theorem ordered_initial : initial.Ordered := ⟨Checker.valid_initial, rfl⟩

theorem Ordered.enter {t : ScopedTable} (h : t.Ordered) {scope : Scope} {scopes : ScopeStack}
    (hin : ScopeStack.Enters scope t.scopes scopes) : Ordered { t with scopes := scopes } where
  valid := h.valid.enter hin
  bottom := by
    have hne : t.scopes.active ≠ [] := h.valid.nonempty
    show scopes.active.getLast? = _
    rw [hin.active, List.getLast?_cons_of_ne_nil hne]
    exact h.bottom

theorem Ordered.leave {t : ScopedTable} (h : t.Ordered) :
    Ordered { t with scopes := t.scopes.pop } where
  valid := h.valid.leave
  bottom := by
    have hbottom := h.bottom
    show t.scopes.pop.active.getLast? = _
    unfold ScopeStack.pop
    split
    · next hactive =>
      rw [hactive, List.getLast?_cons_cons] at hbottom
      exact hbottom
    · exact hbottom

/-- A call to bind a name does what the checker does. -/
theorem toChecker_define (t : ScopedTable) (name : String) (symbol : Symbol) :
    (t.apply (.define name symbol)).toChecker.symbols =
        (Checker.after (Checker.define .origin name symbol) t.toChecker).symbols ∧
      (t.apply (.define name symbol)).toChecker.scopes =
        (Checker.after (Checker.define .origin name symbol) t.toChecker).scopes := by
  rw [Checker.define, Checker.after_get]
  show Option.getD (t.symbols.define? ⟨t.scopes.current, name⟩ symbol) _ = _ ∧ _
  cases hdefine : t.symbols.define? ⟨t.scopes.current, name⟩ symbol with
  | some symbols =>
    have hchecker : t.toChecker.symbols.define? (t.toChecker.slot name) symbol = some symbols :=
      hdefine
    rw [hchecker]
    exact ⟨rfl, rfl⟩
  | none =>
    have hchecker : t.toChecker.symbols.define? (t.toChecker.slot name) symbol = none := hdefine
    rw [hchecker]
    exact ⟨rfl, rfl⟩

theorem Ordered.apply {t : ScopedTable} (h : t.Ordered) (call : ScopeCall) :
    (t.apply call).Ordered := by
  cases call with
  | pushFunction => exact h.enter (ScopeStack.enters_pushFunction t.scopes)
  | pushLoop => exact h.enter (ScopeStack.enters_pushLoop t.scopes)
  | pop => exact h.leave
  | define name symbol =>
    obtain ⟨hsymbols, hscopes⟩ := t.toChecker_define name symbol
    have hlocal := Checker.local_define t.toChecker .origin name symbol
    exact ⟨(hlocal.valid h.valid).congr hscopes hsymbols, h.bottom⟩

theorem ordered_ofCalls (calls : List ScopeCall) : (ofCalls calls).Ordered := by
  unfold ofCalls
  induction calls using List.reverseRecOn with
  | nil => exact ordered_initial
  | append_singleton calls call ih =>
    rw [List.foldl_append]
    exact ih.apply call

/-! ## The environment of a scope -/

/-- The environment of a scope says what the table says about its names. -/
theorem lookup_environment (t : ScopedTable) (scope : Scope) (name : String) :
    (t.environment scope).lookup name = t.symbols.get? ⟨scope, name⟩ := by
  unfold environment SymbolTable.get?
  induction t.symbols.bindings with
  | nil => rfl
  | cons binding rest ih =>
    obtain ⟨⟨scope', name'⟩, symbol⟩ := binding
    by_cases hscope : scope' = scope
    · subst hscope
      rw [List.filter_cons_of_pos (by simp), List.map_cons, List.lookup_cons, List.lookup_cons, ih]
      by_cases hname : name = name'
      · simp [hname]
      · have hslot : (⟨scope', name⟩ : Slot) ≠ ⟨scope', name'⟩ := fun h => hname (Slot.mk.inj h).2
        rw [beq_eq_false_iff_ne.mpr hname, beq_eq_false_iff_ne.mpr hslot]
    · have hslot : (⟨scope, name⟩ : Slot) ≠ ⟨scope', name'⟩ :=
        fun h => hscope (Slot.mk.inj h).1.symm
      rw [List.filter_cons_of_neg (by simpa using hscope), ih, List.lookup_cons,
        beq_eq_false_iff_ne.mpr hslot]

/-- A scope whose number is still free has no names. -/
theorem Ordered.environment_of_new {t : ScopedTable} (h : t.Ordered) {scope : Scope}
    (hnew : ¬ t.scopes.Allocated scope) : t.environment scope = [] := by
  unfold environment
  rw [List.map_eq_nil_iff, List.filter_eq_nil_iff]
  rintro ⟨slot, symbol⟩ hmem hscope
  have hcontains : t.symbols.contains slot = true := by
    rw [SymbolTable.contains, SymbolTable.get?, List.lookup_isSome_iff]
    exact ⟨(slot, symbol), hmem, by simp⟩
  have hslot : slot.scope = scope := by simpa using hscope
  exact hnew (hslot ▸ h.valid.slots slot hcontains)

/-- Binding a name adds it to the environment of the innermost scope, unless it is there. -/
theorem environment_define_current (t : ScopedTable) (name : String) (symbol : Symbol) :
    (t.apply (.define name symbol)).environment t.scopes.current =
      if ((t.environment t.scopes.current).lookup name).isSome then t.environment t.scopes.current
      else (name, symbol) :: t.environment t.scopes.current := by
  rw [lookup_environment]
  show ScopedTable.environment
    ⟨_, (t.symbols.define? ⟨t.scopes.current, name⟩ symbol).getD t.symbols⟩ t.scopes.current = _
  unfold SymbolTable.define? SymbolTable.contains
  cases t.symbols.get? ⟨t.scopes.current, name⟩ with
  | some found => rfl
  | none => simp [environment]

/-- Binding a name leaves alone the environments of all scopes but the innermost one. -/
theorem environment_define_of_ne (t : ScopedTable) (name : String) (symbol : Symbol) {scope : Scope}
    (hne : scope ≠ t.scopes.current) :
    (t.apply (.define name symbol)).environment scope = t.environment scope := by
  show ScopedTable.environment
    ⟨_, (t.symbols.define? ⟨t.scopes.current, name⟩ symbol).getD t.symbols⟩ scope = _
  unfold SymbolTable.define?
  split
  · rfl
  · simp [environment, hne.symm]

/-! ## Environments commute with calls -/

theorem environments_push {t : ScopedTable} (h : t.Ordered) {scope : Scope} {scopes : ScopeStack}
    (hin : ScopeStack.Enters scope t.scopes scopes) :
    environments { t with scopes := scopes } = [] :: t.environments := by
  show scopes.active.map t.environment = _
  rw [hin.active, List.map_cons, h.environment_of_new hin.new]
  rfl

theorem environments_pop (t : ScopedTable) :
    environments { t with scopes := t.scopes.pop } = Environment.pop t.environments := by
  show t.scopes.pop.active.map t.environment = Environment.pop (t.scopes.active.map t.environment)
  unfold ScopeStack.pop
  split
  · next hactive =>
    rw [hactive]
    rfl
  · next hactive =>
    cases hscopes : t.scopes.active with
    | nil => rfl
    | cons inner rest =>
      cases rest with
      | nil => rfl
      | cons outer rest => exact absurd hscopes (hactive inner outer rest)

theorem environments_define {t : ScopedTable} (h : t.Ordered) (name : String) (symbol : Symbol) :
    (t.apply (.define name symbol)).environments =
      Environment.define name symbol t.environments := by
  obtain ⟨inner, rest, hactive⟩ := List.exists_cons_of_ne_nil h.valid.nonempty
  have hscopes : t.scopes.active = inner :: rest := hactive
  have hcurrent : t.scopes.current = inner := by rw [ScopeStack.current, hscopes, List.headD_cons]
  have hnodup : (inner :: rest).Nodup := hscopes ▸ h.valid.nodup
  -- the innermost scope is not open a second time, so no other environment changes
  have hrest : rest.map (t.apply (.define name symbol)).environment = rest.map t.environment := by
    refine List.map_congr_left fun scope hmem => environment_define_of_ne t name symbol ?_
    rw [hcurrent]
    rintro rfl
    exact (List.nodup_cons.mp hnodup).1 hmem
  have hinner := environment_define_current t name symbol
  rw [hcurrent] at hinner
  show t.scopes.active.map _ = Environment.define name symbol (t.scopes.active.map _)
  rw [hscopes, List.map_cons, List.map_cons, hrest, hinner, Environment.define]
  split <;> rfl

/-- Environments read off before a call, and then given the call, are those read off after it. -/
theorem environments_apply {t : ScopedTable} (h : t.Ordered) (call : ScopeCall) :
    (t.apply call).environments = Environment.apply t.environments call := by
  cases call with
  | pushFunction => exact environments_push h (ScopeStack.enters_pushFunction t.scopes)
  | pushLoop => exact environments_push h (ScopeStack.enters_pushLoop t.scopes)
  | pop => exact environments_pop t
  | define name symbol => exact environments_define h name symbol

theorem environments_ofCalls (calls : List ScopeCall) :
    (ofCalls calls).environments = Environment.ofCalls calls := by
  induction calls using List.reverseRecOn with
  | nil => rfl
  | append_singleton calls call ih =>
    have hordered := ordered_ofCalls calls
    unfold ofCalls Environment.ofCalls at ih ⊢
    rw [List.foldl_append, List.foldl_append, ← ih]
    exact environments_apply hordered call

/-- A name stands for what is found on the stack of environments, in the scope at that place. -/
theorem lookup_eq_search? (t : ScopedTable) (name : String) :
    t.lookup name = (Environment.search? name t.environments).map
      fun (inside, symbol) => (t.scopes.active.getD inside .main, symbol) := by
  unfold lookup environments
  induction t.scopes.active with
  | nil => rfl
  | cons scope rest ih =>
    rw [SymbolTable.lookup_cons, List.map_cons, Environment.search?, lookup_environment, ih]
    cases t.symbols.get? ⟨scope, name⟩ with
    | some symbol => rfl
    | none => cases Environment.search? name (rest.map t.environment) <;> rfl

/-! ## Scopes that pushes return -/

theorem pushed?_new {t : ScopedTable} {call : ScopeCall} {scope : Scope}
    (h : t.pushed? call = some scope) :
    ¬ t.scopes.Allocated scope ∧
      ∀ x, (t.apply call).scopes.Allocated x ↔ t.scopes.Allocated x ∨ x = scope := by
  cases call with
  | pushFunction =>
    have hin := ScopeStack.enters_pushFunction t.scopes
    cases h
    exact ⟨hin.new, hin.allocated⟩
  | pushLoop =>
    have hin := ScopeStack.enters_pushLoop t.scopes
    cases h
    exact ⟨hin.new, hin.allocated⟩
  | pop | define name symbol => cases h

theorem allocated_apply {t : ScopedTable} {scope : Scope} (h : t.scopes.Allocated scope)
    (call : ScopeCall) : (t.apply call).scopes.Allocated scope := by
  cases call with
  | pushFunction => exact ((ScopeStack.enters_pushFunction t.scopes).allocated scope).mpr (Or.inl h)
  | pushLoop => exact ((ScopeStack.enters_pushLoop t.scopes).allocated scope).mpr (Or.inl h)
  | pop => exact (ScopeStack.allocated_pop t.scopes scope).mpr h
  | define name symbol => exact h

/-- A number that was given out stays so through all later calls. -/
theorem allocated_foldl (calls : List ScopeCall) {t : ScopedTable} {scope : Scope}
    (h : t.scopes.Allocated scope) : (calls.foldl apply t).scopes.Allocated scope := by
  induction calls generalizing t with
  | nil => exact h
  | cons call rest ih => exact ih (allocated_apply h call)

/-- No scope is returned twice, and none whose number was given out before. -/
theorem pushedBy_new (t : ScopedTable) (calls : List ScopeCall) :
    (t.pushedBy calls).Nodup ∧ ∀ scope ∈ t.pushedBy calls, ¬ t.scopes.Allocated scope := by
  induction calls generalizing t with
  | nil => exact ⟨List.nodup_nil, fun _ hmem => absurd hmem (by simp [pushedBy])⟩
  | cons call rest ih =>
    obtain ⟨hnodup, hlater⟩ := ih (t.apply call)
    have hold : ∀ scope ∈ (t.apply call).pushedBy rest, ¬ t.scopes.Allocated scope :=
      fun scope hmem h => hlater scope hmem (allocated_apply h call)
    rw [pushedBy]
    cases hpushed : t.pushed? call with
    | none => exact ⟨hnodup, hold⟩
    | some scope =>
      obtain ⟨hnew, hallocated⟩ := pushed?_new hpushed
      refine ⟨List.nodup_cons.mpr ⟨fun hmem => ?_, hnodup⟩, fun other hmem => ?_⟩
      · exact hlater scope hmem ((hallocated scope).mpr (Or.inr rfl))
      · rcases List.mem_cons.mp hmem with rfl | hmem
        · exact hnew
        · exact hold other hmem

/-- The numbers given out count the pushes, and a scope that is returned has one of them. -/
theorem allocated_of_pushedBy (t : ScopedTable) (calls : List ScopeCall) {scope : Scope}
    (h : scope ∈ t.pushedBy calls) : (calls.foldl apply t).scopes.Allocated scope := by
  induction calls generalizing t with
  | nil => simp [pushedBy] at h
  | cons call rest ih =>
    rw [pushedBy, List.mem_append, Option.mem_toList] at h
    rcases h with h | h
    · exact allocated_foldl rest (((pushed?_new h).2 scope).mpr (Or.inr rfl))
    · exact ih _ h

theorem numbers_ofCalls (calls : List ScopeCall) :
    (ofCalls calls).scopes.nextFunction = calls.count .pushFunction ∧
      (ofCalls calls).scopes.nextLoop = calls.count .pushLoop := by
  induction calls using List.reverseRecOn with
  | nil => exact ⟨rfl, rfl⟩
  | append_singleton calls call ih =>
    unfold ofCalls at ih ⊢
    rw [List.foldl_append, List.count_append, List.count_append, ← ih.1, ← ih.2]
    cases call with
    | pushFunction => exact ⟨rfl, rfl⟩
    | pushLoop => exact ⟨rfl, rfl⟩
    | pop => exact ⟨ScopeStack.pop_nextFunction _, ScopeStack.pop_nextLoop _⟩
    | define name symbol => exact ⟨rfl, rfl⟩

/-! ## Balanced calls -/

/-- Calls that close what was entered uncover what was there before, as it was. The induction is over
the calls; `inner` are the scopes that are still to be left. -/
theorem uncovers_of_closes {n : Nat} {calls : List ScopeCall} (h : ScopeCall.closes n calls = true)
    {t : ScopedTable} (ht : t.Ordered) (inner : List Scope) {base : List Scope}
    (hactive : t.scopes.active = inner ++ base) (hn : inner.length = n) (hbase : base ≠ []) :
    (calls.foldl apply t).scopes.active = base ∧
      ∀ scope ∈ base, (calls.foldl apply t).environment scope = t.environment scope := by
  induction calls generalizing n t inner with
  | nil =>
    have hzero : n = 0 := by simpa [ScopeCall.closes] using h
    obtain rfl : inner = [] := List.length_eq_zero_iff.mp (hn.trans hzero)
    exact ⟨hactive, fun _ _ => rfl⟩
  | cons call rest ih =>
    rw [List.foldl_cons]
    cases call with
    | pushFunction =>
      have hrest : ScopeCall.closes (n + 1) rest = true := by simpa [ScopeCall.closes] using h
      refine ih hrest (ht.apply .pushFunction) (.function t.scopes.nextFunction :: inner) ?_
        (by simp [hn])
      exact congrArg (Scope.function t.scopes.nextFunction :: ·) hactive
    | pushLoop =>
      have hrest : ScopeCall.closes (n + 1) rest = true := by simpa [ScopeCall.closes] using h
      refine ih hrest (ht.apply .pushLoop) (.loop t.scopes.nextLoop :: inner) ?_ (by simp [hn])
      exact congrArg (Scope.loop t.scopes.nextLoop :: ·) hactive
    | pop =>
      cases inner with
      | nil =>
        subst hn
        simp [ScopeCall.closes] at h
      | cons scope inner =>
        subst hn
        have hrest : ScopeCall.closes inner.length rest = true := by
          simpa [ScopeCall.closes] using h
        have hne : inner ++ base ≠ [] := by simp [hbase]
        exact ih hrest (ht.apply .pop) inner (ScopeStack.pop_active hactive hne) rfl
    | define name symbol =>
      cases inner with
      | nil =>
        subst hn
        simp [ScopeCall.closes] at h
      | cons scope inner =>
        subst hn
        have hrest : ScopeCall.closes (inner.length + 1) rest = true := by
          simpa [ScopeCall.closes] using h
        obtain ⟨hscopes, henvironment⟩ :=
          ih hrest (ht.apply (.define name symbol)) (scope :: inner) hactive rfl
        refine ⟨hscopes, fun other hmem => ?_⟩
        rw [henvironment other hmem]
        -- the name is bound in the innermost scope, which is none of those below
        refine environment_define_of_ne t name symbol ?_
        have hcurrent : t.scopes.current = scope := by
          rw [ScopeStack.current, hactive]
          rfl
        have hnodup : t.scopes.active.Nodup := ht.valid.nodup
        rw [hactive, List.cons_append, List.nodup_cons] at hnodup
        rw [hcurrent]
        rintro rfl
        exact hnodup.1 (List.mem_append_right inner hmem)

/-- Balanced calls leave the open scopes and all that is found in them as they were. -/
theorem lookup_of_balanced {t : ScopedTable} (ht : t.Ordered) {calls : List ScopeCall}
    (h : ScopeCall.Balanced calls) (name : String) :
    (calls.foldl apply t).lookup name = t.lookup name := by
  obtain ⟨hactive, henvironment⟩ := uncovers_of_closes h ht [] rfl rfl ht.valid.nonempty
  have henvironments : (calls.foldl apply t).environments = t.environments := by
    unfold environments
    rw [hactive]
    exact List.map_congr_left henvironment
  rw [lookup_eq_search?, lookup_eq_search?, hactive, henvironments]

/-- The open scopes and the symbol table are a stack of environments. Whatever calls are made from
the initial state on: the main scope is the outermost of the open scopes and none is open twice; no
scope is returned by two pushes, and the numbers returned stay below the number of pushes; a name
stands for what is found for it on the stack of environments after the same calls, in the scope at
that place; and further calls that are balanced do not change what any name stands for. -/
theorem ofCalls_refines_environments (calls : List ScopeCall) :
    (ofCalls calls).scopes.active.getLast? = some .main ∧
    (ofCalls calls).scopes.active.Nodup ∧
    (initial.pushedBy calls).Nodup ∧
    (∀ n, .function n ∈ initial.pushedBy calls → n < calls.count .pushFunction) ∧
    (∀ n, .loop n ∈ initial.pushedBy calls → n < calls.count .pushLoop) ∧
    (ofCalls calls).scopes.active.length = (Environment.ofCalls calls).length ∧
    (∀ name, (ofCalls calls).lookup name = (Environment.search? name (Environment.ofCalls calls)).map
      fun (inside, symbol) => ((ofCalls calls).scopes.active.getD inside .main, symbol)) ∧
    (∀ segment, ScopeCall.Balanced segment →
      ∀ name, (ofCalls (calls ++ segment)).lookup name = (ofCalls calls).lookup name) := by
  have hordered := ordered_ofCalls calls
  have hnumbers := numbers_ofCalls calls
  refine ⟨hordered.bottom, hordered.valid.nodup, (pushedBy_new initial calls).1, ?_, ?_, ?_, ?_, ?_⟩
  · intro n hmem
    rw [← hnumbers.1]
    exact allocated_of_pushedBy initial calls hmem
  · intro n hmem
    rw [← hnumbers.2]
    exact allocated_of_pushedBy initial calls hmem
  · rw [← environments_ofCalls, environments, List.length_map]
  · intro name
    rw [lookup_eq_search?, environments_ofCalls]
  · intro segment hsegment name
    unfold ofCalls
    rw [List.foldl_append]
    exact lookup_of_balanced hordered hsegment name

/-- A function that binds `x` again is left, and another one is entered. -/
def reentry : List ScopeCall :=
  [.define "x" ⟨.declared, .integer, false⟩, .pushFunction, .define "x" ⟨.parameter, .boolean, false⟩,
    .pop, .pushFunction]

/-- A loop over `x` with a function in it. -/
def innerLoop : List ScopeCall :=
  [.pushLoop, .define "x" ⟨.loopVariable, .string, false⟩, .pushFunction, .pop, .pop]

/-- In the second function `x` is the one of the main scope, also after the loop. -/
theorem ofCalls_refines_environments_reentry :
    ScopeCall.Balanced innerLoop ∧
    .function 1 ∈ initial.pushedBy reentry ∧ 1 < reentry.count .pushFunction ∧
    (ofCalls reentry).lookup "x" = some (.main, ⟨.declared, .integer, false⟩) ∧
    (ofCalls (reentry ++ innerLoop)).lookup "x" = some (.main, ⟨.declared, .integer, false⟩) := by
  obtain ⟨-, -, -, hfunctions, -, -, -, hbalanced⟩ := ofCalls_refines_environments reentry
  have hsegment : ScopeCall.Balanced innerLoop := rfl
  have hpushed : .function 1 ∈ initial.pushedBy reentry := by decide
  have hlookup : (ofCalls reentry).lookup "x" = some (.main, ⟨.declared, .integer, false⟩) := by
    decide
  exact ⟨hsegment, hpushed, hfunctions 1 hpushed, hlookup,
    (hbalanced innerLoop hsegment "x").trans hlookup⟩

end ScopedTable

end ExprCheck
