import Mathlib
import ExprCheck.Proofs.EditedRuns

/-!
# Runs under other scope numbers

The numbers of function and loop scopes tell scopes apart and nothing else. Two states that differ
only by a renumbering of these scopes, and perhaps in what the main scope holds for names that are
not asked about, therefore stay so: both runs enter scopes at the same points, look at corresponding
slots, and report the same errors.
-/

namespace ExprCheck

/-! ## Renumbering scopes -/

/-- The scope under other numbers, `f` for functions and `g` for loops. -/
def Scope.renumber (f g : Nat → Nat) : Scope → Scope
  | .main => .main
  | .function n => .function (f n)
  | .loop n => .loop (g n)

/-- The same name in the renumbered scope. -/
def Slot.renumber (f g : Nat → Nat) (slot : Slot) : Slot := ⟨slot.scope.renumber f g, slot.name⟩

/-- Different scopes stay different, so no slot gets mixed up with another. -/
theorem Scope.renumber_injective {f g : Nat → Nat} (hf : f.Injective) (hg : g.Injective) :
    (Scope.renumber f g).Injective := by
  intro a b hab
  cases a with
  | main => cases b <;> first | rfl | cases hab
  | function n =>
    cases b with
    | function m => rw [hf (Scope.function.inj hab)]
    | main | loop m => cases hab
  | loop n =>
    cases b with
    | loop m => rw [hg (Scope.loop.inj hab)]
    | main | function m => cases hab

theorem Slot.renumber_eq_iff {f g : Nat → Nat} (hf : f.Injective) (hg : g.Injective) {a b : Slot} :
    a.renumber f g = b.renumber f g ↔ a = b := by
  constructor
  · intro hab
    obtain ⟨hscope, hname⟩ := Slot.mk.inj hab
    obtain ⟨scope, name⟩ := a
    have hscope' : scope = b.scope := Scope.renumber_injective hf hg hscope
    have hname' : name = b.name := hname
    rw [hscope', hname']
  · rintro rfl
    rfl

/-- Leaving a scope leaves the corresponding scope. The last scope is never left. -/
theorem ScopeStack.active_pop_map {s t : ScopeStack} {r : Scope → Scope}
    (h : t.active = s.active.map r) : t.pop.active = s.pop.active.map r := by
  obtain ⟨active, nextFunction, nextLoop⟩ := s
  obtain ⟨active', nextFunction', nextLoop'⟩ := t
  obtain rfl : active' = active.map r := h
  cases active with
  | nil => rfl
  | cons inner rest =>
    cases rest with
    | nil => rfl
    | cons outer rest => rfl

/-- The numbers from `a` on correspond to those from `b` on. -/
def CountsOn (f : Nat → Nat) (a b : Nat) : Prop := ∀ n, f (a + n) = b + n

theorem CountsOn.head {f : Nat → Nat} {a b : Nat} (h : CountsOn f a b) : f a = b := h 0

/-- After a scope was entered on both sides, the numbers still correspond. -/
theorem CountsOn.next {f : Nat → Nat} {a b : Nat} (h : CountsOn f a b) :
    CountsOn f (a + 1) (b + 1) := by
  intro n
  rw [Nat.add_assoc, Nat.add_assoc]
  exact h (1 + n)

namespace Checker

/-- What the two tables hold in a slot. -/
def entry (c : Checker) (slot : Slot) : Option Symbol × Option (List TupleField) :=
  (c.symbols.get? slot, c.tuples.fields? slot)

/-- `d` is `c` under other scope numbers. The main scope may differ in names that are not seen, and
the errors in those found before. -/
structure Renumbered (f g : Nat → Nat) (Sees : String → Prop) (base base' : List TypeError)
    (c d : Checker) : Prop where
  active : d.scopes.active = c.scopes.active.map (Scope.renumber f g)
  functions : CountsOn f c.scopes.nextFunction d.scopes.nextFunction
  loops : CountsOn g c.scopes.nextLoop d.scopes.nextLoop
  owner : d.owner = c.owner
  depth : d.depth = c.depth
  errors : ∃ new, c.errors = base ++ new ∧ d.errors = base' ++ new
  entries : ∀ slot, (slot.scope = .main → Sees slot.name) →
    d.entry (slot.renumber f g) = c.entry slot

namespace Renumbered

variable {f g : Nat → Nat} {Sees : String → Prop} {base base' : List TypeError} {c d : Checker}

/-- A slot that is seen holds the same symbol under its other number. -/
theorem symbols (h : Renumbered f g Sees base base' c d) (slot : Slot)
    (hs : slot.scope = .main → Sees slot.name) :
    d.symbols.get? (slot.renumber f g) = c.symbols.get? slot :=
  congrArg Prod.fst (h.entries slot hs)

theorem tuples (h : Renumbered f g Sees base base' c d) (slot : Slot)
    (hs : slot.scope = .main → Sees slot.name) :
    d.tuples.fields? (slot.renumber f g) = c.tuples.fields? slot :=
  congrArg Prod.snd (h.entries slot hs)

theorem slot (h : Renumbered f g Sees base base' c d) (x : String) :
    d.slot x = (c.slot x).renumber f g := by
  have hcurrent : d.scopes.current = c.scopes.current.renumber f g := by
    rw [ScopeStack.current, ScopeStack.current, h.active]
    cases c.scopes.active <;> rfl
  rw [Checker.slot, hcurrent]
  rfl

/-- Both states find the same symbol for a name, in corresponding scopes. -/
theorem lookup (h : Renumbered f g Sees base base' c d) {x : String} (hx : Sees x) :
    (d.symbols.lookup x d.scopes.active).map (·.2.type?) =
      (c.symbols.lookup x c.scopes.active).map (·.2.type?) := by
  rw [h.active]
  induction c.scopes.active with
  | nil => rfl
  | cons scope rest ih =>
    have hget : d.symbols.get? ⟨scope.renumber f g, x⟩ = c.symbols.get? ⟨scope, x⟩ :=
      h.symbols ⟨scope, x⟩ fun _ => hx
    rw [List.map_cons, SymbolTable.lookup_cons, SymbolTable.lookup_cons, hget]
    cases c.symbols.get? ⟨scope, x⟩ with
    | none => exact ih
    | some symbol => rfl

/-- Whether a name is taken in the current scope is the same on both sides. The name has to be seen
only if this is the main scope. -/
theorem contains (h : Renumbered f g Sees base base' c d) {x : String}
    (hx : c.scopes.current = .main → Sees x) :
    d.symbols.contains (d.slot x) = c.symbols.contains (c.slot x) := by
  rw [SymbolTable.contains, SymbolTable.contains, h.slot, h.symbols _ hx]

theorem field (h : Renumbered f g Sees base base' c d) {x : String} (hx : Sees x) (name : String) :
    d.tuples.field? (d.slot x) name = c.tuples.field? (c.slot x) name := by
  rw [TupleTable.field?, TupleTable.field?, h.slot, h.tuples _ fun _ => hx]

theorem report (h : Renumbered f g Sees base base' c d) (span : Span) (fault : TypeFault) :
    Renumbered f g Sees base base' (after (report span fault) c)
      (after (Checker.report span fault) d) := by
  obtain ⟨new, hc, hd⟩ := h.errors
  refine ⟨h.active, h.functions, h.loops, h.owner, h.depth, ⟨new ++ [⟨fault, span⟩], ?_, ?_⟩,
    h.entries⟩
  · simp only [after_report, hc, List.append_assoc]
  · simp only [after_report, hd, List.append_assoc]

/-- Writing to corresponding slots keeps the tables in correspondence, because no other slot is
written to. -/
theorem define (h : Renumbered f g Sees base base' c d) (hf : f.Injective) (hg : g.Injective)
    (span : Span) {x : String} (symbol : Symbol) (hc : c.symbols.contains (c.slot x) = false)
    (hd : d.symbols.contains (d.slot x) = false) :
    Renumbered f g Sees base base' (after (define span x symbol) c)
      (after (Checker.define span x symbol) d) := by
  obtain ⟨t, ht, hget⟩ := after_define_free c span symbol hc
  obtain ⟨u, hu, hget'⟩ := after_define_free d span symbol hd
  rw [ht, hu]
  refine ⟨h.active, h.functions, h.loops, h.owner, h.depth, h.errors, ?_⟩
  intro slot hs
  show (u.get? (slot.renumber f g), _) = (t.get? slot, _)
  rw [hget, hget', h.slot, h.symbols slot hs, h.tuples slot hs]
  simp only [Slot.renumber_eq_iff hf hg]

theorem record (h : Renumbered f g Sees base base' c d) (hf : f.Injective) (hg : g.Injective)
    (x : String) (fields : List TupleField) :
    Renumbered f g Sees base base' { c with tuples := c.tuples.record (c.slot x) fields }
      { d with tuples := d.tuples.record (d.slot x) fields } := by
  refine ⟨h.active, h.functions, h.loops, h.owner, h.depth, h.errors, ?_⟩
  intro slot hs
  show (_, TupleTable.fields? _ _) = (_, TupleTable.fields? _ _)
  rw [TupleTable.fields?_record, TupleTable.fields?_record, h.slot, h.symbols slot hs,
    h.tuples slot hs]
  simp only [Slot.renumber_eq_iff hf hg]

/-- Both states may go on with scopes that correspond, and from numbers that correspond. -/
theorem move (h : Renumbered f g Sees base base' c d) {s t : ScopeStack}
    (hactive : t.active = s.active.map (Scope.renumber f g))
    (hfunctions : CountsOn f s.nextFunction t.nextFunction)
    (hloops : CountsOn g s.nextLoop t.nextLoop) :
    Renumbered f g Sees base base' { c with scopes := s } { d with scopes := t } where
  active := hactive
  functions := hfunctions
  loops := hloops
  owner := h.owner
  depth := h.depth
  errors := h.errors
  entries := h.entries

end Renumbered

/-- The comparison of a run with one under other scope numbers. -/
def renumbering (f g : Nat → Nat) (Sees : String → Prop) (base base' : List TypeError) :
    Comparison :=
  ⟨.same, Sees, fun _ => False, Renumbered f g Sees base base'⟩

variable {f g : Nat → Nat} {Sees : String → Prop} {base base' : List TypeError}

/-- Every step of the checker keeps a renumbering: the two runs enter scopes at the same points. -/
theorem stepwise_renumbering (hf : f.Injective) (hg : g.Injective) :
    (renumbering f g Sees base base').Stepwise where
  lost := fun _ _ hlost _ => hlost
  owner := fun _ _ h => h.owner
  depth := fun _ _ h => h.depth
  lookup := fun _ _ h _ hx => h.lookup hx
  contains := fun _ _ h _ hx => h.contains hx
  field := fun _ _ h _ hx name => h.field hx name
  report := fun _ _ h span fault _ => h.report span fault
  define := fun _ _ h span _ symbol hc hd => h.define hf hg span symbol hc hd
  record := fun _ _ h x fields => h.record hf hg x fields
  enterFunction := fun c d h => by
    refine h.move ?_ h.functions.next h.loops
    simp [ScopeStack.pushFunction, h.active, Scope.renumber, h.functions.head]
  enterLoop := fun c d h => by
    refine h.move ?_ h.functions h.loops.next
    simp [ScopeStack.pushLoop, h.active, Scope.renumber, h.loops.head]
  leaveScope := fun c d h => by
    refine h.move (ScopeStack.active_pop_map h.active) ?_ ?_
    · rw [ScopeStack.pop_nextFunction, ScopeStack.pop_nextFunction]
      exact h.functions
    · rw [ScopeStack.pop_nextLoop, ScopeStack.pop_nextLoop]
      exact h.loops
  setOwner := fun _ _ h _ => ⟨h.active, h.functions, h.loops, rfl, h.depth, h.errors, h.entries⟩
  setDepth := fun _ _ h _ => ⟨h.active, h.functions, h.loops, h.owner, rfl, h.errors, h.entries⟩

theorem sound_renumbering (hf : f.Injective) (hg : g.Injective) :
    (renumbering f g Sees base base').Sound :=
  (stepwise_renumbering hf hg).sound (fun _ => rfl) (fun _ => rfl)
    fun _ _ h span _ _ => Renumbered.report h span _

/-- A declaration that refers only to names that are seen keeps the states apart by a
renumbering. -/
theorem Renumbered.checkDeclaration (hf : f.Injective) (hg : g.Injective) {c d : Checker}
    (h : Renumbered f g Sees base base' c d) {decl : Declaration} (hname : Sees decl.name)
    (hvars : ∀ x ∈ decl.variables, Sees x) :
    Renumbered f g Sees base base' (after (checkDeclaration decl) c)
      (after (Checker.checkDeclaration decl) d) := by
  have hsound : (renumbering f g Sees base base').Sound := sound_renumbering hf hg
  have hfollows := checkDeclaration_follows hsound false decl (Or.inr hname) hvars
  rw [show (renumbering f g Sees base base').edit = .same from rfl, Declaration.edit_same]
    at hfollows
  rcases hfollows c d h (by simp [Within]) with hlost | ⟨-, hrel, -⟩
  · exact hlost.elim
  · exact hrel

theorem Renumbered.checkDeclarations (hf : f.Injective) (hg : g.Injective) {c d : Checker}
    (h : Renumbered f g (fun _ => True) base base' c d) (ds : List Declaration) :
    Renumbered f g (fun _ => True) base base' (after (checkDeclarations ds) c)
      (after (Checker.checkDeclarations ds) d) := by
  induction ds generalizing c d with
  | nil => exact h
  | cons decl rest ih => exact ih (h.checkDeclaration hf hg trivial fun _ _ => trivial)

end Checker

end ExprCheck
