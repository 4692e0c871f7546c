import Mathlib
import ExprCheck.Proofs.Lockstep

/-!
# Scopes that have been left

The tables keep the names and tuples of every scope ever entered, but the walk asks only about open
scopes. A scope that has been left is never opened again, because numbers are not given out twice,
so what the tables hold for it is dead weight.

The relation behind this is `SameView`: two states that differ at most in entries of scopes that
were entered and left. Two runs that start with the same view stay in step and keep it. At the top
level, where only the main scope is open, the entries of all other scopes can be thrown away without
a trace.
-/

namespace ExprCheck

namespace ScopeStack

/-- Scopes that the walk can still ask about: the open ones and those not entered yet. -/
def Live (s : ScopeStack) (scope : Scope) : Prop := scope ∈ s.active ∨ ¬ s.Allocated scope

/-- Entering a scope brings no scope to life: the one that is entered was still to come. -/
theorem Enters.live {scope x : Scope} {s t : ScopeStack} (h : Enters scope s t) (hx : t.Live x) :
    s.Live x := by
  rcases hx with hmem | hnew
  · rw [h.active] at hmem
    rcases List.mem_cons.mp hmem with rfl | hmem
    · exact Or.inr h.new
    · exact Or.inl hmem
  · right
    intro hs
    exact hnew ((h.allocated x).mpr (Or.inl hs))

theorem mem_active_of_pop {s : ScopeStack} {x : Scope} (h : x ∈ s.pop.active) : x ∈ s.active := by
  unfold pop at h
  split at h
  · next hs =>
    rw [hs]
    exact List.mem_cons_of_mem _ h
  · exact h

theorem live_of_pop {s : ScopeStack} {x : Scope} (h : s.pop.Live x) : s.Live x := by
  rcases h with hmem | hnew
  · exact Or.inl (mem_active_of_pop hmem)
  · exact Or.inr fun hs => hnew ((allocated_pop s x).mpr hs)

theorem pop_active_ne_nil {s : ScopeStack} (h : s.active ≠ []) : s.pop.active ≠ [] := by
  unfold pop
  split
  · simp
  · exact h

end ScopeStack

namespace Checker

/-! ## Tuples are recorded in scopes that were entered -/

/-- The scopes are in order, also those of the recorded tuples. -/
structure Placed (c : Checker) : Prop extends Valid c where
  tuples : ∀ slot, c.tuples.fields? slot ≠ none → c.scopes.Allocated slot.scope

theorem placed_initial : Placed initial where
  toValid := valid_initial
  tuples := fun _ h => absurd rfl h

theorem Placed.define {c : Checker} (h : c.Placed) (span : Span) (x : String) (symbol : Symbol) :
    (after (define span x symbol) c).Placed := by
  refine ⟨(local_define c span x symbol).valid h.toValid, ?_⟩
  cases hx : c.symbols.contains (c.slot x) with
  | true =>
    rw [after_define_taken c span symbol hx]
    exact h.tuples
  | false =>
    obtain ⟨t, ht, -⟩ := after_define_free c span symbol hx
    rw [ht]
    exact h.tuples

theorem Placed.record {c : Checker} (h : c.Placed) (x : String) (fields : List TupleField) :
    Placed { c with tuples := c.tuples.record (c.slot x) fields } := by
  refine ⟨h.toValid.congr rfl rfl, ?_⟩
  intro slot hslot
  rw [TupleTable.fields?_record] at hslot
  by_cases hs : slot = c.slot x
  · rw [hs]
    exact h.toValid.current_allocated
  · rw [if_neg hs] at hslot
    exact h.tuples slot hslot

theorem Placed.enter {c : Checker} (h : c.Placed) {scope : Scope} {t : ScopeStack}
    (ht : ScopeStack.Enters scope c.scopes t) : Placed { c with scopes := t } where
  toValid := h.toValid.enter ht
  tuples := fun slot hslot => (ht.allocated _).mpr (Or.inl (h.tuples slot hslot))

theorem Placed.leave {c : Checker} (h : c.Placed) : Placed { c with scopes := c.scopes.pop } where
  toValid := h.toValid.leave
  tuples := fun slot hslot => (ScopeStack.allocated_pop _ _).mpr (h.tuples slot hslot)

theorem Placed.congr {c d : Checker} (h : c.Placed) (hs : d.scopes = c.scopes)
    (ht : d.symbols = c.symbols) (hu : d.tuples = c.tuples) : d.Placed where
  toValid := h.toValid.congr hs ht
  tuples := by
    rw [hs, hu]
    exact h.tuples

/-- No step of the checker writes to a scope that was not entered. -/
theorem regimen_placed :
    Regimen (fun c d => c.Placed → d.Placed) (fun c d => c.Placed → d.Placed) where
  refl := fun _ => id
  trans := fun _ _ _ h₁ h₂ => h₂ ∘ h₁
  stmtTrans := fun _ _ _ h₁ h₂ => h₂ ∘ h₁
  weaken := fun _ _ => id
  report := fun _ _ _ _ hc => hc.congr rfl rfl rfl
  stray := fun _ _ _ hc => hc.congr rfl rfl rfl
  define := fun _ span x symbol hc => hc.define span x symbol
  record := fun _ x fields _ hc => hc.record x fields
  function := by
    intro c params d e hd he hc
    have henter : Placed (after enterFunction c) :=
      hc.enter (ScopeStack.enters_pushFunction c.scopes)
    have hparams := defineParams_along (R := fun c d => c.Placed → d.Placed) (fun _ => id)
      (fun _ _ _ h₁ h₂ => h₂ ∘ h₁) (fun _ span x symbol hc => hc.define span x symbol) params
    have hd' : d.Placed := hd ▸ hparams _ henter
    exact (he (hd'.congr rfl rfl rfl)).leave.congr rfl rfl rfl
  loop := fun c _ h hc => (h (hc.enter (ScopeStack.enters_pushLoop c.scopes))).leave
  owner := fun _ _ _ h hc => (h (hc.congr rfl rfl rfl)).congr rfl rfl rfl

/-! ## States with the same view -/

/-- The states differ at most in what the tables hold for scopes that have been left. -/
structure SameView (c d : Checker) : Prop where
  scopes : d.scopes = c.scopes
  owner : d.owner = c.owner
  depth : d.depth = c.depth
  errors : d.errors = c.errors
  nonempty : c.scopes.active ≠ []
  symbols : ∀ slot, c.scopes.Live slot.scope → d.symbols.get? slot = c.symbols.get? slot
  tuples : ∀ slot, c.scopes.Live slot.scope → d.tuples.fields? slot = c.tuples.fields? slot

namespace SameView

variable {c d : Checker}

theorem slot (h : SameView c d) (x : String) : d.slot x = c.slot x := by
  unfold Checker.slot
  rw [h.scopes]

/-- What is in the innermost scope can be asked about. -/
theorem live_slot (h : SameView c d) (x : String) : c.scopes.Live (c.slot x).scope := by
  left
  obtain ⟨s, rest, hs⟩ := List.exists_cons_of_ne_nil h.nonempty
  show c.scopes.active.headD .main ∈ c.scopes.active
  rw [hs]
  exact List.mem_cons_self

theorem contains (h : SameView c d) (x : String) :
    d.symbols.contains (d.slot x) = c.symbols.contains (c.slot x) := by
  unfold SymbolTable.contains
  rw [h.slot, h.symbols _ (h.live_slot x)]

theorem lookup (h : SameView c d) (x : String) :
    d.symbols.lookup x d.scopes.active = c.symbols.lookup x c.scopes.active := by
  have hsub : ∀ scope ∈ c.scopes.active, c.scopes.Live scope := fun _ => Or.inl
  rw [h.scopes]
  generalize c.scopes.active = active at hsub
  induction active with
  | nil => rfl
  | cons scope rest ih =>
    rw [SymbolTable.lookup_cons, SymbolTable.lookup_cons,
      h.symbols ⟨scope, x⟩ (hsub scope List.mem_cons_self),
      ih fun s hs => hsub s (List.mem_cons_of_mem _ hs)]

theorem field (h : SameView c d) (x f : String) :
    d.tuples.field? (d.slot x) f = c.tuples.field? (c.slot x) f := by
  unfold TupleTable.field?
  rw [h.slot, h.tuples _ (h.live_slot x)]

/-- Both states may go on with other scopes, as long as no dead scope comes to life. -/
theorem move (h : SameView c d) {t : ScopeStack} (hne : t.active ≠ [])
    (hlive : ∀ x, t.Live x → c.scopes.Live x) :
    SameView { c with scopes := t } { d with scopes := t } where
  scopes := rfl
  owner := h.owner
  depth := h.depth
  errors := h.errors
  nonempty := hne
  symbols := fun slot hs => h.symbols slot (hlive _ hs)
  tuples := fun slot hs => h.tuples slot (hlive _ hs)

theorem define (h : SameView c d) (span : Span) (x : String) (symbol : Symbol)
    (hc : c.symbols.contains (c.slot x) = false) (hd : d.symbols.contains (d.slot x) = false) :
    SameView (after (define span x symbol) c) (after (define span x symbol) d) := by
  obtain ⟨t, ht, hget⟩ := after_define_free c span symbol hc
  obtain ⟨u, hu, hget'⟩ := after_define_free d span symbol hd
  rw [ht, hu]
  refine ⟨h.scopes, h.owner, h.depth, h.errors, h.nonempty, ?_, h.tuples⟩
  intro slot hs
  show u.get? slot = t.get? slot
  rw [hget, hget', h.slot x, h.symbols slot hs]

theorem report (h : SameView c d) (span : Span) (fault : TypeFault) :
    SameView (after (report span fault) c) (after (Checker.report span fault) d) where
  scopes := h.scopes
  owner := h.owner
  depth := h.depth
  errors := by simp [h.errors]
  nonempty := h.nonempty
  symbols := h.symbols
  tuples := h.tuples

theorem record (h : SameView c d) (x : String) (fields : List TupleField) :
    SameView { c with tuples := c.tuples.record (c.slot x) fields }
      { d with tuples := d.tuples.record (d.slot x) fields } where
  scopes := h.scopes
  owner := h.owner
  depth := h.depth
  errors := h.errors
  nonempty := h.nonempty
  symbols := h.symbols
  tuples := by
    intro slot hs
    rw [TupleTable.fields?_record, TupleTable.fields?_record, h.slot x, h.tuples slot hs]

end SameView

theorem stepwise_sameView : (sameProgram SameView).Stepwise where
  lost := fun _ _ hlost _ => hlost
  owner := fun _ _ h => h.owner
  depth := fun _ _ h => h.depth
  lookup := fun _ _ h x _ => by rw [h.lookup x]
  contains := fun _ _ h x _ => h.contains x
  field := fun _ _ h x _ => h.field x
  report := fun _ _ h span fault _ => h.report span fault
  define := fun _ _ h => h.define
  record := fun _ _ h => h.record
  enterFunction := by
    intro c d h
    have hin := ScopeStack.enters_pushFunction c.scopes
    rw [after_enterFunction, after_enterFunction, h.scopes]
    exact h.move (by simp [hin.active]) fun _ => hin.live
  enterLoop := by
    intro c d h
    have hin := ScopeStack.enters_pushLoop c.scopes
    rw [after_enterLoop, after_enterLoop, h.scopes]
    exact h.move (by simp [hin.active]) fun _ => hin.live
  leaveScope := by
    intro c d h
    rw [after_leaveScope, after_leaveScope, h.scopes]
    exact h.move (ScopeStack.pop_active_ne_nil h.nonempty) fun _ => ScopeStack.live_of_pop
  setOwner := fun _ _ h x =>
    ⟨h.scopes, rfl, h.depth, h.errors, h.nonempty, h.symbols, h.tuples⟩
  setDepth := fun _ _ h n =>
    ⟨h.scopes, h.owner, rfl, h.errors, h.nonempty, h.symbols, h.tuples⟩

theorem sound_sameView : (sameProgram SameView).Sound :=
  stepwise_sameView.sound (fun _ => rfl) (fun _ => rfl) fun _ _ h span _ _ => h.report span _

/-! ## Between declarations -/

/-- The states in which a checker can be found between top-level declarations, and between single
expressions that it is asked about there. -/
inductive Resting : Checker → Prop where
  | initial : Resting initial
  | declaration {c : Checker} (d : Declaration) : Resting c → Resting (after (checkDeclaration d) c)
  | inference {c : Checker} (e : Expr) : Resting c → Resting (after (infer e) c)

theorem Resting.placed {c : Checker} (h : Resting c) : c.Placed := by
  induction h with
  | initial => exact placed_initial
  | declaration d _ ih => exact checkDeclaration_along regimen_placed d _ ih
  | inference e _ ih => exact infer_along regimen_placed e _ ih

theorem Resting.active {c : Checker} (h : Resting c) : c.scopes.active = [.main] := by
  induction h with
  | initial => rfl
  | declaration d h ih => exact (local_checkDeclaration h.placed.toValid d).active.trans ih
  | inference e h ih => exact (confined_infer h.placed.toValid e).active.trans ih

/-- No declaration is going on between declarations. -/
theorem Resting.owner {c : Checker} (hc : Resting c) : c.owner = none := by
  induction hc with
  | initial => rfl
  | declaration d hc ih => exact (local_checkDeclaration hc.placed.toValid d).owner.trans ih
  | inference e hc ih => exact (confined_infer hc.placed.toValid e).owner.trans ih

/-- The state without the names and tuples of all scopes but the main one. -/
def pruned (c : Checker) : Checker :=
  { c with
    symbols := ⟨c.symbols.bindings.filter (·.1.scope = .main)⟩
    tuples := ⟨c.tuples.tuples.filter (·.1.scope = .main)⟩ }

theorem lookup_filter_main {γ : Type} (entries : List (Slot × γ)) (slot : Slot) :
    (entries.filter (·.1.scope = .main)).lookup slot =
      if slot.scope = .main then entries.lookup slot else none := by
  induction entries with
  | nil => simp
  | cons entry rest ih =>
    obtain ⟨other, value⟩ := entry
    by_cases hmain : other.scope = .main
    · rw [List.filter_cons_of_pos (by simpa using hmain), List.lookup_cons, List.lookup_cons, ih]
      by_cases hslot : slot = other
      · simp [hslot, hmain]
      · rw [beq_eq_false_iff_ne.mpr hslot]
    · rw [List.filter_cons_of_neg (by simpa using hmain), ih, List.lookup_cons]
      by_cases hslot : slot = other
      · simp [hslot, hmain]
      · rw [beq_eq_false_iff_ne.mpr hslot]

/-- At the top level, what is pruned belongs to scopes that have been left. -/
theorem sameView_pruned {c : Checker} (hc : c.Placed) (hactive : c.scopes.active = [.main]) :
    SameView c c.pruned := by
  -- a scope that is live and not the main one has not been entered yet
  have hnew : ∀ scope, c.scopes.Live scope → scope ≠ .main → ¬ c.scopes.Allocated scope := by
    rintro scope (hmem | hnew) hmain
    · rw [hactive] at hmem
      exact absurd (List.mem_singleton.mp hmem) hmain
    · exact hnew
  refine ⟨rfl, rfl, rfl, rfl, by simp [hactive], ?_, ?_⟩
  · intro slot hlive
    show (c.symbols.bindings.filter _).lookup slot = c.symbols.get? slot
    rw [lookup_filter_main]
    by_cases hmain : slot.scope = .main
    · rw [if_pos hmain]
      rfl
    · rw [if_neg hmain, eq_comm, ← SymbolTable.contains_eq_false]
      by_contra hcontains
      exact hnew _ hlive hmain (hc.slots slot (by simpa using hcontains))
  · intro slot hlive
    show (c.tuples.tuples.filter _).lookup slot = c.tuples.fields? slot
    rw [lookup_filter_main]
    by_cases hmain : slot.scope = .main
    · rw [if_pos hmain]
      rfl
    · rw [if_neg hmain, eq_comm]
      by_contra hfields
      exact hnew _ hlive hmain (hc.tuples slot hfields)

/-- Pruning the tables between top-level declarations goes unnoticed: whatever program is checked
afterwards, the same errors are added, the main scope ends up with the same names and tuples, and
every expression that is looked at then gets the same type. All names and tuples lie in scopes that
were entered, and while there are few of these, 32 bits for their numbers tell them apart. -/
theorem check_pruned (c : Checker) (hc : Resting c) (p : Program) (hfew : (c.check p).scopes.Few) :
    (Set.InjOn Scope.narrowed {scope | (c.check p).scopes.Allocated scope} ∧ (c.check p).Placed) ∧
    (∃ new, (c.check p).errors = c.errors ++ new ∧
      (c.pruned.check p).errors = c.pruned.errors ++ new) ∧
    (∀ x, (c.pruned.check p).symbols.get? ⟨.main, x⟩ = (c.check p).symbols.get? ⟨.main, x⟩) ∧
    (∀ x, (c.pruned.check p).tuples.fields? ⟨.main, x⟩ = (c.check p).tuples.fields? ⟨.main, x⟩) ∧
    (∀ e, (after (infer e) (c.check p)).scopes.Few →
      answer (infer e) (c.pruned.check p) = answer (infer e) (c.check p)) := by
  have hstart := sameView_pruned hc.placed hc.active
  have hend : SameView (c.check p) (c.pruned.check p) :=
    (checkDeclarations_lockstep sound_sameView p.declarations _ _ hstart).2
  have hkept := local_check hc.placed.toValid p
  have hmain : (c.check p).scopes.Live .main := by
    left
    rw [hkept.active, hc.active]
    exact List.mem_singleton.mpr rfl
  obtain ⟨new, hnew⟩ := hkept.errors
  have hplaced : (c.check p).Placed :=
    checkDeclarations_along regimen_placed p.declarations _ hc.placed
  refine ⟨⟨hfew.narrowed_injOn, hplaced⟩, ⟨new, hnew.symm, hend.errors.trans hnew.symm⟩, ?_, ?_, ?_⟩
  · intro x
    exact hend.symbols ⟨.main, x⟩ hmain
  · intro x
    exact hend.tuples ⟨.main, x⟩ hmain
  · intro e _
    exact (infer_lockstep sound_sameView e _ _ hend).1

/-- The state after the declaration `f is func() do t is (a is 1) end`. -/
def leftFunction : Checker :=
  after (checkDeclaration ⟨.origin, "f", none, .function .origin [] none (.block .origin
    [.declaration .origin ⟨.origin, "t", none,
      .tuple .origin [⟨.origin, some "a", .literal .origin (.integer 1)⟩]⟩])⟩) initial

/-- There, the name and the tuple `t` can be pruned before `t is (a is true); u is t.a` is
checked. -/
theorem check_pruned_leftFunction :
    ∃ p, Resting leftFunction ∧ (leftFunction.check p).scopes.Few ∧
      leftFunction.pruned.symbols ≠ leftFunction.symbols ∧
      leftFunction.pruned.tuples ≠ leftFunction.tuples ∧
      (leftFunction.check p).symbols.get? ⟨.main, "u"⟩ = some ⟨.declared, .boolean, false⟩ ∧
      (leftFunction.pruned.check p).symbols.get? ⟨.main, "u"⟩ =
        (leftFunction.check p).symbols.get? ⟨.main, "u"⟩ := by
  have hc : Resting leftFunction := .declaration _ .initial
  let p : Program := ⟨.origin, [⟨.origin, "t", none,
      .tuple .origin [⟨.origin, some "a", .literal .origin (.boolean true)⟩]⟩,
    ⟨.origin, "u", none, .field .origin (.var .origin "t") "a"⟩]⟩
  have hfew : (leftFunction.check p).scopes.Few := by decide +kernel
  obtain ⟨-, -, hsymbols, -⟩ := check_pruned leftFunction hc p hfew
  exact ⟨p, hc, hfew, by decide, by decide, by decide +kernel, hsymbols "u"⟩

end Checker

end ExprCheck
