import Mathlib
import ExprCheck.Proofs.Scopes
import ExprCheck.Proofs.Walk

/-!
# What the walk leaves alone

Wherever the walk stands, checking an expression, a statement or a declaration leaves the open
scopes, the innermost declaration and the nesting depth as they were, gives out scope numbers in
increasing order, reports by appending, and never touches a name that is bound already. Names bound
by an expression are bound in scopes that the expression itself has opened.

The invariant behind this is `Valid`: all names are in scopes whose numbers have been given out. A
scope that is entered is therefore empty, which is why binding a loop variable, or a declared name
after its value has been inferred, cannot fail.
-/

namespace ExprCheck.Checker

/-! ## The invariant and the relations -/

/-- The scopes of a state are in order. -/
structure Valid (c : Checker) : Prop where
  /-- Some scope is open. -/
  nonempty : c.scopes.active ≠ []
  /-- No scope is open twice. -/
  nodup : c.scopes.active.Nodup
  /-- The numbers of the open scopes have been given out. -/
  active : ∀ scope ∈ c.scopes.active, c.scopes.Allocated scope
  /-- The numbers of the scopes with names in them have been given out. -/
  slots : ∀ slot, c.symbols.contains slot = true → c.scopes.Allocated slot.scope

/-- What every part of the walk leaves alone. -/
structure Kept (c d : Checker) : Prop where
  /-- The open scopes are the same. -/
  active : d.scopes.active = c.scopes.active
  /-- The innermost declaration is the same. -/
  owner : d.owner = c.owner
  /-- The nesting depth is the same. -/
  depth : d.depth = c.depth
  /-- Function numbers are not given back. -/
  nextFunction : c.scopes.nextFunction ≤ d.scopes.nextFunction
  /-- Loop numbers are not given back. -/
  nextLoop : c.scopes.nextLoop ≤ d.scopes.nextLoop
  /-- Errors are only appended. -/
  errors : c.errors <+: d.errors
  /-- Names that are bound stay bound as they are. -/
  symbols : ∀ slot symbol, c.symbols.get? slot = some symbol → d.symbols.get? slot = some symbol

/-- The scope was entered for the first time between the two states. -/
def Opened (c d : Checker) (scope : Scope) : Prop :=
  ¬ c.scopes.Allocated scope ∧ d.scopes.Allocated scope

/-- The names bound between the two states are in scopes that satisfy `P`. -/
def BindsWithin (P : Scope → Prop) (c d : Checker) : Prop :=
  ∀ slot, c.symbols.contains slot = false → d.symbols.contains slot = true → P slot.scope

/-- What an expression leaves alone: its names are in scopes that it has opened itself. -/
structure Confined (c d : Checker) : Prop extends Kept c d where
  binds : BindsWithin (Opened c d) c d

/-- What a statement leaves alone: it may also bind names in the innermost scope. -/
structure Local (c d : Checker) : Prop extends Kept c d where
  binds : BindsWithin (fun scope => Opened c d scope ∨ scope = c.scopes.current) c d

theorem Valid.current_mem {c : Checker} (h : c.Valid) : c.scopes.current ∈ c.scopes.active := by
  unfold ScopeStack.current
  obtain ⟨s, rest, hs⟩ := List.exists_cons_of_ne_nil h.nonempty
  rw [hs]
  exact List.mem_cons_self

theorem Valid.current_allocated {c : Checker} (h : c.Valid) :
    c.scopes.Allocated c.scopes.current :=
  h.active _ h.current_mem

theorem valid_initial : Valid initial where
  nonempty := by simp [initial, ScopeStack.initial]
  nodup := by simp [initial, ScopeStack.initial]
  active := by simp [initial, ScopeStack.initial, ScopeStack.Allocated]
  slots := by simp [initial, SymbolTable.empty, SymbolTable.contains, SymbolTable.get?]

/-- The invariant is about the scopes and the symbols only. -/
theorem Valid.congr {c d : Checker} (h : c.Valid) (hs : d.scopes = c.scopes)
    (ht : d.symbols = c.symbols) : d.Valid where
  nonempty := by rw [hs]; exact h.nonempty
  nodup := by rw [hs]; exact h.nodup
  active := by rw [hs]; exact h.active
  slots := by rw [hs, ht]; exact h.slots

/-- A scope that is entered keeps the invariant, since it holds no names yet. -/
theorem Valid.enter {c : Checker} (h : c.Valid) {scope : Scope} {t : ScopeStack}
    (ht : ScopeStack.Enters scope c.scopes t) : Valid { c with scopes := t } where
  nonempty := by simp [ht.active]
  nodup := by
    rw [ht.active]
    refine List.nodup_cons.mpr ⟨fun hmem => ?_, h.nodup⟩
    exact ht.new (h.active scope hmem)
  active := by
    intro x hx
    rw [ht.active] at hx
    rcases List.mem_cons.mp hx with rfl | hx
    · exact (ht.allocated x).mpr (Or.inr rfl)
    · exact (ht.allocated x).mpr (Or.inl (h.active x hx))
  slots := by
    intro slot hslot
    exact (ht.allocated _).mpr (Or.inl (h.slots slot hslot))

/-- Leaving a scope keeps the invariant: names stay, and so do the numbers given out. -/
theorem Valid.leave {c : Checker} (h : c.Valid) : Valid { c with scopes := c.scopes.pop } := by
  have hsub : c.scopes.pop.active.Sublist c.scopes.active := by
    unfold ScopeStack.pop
    split
    · next hs => rw [hs]; exact List.sublist_cons_self _ _
    · exact List.Sublist.refl _
  refine ⟨?_, h.nodup.sublist hsub, ?_, ?_⟩
  · show c.scopes.pop.active ≠ []
    unfold ScopeStack.pop
    split
    · simp
    · exact h.nonempty
  · intro scope hs
    exact (ScopeStack.allocated_pop _ _).mpr (h.active scope (hsub.subset hs))
  · intro slot hslot
    exact (ScopeStack.allocated_pop _ _).mpr (h.slots slot hslot)

/-! ## Composition -/

theorem Kept.refl (c : Checker) : Kept c c :=
  ⟨rfl, rfl, rfl, Nat.le_refl _, Nat.le_refl _, List.prefix_refl _, fun _ _ h => h⟩

theorem Kept.trans {c d e : Checker} (h₁ : Kept c d) (h₂ : Kept d e) : Kept c e where
  active := h₂.active.trans h₁.active
  owner := h₂.owner.trans h₁.owner
  depth := h₂.depth.trans h₁.depth
  nextFunction := Nat.le_trans h₁.nextFunction h₂.nextFunction
  nextLoop := Nat.le_trans h₁.nextLoop h₂.nextLoop
  errors := h₁.errors.trans h₂.errors
  symbols := fun slot symbol h => h₂.symbols slot symbol (h₁.symbols slot symbol h)

theorem Kept.allocated {c d : Checker} (h : Kept c d) {scope : Scope}
    (hs : c.scopes.Allocated scope) : d.scopes.Allocated scope :=
  hs.mono h.nextFunction h.nextLoop

theorem Kept.current {c d : Checker} (h : Kept c d) : d.scopes.current = c.scopes.current := by
  unfold ScopeStack.current
  rw [h.active]

/-- The slot of a name in the innermost scope stays the same. -/
theorem Kept.slot {c d : Checker} (h : Kept c d) (name : String) : d.slot name = c.slot name := by
  unfold Checker.slot
  rw [h.current]

theorem Confined.refl (c : Checker) : Confined c c where
  toKept := Kept.refl c
  binds := by
    intro slot h₁ h₂
    rw [h₁] at h₂
    exact absurd h₂ (by simp)

theorem Confined.trans {c d e : Checker} (h₁ : Confined c d) (h₂ : Confined d e) :
    Confined c e where
  toKept := h₁.toKept.trans h₂.toKept
  binds := by
    intro slot hc he
    cases hd : d.symbols.contains slot with
    | true =>
      obtain ⟨hnew, hd'⟩ := h₁.binds slot hc hd
      exact ⟨hnew, h₂.toKept.allocated hd'⟩
    | false =>
      obtain ⟨hnew, he'⟩ := h₂.binds slot hd he
      exact ⟨fun h => hnew (h₁.toKept.allocated h), he'⟩

theorem Confined.toLocal {c d : Checker} (h : Confined c d) : Local c d where
  toKept := h.toKept
  binds := fun slot hc hd => Or.inl (h.binds slot hc hd)

theorem Local.trans {c d e : Checker} (h₁ : Local c d) (h₂ : Local d e) : Local c e where
  toKept := h₁.toKept.trans h₂.toKept
  binds := by
    intro slot hc he
    cases hd : d.symbols.contains slot with
    | true =>
      rcases h₁.binds slot hc hd with ⟨hnew, hd'⟩ | hcur
      · exact Or.inl ⟨hnew, h₂.toKept.allocated hd'⟩
      · exact Or.inr hcur
    | false =>
      rcases h₂.binds slot hd he with ⟨hnew, he'⟩ | hcur
      · exact Or.inl ⟨fun h => hnew (h₁.toKept.allocated h), he'⟩
      · exact Or.inr (hcur.trans h₁.toKept.current)

/-- The invariant survives whatever a statement does. -/
theorem Local.valid {c d : Checker} (h : Local c d) (hc : c.Valid) : d.Valid where
  nonempty := by rw [h.active]; exact hc.nonempty
  nodup := by rw [h.active]; exact hc.nodup
  active := by
    rw [h.active]
    intro scope hs
    exact h.toKept.allocated (hc.active scope hs)
  slots := by
    intro slot hd
    cases hslot : c.symbols.contains slot with
    | true => exact h.toKept.allocated (hc.slots slot hslot)
    | false =>
      rcases h.binds slot hslot hd with ⟨_, hd'⟩ | hcur
      · exact hd'
      · rw [hcur]
        exact h.toKept.allocated hc.current_allocated

/-! ## The elementary effects -/

/-- A step that leaves scopes and symbols alone and appends to the errors is confined. -/
theorem confined_of_same {c d : Checker} (hs : d.scopes = c.scopes) (ht : d.symbols = c.symbols)
    (he : c.errors <+: d.errors) (ho : d.owner = c.owner) (hd : d.depth = c.depth) :
    Confined c d where
  active := by rw [hs]
  owner := ho
  depth := hd
  nextFunction := by rw [hs]
  nextLoop := by rw [hs]
  errors := he
  symbols := by
    intro slot symbol h
    rw [ht]
    exact h
  binds := by
    intro slot h₁ h₂
    rw [ht, h₁] at h₂
    exact absurd h₂ (by simp)

theorem confined_report (c : Checker) (span : Span) (fault : TypeFault) :
    Confined c (after (report span fault) c) :=
  confined_of_same rfl rfl (List.prefix_append c.errors _) rfl rfl

theorem after_define_free (c : Checker) (span : Span) {name : String} (symbol : Symbol)
    (h : c.symbols.contains (c.slot name) = false) :
    ∃ t, after (define span name symbol) c = { c with symbols := t } ∧
      ∀ other,
        t.get? other = if other = c.slot name then some symbol else c.symbols.get? other := by
  obtain ⟨t, ht, hget⟩ := SymbolTable.define?_of_free symbol h
  refine ⟨t, ?_, hget⟩
  rw [define, after_get, ht]
  rfl

theorem after_define_taken (c : Checker) (span : Span) {name : String} (symbol : Symbol)
    (h : c.symbols.contains (c.slot name) = true) :
    after (define span name symbol) c = after (report span (.redeclared name)) c := by
  rw [define, after_get, SymbolTable.define?_of_taken symbol h]

theorem local_define (c : Checker) (span : Span) (name : String) (symbol : Symbol) :
    Local c (after (define span name symbol) c) := by
  cases h : c.symbols.contains (c.slot name) with
  | true =>
    rw [after_define_taken c span symbol h]
    exact (confined_report c span _).toLocal
  | false =>
    obtain ⟨t, ht, hget⟩ := after_define_free c span symbol h
    rw [ht]
    refine ⟨⟨rfl, rfl, rfl, Nat.le_refl _, Nat.le_refl _, List.prefix_refl _, ?_⟩, ?_⟩
    · intro slot symbol' hslot
      have hne : slot ≠ c.slot name := by
        rintro rfl
        rw [SymbolTable.contains_eq_false.mp h] at hslot
        exact absurd hslot (by simp)
      simp only [hget, if_neg hne]
      exact hslot
    · intro slot h₁ h₂
      right
      by_contra hne
      have hne' : slot ≠ c.slot name := fun e => hne (by rw [e]; rfl)
      obtain ⟨symbol', hs⟩ := SymbolTable.contains_eq_true.mp h₂
      simp only [hget, if_neg hne', SymbolTable.contains_eq_false.mp h₁] at hs
      exact absurd hs (by simp)

theorem local_defineParams (params : List Param) (c : Checker) :
    Local c (after (defineParams params) c) :=
  defineParams_along (fun c => (Confined.refl c).toLocal) (fun _ _ _ => Local.trans) local_define
    params c

/-- What is done in a scope that was entered first and is left afterwards is confined. -/
theorem Local.leave {c d : Checker} (hc : c.Valid) {scope : Scope} {t : ScopeStack}
    (ht : ScopeStack.Enters scope c.scopes t) (h : Local { c with scopes := t } d) (k : Nat)
    (hk : k = c.depth) : Confined c { d with depth := k, scopes := d.scopes.pop } where
  active := by
    have ha : d.scopes.active = scope :: c.scopes.active := h.active.trans ht.active
    exact ScopeStack.pop_active ha hc.nonempty
  owner := h.owner
  depth := hk
  nextFunction := by
    rw [ScopeStack.pop_nextFunction]
    exact Nat.le_trans ht.nextFunction h.nextFunction
  nextLoop := by
    rw [ScopeStack.pop_nextLoop]
    exact Nat.le_trans ht.nextLoop h.nextLoop
  errors := h.errors
  symbols := h.symbols
  binds := by
    intro slot h₁ h₂
    rcases h.binds slot h₁ h₂ with ⟨hnew, hd⟩ | hcur
    · refine ⟨fun hs => hnew ((ht.allocated _).mpr (Or.inl hs)), ?_⟩
      exact (ScopeStack.allocated_pop _ _).mpr hd
    · -- a name of the entered scope itself: the scope was not allocated before
      have hscope : slot.scope = scope := by
        rw [hcur, ScopeStack.current, ht.active]
        rfl
      rw [hscope]
      refine ⟨ht.new, (ScopeStack.allocated_pop _ _).mpr ?_⟩
      exact h.toKept.allocated ((ht.allocated _).mpr (Or.inr rfl))

/-- The nesting depth is of no concern to the other parts of the state. -/
theorem Local.withDepth {c d : Checker} (h : Local c d) (k : Nat) :
    Local { c with depth := k } { d with depth := k } :=
  ⟨⟨h.active, h.owner, rfl, h.nextFunction, h.nextLoop, h.errors, h.symbols⟩, h.binds⟩

/-- Expressions are confined and statements are local, from every valid state on. -/
theorem regimen_discipline :
    Regimen (fun c d => c.Valid → Confined c d) (fun c d => c.Valid → Local c d) where
  refl := fun c _ => Confined.refl c
  trans := fun c d e h₁ h₂ hc => (h₁ hc).trans (h₂ ((h₁ hc).toLocal.valid hc))
  stmtTrans := fun c d e h₁ h₂ hc => (h₁ hc).trans (h₂ ((h₁ hc).valid hc))
  weaken := fun c d h hc => (h hc).toLocal
  report := fun c span fault _ _ => confined_report c span fault
  stray := fun c span _ _ => (confined_report c span _).toLocal
  define := fun c span name symbol _ => local_define c span name symbol
  record := fun c owner fields _ _ => confined_of_same rfl rfl (List.prefix_refl _) rfl rfl
  function := by
    intro c params d e hd he hc
    have hin := ScopeStack.enters_pushFunction c.scopes
    have hd : Local (after enterFunction c) d := hd ▸ local_defineParams params _
    have he := he ((hd.valid (hc.enter hin)).congr rfl rfl)
    have hde : Local { c with scopes := c.scopes.pushFunction } { e with depth := d.depth } :=
      hd.trans (he.withDepth d.depth)
    have hdepth : e.depth - 1 = c.depth := by
      have h₃ : e.depth = d.depth + 1 := he.depth
      have h₄ : d.depth = c.depth := hd.depth
      omega
    exact hde.leave hc hin (e.depth - 1) hdepth
  loop := by
    intro c d h hc
    have hin := ScopeStack.enters_pushLoop c.scopes
    have hd := h (hc.enter hin)
    exact (hd.leave hc hin d.depth hd.depth).toLocal
  owner := by
    intro c d x h hc
    obtain ⟨hk, hb⟩ := h (hc.congr rfl rfl)
    exact ⟨⟨hk.active, rfl, hk.depth, hk.nextFunction, hk.nextLoop, hk.errors, hk.symbols⟩, hb⟩

/-- The faults that the walk reports between two states do not include a stray return. -/
def NoStray (c d : Checker) : Prop :=
  ∃ new, d.errors = c.errors ++ new ∧ ∀ e ∈ new, e.fault ≠ .strayReturn

theorem NoStray.refl (c : Checker) : NoStray c c := ⟨[], by simp, by simp⟩

theorem NoStray.trans {c d e : Checker} (h₁ : NoStray c d) (h₂ : NoStray d e) : NoStray c e := by
  obtain ⟨new₁, he₁, hn₁⟩ := h₁
  obtain ⟨new₂, he₂, hn₂⟩ := h₂
  refine ⟨new₁ ++ new₂, by rw [he₂, he₁, List.append_assoc], ?_⟩
  intro x hx
  rcases List.mem_append.mp hx with hx | hx
  · exact hn₁ x hx
  · exact hn₂ x hx

theorem noStray_report (c : Checker) (span : Span) {fault : TypeFault} (h : fault ≠ .strayReturn) :
    NoStray c (after (report span fault) c) :=
  ⟨[⟨fault, span⟩], rfl, by simpa using h⟩

theorem noStray_define (c : Checker) (span : Span) (name : String) (symbol : Symbol) :
    NoStray c (after (define span name symbol) c) := by
  cases h : c.symbols.contains (c.slot name) with
  | true =>
    rw [after_define_taken c span symbol h]
    exact noStray_report c span (by simp)
  | false =>
    obtain ⟨t, ht, -⟩ := after_define_free c span symbol h
    rw [ht]
    exact NoStray.refl c

/-- Expressions never report a stray return; statements do so only outside function literals. The
depth is carried along because the statements of a body are walked one level deeper. -/
theorem regimen_noStray :
    Regimen (fun c d => d.depth = c.depth ∧ NoStray c d)
      (fun c d => d.depth = c.depth ∧ (c.depth ≠ 0 → NoStray c d)) where
  refl := fun c => ⟨rfl, NoStray.refl c⟩
  trans := fun c d e h₁ h₂ => ⟨h₂.1.trans h₁.1, h₁.2.trans h₂.2⟩
  stmtTrans := by
    intro c d e h₁ h₂
    refine ⟨h₂.1.trans h₁.1, fun hc => (h₁.2 hc).trans (h₂.2 ?_)⟩
    rw [h₁.1]
    exact hc
  weaken := fun c d h => ⟨h.1, fun _ => h.2⟩
  report := fun c span fault hf => ⟨rfl, noStray_report c span hf⟩
  stray := fun c span hd => ⟨rfl, fun hc => absurd hd hc⟩
  define := fun c span name symbol =>
    ⟨(local_define c span name symbol).depth, fun _ => noStray_define c span name symbol⟩
  record := fun c owner fields _ => ⟨rfl, NoStray.refl c⟩
  function := by
    intro c params d e hd he
    have hdepth : d.depth = c.depth := hd ▸ (local_defineParams params _).depth
    have hparams : NoStray (after enterFunction c) d :=
      hd ▸ defineParams_along NoStray.refl (fun _ _ _ => NoStray.trans) noStray_define params _
    have hbody : NoStray d e := he.2 (Nat.succ_ne_zero _)
    have he' : e.depth = d.depth + 1 := he.1
    exact ⟨show e.depth - 1 = c.depth by omega, NoStray.trans hparams hbody⟩
  loop := fun c d h => h
  owner := fun c d x h => h

/-! ## Reachable states -/

/-- The elementary changes that the walk makes to its state. -/
inductive Step : Checker → Checker → Prop where
  /-- A fault is reported. -/
  | report (c : Checker) (span : Span) (fault : TypeFault) : Step c (after (report span fault) c)
  /-- A name is bound in the innermost scope. -/
  | define (c : Checker) (span : Span) (name : String) (symbol : Symbol) :
    Step c (after (define span name symbol) c)
  /-- A tuple is recorded. -/
  | record (c : Checker) (slot : Slot) (fields : List TupleField) :
    Step c { c with tuples := c.tuples.record slot fields }
  /-- The scope of a function literal is entered. -/
  | enterFunction (c : Checker) : Step c (after enterFunction c)
  /-- The scope of a loop is entered. -/
  | enterLoop (c : Checker) : Step c (after enterLoop c)
  /-- The innermost scope is left. -/
  | leaveScope (c : Checker) : Step c (after leaveScope c)
  /-- Another declaration becomes the innermost one. -/
  | setOwner (c : Checker) (owner : Option String) : Step c (after (setOwner owner) c)
  /-- The body of a function literal begins. -/
  | deepen (c : Checker) : Step c { c with depth := c.depth + 1 }
  /-- The body of a function literal ends. -/
  | rise (c : Checker) : Step c { c with depth := c.depth - 1 }

/-- The states that the walk can get into, whatever it is given to check and wherever it stands. -/
def Reachable (c : Checker) : Prop := Relation.ReflTransGen Step initial c

/-- The walk consists of elementary changes, so that all states it passes through are reachable. -/
theorem regimen_steps : Regimen (Relation.ReflTransGen Step) (Relation.ReflTransGen Step) where
  refl := fun c => .refl
  trans := fun c d e h₁ h₂ => h₁.trans h₂
  stmtTrans := fun c d e h₁ h₂ => h₁.trans h₂
  weaken := fun c d h => h
  report := fun c span fault _ => .single (.report c span fault)
  stray := fun c span _ => .single (.report c span _)
  define := fun c span name symbol => .single (.define c span name symbol)
  record := fun c owner fields _ => .single (.record c _ fields)
  function := by
    intro c params d e hd he
    have hparams : Relation.ReflTransGen Step (after enterFunction c) d :=
      hd ▸ defineParams_along (fun _ => .refl) (fun _ _ _ h₁ h₂ => h₁.trans h₂)
        (fun c span name symbol => .single (.define c span name symbol)) params _
    have hbody : Relation.ReflTransGen Step d e := he.head (.deepen d)
    have hin : Relation.ReflTransGen Step c e := (hparams.trans hbody).head (.enterFunction c)
    exact (hin.tail (.rise e)).tail (.leaveScope _)
  loop := fun c d h => (h.head (.enterLoop c)).tail (.leaveScope d)
  owner := fun c d x h => (h.head (.setOwner c (some x))).tail (.setOwner d c.owner)

/-- From a reachable state, every part of the walk leads to one. -/
theorem Reachable.walk {c : Checker} (h : Reachable c) :
    (∀ e, Reachable (after (infer e) c)) ∧ (∀ s, Reachable (after (checkStmt s) c)) ∧
      ∀ d, Reachable (after (checkDeclaration d) c) :=
  ⟨fun e => h.trans (infer_along regimen_steps e c),
    fun s => h.trans (checkStmt_along regimen_steps s c),
    fun d => h.trans (checkDeclaration_along regimen_steps d c)⟩

theorem Step.valid {c d : Checker} (h : Step c d) (hc : c.Valid) : d.Valid := by
  cases h with
  | report span fault => exact hc.congr rfl rfl
  | define span name symbol => exact (local_define c span name symbol).valid hc
  | record slot fields => exact hc.congr rfl rfl
  | enterFunction => exact hc.enter (ScopeStack.enters_pushFunction c.scopes)
  | enterLoop => exact hc.enter (ScopeStack.enters_pushLoop c.scopes)
  | leaveScope => exact hc.leave
  | setOwner owner => exact hc.congr rfl rfl
  | deepen => exact hc.congr rfl rfl
  | rise => exact hc.congr rfl rfl

/-- The invariant holds wherever the walk can get. -/
theorem Reachable.valid {c : Checker} (h : Reachable c) : c.Valid := by
  induction h with
  | refl => exact valid_initial
  | tail _ hstep ih => exact hstep.valid ih

/-! ## The parts of the walk -/

section Parts

variable {c : Checker}

theorem confined_infer (hc : c.Valid) (e : Expr) : Confined c (after (infer e) c) :=
  infer_along regimen_discipline e c hc

theorem confined_inferAll (hc : c.Valid) (es : List Expr) : Confined c (after (inferAll es) c) :=
  inferAll_along regimen_discipline es c hc

theorem confined_inferDeclared (hc : c.Valid) (d : Declaration) :
    Confined c (after (inferDeclared d) c) :=
  regimen_discipline.inferDeclared d (infer_along regimen_discipline d.value) c hc

theorem local_checkStmt (hc : c.Valid) (s : Stmt) : Local c (after (checkStmt s) c) :=
  checkStmt_along regimen_discipline s c hc

theorem local_checkStmts (hc : c.Valid) (stmts : List Stmt) :
    Local c (after (checkStmts stmts) c) :=
  checkStmts_along regimen_discipline stmts c hc

theorem local_checkHeader (hc : c.Valid) (h : Header) : Local c (after (checkHeader h) c) :=
  checkHeader_along regimen_discipline h c hc

theorem local_checkDeclaration (hc : c.Valid) (d : Declaration) :
    Local c (after (checkDeclaration d) c) :=
  checkDeclaration_along regimen_discipline d c hc

theorem local_check (hc : c.Valid) (p : Program) : Local c (c.check p) :=
  checkDeclarations_along regimen_discipline p.declarations c hc

/-- A loop binds its names in its own scope and in scopes inside it. -/
theorem confined_loop (hc : c.Valid) (span : Span) (h : Header) (b : List Stmt) :
    Confined c (after (checkStmt (.loop span h b)) c) := by
  have hin := ScopeStack.enters_pushLoop c.scopes
  have hv : Valid (after enterLoop c) := hc.enter hin
  have hh := local_checkHeader hv h
  have hb := local_checkStmts (hh.valid hv) b
  have hl := hh.trans hb
  simp only [checkStmt, after_bind, after_leaveScope]
  exact hl.leave hc hin _ hl.depth

/-- A declared name that was free before its value was inferred is still free afterwards. -/
theorem free_after_inferDeclared (hc : c.Valid) (d : Declaration)
    (h : c.symbols.contains (c.slot d.name) = false) :
    (after (inferDeclared d) c).symbols.contains ((after (inferDeclared d) c).slot d.name)
      = false := by
  have hd := confined_inferDeclared hc d
  rw [hd.toKept.slot]
  cases hs : (after (inferDeclared d) c).symbols.contains (c.slot d.name) with
  | false => rfl
  | true =>
    obtain ⟨hnew, -⟩ := hd.binds _ h hs
    exact absurd hc.current_allocated hnew

/-- In a loop that has just been entered, every name is free in the innermost scope, also after the
first value of the header has been inferred. -/
theorem free_after_enterLoop (hc : c.Valid) (e : Expr) (name : String) :
    (after (infer e) (after enterLoop c)).symbols.contains
      ((after (infer e) (after enterLoop c)).slot name) = false := by
  have hin := ScopeStack.enters_pushLoop c.scopes
  have hv : Valid (after enterLoop c) := hc.enter hin
  have he := confined_infer hv e
  rw [he.toKept.slot]
  cases hs : (after (infer e) (after enterLoop c)).symbols.contains
      ((after enterLoop c).slot name) with
  | false => rfl
  | true =>
    have hfree : (after enterLoop c).symbols.contains ((after enterLoop c).slot name) = false := by
      by_contra hne
      exact hin.new (hc.slots _ (by simpa using hne))
    obtain ⟨hnew, -⟩ := he.binds _ hfree hs
    exact absurd hv.current_allocated hnew

end Parts

/-- Binding a free name reports nothing. -/
theorem errors_define_free (c : Checker) (span : Span) {name : String} (symbol : Symbol)
    (h : c.symbols.contains (c.slot name) = false) :
    (after (define span name symbol) c).errors = c.errors := by
  obtain ⟨t, ht, -⟩ := after_define_free c span symbol h
  rw [ht]

/-- A declaration is never blamed for a stray return: its value is an expression. -/
theorem noStray_checkDeclaration (c : Checker) (d : Declaration) :
    NoStray c (after (checkDeclaration d) c) := by
  cases h : c.symbols.contains (c.slot d.name) with
  | true =>
    rw [after_checkDeclaration_bound d c h]
    exact noStray_report c d.span (by simp)
  | false =>
    rw [after_checkDeclaration_unbound d c h]
    have hd := regimen_noStray.inferDeclared d (infer_along regimen_noStray d.value) c
    exact hd.2.trans (noStray_define _ _ _ _)

theorem noStray_check (c : Checker) (p : Program) : NoStray c (c.check p) := by
  rw [check_eq_after]
  generalize p.declarations = ds
  induction ds generalizing c with
  | nil => exact NoStray.refl c
  | cons d rest ih =>
    rw [checkDeclarations, after_bind]
    exact (noStray_checkDeclaration c d).trans (ih _)

/-! ## The discipline -/

/-- Wherever the walk stands, expressions and loops are confined, statements, declarations and
programs are local; the binding of a declared name whose slot was free and of a loop variable
succeeds; and no program is blamed for a stray return. -/
theorem walk_discipline (c : Checker) (hc : Reachable c) :
    (∀ e, Confined c (after (infer e) c)) ∧
    (∀ s, Local c (after (checkStmt s) c)) ∧
    (∀ span h b, Confined c (after (checkStmt (.loop span h b)) c)) ∧
    (∀ d, Local c (after (checkDeclaration d) c)) ∧
    (∀ p, Local c (c.check p)) ∧
    (∀ d, c.symbols.contains (c.slot d.name) = false →
      ∃ inferred type, inferred = after (inferDeclared d) c ∧
        after (checkDeclaration d) c =
          after (define d.span d.name ⟨.declared, .of type⟩) inferred ∧
        (after (define d.span d.name ⟨.declared, .of type⟩) inferred).errors = inferred.errors) ∧
    (∀ e span name type, ∃ inside, inside = after (infer e) (after enterLoop c) ∧
      (after (defineLoopVariable span name type) inside).errors = inside.errors) ∧
    (∀ p, NoStray c (c.check p)) := by
  have hv := hc.valid
  refine ⟨confined_infer hv, local_checkStmt hv, confined_loop hv, local_checkDeclaration hv,
    local_check hv, ?_, ?_, ?_⟩
  · intro d hfree
    refine ⟨_, answer (inferDeclared d) c, rfl, after_checkDeclaration_unbound d c hfree, ?_⟩
    exact errors_define_free _ _ _ (free_after_inferDeclared hv d hfree)
  · intro e span name type
    refine ⟨_, rfl, ?_⟩
    cases name with
    | none => rfl
    | some x => exact errors_define_free _ _ _ (free_after_enterLoop hv e x)
  · exact noStray_check c

/-- The state inside a loop over `i`, in the value of the declaration of `x`. -/
def insideLoop : Checker :=
  after (define .origin "i" ⟨.loopVariable, .integer, false⟩)
    (after enterLoop (after (setOwner (some "x")) initial))

/-- There, a function literal that binds `i` once more is confined, and the declaration of `j` finds
its slot free. -/
theorem walk_discipline_insideLoop :
    Reachable insideLoop ∧
    Confined insideLoop (after (infer (.function .origin [⟨.origin, "i", none⟩] none
      (.expr .origin (.var .origin "i")))) insideLoop) ∧
    insideLoop.symbols.contains (insideLoop.slot "j") = false ∧
    ∃ inferred type,
      inferred = after (inferDeclared ⟨.origin, "j", none, .var .origin "i"⟩) insideLoop ∧
      after (checkDeclaration ⟨.origin, "j", none, .var .origin "i"⟩) insideLoop =
        after (define .origin "j" ⟨.declared, .of type⟩) inferred ∧
      (after (define .origin "j" ⟨.declared, .of type⟩) inferred).errors = inferred.errors := by
  have hr : Reachable insideLoop :=
    ((Relation.ReflTransGen.single (.setOwner initial (some "x"))).tail (.enterLoop _)).tail
      (.define _ .origin "i" _)
  obtain ⟨hinfer, -, -, -, -, hdecl, -, -⟩ := walk_discipline insideLoop hr
  exact ⟨hr, hinfer _, by decide, hdecl ⟨.origin, "j", none, .var .origin "i"⟩ (by decide)⟩

end ExprCheck.Checker
