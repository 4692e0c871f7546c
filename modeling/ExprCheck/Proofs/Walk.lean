import Mathlib
import ExprCheck.Checker

/-!
# The walk of the checker

A step of the checker is looked at as a pair of functions of the state it starts in: the state it
ends in (`after`) and what it answers (`answer`).

Most facts about the walk relate the state before a step to the state after it, and say that every
part of the walk stays within the relation. `Regimen` lists what such a relation has to allow: the
elementary effects, and the three ways in which the walk opens something and closes it again. The
induction over expressions and statements is then done once, for every regimen.
-/

namespace ExprCheck

/-! ## Faults that rules find -/

/-- Whether the fault is one that a rule finds, from the types of the parts of an expression. -/
def TypeFault.isRuling : TypeFault → Bool
  | .unbound _ | .redeclared _ | .declaredType _ _ | .assignment _ _ | .loopBounds _ _
  | .strayReturn => false
  | _ => true

namespace Rule

variable {f : TypeFault}

theorem fault_ne (hf : f.isRuling = false) {g : TypeFault} (hg : g.isRuling = true) :
    Verdict.fault g ≠ .fault f := by
  rintro ⟨⟩
  exact absurd hg (by simp [hf])

theorem binary_ne (hf : f.isRuling = false) (op : Operator) (l r : Option Ty) :
    binary op l r ≠ .fault f := by
  unfold binary
  split
  · split
    · simp
    · exact fault_ne hf rfl
  · simp

theorem conditional_ne (hf : f.isRuling = false) (p t e : Option Ty) :
    conditional p t e ≠ .fault f := by
  unfold conditional
  split
  · split
    · simp
    · exact fault_ne hf rfl
  · simp

theorem function_ne (hf : f.isRuling = false) (params : List Ty) (declared body : Option Ty) :
    function params declared body ≠ .fault f := by
  unfold function
  split
  · simp
  · split
    · simp
    · split
      · simp
      · exact fault_ne hf rfl

theorem array_ne (hf : f.isRuling = false) (elements : List (Option Ty)) :
    array elements ≠ .fault f := by
  unfold array
  split
  · simp
  · exact fault_ne hf rfl
  · split
    · simp
    · exact fault_ne hf rfl

theorem map_ne (hf : f.isRuling = false) (entries : List (Option Ty × Option Ty)) :
    map entries ≠ .fault f := by
  unfold map
  split
  · simp
  · exact fault_ne hf rfl
  · split
    · simp
    · exact fault_ne hf rfl

theorem call_ne (hf : f.isRuling = false) (callee : Option Ty) (args : List (Option Ty)) :
    call callee args ≠ .fault f := by
  unfold call
  split
  · simp
  · split
    · exact fault_ne hf rfl
    · split
      · exact fault_ne hf rfl
      · split
        · simp
        · split
          · simp
          · exact fault_ne hf rfl

theorem index_ne (hf : f.isRuling = false) (target i : Option Ty) : index target i ≠ .fault f := by
  unfold index
  split
  · split
    · split
      · simp
      · exact fault_ne hf rfl
    · split
      · simp
      · exact fault_ne hf rfl
    · exact fault_ne hf rfl
  · simp

theorem field_ne (hf : f.isRuling = false) (known target : Option Ty) :
    field known target ≠ .fault f := by
  unfold field
  split
  · simp
  · split <;> simp
  · exact fault_ne hf rfl

end Rule

namespace Checker

variable {α β : Type}

/-! ## Running a step -/

/-- The state in which a step ends. -/
def after (m : CheckM α) (c : Checker) : Checker := (m.run c).2

/-- What a step answers. -/
def answer (m : CheckM α) (c : Checker) : α := (m.run c).1

@[simp] theorem after_pure (a : α) (c : Checker) : after (pure a) c = c := rfl

@[simp] theorem answer_pure (a : α) (c : Checker) : answer (pure a) c = a := rfl

@[simp] theorem after_bind (m : CheckM α) (f : α → CheckM β) (c : Checker) :
    after (m >>= f) c = after (f (answer m c)) (after m c) := rfl

@[simp] theorem answer_bind (m : CheckM α) (f : α → CheckM β) (c : Checker) :
    answer (m >>= f) c = answer (f (answer m c)) (after m c) := rfl

@[simp] theorem after_get (f : Checker → CheckM β) (c : Checker) :
    after (get >>= f) c = after (f c) c := rfl

@[simp] theorem answer_get (f : Checker → CheckM β) (c : Checker) :
    answer (get >>= f) c = answer (f c) c := rfl

@[simp] theorem after_set (c d : Checker) : after (set d : CheckM Unit) c = d := rfl

@[simp] theorem after_modify (f : Checker → Checker) (c : Checker) :
    after (modify f : CheckM Unit) c = f c := rfl

@[simp] theorem after_report (span : Span) (fault : TypeFault) (c : Checker) :
    after (report span fault) c = { c with errors := c.errors ++ [⟨fault, span⟩] } := rfl

@[simp] theorem after_enterFunction (c : Checker) :
    after enterFunction c = { c with scopes := c.scopes.pushFunction } := rfl

@[simp] theorem after_enterLoop (c : Checker) :
    after enterLoop c = { c with scopes := c.scopes.pushLoop } := rfl

@[simp] theorem after_leaveScope (c : Checker) :
    after leaveScope c = { c with scopes := c.scopes.pop } := rfl

@[simp] theorem after_setOwner (owner : Option String) (c : Checker) :
    after (setOwner owner) c = { c with owner := owner } := rfl

/-- What checking a declaration does before it binds the name, if the name is not bound yet. -/
def inferDeclared (d : Declaration) : CheckM (Option Ty) := do
  let c ← get
  setOwner (some d.name)
  let type ← infer d.value
  setOwner c.owner
  compareTypes d.span .declaredType type (d.typeExpr.map Ty.ofTypeExpr)
  return type

theorem after_checkDeclaration_bound (d : Declaration) (c : Checker)
    (h : c.symbols.contains (c.slot d.name) = true) :
    after (checkDeclaration d) c = after (report d.span (.redeclared d.name)) c := by
  obtain ⟨s, x, typeExpr, v⟩ := d
  rw [checkDeclaration, after_get, if_pos h]

theorem after_checkDeclaration_unbound (d : Declaration) (c : Checker)
    (h : c.symbols.contains (c.slot d.name) = false) :
    after (checkDeclaration d) c =
      after (define d.span d.name ⟨.declared, .of (answer (inferDeclared d) c)⟩)
        (after (inferDeclared d) c) := by
  obtain ⟨s, x, typeExpr, v⟩ := d
  rw [checkDeclaration, after_get, if_neg (by simp [h])]
  rfl

theorem check_eq_after (c : Checker) (p : Program) :
    c.check p = after (checkDeclarations p.declarations) c := rfl

theorem after_checkDeclarations_append (ds ds' : List Declaration) (c : Checker) :
    after (checkDeclarations (ds ++ ds')) c =
      after (checkDeclarations ds') (after (checkDeclarations ds) c) := by
  induction ds generalizing c with
  | nil => rfl
  | cons d rest ih => exact ih _

/-! ## Staying within a relation -/

/-- A step that leads from every state to a related one. -/
def Along (R : Checker → Checker → Prop) (m : CheckM α) : Prop := ∀ c, R c (after m c)

/-- Binding parameters is binding names one after the other. -/
theorem defineParams_along {R : Checker → Checker → Prop} (refl : ∀ c, R c c)
    (trans : ∀ c d e, R c d → R d e → R c e)
    (hdef : ∀ c span name symbol, R c (after (define span name symbol) c)) (params : List Param) :
    Along R (defineParams params) := by
  induction params with
  | nil => exact refl
  | cons p rest ih =>
    intro c
    rw [defineParams, after_bind]
    exact trans _ _ _ (hdef c _ _ _) (ih _)

/-- Relations within which the walk stays, `E` for expressions and `S` for statements. -/
structure Regimen (E S : Checker → Checker → Prop) : Prop where
  /-- Doing nothing is allowed. -/
  refl : ∀ c, E c c
  /-- Expressions may follow one another. -/
  trans : ∀ c d e, E c d → E d e → E c e
  /-- Statements may follow one another. -/
  stmtTrans : ∀ c d e, S c d → S d e → S c e
  /-- What expressions do, statements may do. -/
  weaken : ∀ c d, E c d → S c d
  /-- Faults may be reported. -/
  report : ∀ c span fault, fault ≠ .strayReturn → E c (after (report span fault) c)
  /-- A return may be reported where no function literal is open. -/
  stray : ∀ c span, c.depth = 0 → S c (after (Checker.report span .strayReturn) c)
  /-- Statements may bind names in the innermost scope. -/
  define : ∀ c span name symbol, S c (after (define span name symbol) c)
  /-- A tuple may be recorded under the innermost declaration. -/
  record : ∀ c owner fields, c.owner = some owner →
    E c { c with tuples := c.tuples.record (c.slot owner) fields }
  /-- A function literal may be entered, its parameters bound, its body walked, and left again. -/
  function : ∀ c params d e, d = after (defineParams params) (after enterFunction c) →
    S { d with depth := d.depth + 1 } e →
    E c { e with depth := e.depth - 1, scopes := e.scopes.pop }
  /-- A loop may be entered and left again. -/
  loop : ∀ c d, S { c with scopes := c.scopes.pushLoop } d → S c { d with scopes := d.scopes.pop }
  /-- A value may be inferred on behalf of a declaration. -/
  owner : ∀ c d x, E { c with owner := some x } d → E c { d with owner := c.owner }

namespace Regimen

variable {E S : Checker → Checker → Prop}

theorem pure (h : Regimen E S) (a : α) : Along E (pure a : CheckM α) := fun c => h.refl c

theorem bind (h : Regimen E S) {m : CheckM α} {f : α → CheckM β} (hm : Along E m)
    (hf : ∀ a, Along E (f a)) : Along E (m >>= f) := by
  intro c
  rw [after_bind]
  exact h.trans _ _ _ (hm c) (hf _ _)

theorem stmtBind (h : Regimen E S) {m : CheckM α} {f : α → CheckM β} (hm : Along S m)
    (hf : ∀ a, Along S (f a)) : Along S (m >>= f) := by
  intro c
  rw [after_bind]
  exact h.stmtTrans _ _ _ (hm c) (hf _ _)

theorem lift (h : Regimen E S) {m : CheckM α} (hm : Along E m) : Along S m :=
  fun c => h.weaken _ _ (hm c)

theorem settle (h : Regimen E S) (span : Span) {v : Verdict} (hv : v ≠ .fault .strayReturn) :
    Along E (settle span v) := by
  intro c
  cases v with
  | type t => exact h.refl c
  | silent => exact h.refl c
  | fault f => exact h.report c span f fun hf => hv (by rw [hf])

theorem compareTypes (h : Regimen E S) (span : Span) {fault : Ty → Ty → TypeFault}
    (hf : ∀ a b, fault a b ≠ .strayReturn) (a b : Option Ty) :
    Along E (compareTypes span fault a b) := by
  intro c
  cases a with
  | none => exact h.refl c
  | some a =>
    cases b with
    | none => exact h.refl c
    | some b =>
      simp only [Checker.compareTypes]
      by_cases hab : a = b
      · rw [if_pos hab]
        exact h.refl c
      · rw [if_neg hab]
        exact h.report c span _ (hf a b)

theorem inferVar (h : Regimen E S) (span : Span) (name : String) :
    Along E (inferVar span name) := by
  intro c
  unfold Checker.inferVar
  rw [after_get]
  split
  · exact h.refl c
  · exact h.report c span _ (by simp)

theorem inferDeclared (h : Regimen E S) (d : Declaration) (hd : Along E (infer d.value)) :
    Along E (inferDeclared d) := by
  intro c
  rw [Checker.inferDeclared, after_get]
  simp only [after_bind, after_setOwner, after_pure]
  refine h.trans _ _ _ (h.owner c _ d.name (hd _)) ?_
  exact h.compareTypes d.span (by simp) _ _ _

theorem recordTuple (h : Regimen E S) (fields : List (String × Option Ty)) :
    Along E (recordTuple fields) := by
  intro c
  unfold Checker.recordTuple
  split
  · exact h.refl c
  · rw [after_get]
    split
    · next owner ho => exact h.record c owner _ ho
    · exact h.refl c

theorem settleField (h : Regimen E S) (span : Span) (target : Expr) (type : Option Ty)
    (field : String) : Along E (settleField span target type field) := by
  refine h.bind (fun c => h.refl c) fun c => ?_
  exact h.settle span (Rule.field_ne rfl _ _)

theorem defineLoopVariable (h : Regimen E S) (span : Span) (name : Option String)
    (type : Option Ty) : Along S (defineLoopVariable span name type) := by
  intro c
  cases name with
  | none => exact h.weaken _ _ (h.refl c)
  | some x => exact h.define c span x _

/-- A return is reported only where no function literal is open. -/
theorem strayReturn (h : Regimen E S) (span : Span) :
    Along S (do if (← get).depth = 0 then Checker.report span .strayReturn : CheckM Unit) := by
  intro c
  rw [after_get]
  by_cases hd : c.depth = 0
  · rw [if_pos hd]
    exact h.stray c span hd
  · rw [if_neg hd]
    exact h.weaken _ _ (h.refl c)

end Regimen

/-! ## The walk stays within every regimen -/

section Walk

variable {E S : Checker → Checker → Prop}

mutual

/-- Expressions stay within the relation for expressions. -/
theorem infer_along (h : Regimen E S) : (e : Expr) → Along E (infer e)
  | .literal _ v => by
    simp only [infer]
    exact h.pure _
  | .var s x => by
    simp only [infer]
    exact h.inferVar s x
  | .binary _ op l r => by
    simp only [infer]
    refine h.bind (infer_along h l) fun left => ?_
    refine h.bind (infer_along h r) fun right => ?_
    exact h.settle _ (Rule.binary_ne rfl op left right)
  | .conditional _ p t e => by
    simp only [infer]
    refine h.bind (infer_along h p) fun predicate => ?_
    refine h.bind (infer_along h t) fun thenType => ?_
    refine h.bind (infer_along h e) fun elseType => ?_
    exact h.settle _ (Rule.conditional_ne rfl predicate thenType elseType)
  | .function _ params result body => by
    intro c
    simp only [infer, after_bind, after_enterFunction, after_modify, after_leaveScope]
    refine h.trans _ _ _ ?_ (h.settle _ (Rule.function_ne rfl _ _ _) _)
    exact h.function c params _ _ rfl (inferBody_along h body _)
  | .array s es => by
    simp only [infer]
    refine h.bind (inferAll_along h es) fun types => ?_
    exact h.settle s (Rule.array_ne rfl types)
  | .map s es => by
    simp only [infer]
    refine h.bind (inferEntries_along h es) fun types => ?_
    exact h.settle s (Rule.map_ne rfl types)
  | .tuple _ es => by
    simp only [infer]
    exact h.bind (inferElements_along h 0 es) fun fields => h.recordTuple fields
  | .call s f es => by
    simp only [infer]
    refine h.bind (infer_along h f) fun callee => ?_
    refine h.bind (inferAll_along h es) fun types => ?_
    exact h.settle s (Rule.call_ne rfl callee types)
  | .index s t i => by
    simp only [infer]
    refine h.bind (infer_along h t) fun target => ?_
    refine h.bind (infer_along h i) fun type => ?_
    exact h.settle s (Rule.index_ne rfl target type)
  | .field s t x => by
    simp only [infer]
    exact h.bind (infer_along h t) fun target => h.settleField s t target x
  | .ordinal s t n => by
    simp only [infer]
    exact h.bind (infer_along h t) fun target => h.settleField s t target (toString n)

/-- Lists of expressions stay within the relation for expressions. -/
theorem inferAll_along (h : Regimen E S) : (es : List Expr) → Along E (inferAll es)
  | [] => by
    simp only [inferAll]
    exact h.pure _
  | e :: rest => by
    simp only [inferAll]
    refine h.bind (infer_along h e) fun type => ?_
    exact h.bind (inferAll_along h rest) fun types => h.pure _

/-- Entries of maps stay within the relation for expressions. -/
theorem inferEntries_along (h : Regimen E S) : (es : List Entry) → Along E (inferEntries es)
  | [] => by
    simp only [inferEntries]
    exact h.pure _
  | ⟨_, k, v⟩ :: rest => by
    simp only [inferEntries]
    refine h.bind (infer_along h k) fun key => ?_
    refine h.bind (infer_along h v) fun value => ?_
    exact h.bind (inferEntries_along h rest) fun types => h.pure _

/-- Elements of tuples stay within the relation for expressions. -/
theorem inferElements_along (h : Regimen E S) (place : Nat) :
    (es : List Element) → Along E (inferElements place es)
  | [] => by
    simp only [inferElements]
    exact h.pure _
  | ⟨_, _, v⟩ :: rest => by
    simp only [inferElements]
    refine h.bind (infer_along h v) fun type => ?_
    exact h.bind (inferElements_along h (place + 1) rest) fun fields => h.pure _

/-- Bodies of function literals stay within the relation for statements. -/
theorem inferBody_along (h : Regimen E S) : (b : Body) → Along S (inferBody b)
  | .expr _ e => by
    simp only [inferBody]
    exact h.lift (infer_along h e)
  | .block _ stmts => by
    simp only [inferBody]
    exact inferBlock_along h _ stmts

/-- Blocks stay within the relation for statements. -/
theorem inferBlock_along (h : Regimen E S) (type : Option Ty) :
    (stmts : List Stmt) → Along S (inferBlock type stmts)
  | [] => by
    simp only [inferBlock]
    exact h.lift (h.pure _)
  | .returnNothing _ :: rest => by
    simp only [inferBlock]
    exact inferBlock_along h _ rest
  | .returnValue _ e :: rest => by
    simp only [inferBlock]
    exact h.stmtBind (h.lift (infer_along h e)) fun type => inferBlock_along h type rest
  | .declaration _ _ :: rest | .assign _ _ _ :: rest | .call _ _ _ :: rest
  | .ifThen _ _ _ :: rest | .ifElse _ _ _ _ :: rest | .loop _ _ _ :: rest
  | .breakLoop _ :: rest | .print _ _ :: rest => by
    simp only [inferBlock]
    exact h.stmtBind (checkStmt_along h _) fun _ => inferBlock_along h type rest

/-- Statements stay within the relation for statements. -/
theorem checkStmt_along (h : Regimen E S) : (s : Stmt) → Along S (checkStmt s)
  | .declaration _ d => by
    simp only [checkStmt]
    exact checkDeclaration_along h d
  | .assign s t v => by
    simp only [checkStmt]
    refine h.lift (h.bind (infer_along h t) fun target => ?_)
    refine h.bind (infer_along h v) fun value => ?_
    exact h.compareTypes s (by simp) value target
  | .call s f es => by
    simp only [checkStmt]
    refine h.lift (h.bind (infer_along h f) fun callee => ?_)
    refine h.bind (inferAll_along h es) fun types => ?_
    exact h.bind (h.settle s (Rule.call_ne rfl callee types)) fun _ => h.pure _
  | .ifThen _ c t => by
    simp only [checkStmt]
    exact h.stmtBind (h.lift (infer_along h c)) fun _ => checkStmts_along h t
  | .ifElse _ c t e => by
    simp only [checkStmt]
    refine h.stmtBind (h.lift (infer_along h c)) fun _ => ?_
    exact h.stmtBind (checkStmts_along h t) fun _ => checkStmts_along h e
  | .loop _ hd b => by
    intro c
    simp only [checkStmt, after_bind, after_enterLoop, after_leaveScope]
    refine h.loop c _ (h.stmtTrans _ _ _ (checkHeader_along h hd _) ?_)
    exact checkStmts_along h b _
  | .returnNothing s => by
    simp only [checkStmt]
    exact h.strayReturn s
  | .returnValue s e => by
    simp only [checkStmt]
    exact h.stmtBind (h.lift (infer_along h e)) fun _ => h.strayReturn s
  | .breakLoop _ => by
    simp only [checkStmt]
    exact h.lift (h.pure _)
  | .print _ es => by
    simp only [checkStmt]
    exact h.lift (h.bind (inferAll_along h es) fun _ => h.pure _)

/-- Lists of statements stay within the relation for statements. -/
theorem checkStmts_along (h : Regimen E S) : (stmts : List Stmt) → Along S (checkStmts stmts)
  | [] => by
    simp only [checkStmts]
    exact h.lift (h.pure _)
  | s :: rest => by
    simp only [checkStmts]
    exact h.stmtBind (checkStmt_along h s) fun _ => checkStmts_along h rest

/-- Headers of loops stay within the relation for statements. -/
theorem checkHeader_along (h : Regimen E S) : (hd : Header) → Along S (checkHeader hd)
  | .items s x e => by
    simp only [checkHeader]
    exact h.stmtBind (h.lift (infer_along h e)) fun type => h.defineLoopVariable s x type
  | .range s x a b => by
    simp only [checkHeader]
    refine h.stmtBind (h.lift (infer_along h a)) fun first => ?_
    refine h.stmtBind (h.defineLoopVariable s x first) fun _ => ?_
    refine h.lift (h.bind (infer_along h b) fun last => ?_)
    exact h.compareTypes s (by simp) first last
  | .condition _ e => by
    simp only [checkHeader]
    exact h.lift (h.bind (infer_along h e) fun _ => h.pure _)

/-- Declarations stay within the relation for statements. -/
theorem checkDeclaration_along (h : Regimen E S) :
    (d : Declaration) → Along S (checkDeclaration d)
  | ⟨s, x, typeExpr, v⟩ => by
    intro c
    by_cases hx : c.symbols.contains (c.slot x) = true
    · rw [after_checkDeclaration_bound _ c hx]
      exact h.weaken _ _ (h.report c s _ (by simp))
    · rw [after_checkDeclaration_unbound _ c (by simpa using hx)]
      refine h.stmtTrans _ _ _ (h.weaken _ _ ?_) (h.define _ s x _)
      exact h.inferDeclared ⟨s, x, typeExpr, v⟩ (infer_along h v) c

end

/-- Programs stay within the relation for statements. -/
theorem checkDeclarations_along (h : Regimen E S) (ds : List Declaration) :
    Along S (checkDeclarations ds) := by
  induction ds with
  | nil => exact h.lift (h.pure ())
  | cons d rest ih => exact h.stmtBind (checkDeclaration_along h d) fun _ => ih

end Walk

end Checker

end ExprCheck
