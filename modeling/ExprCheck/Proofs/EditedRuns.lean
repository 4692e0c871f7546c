import Mathlib
import ExprCheck.Proofs.CleanRuns
import ExprCheck.Proofs.Edits

/-!
# Checking two versions of a program

Facts that compare a run over a program with a run over an edited version of it say that the runs
stay in step: from related states every part of the walk gives the same answer and leads to related
states again. A `Comparison` is what such a fact is about. It is `Stepwise` if its relation shows
both runs the same names, fields and declarations, and survives that both make the same elementary
change, and `Sound` if also the annotations do no harm, which an edit may drop. The induction over
expressions and statements is then done once, for every sound comparison.

Two weakenings make room for more comparisons. A run that has gone wrong need not be followed any
further, which is what `Lost` is for. And the runs may disagree about names that the program does
not refer to, as long as they agree about all names of inner scopes: expressions bind names only in
scopes that they open themselves.
-/

namespace ExprCheck

/-! ## Names that are referred to -/

mutual

/-- The names that an expression refers to as variables, in the order of its parts. -/
@[simp]
def Expr.variables : Expr → List String
  | .literal _ _ => []
  | .var _ x => [x]
  | .binary _ _ l r => l.variables ++ r.variables
  | .conditional _ p t e => p.variables ++ (t.variables ++ e.variables)
  | .function _ _ _ b => b.variables
  | .array _ es => exprsVariables es
  | .map _ es => entriesVariables es
  | .tuple _ es => elementsVariables es
  | .call _ f es => f.variables ++ exprsVariables es
  | .index _ t i => t.variables ++ i.variables
  | .field _ t _ => t.variables
  | .ordinal _ t _ => t.variables

@[simp]
def exprsVariables : List Expr → List String
  | [] => []
  | e :: es => e.variables ++ exprsVariables es

@[simp]
def entriesVariables : List Entry → List String
  | [] => []
  | ⟨_, k, v⟩ :: es => k.variables ++ (v.variables ++ entriesVariables es)

@[simp]
def elementsVariables : List Element → List String
  | [] => []
  | ⟨_, _, v⟩ :: es => v.variables ++ elementsVariables es

@[simp]
def Body.variables : Body → List String
  | .expr _ e => e.variables
  | .block _ ss => stmtsVariables ss

@[simp]
def Stmt.variables : Stmt → List String
  | .declaration _ d => d.variables
  | .assign _ t e => t.variables ++ e.variables
  | .call _ f es => f.variables ++ exprsVariables es
  | .ifThen _ c ss => c.variables ++ stmtsVariables ss
  | .ifElse _ c ss rs => c.variables ++ (stmtsVariables ss ++ stmtsVariables rs)
  | .loop _ h ss => h.variables ++ stmtsVariables ss
  | .returnNothing _ => []
  | .returnValue _ e => e.variables
  | .breakLoop _ => []
  | .print _ es => exprsVariables es

@[simp]
def stmtsVariables : List Stmt → List String
  | [] => []
  | s :: ss => s.variables ++ stmtsVariables ss

@[simp]
def Header.variables : Header → List String
  | .items _ _ e => e.variables
  | .range _ _ a b => a.variables ++ b.variables
  | .condition _ c => c.variables

@[simp]
def Declaration.variables : Declaration → List String
  | ⟨_, _, _, e⟩ => e.variables

end

namespace Checker

variable {α β : Type}

instance (span : Span) (target : Expr) (type : Option Ty) (field : String) :
    Grows (settleField span target type field) :=
  ⟨regimen_grows.settleField span target type field⟩

@[simp]
theorem paramType_edit (r : Edit) (p : Param) : paramType (p.edit r) = paramType p := by
  simp only [paramType, Param.edit, Ty.map_ofTypeExpr_move]

/-! ## Comparisons -/

/-- What is compared: a run over a program and one over its edited version. -/
structure Comparison where
  /-- The edit. -/
  edit : Edit
  /-- The names that both versions may refer to, and declare in the main scope. -/
  Sees : String → Prop
  /-- The errors after which the first run is no longer followed. -/
  Lost : List TypeError → Prop
  /-- How the states of the two runs are related. -/
  Rel : Checker → Checker → Prop

/-- If anything is open before, the same is open afterwards. -/
def Balanced (c d : Checker) : Prop := c.scopes.active ≠ [] → d.scopes.active = c.scopes.active

/-- Statements stand in a scope other than the main one. -/
def Within (inside : Bool) (c : Checker) : Prop := inside = true → c.scopes.current ≠ .main

theorem Balanced.refl (c : Checker) : Balanced c c := fun _ => rfl

theorem Balanced.trans {c d e : Checker} (h₁ : Balanced c d) (h₂ : Balanced d e) :
    Balanced c e := by
  intro hc
  have hd : d.scopes.active = c.scopes.active := h₁ hc
  rw [h₂ (by rw [hd]; exact hc), hd]

theorem Kept.balanced {c d : Checker} (h : Kept c d) : Balanced c d := fun _ => h.active

theorem Balanced.within {inside : Bool} {c d : Checker} (h : Balanced c d)
    (hc : Within inside c) : Within inside d := by
  intro hin
  have hmain : c.scopes.current ≠ .main := hc hin
  have hne : c.scopes.active ≠ [] := by
    intro hnil
    apply hmain
    rw [ScopeStack.current, hnil]
    rfl
  rw [ScopeStack.current, h hne]
  exact hmain

namespace Comparison

/-- From related states, the steps give one answer and lead to related states, unless the first of
them ends where it is no longer followed. -/
def Follows (k : Comparison) (inside : Bool) (m n : CheckM α) : Prop :=
  ∀ c d, k.Rel c d → Within inside c → k.Lost (after m c).errors ∨
    (answer n d = answer m c ∧ k.Rel (after m c) (after n d) ∧ Balanced c (after m c))

/-- Comparisons whose relation shows the same to both runs, and is kept when both do the same. -/
structure Stepwise (k : Comparison) : Prop where
  /-- What is lost stays lost. -/
  lost : ∀ es es', k.Lost es → es <+: es' → k.Lost es'
  /-- Both runs are in the same declaration. -/
  owner : ∀ c d, k.Rel c d → d.owner = c.owner
  /-- Both runs are inside the same number of function literals. -/
  depth : ∀ c d, k.Rel c d → d.depth = c.depth
  /-- A name that may be referred to has the same type in both runs. -/
  lookup : ∀ c d, k.Rel c d → ∀ x, k.Sees x →
    (d.symbols.lookup x d.scopes.active).map (·.2.type?) =
      (c.symbols.lookup x c.scopes.active).map (·.2.type?)
  /-- A name is bound in the innermost scope of both runs or of none. -/
  contains : ∀ c d, k.Rel c d → ∀ x, (c.scopes.current = .main → k.Sees x) →
    d.symbols.contains (d.slot x) = c.symbols.contains (c.slot x)
  /-- A name has the same tuple fields in the innermost scopes of both runs. -/
  field : ∀ c d, k.Rel c d → ∀ x, k.Sees x → ∀ f,
    d.tuples.field? (d.slot x) f = c.tuples.field? (c.slot x) f
  /-- Both runs may report a fault other than a mismatch of a declaration and its annotation. -/
  report : ∀ c d, k.Rel c d → ∀ span fault, (∀ a b, fault ≠ .declaredType a b) →
    k.Rel (after (report span fault) c) (after (report (k.edit.span span) fault) d)
  /-- Both runs may bind a name that is free in both. -/
  define : ∀ c d, k.Rel c d → ∀ span x symbol, c.symbols.contains (c.slot x) = false →
    d.symbols.contains (d.slot x) = false →
    k.Rel (after (define span x symbol) c) (after (define (k.edit.span span) x symbol) d)
  record : ∀ c d, k.Rel c d → ∀ x fields,
    k.Rel { c with tuples := c.tuples.record (c.slot x) fields }
      { d with tuples := d.tuples.record (d.slot x) fields }
  enterFunction : ∀ c d, k.Rel c d → k.Rel (after enterFunction c) (after enterFunction d)
  enterLoop : ∀ c d, k.Rel c d → k.Rel (after enterLoop c) (after enterLoop d)
  leaveScope : ∀ c d, k.Rel c d → k.Rel (after leaveScope c) (after leaveScope d)
  setOwner : ∀ c d, k.Rel c d → ∀ x, k.Rel (after (setOwner x) c) (after (setOwner x) d)
  setDepth : ∀ c d, k.Rel c d → ∀ n, k.Rel { c with depth := n } { d with depth := n }

/-- Comparisons that keep two runs in step. -/
structure Sound (k : Comparison) : Prop extends k.Stepwise where
  /-- The runs stay in step where the result of a function literal meets its annotation. -/
  result : ∀ inside span params result type, k.Follows inside
    (settle span (Rule.function params (result.map Ty.ofTypeExpr) type))
    (settle (k.edit.span span)
      (Rule.function params ((k.edit.result result).map Ty.ofTypeExpr) type))
  /-- The runs stay in step where the value of a declaration meets its annotation. -/
  declared : ∀ inside span declared type, k.Follows inside
    (compareTypes span .declaredType type (declared.map Ty.ofTypeExpr))
    (compareTypes (k.edit.span span) .declaredType type
      ((k.edit.declared declared).map Ty.ofTypeExpr))

end Comparison

open Comparison

variable {k : Comparison} {inside : Bool}

theorem follows_pure (a : α) : k.Follows inside (pure a) (pure a) :=
  fun c _ h _ => Or.inr ⟨rfl, h, Balanced.refl c⟩

theorem Comparison.Follows.bind (h : k.Sound) {m n : CheckM α} {f g : α → CheckM β}
    [hgrows : ∀ a, Grows (f a)] (hm : k.Follows inside m n)
    (hf : ∀ a, k.Follows inside (f a) (g a)) : k.Follows inside (m >>= f) (n >>= g) := by
  intro c d hcd hin
  simp only [after_bind, answer_bind]
  rcases hm c d hcd hin with hlost | ⟨ha, hrel, hbalanced⟩
  · exact Or.inl (h.lost _ _ hlost ((hgrows _).grows _))
  · rw [ha]
    rcases hf _ _ _ hrel (hbalanced.within hin) with hlost | ⟨hb, hrel', hbalanced'⟩
    · exact Or.inl hlost
    · exact Or.inr ⟨hb, hrel', hbalanced.trans hbalanced'⟩

/-- A step may depend on the state. -/
theorem follows_read {f g : Checker → CheckM β}
    (hf : ∀ c d, k.Rel c d → Within inside c → k.Follows inside (f c) (g d)) :
    k.Follows inside (get >>= f) (get >>= g) :=
  fun c d hcd hin => hf c d hcd hin c d hcd hin

/-! ## The elementary steps -/

/-- Taking note of a rule is reporting its fault. -/
theorem follows_settle {span span' : Span} {v : Verdict}
    (hv : ∀ f, v = .fault f → k.Follows inside (report span f) (report span' f)) :
    k.Follows inside (settle span v) (settle span' v) := by
  cases v with
  | type t => exact follows_pure _
  | silent => exact follows_pure _
  | fault f =>
    intro c d hcd hin
    rcases hv f rfl c d hcd hin with hlost | ⟨-, hrel, hbalanced⟩
    · exact Or.inl hlost
    · exact Or.inr ⟨rfl, hrel, hbalanced⟩

/-- Comparing types is reporting a fault about them. -/
theorem follows_compareTypes {span span' : Span} {fault : Ty → Ty → TypeFault}
    (hf : ∀ a b, k.Follows inside (report span (fault a b)) (report span' (fault a b)))
    (a b : Option Ty) :
    k.Follows inside (compareTypes span fault a b) (compareTypes span' fault a b) := by
  unfold compareTypes
  split
  · split
    · exact follows_pure _
    · exact hf _ _
  · exact follows_pure _

/-- Where the annotations of results say the same in both runs, these stay in step: what is reported
about a result is no mismatch of a declaration. -/
theorem Comparison.Stepwise.follows_result (h : k.Stepwise)
    (hresult : ∀ r, (k.edit.result r).map Ty.ofTypeExpr = r.map Ty.ofTypeExpr) (inside : Bool)
    (span : Span) (params : List Ty) (result : Option TypeExpr) (type : Option Ty) :
    k.Follows inside (settle span (Rule.function params (result.map Ty.ofTypeExpr) type))
      (settle (k.edit.span span)
        (Rule.function params ((k.edit.result result).map Ty.ofTypeExpr) type)) := by
  rw [hresult]
  refine follows_settle fun fault hfault c d hcd _ => Or.inr ⟨rfl, ?_, Balanced.refl c⟩
  refine h.report c d hcd span fault fun a b hab => ?_
  exact Rule.function_ne rfl _ _ _ (hfault.trans (congrArg Verdict.fault hab))

/-- Where all annotations say the same in both runs, and a mismatch may be reported in both, the runs
stay in step. -/
theorem Comparison.Stepwise.sound (h : k.Stepwise)
    (hresult : ∀ r, (k.edit.result r).map Ty.ofTypeExpr = r.map Ty.ofTypeExpr)
    (hdeclared : ∀ t, (k.edit.declared t).map Ty.ofTypeExpr = t.map Ty.ofTypeExpr)
    (hmismatch : ∀ c d, k.Rel c d → ∀ span a b,
      k.Rel (after (Checker.report span (.declaredType a b)) c)
        (after (Checker.report (k.edit.span span) (.declaredType a b)) d)) : k.Sound where
  toStepwise := h
  result := h.follows_result hresult
  declared := by
    intro inside span declared type
    rw [hdeclared]
    refine follows_compareTypes (fun a b c d hcd _ => ?_) _ _
    exact Or.inr ⟨rfl, hmismatch c d hcd span a b, Balanced.refl c⟩

namespace Comparison.Sound

theorem follows_report (h : k.Sound) (span : Span) {fault : TypeFault}
    (hf : ∀ a b, fault ≠ .declaredType a b) :
    k.Follows inside (Checker.report span fault) (Checker.report (k.edit.span span) fault) :=
  fun c d hcd _ => Or.inr ⟨rfl, h.report c d hcd span fault hf, Balanced.refl c⟩

/-- Rules do not compare a value with the annotation of its declaration. -/
theorem follows_rule (h : k.Sound) (span : Span) {v : Verdict}
    (hv : ∀ a b, v ≠ .fault (.declaredType a b)) :
    k.Follows inside (settle span v) (settle (k.edit.span span) v) := by
  refine follows_settle fun f hf => h.follows_report span ?_
  intro a b hab
  exact hv a b (by rw [hf, hab])

theorem follows_define (h : k.Sound) (span : Span) (x : String) (symbol : Symbol)
    (hin : inside = true ∨ k.Sees x) :
    k.Follows inside (Checker.define span x symbol)
      (Checker.define (k.edit.span span) x symbol) := by
  intro c d hcd hc
  have hbalanced := (local_define c span x symbol).toKept.balanced
  refine Or.inr ⟨rfl, ?_, hbalanced⟩
  have hsees : c.scopes.current = .main → k.Sees x := by
    intro hmain
    rcases hin with hin | hin
    · exact absurd hmain (hc hin)
    · exact hin
  have hsame := h.contains c d hcd x hsees
  cases hx : c.symbols.contains (c.slot x) with
  | false => exact h.define c d hcd span x symbol hx (hsame.trans hx)
  | true =>
    rw [after_define_taken c span symbol hx, after_define_taken d _ symbol (hsame.trans hx)]
    exact h.report c d hcd span _ (by simp)

theorem follows_defineParams (h : k.Sound) (hin : inside = true ∨ ∀ x, k.Sees x)
    (params : List Param) :
    k.Follows inside (defineParams params) (defineParams (params.map (Param.edit k.edit))) := by
  induction params with
  | nil => exact follows_pure ()
  | cons p rest ih =>
    have hp : k.Follows inside
        (Checker.define p.span p.name ⟨.parameter, .of (some (paramType p))⟩)
        (Checker.define (k.edit.span p.span) p.name
          ⟨.parameter, .of (some (paramType (p.edit k.edit)))⟩) := by
      rw [paramType_edit]
      exact h.follows_define p.span p.name _ (hin.imp_right fun hall => hall p.name)
    exact hp.bind h fun _ => ih

theorem follows_inferVar (h : k.Sound) (span : Span) {x : String} (hx : k.Sees x) :
    k.Follows inside (inferVar span x) (inferVar (k.edit.span span) x) := by
  unfold inferVar
  refine follows_read fun c d hcd _ => ?_
  have hsame := h.lookup c d hcd x hx
  -- both runs find the name or neither does
  cases hc : c.symbols.lookup x c.scopes.active with
  | none =>
    rw [hc, Option.map_none, Option.map_eq_none_iff] at hsame
    rw [hsame]
    exact (h.follows_report span (by simp)).bind h fun _ => follows_pure _
  | some found =>
    rw [hc, Option.map_some, Option.map_eq_some_iff] at hsame
    obtain ⟨other, hd, htype⟩ := hsame
    rw [hd]
    simp only [htype]
    exact follows_pure _

theorem follows_recordTuple (h : k.Sound) (fields : List (String × Option Ty)) :
    k.Follows inside (recordTuple fields) (recordTuple fields) := by
  unfold recordTuple
  split
  · exact follows_pure _
  · intro c d hcd _
    have howner := h.owner c d hcd
    simp only [answer_get, after_get]
    cases ho : c.owner with
    | none =>
      rw [ho] at howner
      simp only [howner]
      exact Or.inr ⟨rfl, hcd, Balanced.refl c⟩
    | some x =>
      rw [ho] at howner
      simp only [howner]
      have hrecord := h.record c d hcd x
      rw [ho, howner] at hrecord
      exact Or.inr ⟨rfl, hrecord _, Balanced.refl c⟩

theorem follows_settleField (h : k.Sound) (span : Span) {target : Expr} (type : Option Ty)
    (field : String) (hsees : ∀ x ∈ target.variables, k.Sees x) :
    k.Follows inside (settleField span target type field)
      (settleField (k.edit.span span) (target.edit k.edit) type field) := by
  refine follows_read fun c d hcd _ => ?_
  have hknown : d.knownField (target.edit k.edit) field = c.knownField target field := by
    cases target
    case var s x =>
      simp only [Expr.edit, knownField]
      exact h.field c d hcd x (hsees x (by simp)) field
    all_goals simp only [Expr.edit, knownField]
  rw [hknown]
  exact h.follows_rule span fun a b => Rule.field_ne rfl _ _

theorem follows_defineLoopVariable (h : k.Sound) (hin : inside = true ∨ ∀ x, k.Sees x)
    (span : Span) (name : Option String) (type : Option Ty) :
    k.Follows inside (defineLoopVariable span name type)
      (defineLoopVariable (k.edit.span span) name type) := by
  cases name with
  | none => exact follows_pure ()
  | some x => exact h.follows_define span x _ (hin.imp_right fun hall => hall x)

theorem follows_strayReturn (h : k.Sound) (span : Span) :
    k.Follows inside
      (do if (← get).depth = 0 then Checker.report span .strayReturn : CheckM Unit)
      (do if (← get).depth = 0 then Checker.report (k.edit.span span) .strayReturn) := by
  refine follows_read fun c d hcd _ => ?_
  rw [h.depth c d hcd]
  split
  · exact h.follows_report span (by simp)
  · exact follows_pure _

/-- What is done in a scope that is entered first and left afterwards. The scope is not the main
one, whatever is open around it. -/
theorem follows_inScope (h : k.Sound) {enter : CheckM Unit}
    (henter : ∀ c d, k.Rel c d → k.Rel (after enter c) (after enter d))
    (hscope : ∀ c, ∃ scope t, scope ≠ Scope.main ∧ ScopeStack.Enters scope c.scopes t ∧
      after enter c = { c with scopes := t })
    {m n : CheckM α} (hm : k.Follows true m n) :
    k.Follows inside (do enter; let a ← m; Checker.leaveScope; return a)
      (do enter; let a ← n; Checker.leaveScope; return a) := by
  intro c d hcd _
  simp only [after_bind, answer_bind, after_pure, answer_pure]
  obtain ⟨scope, t, hmain, ht, hafter⟩ := hscope c
  have hinner : Within true (after enter c) := by
    intro _
    rw [hafter, ScopeStack.current, ht.active]
    exact hmain
  rcases hm _ _ (henter c d hcd) hinner with hlost | ⟨ha, hrel, hbalanced⟩
  · exact Or.inl hlost
  · refine Or.inr ⟨ha, h.leaveScope _ _ hrel, fun hc => ?_⟩
    rw [hafter] at hbalanced
    have hactive : (after m (after enter c)).scopes.active = scope :: c.scopes.active := by
      rw [hafter, ← ht.active]
      exact hbalanced (by simp [ht.active])
    exact ScopeStack.pop_active hactive hc

theorem follows_inLoop (h : k.Sound) {m n : CheckM α} (hm : k.Follows true m n) :
    k.Follows inside (do Checker.enterLoop; let a ← m; Checker.leaveScope; return a)
      (do Checker.enterLoop; let a ← n; Checker.leaveScope; return a) :=
  h.follows_inScope h.enterLoop
    (fun c => ⟨_, _, by simp, ScopeStack.enters_pushLoop c.scopes, rfl⟩) hm

/-- A step taken one level deeper. -/
theorem follows_deeper (h : k.Sound) {m n : CheckM α} [Grows m] (hm : k.Follows inside m n) :
    k.Follows inside
      (do
        modify fun c => { c with depth := c.depth + 1 }
        let a ← m
        modify fun c => { c with depth := c.depth - 1 }
        return a)
      (do
        modify fun c => { c with depth := c.depth + 1 }
        let a ← n
        modify fun c => { c with depth := c.depth - 1 }
        return a) := by
  have hdepth : ∀ φ : Nat → Nat, k.Follows inside
      (modify fun c => { c with depth := φ c.depth } : CheckM Unit)
      (modify fun c => { c with depth := φ c.depth }) := by
    intro φ c d hcd _
    refine Or.inr ⟨rfl, ?_, fun _ => rfl⟩
    simp only [after_modify, h.depth c d hcd]
    exact h.setDepth c d hcd _
  refine (hdepth (· + 1)).bind h fun _ => hm.bind h fun a => ?_
  exact (hdepth (· - 1)).bind h fun _ => follows_pure a

/-- A function literal: its parameters and its body are in its scope, the body one level deeper. -/
theorem follows_function (h : k.Sound) (params : List Param) (result : Option TypeExpr) {b : Body}
    (hb : k.Follows true (inferBody b) (inferBody (b.edit k.edit))) (s : Span) :
    k.Follows inside (infer (.function s params result b))
      (infer ((Expr.function s params result b).edit k.edit)) := by
  have hinner := (h.follows_defineParams (Or.inl rfl) params).bind h fun _ => h.follows_deeper hb
  have hscope : k.Follows inside _ _ := h.follows_inScope h.enterFunction
    (fun c => ⟨_, _, by simp, ScopeStack.enters_pushFunction c.scopes, rfl⟩) hinner
  have hall := hscope.bind h fun type => h.result inside b.span (params.map paramType) result type
  simp only [bind_assoc, pure_bind] at hall
  simp only [infer, Expr.edit, Body.span_edit, List.map_map, paramType_edit, Function.comp_def]
  exact hall

/-- Declarations stay in step if their values do. -/
theorem follows_declaration (h : k.Sound) {d : Declaration} (hx : inside = true ∨ k.Sees d.name)
    (hv : k.Follows inside (infer d.value) (infer (d.value.edit k.edit))) :
    k.Follows inside (checkDeclaration d) (checkDeclaration (d.edit k.edit)) := by
  obtain ⟨s, x, typeExpr, v⟩ := d
  have howner : ∀ o, k.Follows inside (Checker.setOwner o) (Checker.setOwner o) :=
    fun o c d hcd _ => Or.inr ⟨rfl, h.setOwner c d hcd o, Balanced.refl c⟩
  simp only [Declaration.edit, checkDeclaration]
  refine follows_read fun c d hcd hc => ?_
  have hsees : c.scopes.current = .main → k.Sees x := by
    intro hmain
    rcases hx with hin | hx
    · exact absurd hmain (hc hin)
    · exact hx
  rw [h.contains c d hcd x hsees, h.owner c d hcd]
  split
  · exact h.follows_report s (by simp)
  · refine (howner _).bind h fun _ => hv.bind h fun type => (howner _).bind h fun _ => ?_
    exact (h.declared inside s typeExpr type).bind h fun _ => h.follows_define s x _ hx

end Comparison.Sound

/-! ## The walk stays in step

Statements bind names where they stand, so they stand inside some scope or all names are seen. -/

mutual

theorem infer_follows (h : k.Sound) (inside : Bool) : (e : Expr) → (∀ x ∈ e.variables, k.Sees x) →
    k.Follows inside (infer e) (infer (e.edit k.edit))
  | .literal _ v, _ => by
    simp only [infer, Expr.edit]
    exact follows_pure _
  | .var s x, hv => by
    simp only [infer, Expr.edit]
    exact h.follows_inferVar s (hv x (by simp))
  | .binary _ op l r, hv => by
    obtain ⟨hl, hr⟩ := List.forall_mem_append.mp hv
    simp only [infer, Expr.edit, Expr.span_edit]
    refine (infer_follows h inside l hl).bind h fun left => ?_
    refine (infer_follows h inside r hr).bind h fun right => ?_
    exact h.follows_rule _ fun _ _ => Rule.binary_ne rfl _ _ _
  | .conditional _ p t e, hv => by
    obtain ⟨hp, hte⟩ := List.forall_mem_append.mp hv
    obtain ⟨ht, he⟩ := List.forall_mem_append.mp hte
    simp only [infer, Expr.edit, Expr.span_edit]
    refine (infer_follows h inside p hp).bind h fun predicate => ?_
    refine (infer_follows h inside t ht).bind h fun thenType => ?_
    refine (infer_follows h inside e he).bind h fun elseType => ?_
    exact h.follows_rule _ fun _ _ => Rule.conditional_ne rfl _ _ _
  | .function s params result body, hv =>
    h.follows_function params result (inferBody_follows h body hv) s
  | .array s es, hv => by
    simp only [infer, Expr.edit]
    refine (inferAll_follows h inside es hv).bind h fun types => ?_
    exact h.follows_rule s fun _ _ => Rule.array_ne rfl _
  | .map s es, hv => by
    simp only [infer, Expr.edit]
    refine (inferEntries_follows h inside es hv).bind h fun types => ?_
    exact h.follows_rule s fun _ _ => Rule.map_ne rfl _
  | .tuple _ es, hv => by
    simp only [infer, Expr.edit]
    exact (inferElements_follows h inside 0 es hv).bind h fun fields => h.follows_recordTuple fields
  | .call s f es, hv => by
    obtain ⟨hf, hes⟩ := List.forall_mem_append.mp hv
    simp only [infer, Expr.edit]
    refine (infer_follows h inside f hf).bind h fun callee => ?_
    refine (inferAll_follows h inside es hes).bind h fun types => ?_
    exact h.follows_rule s fun _ _ => Rule.call_ne rfl _ _
  | .index s t i, hv => by
    obtain ⟨ht, hi⟩ := List.forall_mem_append.mp hv
    simp only [infer, Expr.edit]
    refine (infer_follows h inside t ht).bind h fun target => ?_
    refine (infer_follows h inside i hi).bind h fun type => ?_
    exact h.follows_rule s fun _ _ => Rule.index_ne rfl _ _
  | .field s t x, hv => by
    simp only [infer, Expr.edit]
    exact (infer_follows h inside t hv).bind h fun target => h.follows_settleField s target x hv
  | .ordinal s t n, hv => by
    simp only [infer, Expr.edit]
    exact (infer_follows h inside t hv).bind h fun target => h.follows_settleField s target _ hv

theorem inferAll_follows (h : k.Sound) (inside : Bool) : (es : List Expr) →
    (∀ x ∈ exprsVariables es, k.Sees x) →
    k.Follows inside (inferAll es) (inferAll (editExprs k.edit es))
  | [], _ => by
    simp only [inferAll, editExprs]
    exact follows_pure _
  | e :: rest, hv => by
    obtain ⟨he, hrest⟩ := List.forall_mem_append.mp hv
    simp only [inferAll, editExprs]
    refine (infer_follows h inside e he).bind h fun type => ?_
    exact (inferAll_follows h inside rest hrest).bind h fun types => follows_pure _

theorem inferEntries_follows (h : k.Sound) (inside : Bool) : (es : List Entry) →
    (∀ x ∈ entriesVariables es, k.Sees x) →
    k.Follows inside (inferEntries es) (inferEntries (editEntries k.edit es))
  | [], _ => by
    simp only [inferEntries, editEntries]
    exact follows_pure _
  | ⟨_, key, v⟩ :: rest, hv => by
    obtain ⟨hkey, hvrest⟩ := List.forall_mem_append.mp hv
    obtain ⟨hvalue, hrest⟩ := List.forall_mem_append.mp hvrest
    simp only [inferEntries, editEntries, Entry.edit]
    refine (infer_follows h inside key hkey).bind h fun keyType => ?_
    refine (infer_follows h inside v hvalue).bind h fun valueType => ?_
    exact (inferEntries_follows h inside rest hrest).bind h fun types => follows_pure _

theorem inferElements_follows (h : k.Sound) (inside : Bool) (place : Nat) :
    (es : List Element) → (∀ x ∈ elementsVariables es, k.Sees x) →
    k.Follows inside (inferElements place es) (inferElements place (editElements k.edit es))
  | [], _ => by
    simp only [inferElements, editElements]
    exact follows_pure _
  | ⟨_, _, v⟩ :: rest, hv => by
    obtain ⟨hvalue, hrest⟩ := List.forall_mem_append.mp hv
    simp only [inferElements, editElements, Element.edit]
    refine (infer_follows h inside v hvalue).bind h fun type => ?_
    exact (inferElements_follows h inside (place + 1) rest hrest).bind h fun fields =>
      follows_pure _

theorem inferBody_follows (h : k.Sound) : (b : Body) → (∀ x ∈ b.variables, k.Sees x) →
    k.Follows true (inferBody b) (inferBody (b.edit k.edit))
  | .expr _ e, hv => by
    simp only [inferBody, Body.edit]
    exact infer_follows h true e hv
  | .block _ stmts, hv => by
    simp only [inferBody, Body.edit]
    exact inferBlock_follows h _ stmts hv

theorem inferBlock_follows (h : k.Sound) (type : Option Ty) : (stmts : List Stmt) →
    (∀ x ∈ stmtsVariables stmts, k.Sees x) →
    k.Follows true (inferBlock type stmts) (inferBlock type (editStmts k.edit stmts))
  | [], _ => by
    simp only [inferBlock, editStmts]
    exact follows_pure _
  | .returnNothing _ :: rest, hv => by
    simp only [inferBlock, editStmts, Stmt.edit]
    exact inferBlock_follows h _ rest hv
  | .returnValue _ e :: rest, hv => by
    obtain ⟨he, hrest⟩ := List.forall_mem_append.mp hv
    simp only [inferBlock, editStmts, Stmt.edit]
    refine (infer_follows h true e he).bind h fun type => ?_
    exact inferBlock_follows h type rest hrest
  | .declaration _ _ :: rest, hv | .assign _ _ _ :: rest, hv | .call _ _ _ :: rest, hv
  | .ifThen _ _ _ :: rest, hv | .ifElse _ _ _ _ :: rest, hv | .loop _ _ _ :: rest, hv
  | .breakLoop _ :: rest, hv | .print _ _ :: rest, hv => by
    obtain ⟨hs, hrest⟩ := List.forall_mem_append.mp hv
    have hstmt := checkStmt_follows h true (Or.inl rfl) _ hs
    simp only [Stmt.edit] at hstmt
    simp only [inferBlock, editStmts, Stmt.edit]
    exact hstmt.bind h fun _ => inferBlock_follows h type rest hrest

theorem checkStmt_follows (h : k.Sound) (inside : Bool) (hin : inside = true ∨ ∀ x, k.Sees x) :
    (s : Stmt) → (∀ x ∈ s.variables, k.Sees x) →
    k.Follows inside (checkStmt s) (checkStmt (s.edit k.edit))
  | .declaration _ d, hv => by
    simp only [checkStmt, Stmt.edit]
    exact checkDeclaration_follows h inside d (hin.imp_right fun hall => hall d.name) hv
  | .assign s t v, hv => by
    obtain ⟨ht, hvalue⟩ := List.forall_mem_append.mp hv
    simp only [checkStmt, Stmt.edit]
    refine (infer_follows h inside t ht).bind h fun target => ?_
    refine (infer_follows h inside v hvalue).bind h fun value => ?_
    exact follows_compareTypes (fun _ _ => h.follows_report s (by simp)) _ _
  | .call s f es, hv => by
    obtain ⟨hf, hes⟩ := List.forall_mem_append.mp hv
    simp only [checkStmt, Stmt.edit]
    refine (infer_follows h inside f hf).bind h fun callee => ?_
    refine (inferAll_follows h inside es hes).bind h fun types => ?_
    have hsettle : k.Follows inside _ _ := h.follows_rule s fun _ _ =>
      Rule.call_ne (f := .declaredType _ _) rfl callee types
    exact hsettle.bind h fun _ => follows_pure _
  | .ifThen _ c t, hv => by
    obtain ⟨hc, ht⟩ := List.forall_mem_append.mp hv
    simp only [checkStmt, Stmt.edit]
    exact (infer_follows h inside c hc).bind h fun _ => checkStmts_follows h inside hin t ht
  | .ifElse _ c t e, hv => by
    obtain ⟨hc, hte⟩ := List.forall_mem_append.mp hv
    obtain ⟨ht, he⟩ := List.forall_mem_append.mp hte
    simp only [checkStmt, Stmt.edit]
    refine (infer_follows h inside c hc).bind h fun _ => ?_
    refine (checkStmts_follows h inside hin t ht).bind h fun _ => ?_
    exact checkStmts_follows h inside hin e he
  | .loop _ hd b, hv => by
    obtain ⟨hhd, hb⟩ := List.forall_mem_append.mp hv
    simp only [checkStmt, Stmt.edit]
    have hinner := (checkHeader_follows h true (Or.inl rfl) hd hhd).bind h fun _ =>
      checkStmts_follows h true (Or.inl rfl) b hb
    exact h.follows_inLoop hinner
  | .returnNothing s, _ => by
    simp only [checkStmt, Stmt.edit]
    exact h.follows_strayReturn s
  | .returnValue s e, hv => by
    simp only [checkStmt, Stmt.edit]
    exact (infer_follows h inside e hv).bind h fun _ => h.follows_strayReturn s
  | .breakLoop _, _ => by
    simp only [checkStmt, Stmt.edit]
    exact follows_pure _
  | .print _ es, hv => by
    simp only [checkStmt, Stmt.edit]
    exact (inferAll_follows h inside es hv).bind h fun _ => follows_pure _

theorem checkStmts_follows (h : k.Sound) (inside : Bool) (hin : inside = true ∨ ∀ x, k.Sees x) :
    (stmts : List Stmt) → (∀ x ∈ stmtsVariables stmts, k.Sees x) →
    k.Follows inside (checkStmts stmts) (checkStmts (editStmts k.edit stmts))
  | [], _ => by
    simp only [checkStmts, editStmts]
    exact follows_pure _
  | s :: rest, hv => by
    obtain ⟨hs, hrest⟩ := List.forall_mem_append.mp hv
    simp only [checkStmts, editStmts]
    refine (checkStmt_follows h inside hin s hs).bind h fun _ => ?_
    exact checkStmts_follows h inside hin rest hrest

theorem checkHeader_follows (h : k.Sound) (inside : Bool) (hin : inside = true ∨ ∀ x, k.Sees x) :
    (hd : Header) → (∀ x ∈ hd.variables, k.Sees x) →
    k.Follows inside (checkHeader hd) (checkHeader (hd.edit k.edit))
  | .items s x e, hv => by
    simp only [checkHeader, Header.edit]
    refine (infer_follows h inside e hv).bind h fun type => ?_
    exact h.follows_defineLoopVariable hin s x type
  | .range s x a b, hv => by
    obtain ⟨ha, hb⟩ := List.forall_mem_append.mp hv
    simp only [checkHeader, Header.edit]
    refine (infer_follows h inside a ha).bind h fun first => ?_
    refine (h.follows_defineLoopVariable hin s x first).bind h fun _ => ?_
    refine (infer_follows h inside b hb).bind h fun last => ?_
    exact follows_compareTypes (fun _ _ => h.follows_report s (by simp)) _ _
  | .condition _ e, hv => by
    simp only [checkHeader, Header.edit]
    exact (infer_follows h inside e hv).bind h fun _ => follows_pure _

theorem checkDeclaration_follows (h : k.Sound) (inside : Bool) : (d : Declaration) →
    (inside = true ∨ k.Sees d.name) → (∀ x ∈ d.variables, k.Sees x) →
    k.Follows inside (checkDeclaration d) (checkDeclaration (d.edit k.edit))
  | ⟨_, _, _, v⟩, hx, hv => h.follows_declaration hx (infer_follows h inside v hv)

end

theorem checkDeclarations_follows (h : k.Sound) (hall : ∀ x, k.Sees x) (ds : List Declaration) :
    k.Follows false (checkDeclarations ds)
      (checkDeclarations (ds.map (Declaration.edit k.edit))) := by
  induction ds with
  | nil => exact follows_pure ()
  | cons d rest ih =>
    refine (checkDeclaration_follows h false d (Or.inr (hall d.name)) fun x _ => hall x).bind h ?_
    exact fun _ => ih

/-- Two runs over whole programs, the second of which is edited. -/
theorem check_follows (h : k.Sound) (hall : ∀ x, k.Sees x) {c d : Checker} (hcd : k.Rel c d)
    (p : Program) : k.Lost (c.check p).errors ∨ k.Rel (c.check p) (d.check (p.edit k.edit)) := by
  have hin : Within false c := by simp [Within]
  rcases checkDeclarations_follows h hall p.declarations c d hcd hin with hlost | ⟨-, hrel, -⟩
  · exact Or.inl hlost
  · exact Or.inr hrel

/-! ## Runs that differ in their errors only -/

/-- The states differ at most in their errors, which are related. -/
structure SameButErrors (E : List TypeError → List TypeError → Prop) (c d : Checker) : Prop where
  same : d = { c with errors := d.errors }
  errors : E c.errors d.errors

namespace SameButErrors

variable {E : List TypeError → List TypeError → Prop} {c d : Checker}

theorem symbols (h : SameButErrors E c d) : d.symbols = c.symbols := by
  rw [h.same]

theorem tuples (h : SameButErrors E c d) : d.tuples = c.tuples := by
  rw [h.same]

end SameButErrors

theorem after_define_of_free {c : Checker} {x : String} (h : c.symbols.contains (c.slot x) = false)
    (span : Span) (symbol : Symbol) : after (define span x symbol) c =
      { c with symbols := ⟨(c.slot x, symbol) :: c.symbols.bindings⟩ } := by
  have hfree : c.symbols.define? (c.slot x) symbol =
      some ⟨(c.slot x, symbol) :: c.symbols.bindings⟩ := by
    rw [SymbolTable.define?, h]
    rfl
  rw [define, after_get, hfree]
  rfl

/-- The comparison of two runs that differ in their errors only. -/
def Comparison.ofErrors (edit : Edit) (Lost : List TypeError → Prop)
    (E : List TypeError → List TypeError → Prop) : Comparison :=
  ⟨edit, fun _ => True, Lost, SameButErrors E⟩

/-- Runs that differ in their errors only stay in step as long as the errors stay related, whatever
both runs report. -/
theorem Comparison.stepwise_ofErrors {edit : Edit} {Lost : List TypeError → Prop}
    {E : List TypeError → List TypeError → Prop}
    (lost : ∀ es es', Lost es → es <+: es' → Lost es')
    (hreport : ∀ es es', E es es' → ∀ span fault, (∀ a b, fault ≠ .declaredType a b) →
      E (es ++ [⟨fault, span⟩]) (es' ++ [⟨fault, edit.span span⟩])) :
    (Comparison.ofErrors edit Lost E).Stepwise where
  lost := lost
  owner := fun c d h => by rw [h.same]
  depth := fun c d h => by rw [h.same]
  lookup := fun c d h x _ => by rw [h.same]
  contains := fun c d h x _ => by rw [h.same]; rfl
  field := fun c d h x _ f => by rw [h.same]; rfl
  report := fun c d h span fault hf => ⟨by rw [h.same]; rfl, hreport _ _ h.errors span fault hf⟩
  define := by
    intro c d h span x symbol hc hd
    show SameButErrors E _ (after (define (edit.span span) x symbol) d)
    rw [after_define_of_free hc, after_define_of_free hd]
    exact ⟨by rw [h.same]; rfl, h.errors⟩
  record := fun c d h x fields => ⟨by rw [h.same]; rfl, h.errors⟩
  enterFunction := fun c d h => ⟨by rw [h.same]; rfl, h.errors⟩
  enterLoop := fun c d h => ⟨by rw [h.same]; rfl, h.errors⟩
  leaveScope := fun c d h => ⟨by rw [h.same]; rfl, h.errors⟩
  setOwner := fun c d h x => ⟨by rw [h.same]; rfl, h.errors⟩
  setDepth := fun c d h n => ⟨by rw [h.same], h.errors⟩

end Checker

end ExprCheck
