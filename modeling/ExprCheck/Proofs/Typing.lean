import Mathlib
import ExprCheck.Checker

/-!
# The type system

The typing rules of the language, as judgments. They do not mention scope numbers, tables or faults:
an environment is a stack of frames, one for each open scope, and a judgment either can be derived
or not.

Statements take one environment to another, since a declaration binds its name for the statements
after it. A function literal and a loop put a frame of their own on the stack, and what is bound in
it is gone behind them.

There are no rules for access to the fields of a tuple: the type of a field depends on how the tuple
was written, and not on its type. Programs without such accesses are `FieldFree`.
-/

namespace ExprCheck

/-! ## Environments -/

/-- The names bound in one scope, the latest first. -/
abbrev Frame := List (String × Ty)

/-- The frames of the open scopes, the innermost first. -/
abbrev Env := List Frame

namespace Env

/-- The type of the innermost binding of a name. -/
def typeOf : Env → String → Option Ty
  | [], _ => none
  | frame :: rest, x => (frame.lookup x).or (typeOf rest x)

/-- The innermost scope does not bind the name. -/
def Free : Env → String → Prop
  | [], _ => True
  | frame :: _, x => frame.lookup x = none

/-- Bind a name in the innermost scope. -/
def bind : Env → String → Ty → Env
  | [], x, t => [[(x, t)]]
  | frame :: rest, x, t => ((x, t) :: frame) :: rest

/-- Bind a name in the innermost scope, if there is one. -/
def bind? (Γ : Env) : Option String → Ty → Env
  | none, _ => Γ
  | some x, t => Γ.bind x t

end Env

/-- The frame of the parameters of a function literal. A parameter without an annotation has no
defined type. -/
def paramFrame (params : List Param) : Frame :=
  (params.map fun p => (p.name, Checker.paramType p)).reverse

/-- The annotation, if there is one, writes the type. -/
def Writes (typeExpr : Option TypeExpr) (t : Ty) : Prop :=
  ∀ a, typeExpr = some a → Ty.ofTypeExpr a = t

/-! ## Operators -/

/-- The operand types that a family of operators accepts, and the type of the result. -/
inductive Combines : Family → Primitive → Primitive → Primitive → Prop where
  | sum_integer : Combines .additive .integer .integer .integer
  | sum_real {l r : Primitive}
    (h : (l, r) ∈ [(.integer, .real), (.real, .integer), (.real, .real)]) :
    Combines .additive l r .real
  | sum_rational {l r : Primitive}
    (h : (l, r) ∈ [(.integer, .rational), (.rational, .integer), (.rational, .rational)]) :
    Combines .additive l r .rational
  | sum_complex {l r : Primitive}
    (h : (l, r) ∈ [(.integer, .complex), (.real, .complex), (.complex, .integer),
      (.complex, .real), (.complex, .complex)]) :
    Combines .additive l r .complex
  | quotient_real {l r : Primitive}
    (h : (l, r) ∈ [(.integer, .integer), (.integer, .real), (.real, .integer), (.real, .real)]) :
    Combines .division l r .real
  | quotient_rational {l r : Primitive}
    (h : (l, r) ∈ [(.integer, .rational), (.rational, .integer), (.rational, .rational)]) :
    Combines .division l r .rational
  | quotient_complex {l r : Primitive}
    (h : (l, r) ∈ [(.complex, .integer), (.complex, .real), (.complex, .complex)]) :
    Combines .division l r .complex
  | comparison {l r : Primitive}
    (h : (l, r) ∈ [(.integer, .integer), (.integer, .real), (.real, .integer), (.real, .real),
      (.integer, .rational), (.rational, .integer), (.rational, .rational),
      (.complex, .complex)]) :
    Combines .relational l r .boolean
  | connective : Combines .logical .boolean .boolean .boolean

/-! ## Judgments -/

/-- A statement that returns from the function literal around it. -/
def Stmt.IsReturn : Stmt → Prop
  | .returnNothing _ | .returnValue _ _ => True
  | _ => False

mutual

/-- An expression has a type. -/
inductive HasType : Env → Expr → Ty → Prop where
  | literal {Γ s v} : HasType Γ (.literal s v) (.primitive v.primitive)
  | var {Γ s x t} : Γ.typeOf x = some t → HasType Γ (.var s x) t
  | binary {Γ s op l r a b t} : HasType Γ l (.primitive a) → HasType Γ r (.primitive b) →
    Combines op.family a b t → HasType Γ (.binary s op l r) (.primitive t)
  /-- The predicate may have any type. -/
  | conditional {Γ s p t e a b} : HasType Γ p b → HasType Γ t a → HasType Γ e a →
    HasType Γ (.conditional s p t e) a
  | function {Γ s params result body t} : (params.map Param.name).Nodup →
    BodyHasType (paramFrame params :: Γ) body t → Writes result t →
    HasType Γ (.function s params result body) (.arrow (params.map Checker.paramType) t)
  | array {Γ s es t} : es ≠ [] → (∀ e ∈ es, HasType Γ e t) → HasType Γ (.array s es) (.array t)
  | map {Γ s es k v} : es ≠ [] → (∀ e ∈ es, HasType Γ e.key k) →
    (∀ e ∈ es, HasType Γ e.value v) → HasType Γ (.map s es) (.map k v)
  | tuple {Γ s es ts} : HaveTypes Γ (es.map Element.value) ts → HasType Γ (.tuple s es) (.tuple ts)
  | call {Γ s f es ts t} : HasType Γ f (.arrow ts t) → HaveTypes Γ es ts →
    HasType Γ (.call s f es) t
  /-- An array is indexed by a value of the type of its elements. -/
  | arrayIndex {Γ s a i t} : HasType Γ a (.array t) → HasType Γ i t → HasType Γ (.index s a i) t
  /-- A map is indexed by a key, and the access has the type of the key. -/
  | mapIndex {Γ s m i k v} : HasType Γ m (.map k v) → HasType Γ i k → HasType Γ (.index s m i) k

/-- Expressions have types, one by one. -/
inductive HaveTypes : Env → List Expr → List Ty → Prop where
  | nil {Γ} : HaveTypes Γ [] []
  | cons {Γ e es t ts} : HasType Γ e t → HaveTypes Γ es ts → HaveTypes Γ (e :: es) (t :: ts)

/-- The body of a function literal returns a type: the last return that stands directly in a block
decides. -/
inductive BodyHasType : Env → Body → Ty → Prop where
  | expr {Γ s e t} : HasType Γ e t → BodyHasType Γ (.expr s e) t
  | noReturn {Γ Γ' s stmts} : StmtsOk Γ stmts Γ' → (∀ x ∈ stmts, ¬ x.IsReturn) →
    BodyHasType Γ (.block s stmts) .undefined
  | lastReturn {Γ Γ₁ Γ₂ s earlier last later t} : StmtsOk Γ earlier Γ₁ →
    ReturnHasType Γ₁ last t → StmtsOk Γ₁ later Γ₂ → (∀ x ∈ later, ¬ x.IsReturn) →
    BodyHasType Γ (.block s (earlier ++ last :: later)) t

/-- A return gives back a type. -/
inductive ReturnHasType : Env → Stmt → Ty → Prop where
  | nothing {Γ s} : ReturnHasType Γ (.returnNothing s) .undefined
  | value {Γ s e t} : HasType Γ e t → ReturnHasType Γ (.returnValue s e) t

/-- A statement is well typed, and leaves the second environment behind. -/
inductive StmtOk : Env → Stmt → Env → Prop where
  | declaration {Γ Γ' s d} : DeclarationOk Γ d Γ' → StmtOk Γ (.declaration s d) Γ'
  | assign {Γ s t v a} : HasType Γ t a → HasType Γ v a → StmtOk Γ (.assign s t v) Γ
  | call {Γ s f es ts t} : HasType Γ f (.arrow ts t) → HaveTypes Γ es ts →
    StmtOk Γ (.call s f es) Γ
  | ifThen {Γ Γ' s c t a} : HasType Γ c a → StmtsOk Γ t Γ' → StmtOk Γ (.ifThen s c t) Γ'
  /-- The alternative stands behind the first branch, in the same scope. -/
  | ifElse {Γ Γ₁ Γ₂ s c t e a} : HasType Γ c a → StmtsOk Γ t Γ₁ → StmtsOk Γ₁ e Γ₂ →
    StmtOk Γ (.ifElse s c t e) Γ₂
  | loop {Γ Γ₁ Γ₂ s h b} : HeaderOk ([] :: Γ) h Γ₁ → StmtsOk Γ₁ b Γ₂ → StmtOk Γ (.loop s h b) Γ
  | ret {Γ r t} : ReturnHasType Γ r t → StmtOk Γ r Γ
  | breakLoop {Γ s} : StmtOk Γ (.breakLoop s) Γ
  | print {Γ s es ts} : HaveTypes Γ es ts → StmtOk Γ (.print s es) Γ

/-- Statements are well typed, one after the other. -/
inductive StmtsOk : Env → List Stmt → Env → Prop where
  | nil {Γ} : StmtsOk Γ [] Γ
  | cons {Γ Γ₁ Γ₂ s rest} : StmtOk Γ s Γ₁ → StmtsOk Γ₁ rest Γ₂ → StmtsOk Γ (s :: rest) Γ₂

/-- The header of a loop is well typed in the scope of the loop, and binds its variable. -/
inductive HeaderOk : Env → Header → Env → Prop where
  | items {Γ s x e t} : HasType Γ e t → HeaderOk Γ (.items s x e) (Γ.bind? x t)
  /-- The variable is bound before the second bound is looked at. -/
  | range {Γ s x a b t} : HasType Γ a t → HasType (Γ.bind? x t) b t →
    HeaderOk Γ (.range s x a b) (Γ.bind? x t)
  | condition {Γ s e t} : HasType Γ e t → HeaderOk Γ (.condition s e) Γ

/-- A declaration is well typed, and binds its name for what follows. -/
inductive DeclarationOk : Env → Declaration → Env → Prop where
  | intro {Γ d t} : Γ.Free d.name → HasType Γ d.value t → Writes d.typeExpr t →
    DeclarationOk Γ d (Γ.bind d.name t)

end

/-- Declarations are well typed, one after the other. -/
inductive DeclarationsOk : Env → List Declaration → Env → Prop where
  | nil {Γ} : DeclarationsOk Γ [] Γ
  | cons {Γ Γ₁ Γ₂ d rest} : DeclarationOk Γ d Γ₁ → DeclarationsOk Γ₁ rest Γ₂ →
    DeclarationsOk Γ (d :: rest) Γ₂

/-- A program is well typed if its declarations are, in a main scope that binds nothing at first. -/
def Program.WellTyped (p : Program) : Prop := ∃ Γ, DeclarationsOk [[]] p.declarations Γ

/-! ## Programs without access to tuple fields -/

mutual

/-- No field of a tuple is accessed in an expression. -/
def Expr.FieldFree : Expr → Prop
  | .literal _ _ => True
  | .var _ _ => True
  | .binary _ _ l r => l.FieldFree ∧ r.FieldFree
  | .conditional _ p t e => p.FieldFree ∧ t.FieldFree ∧ e.FieldFree
  | .function _ _ _ body => body.FieldFree
  | .array _ es => exprsFieldFree es
  | .map _ es => entriesFieldFree es
  | .tuple _ es => elementsFieldFree es
  | .call _ f es => f.FieldFree ∧ exprsFieldFree es
  | .index _ t i => t.FieldFree ∧ i.FieldFree
  | .field _ _ _ => False
  | .ordinal _ _ _ => False

/-- No field of a tuple is accessed in some expressions. -/
def exprsFieldFree : List Expr → Prop
  | [] => True
  | e :: rest => e.FieldFree ∧ exprsFieldFree rest

/-- No field of a tuple is accessed in some map entries. -/
def entriesFieldFree : List Entry → Prop
  | [] => True
  | ⟨_, k, v⟩ :: rest => k.FieldFree ∧ v.FieldFree ∧ entriesFieldFree rest

/-- No field of a tuple is accessed in some tuple elements. -/
def elementsFieldFree : List Element → Prop
  | [] => True
  | ⟨_, _, v⟩ :: rest => v.FieldFree ∧ elementsFieldFree rest

/-- No field of a tuple is accessed in a function body. -/
def Body.FieldFree : Body → Prop
  | .expr _ e => e.FieldFree
  | .block _ stmts => stmtsFieldFree stmts

/-- No field of a tuple is accessed in a statement. -/
def Stmt.FieldFree : Stmt → Prop
  | .declaration _ d => d.FieldFree
  | .assign _ t v => t.FieldFree ∧ v.FieldFree
  | .call _ f es => f.FieldFree ∧ exprsFieldFree es
  | .ifThen _ c t => c.FieldFree ∧ stmtsFieldFree t
  | .ifElse _ c t e => c.FieldFree ∧ stmtsFieldFree t ∧ stmtsFieldFree e
  | .loop _ h b => h.FieldFree ∧ stmtsFieldFree b
  | .returnNothing _ => True
  | .returnValue _ e => e.FieldFree
  | .breakLoop _ => True
  | .print _ es => exprsFieldFree es

/-- No field of a tuple is accessed in some statements. -/
def stmtsFieldFree : List Stmt → Prop
  | [] => True
  | s :: rest => s.FieldFree ∧ stmtsFieldFree rest

/-- No field of a tuple is accessed in the header of a loop. -/
def Header.FieldFree : Header → Prop
  | .items _ _ e => e.FieldFree
  | .range _ _ a b => a.FieldFree ∧ b.FieldFree
  | .condition _ e => e.FieldFree

/-- No field of a tuple is accessed in a declaration. -/
def Declaration.FieldFree : Declaration → Prop
  | ⟨_, _, _, v⟩ => v.FieldFree

end

/-- No field of a tuple is accessed in a program. -/
def Program.FieldFree (p : Program) : Prop := ∀ d ∈ p.declarations, d.FieldFree

end ExprCheck
