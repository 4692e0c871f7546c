import Mathlib
import ExprCheck.Proofs.ReadFailures

/-!
# Recursive descent without bounds

The readers of the grammar count down levels of nesting and items of lists. This module describes
the descent itself, where nothing is counted. A `Nonterminal` names a reader that others call. Its
`plan` is the production that the reader follows, with the calls of other readers left open, so that
they can be spoken about. `Plan.Returns` follows a plan and the plans that it calls to the result,
and `Plan.Calls` says which calls are made on the way, and where in the text. A descent that never
ends returns nothing, so that a result is something to be proved.

The readers that count do what their plans say: each of them is its plan with other readers put in
for the calls (`reader_eq`). If these come to the results of their plans wherever they are called,
so does the reader (`returns_run`).
-/

namespace ExprCheck.Grammar

open ReadM

/-- What lists are made of. -/
inductive Item : Type → Type where
  | typeExpr : Item TypeExpr
  | expr : Item Expr
  | param : Item Param
  | entry : Item Entry
  | element : Item Element

/-- The loops of the grammar. They take one step and call themselves for the rest. -/
inductive Loop where
  | declarations | stmts | operators | suffixes | items
deriving DecidableEq

/-- The readers that call one another. -/
inductive Nonterminal : Type → Type 1 where
  | program : Nonterminal Program
  | declarations : Nonterminal (List Declaration)
  | declaration : Nonterminal Declaration
  | typeExpr : Nonterminal TypeExpr
  | stmts : Nonterminal (List Stmt)
  | stmt : Nonterminal Stmt
  | header : Nonterminal Header
  | expr (least : Nat) : Nonterminal Expr
  | operators (least : Nat) (compared : Bool) (left : Expr) : Nonterminal Expr
  | operand : Nonterminal Expr
  | suffixes (e : Expr) : Nonterminal Expr
  | primary : Nonterminal Expr
  | conditional : Nonterminal Expr
  | function : Nonterminal Expr
  | array : Nonterminal Expr
  | map : Nonterminal Expr
  | parenthesized : Nonterminal Expr
  | param : Nonterminal Param
  | entry : Nonterminal Entry
  | element : Nonterminal Element
  | items {α : Type} (close : Kind) (item : Item α) : Nonterminal (List α)

/-- The reader of what a list is made of. -/
def Item.nonterminal : {α : Type} → Item α → Nonterminal α
  | _, typeExpr => .typeExpr
  | _, expr => .expr 0
  | _, param => .param
  | _, entry => .entry
  | _, element => .element

/-- The level of a loop in the grammar. -/
def Loop.rank : Loop → Nat
  | operators | suffixes => 0
  | declarations => 1
  | stmts => 4
  | items => 6

namespace Nonterminal

/-- The level of a nonterminal in the grammar. A reader that has not taken a token yet calls readers
of lower ranks only. What can stand inside of itself has rank 4. -/
def rank : {α : Type} → Nonterminal α → Nat
  | _, declaration | _, header | _, operators _ _ _ | _, suffixes _ | _, param => 0
  | _, conditional | _, function | _, array | _, map | _, parenthesized => 0
  | _, primary | _, declarations => 1
  | _, operand | _, program => 2
  | _, stmt => 3
  | _, expr _ | _, typeExpr | _, stmts => 4
  | _, entry | _, element => 5
  | _, items _ _ => 6

/-- Whether a nonterminal stands for at least one token. What is left of a list may be empty. -/
def takesToken : {α : Type} → Nonterminal α → Bool
  | _, program | _, declarations | _, stmts | _, operators _ _ _ | _, suffixes _
  | _, items _ _ => false
  | _, _ => true

/-- The loop that a nonterminal stands for, if it stands for one. -/
def loop? : {α : Type} → Nonterminal α → Option Loop
  | _, declarations => some .declarations
  | _, stmts => some .stmts
  | _, operators _ _ _ => some .operators
  | _, suffixes _ => some .suffixes
  | _, items _ _ => some .items
  | _, _ => none

/-- The second nonterminal is another round of the loop that the first one is. -/
def Continues {α β : Type} (n : Nonterminal α) (n' : Nonterminal β) : Prop :=
  n.loop? ≠ none ∧ n'.loop? = n.loop?

instance {α β : Type} (n : Nonterminal α) (n' : Nonterminal β) : Decidable (n.Continues n') :=
  inferInstanceAs (Decidable (_ ∧ _))

/-- A loop has one rank, whatever it is a loop of. -/
theorem rank_of_loop? {α : Type} {n : Nonterminal α} {loop : Loop} (h : n.loop? = some loop) :
    n.rank = loop.rank := by
  cases n with
  | declarations | stmts | operators _ _ _ | suffixes _ | items _ _ =>
    cases h
    rfl
  | _ => cases h

/-- Going round a loop does not go down a level. -/
theorem Continues.rank_eq {α β : Type} {n : Nonterminal α} {n' : Nonterminal β}
    (h : n.Continues n') : n'.rank = n.rank := by
  obtain ⟨hloop, hsame⟩ := h
  obtain ⟨loop, hn⟩ := Option.ne_none_iff_exists'.mp hloop
  rw [rank_of_loop? hn, rank_of_loop? (hsame.trans hn)]

end Nonterminal

theorem Item.rank_lt {α : Type} (item : Item α) : item.nonterminal.rank < 6 := by
  cases item <;> decide

/-! ## Plans -/

/-- What a reader does. It gives a result, or makes a step on the stream and goes on, or calls a
reader and goes on. -/
inductive Plan (α : Type) : Type 1 where
  | done (a : α)
  | read {β : Type} (m : ReadM β) (rest : β → Plan α)
  | call {β : Type} (n : Nonterminal β) (rest : β → Plan α)

namespace Plan

variable {α β : Type}

/-- One plan after another. -/
def andThen (f : α → Plan β) : Plan α → Plan β
  | done a => f a
  | read m rest => read m fun b => (rest b).andThen f
  | call n rest => call n fun b => (rest b).andThen f

instance : Monad Plan where
  pure := done
  bind p f := p.andThen f

instance : MonadLift ReadM Plan := ⟨fun m => read m done⟩

/-- The plan to call a reader and to give back its result. -/
def ask (n : Nonterminal α) : Plan α := call n done

/-! ## The plans of the readers -/

/-- An optional annotation. -/
def optionalType : Plan (Option TypeExpr) := Production.optionalType (ask .typeExpr)

/-- The arguments of a call. -/
def arguments : Plan (List Expr) := Production.arguments (ask (.items Punct.rparen .expr))

/-- The body of a function literal. -/
def body : Plan Body := Production.body (ask (.expr 0)) (ask .stmts)

/-- A tuple literal whose first element has been read. -/
def tupleFrom : Span → Element → Plan Expr :=
  Production.tupleFrom (ask (.items Punct.rparen .element))

/-- A statement that begins with an expression. -/
def exprStmt : Span → Plan Stmt := Production.exprStmt (ask .operand) (ask (.expr 0))

/-- A statement that does not declare anything. -/
def plainStmt : Plan Stmt :=
  Production.plainStmt (ask (.expr 0)) (ask .stmts) arguments (ask .header) exprStmt

end Plan

open Plan in
/-- The plan of the reader of a nonterminal: its production, with calls of the readers of its
parts. -/
def Nonterminal.plan : {α : Type} → Nonterminal α → Plan α
  | _, program => Production.program (ask .declarations)
  | _, declarations => Production.declarations (ask .declaration) (ask .declarations)
  | _, declaration => Production.declaration Plan.optionalType (ask (.expr 0))
  | _, typeExpr => Production.typeExpr (ask .typeExpr) (ask (.items Punct.rparen .typeExpr))
  | _, stmts => Production.stmts (ask .stmt) (ask .stmts)
  | _, stmt => Production.stmt (ask .declaration) Plan.plainStmt
  | _, header => Production.header (ask (.expr 0))
  | _, expr least => Production.expr (ask .operand) fun left => ask (.operators least false left)
  | _, operators least compared left =>
    Production.operators (fun least => ask (.expr least))
      (fun compared left => ask (.operators least compared left)) least compared left
  | _, operand => Production.operand (ask .primary) fun e => ask (.suffixes e)
  | _, suffixes e =>
    Production.suffixes Plan.arguments (ask (.expr 0)) (fun e => ask (.suffixes e)) e
  | _, primary =>
    Production.primary (ask .conditional) (ask .function) (ask .array) (ask .map)
      (ask .parenthesized)
  | _, conditional => Production.conditional (ask (.expr 0))
  | _, function =>
    Production.function (ask (.items Punct.rparen .param)) Plan.optionalType Plan.body
  | _, array => Production.bracketed .lbracket .rbracket .array (ask (.items Punct.rbracket .expr))
  | _, map => Production.bracketed .lbrace .rbrace .map (ask (.items Punct.rbrace .entry))
  | _, parenthesized => Production.parenthesized (ask .element) Plan.tupleFrom
  | _, param => Production.param Plan.optionalType
  | _, entry => Production.entry (ask (.expr 0))
  | _, element => Production.element (ask (.expr 0))
  | _, items close item => Production.items close (ask item.nonterminal) (ask (.items close item))

/-! ## Following a plan -/

namespace Plan

/-- Following the plan from a stream, and the plans that it calls, comes to this result. -/
inductive Returns : {α : Type} → Plan α → Stream → EStateM.Result ReadError Stream α → Prop where
  | done {α : Type} (a : α) (s : Stream) : Returns (done a) s (.ok a s)
  | read {α β : Type} {m : ReadM β} {rest : β → Plan α} {s s₁ : Stream} {b : β}
    {r : EStateM.Result ReadError Stream α} :
    Runs m s b s₁ → Returns (rest b) s₁ r → Returns (read m rest) s r
  | readFails {α β : Type} {m : ReadM β} {rest : β → Plan α} {s s₁ : Stream} {e : ReadError} :
    Fails m s e s₁ → Returns (read m rest) s (.error e s₁)
  | call {α β : Type} {n : Nonterminal β} {rest : β → Plan α} {s s₁ : Stream} {b : β}
    {r : EStateM.Result ReadError Stream α} :
    Returns n.plan s (.ok b s₁) → Returns (rest b) s₁ r → Returns (call n rest) s r
  | callFails {α β : Type} {n : Nonterminal β} {rest : β → Plan α} {s s₁ : Stream}
    {e : ReadError} : Returns n.plan s (.error e s₁) → Returns (call n rest) s (.error e s₁)

/-- Following the plan from a stream comes to a call of a reader, with the stream as it is then.
Of the calls before it only the results matter. -/
inductive Calls : {α β : Type} → Plan α → Stream → Nonterminal β → Stream → Prop where
  | here {α β : Type} {n : Nonterminal β} {rest : β → Plan α} {s : Stream} :
    Calls (call n rest) s n s
  | afterRead {α β γ : Type} {m : ReadM γ} {rest : γ → Plan α} {n : Nonterminal β}
    {s s₁ s' : Stream} {b : γ} :
    Runs m s b s₁ → Calls (rest b) s₁ n s' → Calls (read m rest) s n s'
  | afterCall {α β γ : Type} {n₁ : Nonterminal γ} {rest : γ → Plan α} {n : Nonterminal β}
    {s s₁ s' : Stream} {b : γ} :
    Returns n₁.plan s (.ok b s₁) → Calls (rest b) s₁ n s' → Calls (call n₁ rest) s n s'

variable {α β : Type} {s s₁ : Stream}

/-- A plan comes to one result only. -/
theorem Returns.unique {p : Plan α} {r r' : EStateM.Result ReadError Stream α}
    (h : p.Returns s r) (h' : p.Returns s r') : r = r' := by
  induction h with
  | done a s =>
    cases h'
    rfl
  | read hrun _ ih =>
    cases h' with
    | read hrun' h' =>
      cases hrun.symm.trans hrun'
      exact ih h'
    | readFails hfail => cases hrun.symm.trans hfail
  | readFails hfail =>
    cases h' with
    | read hrun h' => cases hfail.symm.trans hrun
    | readFails hfail' =>
      cases hfail.symm.trans hfail'
      rfl
  | call _ _ ihcall ihrest =>
    cases h' with
    | call hcall h' =>
      cases ihcall hcall
      exact ihrest h'
    | callFails hcall => cases ihcall hcall
  | callFails _ ih =>
    cases h' with
    | call hcall h' => cases ih hcall
    | callFails hcall =>
      cases ih hcall
      rfl

/-! ## One plan after another -/

/-- The second plan is followed if the first one comes to a result. -/
theorem Returns.of_bind {p : Plan α} {f : α → Plan β} {r : EStateM.Result ReadError Stream β}
    (h : (p >>= f).Returns s r) :
    (∃ a s₁, p.Returns s (.ok a s₁) ∧ (f a).Returns s₁ r) ∨
      ∃ e s₁, p.Returns s (.error e s₁) ∧ r = .error e s₁ := by
  induction p generalizing s with
  | done a => exact Or.inl ⟨a, s, .done a s, h⟩
  | read m rest ih =>
    cases h with
    | read hrun h =>
      rcases ih _ h with ⟨a, s₁, hp, hf⟩ | ⟨e, s₁, hp, hr⟩
      · exact Or.inl ⟨a, s₁, .read hrun hp, hf⟩
      · exact Or.inr ⟨e, s₁, .read hrun hp, hr⟩
    | readFails hfail => exact Or.inr ⟨_, _, .readFails hfail, rfl⟩
  | call n rest ih =>
    cases h with
    | call hcall h =>
      rcases ih _ h with ⟨a, s₁, hp, hf⟩ | ⟨e, s₁, hp, hr⟩
      · exact Or.inl ⟨a, s₁, .call hcall hp, hf⟩
      · exact Or.inr ⟨e, s₁, .call hcall hp, hr⟩
    | callFails hcall => exact Or.inr ⟨_, _, .callFails hcall, rfl⟩

/-- A call is made by the first plan, or by the second one after the first has come to a result. -/
theorem Calls.of_bind {γ : Type} {n : Nonterminal γ} {s' : Stream} {p : Plan α} {f : α → Plan β}
    (h : (p >>= f).Calls s n s') :
    p.Calls s n s' ∨ ∃ a s₁, p.Returns s (.ok a s₁) ∧ (f a).Calls s₁ n s' := by
  induction p generalizing s with
  | done a => exact Or.inr ⟨a, s, .done a s, h⟩
  | read m rest ih =>
    cases h with
    | afterRead hrun h =>
      rcases ih _ h with h | ⟨a, s₂, hp, h⟩
      · exact Or.inl (.afterRead hrun h)
      · exact Or.inr ⟨a, s₂, .read hrun hp, h⟩
  | call n₁ rest ih =>
    cases h with
    | here => exact Or.inl .here
    | afterCall hcall h =>
      rcases ih _ h with h | ⟨a, s₂, hp, h⟩
      · exact Or.inl (.afterCall hcall h)
      · exact Or.inr ⟨a, s₂, .call hcall hp, h⟩

/-! ## Readers in the place of calls -/

/-- The reader that a plan describes, with readers put in for the calls. -/
def run (readers : (β : Type) → Nonterminal β → ReadM β) : Plan α → ReadM α
  | done a => pure a
  | read m rest => do (rest (← m)).run readers
  | call n rest => do (rest (← readers _ n)).run readers

variable (readers : (β : Type) → Nonterminal β → ReadM β)

@[simp] theorem run_pure (a : α) : run readers (pure a) = pure a := rfl

/-- A step of the stream is the same step in a plan and in a reader. -/
@[simp] theorem run_liftM (m : ReadM α) : run readers (liftM m) = m := bind_pure m

/-- A call in a plan is answered by the reader given for it. -/
@[simp] theorem run_ask (n : Nonterminal α) : run readers (ask n) = readers α n :=
  bind_pure (readers α n)

@[simp] theorem run_bind (p : Plan α) (f : α → Plan β) :
    run readers (p >>= f) = run readers p >>= fun a => run readers (f a) := by
  induction p with
  | done a => exact (pure_bind a fun a : α => run readers (f a)).symm
  | read m rest ih =>
    have hrest : (m >>= fun b => run readers (rest b >>= f)) = _ := bind_congr ih
    exact hrest.trans (bind_assoc m _ _).symm
  | call n rest ih =>
    have hrest : (readers _ n >>= fun b => run readers (rest b >>= f)) = _ := bind_congr ih
    exact hrest.trans (bind_assoc (readers _ n) _ _).symm

@[simp] theorem run_ite {c : Prop} [Decidable c] (p p' : Plan α) :
    run readers (if c then p else p') = if c then run readers p else run readers p' :=
  apply_ite (run readers) c p p'

/-- If the readers come to the results of their plans wherever the plan calls them, so does the
reader that the plan describes. -/
theorem returns_run {p : Plan α}
    (h : ∀ (β : Type) (n : Nonterminal β) (s' : Stream), p.Calls s n s' →
      n.plan.Returns s' ((readers β n).run s')) : p.Returns s ((p.run readers).run s) := by
  induction p generalizing s with
  | done a => exact .done a s
  | read m rest ih =>
    rw [run, EStateM.run_bind]
    cases hrun : m.run s with
    | ok b s₁ => exact .read hrun (ih b fun β n s' hcall => h β n s' (.afterRead hrun hcall))
    | error e s₁ => exact .readFails hrun
  | call n rest ih =>
    have hreturns := h _ n s .here
    rw [run, EStateM.run_bind]
    cases hrun : (readers _ n).run s with
    | ok b s₁ =>
      rw [hrun] at hreturns
      exact .call hreturns (ih b fun β n' s' hcall => h β n' s' (.afterCall hreturns hcall))
    | error e s₁ =>
      rw [hrun] at hreturns
      exact .callFails hreturns

end Plan

/-! ## The readers that count -/

/-- The reader of what a list is made of, with the readers of a level inside of it. -/
def Item.reader (l : Level) : {α : Type} → Item α → ReadM α
  | _, typeExpr => l.typeExpr
  | _, expr => l.expr 0
  | _, param => Grammar.param l
  | _, entry => Grammar.entry l
  | _, element => Grammar.element l

namespace Nonterminal

/-- The reader of a nonterminal with the readers of a level inside of it. A loop has so many
rounds. -/
def reader (l : Level) (rounds : Nat) : {α : Type} → Nonterminal α → ReadM α
  | _, program => Production.program (Grammar.declarations l l.rounds)
  | _, declarations => Grammar.declarations l rounds
  | _, declaration => Grammar.declaration l
  | _, typeExpr => Grammar.typeExpr l
  | _, stmts => Grammar.stmts l rounds
  | _, stmt => Grammar.stmt l
  | _, header => Grammar.header l
  | _, expr least => Grammar.expr l least
  | _, operators least compared left => Grammar.operators l least rounds compared left
  | _, operand => Grammar.operand l
  | _, suffixes e => Grammar.suffixes l rounds e
  | _, primary => Grammar.primary l
  | _, conditional => Grammar.conditional l
  | _, function => Grammar.function l
  | _, array => Grammar.array l
  | _, map => Grammar.map l
  | _, parenthesized => Grammar.parenthesized l
  | _, param => Grammar.param l
  | _, entry => Grammar.entry l
  | _, element => Grammar.element l
  | _, items close item => Grammar.items close (item.reader l) rounds

/-- The reader that is called for a nonterminal: that of the level for what can stand inside of
itself, and one with all rounds for other loops. -/
def callee (l : Level) : {β : Type} → Nonterminal β → ReadM β
  | _, expr least => l.expr least
  | _, typeExpr => l.typeExpr
  | _, stmts => l.stmts
  | _, n => n.reader l l.rounds

/-- The reader that the reader of the first nonterminal calls for the second one. A loop that goes
around again has so many rounds left. -/
def calleeOf (l : Level) (rounds : Nat) {α : Type} (n : Nonterminal α) (β : Type)
    (n' : Nonterminal β) : ReadM β :=
  if n.Continues n' then n'.reader l rounds else n'.callee l

end Nonterminal

/-! ## The readers follow their plans

A production with plans for its parts, read with readers in the place of calls, is the production
with what is read for its parts. `reader_eq` puts in the readers of a level.
-/

namespace Plan

variable {α : Type} (readers : (β : Type) → Nonterminal β → ReadM β)

/-- A production for plans becomes the production for readers, with the parts run. So do all that
follow. -/
theorem run_optionalType (t : Plan TypeExpr) :
    (Production.optionalType t).run readers = Production.optionalType (t.run readers) := by
  simp [Production.optionalType]

theorem run_items (close : Kind) (item : Plan α) (again : Plan (List α)) :
    (Production.items close item again).run readers =
      Production.items close (item.run readers) (again.run readers) := by
  simp [Production.items]

theorem run_typeExpr (t : Plan TypeExpr) (list : Plan (List TypeExpr)) :
    (Production.typeExpr t list).run readers =
      Production.typeExpr (t.run readers) (list.run readers) := by
  simp only [Production.typeExpr, run_bind, run_liftM, monadLift_self]
  refine bind_congr fun t => ?_
  split
  iterate 4 simp
  split <;> simp

theorem run_arguments (list : Plan (List Expr)) :
    (Production.arguments list).run readers = Production.arguments (list.run readers) := by
  simp [Production.arguments]

theorem run_conditional (e : Plan Expr) :
    (Production.conditional e).run readers = Production.conditional (e.run readers) := by
  simp [Production.conditional]

theorem run_param (t : Plan (Option TypeExpr)) :
    (Production.param t).run readers = Production.param (t.run readers) := by
  simp [Production.param]

theorem run_body (e : Plan Expr) (ss : Plan (List Stmt)) :
    (Production.body e ss).run readers = Production.body (e.run readers) (ss.run readers) := by
  simp [Production.body]

theorem run_function (ps : Plan (List Param)) (t : Plan (Option TypeExpr)) (b : Plan Body) :
    (Production.function ps t b).run readers =
      Production.function (ps.run readers) (t.run readers) (b.run readers) := by
  simp [Production.function]

theorem run_bracketed (opening closing : Punct) (node : Span → List α → Expr)
    (list : Plan (List α)) :
    (Production.bracketed opening closing node list).run readers =
      Production.bracketed opening closing node (list.run readers) := by
  simp [Production.bracketed]

theorem run_entry (e : Plan Expr) :
    (Production.entry e).run readers = Production.entry (e.run readers) := by
  simp [Production.entry]

theorem run_element (e : Plan Expr) :
    (Production.element e).run readers = Production.element (e.run readers) := by
  simp [Production.element]

theorem run_tupleFrom (others : Plan (List Element)) (start : Span) (first : Element) :
    (Production.tupleFrom others start first).run readers =
      Production.tupleFrom (others.run readers) start first := by
  simp [Production.tupleFrom]

/-- What follows the first element depends on the element, so the part that is run is a function. -/
theorem run_parenthesized (e : Plan Element) (tupleFrom : Span → Element → Plan Expr) :
    (Production.parenthesized e tupleFrom).run readers =
      Production.parenthesized (e.run readers)
        fun start first => (tupleFrom start first).run readers := by
  simp only [Production.parenthesized, run_bind, run_liftM, monadLift_self]
  refine bind_congr fun start => bind_congr fun first => ?_
  cases first.name <;> simp

theorem run_primary (c f a m p : Plan Expr) :
    (Production.primary c f a m p).run readers =
      Production.primary (c.run readers) (f.run readers) (a.run readers) (m.run readers)
        (p.run readers) := by
  simp only [Production.primary, run_bind, run_liftM, monadLift_self]
  refine bind_congr fun t => ?_
  split <;> simp

theorem run_suffixes (args : Plan (List Expr)) (e : Plan Expr) (again : Expr → Plan Expr)
    (target : Expr) :
    (Production.suffixes args e again target).run readers =
      Production.suffixes (args.run readers) (e.run readers) (fun e => (again e).run readers)
        target := by
  simp [Production.suffixes]

theorem run_operand (p : Plan Expr) (suffixes : Expr → Plan Expr) :
    (Production.operand p suffixes).run readers =
      Production.operand (p.run readers) fun e => (suffixes e).run readers := by
  simp [Production.operand]

/-- The loop is handed the expression so far, and so is the next round of it. -/
theorem run_operators (e : Nat → Plan Expr) (again : Bool → Expr → Plan Expr) (least : Nat)
    (compared : Bool) (left : Expr) :
    (Production.operators e again least compared left).run readers =
      Production.operators (fun least => (e least).run readers)
        (fun compared left => (again compared left).run readers) least compared left := by
  simp only [Production.operators, run_bind, run_liftM, monadLift_self]
  refine bind_congr fun t => ?_
  cases Operator.ofKind? t.kind <;> simp

theorem run_expr (o : Plan Expr) (operators : Expr → Plan Expr) :
    (Production.expr o operators).run readers =
      Production.expr (o.run readers) fun left => (operators left).run readers := by
  simp [Production.expr]

theorem run_declaration (t : Plan (Option TypeExpr)) (e : Plan Expr) :
    (Production.declaration t e).run readers =
      Production.declaration (t.run readers) (e.run readers) := by
  simp [Production.declaration]

theorem run_header (e : Plan Expr) :
    (Production.header e).run readers = Production.header (e.run readers) := by
  simp [Production.header]

theorem run_exprStmt (o e : Plan Expr) (start : Span) :
    (Production.exprStmt o e start).run readers =
      Production.exprStmt (o.run readers) (e.run readers) start := by
  simp only [Production.exprStmt, run_bind, run_liftM, run_ite, monadLift_self]
  refine bind_congr fun target => ?_
  cases target <;> simp

theorem run_plainStmt (e : Plan Expr) (ss : Plan (List Stmt)) (args : Plan (List Expr))
    (h : Plan Header) (exprStmt : Span → Plan Stmt) :
    (Production.plainStmt e ss args h exprStmt).run readers =
      Production.plainStmt (e.run readers) (ss.run readers) (args.run readers) (h.run readers)
        fun start => (exprStmt start).run readers := by
  simp only [Production.plainStmt, run_bind, run_liftM, monadLift_self]
  refine bind_congr fun t => ?_
  split <;> simp

theorem run_stmt (d : Plan Declaration) (plain : Plan Stmt) :
    (Production.stmt d plain).run readers =
      Production.stmt (d.run readers) (plain.run readers) := by
  simp [Production.stmt]

theorem run_stmts (stmt : Plan Stmt) (again : Plan (List Stmt)) :
    (Production.stmts stmt again).run readers =
      Production.stmts (stmt.run readers) (again.run readers) := by
  simp only [Production.stmts, run_bind, run_liftM, monadLift_self]
  refine bind_congr fun t => ?_
  split <;> simp

theorem run_declarations (d : Plan Declaration) (again : Plan (List Declaration)) :
    (Production.declarations d again).run readers =
      Production.declarations (d.run readers) (again.run readers) := by
  simp only [Production.declarations, run_bind, run_liftM, monadLift_self]
  refine bind_congr fun t => ?_
  split <;> simp

theorem run_program (ds : Plan (List Declaration)) :
    (Production.program ds).run readers = Production.program (ds.run readers) := by
  simp [Production.program]

end Plan

/-- The reader of a nonterminal is its plan, with the readers of the level put in for the calls. -/
theorem reader_eq {α : Type} (l : Level) (rounds : Nat) (n : Nonterminal α) :
    n.reader l (rounds + 1) = n.plan.run (n.calleeOf l rounds) := by
  cases n with
  | items close item =>
    simp only [Nonterminal.plan, Plan.run_items, Plan.run_ask]
    cases item <;> rfl
  | _ =>
    simp only [Nonterminal.plan, Plan.optionalType, Plan.arguments, Plan.body, Plan.tupleFrom,
      Plan.exprStmt, Plan.plainStmt, Plan.run_ask, Plan.run_optionalType, Plan.run_typeExpr,
      Plan.run_arguments, Plan.run_conditional, Plan.run_param, Plan.run_body, Plan.run_function,
      Plan.run_bracketed, Plan.run_entry, Plan.run_element, Plan.run_tupleFrom,
      Plan.run_parenthesized, Plan.run_primary, Plan.run_suffixes, Plan.run_operand,
      Plan.run_operators, Plan.run_expr, Plan.run_declaration, Plan.run_header, Plan.run_exprStmt,
      Plan.run_plainStmt, Plan.run_stmt, Plan.run_stmts, Plan.run_declarations, Plan.run_program]
    rfl

end ExprCheck.Grammar
