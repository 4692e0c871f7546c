import Mathlib
import ExprCheck.Proofs.Rereading
import ExprCheck.Proofs.RoundTrip

/-!
# Reading a program a second time

Every rule of the grammar reads in a second setting what it has read in the first. The second run
may have more rounds to spend, because there are more tokens before it; where failures have to be
the same, both have equally many.
-/

namespace ExprCheck

open ReadM

variable {α β : Type} {e : Setting}

namespace Setting

/-- What becomes of the trees that are read. -/
def edit (e : Setting) : Edit := .moving e.move

@[simp] theorem span_edit (s : Span) : e.edit.span s = e.move s := rfl

@[simp] theorem declared_edit (t : Option TypeExpr) :
    e.edit.declared t = t.map (TypeExpr.move e.move) := rfl

@[simp] theorem result_edit (t : Option TypeExpr) :
    e.edit.result t = t.map (TypeExpr.move e.move) := rfl

/-- With `m` rounds, the second run can follow a first one with `n` rounds. -/
structure Fits (e : Setting) (n m : Nat) : Prop where
  le : n ≤ m
  eq : e.exact → n = m

/-- Where the first run has a round left, so has the second, and what is left after it still fits.
-/
theorem Fits.succ {n m : Nat} (h : e.Fits (n + 1) m) : ∃ m', m = m' + 1 ∧ e.Fits n m' := by
  have hle := h.le
  refine ⟨m - 1, by omega, by omega, fun he => ?_⟩
  have heq := h.eq he
  omega

theorem Fits.add_one {n m : Nat} (h : e.Fits n m) : e.Fits (n + 1) (m + 1) :=
  ⟨Nat.succ_le_succ h.le, fun he => congrArg (· + 1) (h.eq he)⟩

/-- Without rounds the first run fails, and so does the second one if it has none either. -/
theorem inStep_exhausted {φ : α → β} {n : ReadM β} {m : Nat} (h : e.Fits 0 m)
    (hn : m = 0 → n = Grammar.exhausted) : e.InStep φ Grammar.exhausted n := by
  intro s t _
  refine ⟨fun _ _ hrun => absurd hrun Grammar.not_runs_exhausted, fun he r s' hfail => ?_⟩
  obtain ⟨rfl, rfl⟩ := fails_fail.mp (fails_get_bind.mp hfail)
  rw [hn (h.eq he).symm]
  exact ⟨_, t, fails_get_bind.mpr (fails_fail.mpr ⟨rfl, rfl⟩), rfl⟩

end Setting

namespace Grammar

open Setting

/-- A node is made of what has been read and of the text that it covers. -/
theorem inStep_spanned {φ : β → β} (start : Span) {make make' : Span → β}
    (h : ∀ s, make' (e.move s) = φ (make s)) :
    e.InStep φ (do return make (← spanFrom start)) (do return make' (← spanFrom (e.move start))) :=
  (inStep_spanFrom start).bind fun s => inStep_pure (h s)

/-! ## Lists, names and constants -/

/-- Both runs stop at the same closing bracket; the name that may follow the first text is none. -/
theorem inStep_items {φ : α → α} {close : Kind} [Exact close] {item item' : ReadM α}
    (hitem : e.InStep φ item item') {n m : Nat} (h : e.Fits n m) :
    e.InStep (List.map φ) (items close item n) (items close item' m) := by
  induction n generalizing m with
  | zero => exact inStep_exhausted h fun hm => hm ▸ rfl
  | succ n ih =>
    obtain ⟨m, rfl, hm⟩ := h.succ
    refine (inStep_check close).bind fun closed => .ite (inStep_pure rfl) ?_
    refine hitem.bind fun x => (inStep_accept _).bind fun more => .ite ?_ (inStep_pure rfl)
    exact (ih hm).bind fun xs => inStep_pure rfl

/-- A name is a token. -/
theorem needs_identifier : Needs identifier := by
  refine needs_next fun t ht => ?_
  rw [ht]
  exact needs_fail _ _

/-- A name is read without regard to what was taken last before it. -/
theorem agree_identifier {s t : Stream} (hst : e.Facing s t) (hended : ¬ e.Ended s) :
    e.Agree id identifier identifier s t := by
  refine (hst.agree_next hended).bind fun u s' t' _ hst' => ?_
  obtain ⟨k, span⟩ := u
  simp only [Token.move]
  split
  · exact inStep_pure rfl s' t' hst'
  · exact inStep_fail _ _ _ s' t' hst'

theorem inStep_identifier : e.InStep id identifier identifier :=
  inStep_of_needs needs_identifier fun _ _ hst hended => agree_identifier hst.toFacing hended

theorem needs_atom : Needs atom := by
  refine needs_next fun t ht => ?_
  rw [ht]
  exact (needs_fail _ _).bind

theorem inStep_atom : e.InStep (Expr.edit e.edit) atom atom := by
  refine inStep_of_needs needs_atom (before_next.bind fun t => ?_)
  obtain ⟨k, span⟩ := t
  simp only [Token.move]
  split
  · exact inStep_pure (by simp)
  · exact (inStep_orFail _ _ _).bind fun v => inStep_pure (by simp)

theorem needs_selector (target : Expr) : Needs (selector target) := by
  refine needs_next fun t ht => ?_
  rw [ht]
  exact needs_fail _ _

/-- What a suffix covers together with its target is moved with the target. -/
theorem inStep_spanOf (target : Expr) :
    e.InStep e.move (spanFrom target.span) (spanFrom (target.edit e.edit).span) := by
  rw [Expr.span_edit]
  exact inStep_spanFrom target.span

theorem inStep_selector (target : Expr) :
    e.InStep (Expr.edit e.edit) (selector target) (selector (target.edit e.edit)) := by
  refine inStep_of_needs (needs_selector target) (before_next.bind fun t => ?_)
  obtain ⟨k, span⟩ := t
  simp only [Token.move]
  split
  · exact (inStep_spanOf target).bind fun s => inStep_pure (by simp)
  · refine (inStep_orFail _ _ _).bind fun n => ?_
    exact (inStep_spanOf target).bind fun s => inStep_pure (by simp)
  · exact inStep_fail _ _ _

/-- Neither the end of a text nor the name that may stand in its place ends a return. -/
theorem inStep_atReturnEnd : e.InStep id atReturnEnd atReturnEnd := by
  refine inStep_peek (fun t => ?_) fun t u ht hu => ?_
  · obtain ⟨k, span⟩ := t
    simp only [Token.move]
    split
    all_goals exact inStep_pure rfl
  · rcases hu with hu | ⟨name, hu⟩ <;> rw [ht, hu]

/-- The look ahead may reach over the end of the first text, where there is a name in the second. It
asks for `is` or a colon, so it finds neither. -/
theorem before_atDeclaration : e.InStepBefore id atDeclaration atDeclaration := by
  refine (before_nameBefore _).look (looks_nameBefore _) fun named => ?_
  cases named with
  | true => exact (inStep_pure rfl).before
  | false => exact before_nameBefore _

/-! ## Readers of one level -/

/-- The readers of two levels are in step. Statements that end with the text are not read in the
same way if others follow there, so what is said about them is about what comes after them. -/
structure Levels (e : Setting) (l m : Level) : Prop where
  rounds : e.Fits l.rounds m.rounds
  needsExpr : ∀ least, Needs (l.expr least)
  expr : ∀ least, e.InStep (Expr.edit e.edit) (l.expr least) (m.expr least)
  typeExpr : e.InStep (TypeExpr.move e.move) l.typeExpr m.typeExpr
  stmts : ∀ {γ : Type} {φ : γ → γ} {f g : List Stmt → ReadM γ}, (∀ ss, Needs (f ss)) →
    (∀ ss, e.InStep φ (f ss) (g (editStmts e.edit ss))) →
    e.InStep φ (l.stmts >>= f) (m.stmts >>= g)

section Readers

variable {l m : Level} (h : Levels e l m)

include h

theorem inStep_optionalType :
    e.InStep (Option.map (TypeExpr.move e.move)) (optionalType l) (optionalType m) := by
  refine (inStep_accept _).bind fun more => .ite ?_ (inStep_pure rfl)
  exact h.typeExpr.bind fun t => inStep_pure rfl

omit h in
theorem needs_typeExpr : Needs (typeExpr l) := by
  refine needs_next fun t ht => ?_
  rw [ht]
  exact needs_fail _ _

theorem inStep_typeExpr : e.InStep (TypeExpr.move e.move) (typeExpr l) (typeExpr m) := by
  refine inStep_of_needs needs_typeExpr (before_next.bind fun t => ?_)
  obtain ⟨k, start⟩ := t
  simp only [Token.move]
  split
  · refine (inStep_expect _).bind fun _ => (inStep_items h.typeExpr h.rounds).bind fun params => ?_
    refine (inStep_expect _).bind fun _ => (inStep_expect _).bind fun _ => ?_
    refine h.typeExpr.bind fun result => (inStep_spanFrom start).bind fun s => inStep_pure ?_
    simp [moveTypes_eq_map]
  · refine h.typeExpr.bind fun element => (inStep_expect _).bind fun _ => ?_
    exact inStep_spanned start fun s => by simp
  · refine h.typeExpr.bind fun key => (inStep_expect _).bind fun _ => ?_
    refine h.typeExpr.bind fun value => (inStep_expect _).bind fun _ => ?_
    exact inStep_spanned start fun s => by simp
  · refine (inStep_items h.typeExpr h.rounds).bind fun fields => (inStep_expect _).bind fun _ => ?_
    exact inStep_spanned start fun s => by simp [moveTypes_eq_map]
  · split
    · exact inStep_spanned start fun s => by simp
    · exact inStep_fail _ _ _

theorem inStep_arguments : e.InStep (editExprs e.edit) (arguments l) (arguments m) := by
  refine (inStep_items (h.expr 0) h.rounds).bind fun args => (inStep_expect _).bind fun _ => ?_
  exact inStep_pure (editExprs_eq_map _ _).symm

theorem inStep_conditional : e.InStep (Expr.edit e.edit) (conditional l) (conditional m) := by
  refine (inStep_expect _).bind fun start => (h.expr 0).bind fun p => ?_
  refine (inStep_expect _).bind fun _ => (h.expr 0).bind fun t => ?_
  refine (inStep_expect _).bind fun _ => (h.expr 0).bind fun u => ?_
  refine (inStep_expect _).bind fun _ => ?_
  exact inStep_spanned start.span fun s => by simp

theorem inStep_param : e.InStep (Param.edit e.edit) (param l) (param m) := by
  refine inStep_of_needs (needs_peek fun _ _ => needs_identifier.bind) ?_
  refine before_peek.bind fun start => inStep_identifier.bind fun name => ?_
  refine (inStep_optionalType h).bind fun t => ?_
  exact inStep_spanned start.span fun s => rfl

omit h in
theorem needs_body : Needs (body l) := by
  refine needs_peek fun _ _ => needs_accept (needs_accept (needs_next fun _ _ => ?_))
  exact needs_fail _ _

/-- A body takes a token, so a first run at the end of its text does not succeed. -/
theorem inStep_body : e.InStep (Body.edit e.edit) (body l) (body m) := by
  refine inStep_of_needs needs_body (before_peek.bind fun start => ?_)
  refine (inStep_accept _).bind fun arrow => .ite ?_ ?_
  · refine (h.expr 0).bind fun value => ?_
    exact inStep_spanned start.span fun s => by simp
  · refine (inStep_accept _).bind fun block => .ite ?_ ?_
    · refine h.stmts (fun ss => (needs_expect _).bind) fun ss => (inStep_expect _).bind fun _ => ?_
      exact inStep_spanned start.span fun s => by simp
    · refine inStep_of_needs (needs_next fun _ _ => needs_fail _ _) ?_
      exact before_next.bind fun t => inStep_fail _ _ _

theorem inStep_function : e.InStep (Expr.edit e.edit) (function l) (function m) := by
  refine (inStep_expect _).bind fun start => (inStep_expect _).bind fun _ => ?_
  refine (inStep_items (inStep_param h) h.rounds).bind fun params => ?_
  refine (inStep_expect _).bind fun _ => (inStep_optionalType h).bind fun result => ?_
  refine (inStep_body h).bind fun b => ?_
  exact inStep_spanned start.span fun s => by simp

/-- A literal in brackets is read in the second setting as one of the items read there. -/
theorem inStep_bracketed {φ : α → α} {item item' : ReadM α} (hitem : e.InStep φ item item')
    {opening closing : Punct} {node : Span → List α → Expr}
    (hnode : ∀ span xs, (node span xs).edit e.edit = node (e.move span) (xs.map φ)) :
    e.InStep (Expr.edit e.edit) (bracketed opening closing node item l.rounds)
      (bracketed opening closing node item' m.rounds) := by
  refine (inStep_expect _).bind fun start => ?_
  refine (inStep_items hitem h.rounds).bind fun xs => (inStep_expect _).bind fun _ => ?_
  exact inStep_spanned start.span fun s => (hnode s xs).symm

theorem inStep_entry : e.InStep (Entry.edit e.edit) (entry l) (entry m) := by
  refine (h.expr 0).bind fun key => (inStep_expect _).bind fun _ => (h.expr 0).bind fun value => ?_
  exact inStep_pure (by simp [e.merge])

theorem inStep_element : e.InStep (Element.edit e.edit) (element l) (element m) := by
  refine inStep_of_needs (needs_peek fun _ _ => needs_nameBefore (h.needsExpr 0).bind) ?_
  refine before_peek.look looks_peek fun start => ?_
  refine (before_nameBefore _).bind fun named => .ite ?_ ?_
  · refine inStep_identifier.bind fun name => (inStep_expect _).bind fun _ => ?_
    refine (h.expr 0).bind fun value => ?_
    exact inStep_spanned start.span fun s => by simp
  · refine (h.expr 0).bind fun value => ?_
    exact inStep_spanned start.span fun s => by simp

theorem inStep_tupleFrom (start : Span) (first : Element) :
    e.InStep (Expr.edit e.edit) (tupleFrom l start first)
      (tupleFrom m (e.move start) (first.edit e.edit)) := by
  have hclose : ∀ others : List Element, e.InStep (Expr.edit e.edit)
      (do
        let _ ← expect (.punct .rparen)
        return Expr.tuple (← spanFrom start) (first :: others))
      (do
        let _ ← expect (.punct .rparen)
        return Expr.tuple (← spanFrom (e.move start))
          (first.edit e.edit :: others.map (Element.edit e.edit))) := by
    intro others
    refine (inStep_expect _).bind fun _ => ?_
    exact inStep_spanned start fun s => by simp [editElements_eq_map]
  refine (inStep_accept _).bind fun more => .ite ?_ ?_
  · exact (inStep_items (inStep_element h) h.rounds).bind hclose
  · exact hclose []

theorem inStep_parenthesized :
    e.InStep (Expr.edit e.edit) (parenthesized l) (parenthesized m) := by
  refine (inStep_expect _).bind fun start => (inStep_element h).bind fun first => ?_
  obtain ⟨s, name, value⟩ := first
  simp only [Element.edit]
  cases name with
  | some name => exact inStep_tupleFrom h start.span ⟨s, some name, value⟩
  | none =>
    refine (inStep_accept _).bind fun closed => .ite ?_ ?_
    · refine (inStep_spanFrom start.span).bind fun s => inStep_pure ?_
      rw [Expr.edit_withSpan]
      rfl
    · exact inStep_tupleFrom h start.span ⟨s, none, value⟩

omit h in
theorem needs_primary : Needs (primary l) := by
  refine needs_peek fun t ht => ?_
  rw [ht]
  exact needs_atom

theorem inStep_primary : e.InStep (Expr.edit e.edit) (primary l) (primary m) := by
  refine inStep_of_needs needs_primary (before_peek.bind fun t => ?_)
  obtain ⟨k, span⟩ := t
  simp only [Token.move]
  split
  · exact inStep_conditional h
  · exact inStep_function h
  · exact inStep_bracketed h (h.expr 0) fun _ _ => by simp [editExprs_eq_map]
  · exact inStep_bracketed h (inStep_entry h) fun _ _ => by simp [editEntries_eq_map]
  · exact inStep_parenthesized h
  · exact inStep_atom

/-- By induction on the rounds of the first run, which are not more than those of the second. -/
theorem inStep_suffixes {n k : Nat} (hn : e.Fits n k) (target : Expr) :
    e.InStep (Expr.edit e.edit) (suffixes l n target) (suffixes m k (target.edit e.edit)) := by
  induction n generalizing k target with
  | zero => exact inStep_exhausted hn fun hk => hk ▸ rfl
  | succ n ih =>
    obtain ⟨k, rfl, hk⟩ := hn.succ
    refine (inStep_accept _).bind fun called => .ite ?_ ?_
    · refine (inStep_arguments h).bind fun args => (inStep_spanOf target).bind fun s => ?_
      have hcall := ih hk (.call s target args)
      simp only [Expr.edit, span_edit] at hcall
      exact hcall
    · refine (inStep_accept _).bind fun indexed => .ite ?_ ?_
      · refine (h.expr 0).bind fun i => (inStep_expect _).bind fun _ => ?_
        refine (inStep_spanOf target).bind fun s => ?_
        have hindex := ih hk (.index s target i)
        simp only [Expr.edit, span_edit] at hindex
        exact hindex
      · refine (inStep_accept _).bind fun selected => .ite ?_ (inStep_pure rfl)
        exact (inStep_selector target).bind fun e' => ih hk e'

theorem inStep_operand : e.InStep (Expr.edit e.edit) (operand l) (operand m) :=
  (inStep_primary h).bind fun target => inStep_suffixes h h.rounds target

/-- An operator that ends the expression in the first run ends it in the second, and no operator
follows the first text. -/
theorem inStep_operators (least : Nat) {n k : Nat} (hn : e.Fits n k) (compared : Bool)
    (left : Expr) :
    e.InStep (Expr.edit e.edit) (operators l least n compared left)
      (operators m least k compared (left.edit e.edit)) := by
  induction n generalizing k compared left with
  | zero => exact inStep_exhausted hn fun hk => hk ▸ rfl
  | succ n ih =>
    obtain ⟨k, rfl, hk⟩ := hn.succ
    have hname : ∀ t u : Token, t.kind = .eof →
        (u.kind = .eof ∨ ∃ name, u.kind = .text .identifier name) →
        Operator.ofKind? u.kind = Operator.ofKind? t.kind := by
      intro t u ht hu
      rcases hu with hu | ⟨name, hu⟩ <;> rw [ht, hu]
      rfl
    refine inStep_peek (fun t => ?_) fun t u ht hu => by rw [hname t u ht hu]
    obtain ⟨kind, span⟩ := t
    simp only [Token.move]
    split
    · exact inStep_pure rfl
    · rename_i op _
      refine .ite (inStep_pure rfl) ?_
      refine inStep_of_needs (needs_next fun _ _ => .ite (needs_fail _ _) (h.needsExpr _).bind) ?_
      refine before_next.bind fun t => .ite (inStep_fail _ _ _) ?_
      refine (h.expr _).bind fun right => ?_
      have hnode := ih hk (compared || op.isComparison)
        (.binary (left.span.merge right.span) op left right)
      simp only [Expr.edit, span_edit, e.merge] at hnode
      simp only [Expr.span_edit, span_edit]
      exact hnode

omit h in
theorem needs_expr (least : Nat) : Needs (expr l least) := needs_primary.bind.bind

theorem inStep_expr (least : Nat) : e.InStep (Expr.edit e.edit) (expr l least) (expr m least) :=
  (inStep_operand h).bind fun left => inStep_operators h least h.rounds false left

/-! ## Declarations and statements -/

/-- A declaration begins with a name, so it can stand behind anything. -/
theorem agree_declaration {s t : Stream} (hst : e.Facing s t) (hended : ¬ e.Ended s) :
    e.Agree (Declaration.edit e.edit) (declaration l) (declaration m) s t := by
  have htail : ∀ (start : Span) (name : String), e.InStep (Declaration.edit e.edit)
      (do
        let typeExpr ← optionalType l
        let _ ← expect (.keyword .isKw)
        let value ← l.expr 0
        return ⟨← spanFrom start, name, typeExpr, value⟩)
      (do
        let typeExpr ← optionalType m
        let _ ← expect (.keyword .isKw)
        let value ← m.expr 0
        return ⟨← spanFrom (e.move start), name, typeExpr, value⟩) := by
    intro start name
    refine (inStep_optionalType h).bind fun t => (inStep_expect _).bind fun _ => ?_
    refine (h.expr 0).bind fun value => ?_
    exact inStep_spanned start fun s => by simp
  obtain ⟨u, s', t', hpeek, hpeek', hst', -, -⟩ := hst.peek hended
  have hended' : ¬ e.Ended s' := hst.not_ended_of_looks hended looks_peek hpeek
  refine Agree.after (Token.move e.move) hpeek hpeek' ?_
  exact (agree_identifier hst' hended').bind fun name s₁ t₁ _ hst₁ => htail u.span name s₁ t₁ hst₁

theorem before_declaration :
    e.InStepBefore (Declaration.edit e.edit) (declaration l) (declaration m) :=
  fun _ _ hst hended => agree_declaration h hst.toFacing hended

/-- Of the forms of a header only `for` looks two tokens ahead, and an expression has to follow. -/
theorem before_header : e.InStepBefore (Header.edit e.edit) (header l) (header m) := by
  have htail : ∀ (start : Span) (name : Option String), e.InStep (Header.edit e.edit)
      (do
        let first ← l.expr 0
        if ← accept (.punct .range) then
          let last ← l.expr 0
          return Header.range (← spanFrom start) name first last
        else
          return Header.items (← spanFrom start) name first)
      (do
        let first ← m.expr 0
        if ← accept (.punct .range) then
          let last ← m.expr 0
          return Header.range (← spanFrom (e.move start)) name first last
        else
          return Header.items (← spanFrom (e.move start)) name first) := by
    intro start name
    refine (h.expr 0).bind fun first => (inStep_accept _).bind fun ranged => .ite ?_ ?_
    · refine (h.expr 0).bind fun last => ?_
      exact inStep_spanned start fun s => by simp
    · exact inStep_spanned start fun s => by simp
  refine before_peek.bind fun start => (inStep_accept _).bind fun runsOver => .ite ?_ ?_
  · refine inStep_of_needs (needs_nameBefore (h.needsExpr 0).bind) ?_
    refine (before_nameBefore _).bind fun named => .ite ?_ (htail start.span none)
    refine inStep_identifier.bind fun name => (inStep_expect _).bind fun _ => ?_
    exact htail start.span (some name)
  · refine (inStep_expect _).bind fun _ => (h.expr 0).bind fun condition => ?_
    exact inStep_spanned start.span fun s => by simp

theorem inStep_exprStmt (start : Span) :
    e.InStep (Stmt.edit e.edit) (exprStmt l start) (exprStmt m (e.move start)) := by
  refine (inStep_operand h).bind fun target => (inStep_accept _).bind fun assigned => .ite ?_ ?_
  · refine (h.expr 0).bind fun value => ?_
    exact inStep_spanned start fun s => by simp
  · cases target with
    | call s callee args =>
      simp only [Expr.edit]
      exact inStep_spanned start fun s => by simp
    | _ =>
      simp only [Expr.edit]
      exact inStep_fail _ _ _

theorem inStep_ifStmt (start : Span) (condition : Expr) :
    e.InStep (Stmt.edit e.edit)
      (do
        let thenBranch ← l.stmts
        if ← accept (.keyword .elseKw) then
          let elseBranch ← l.stmts
          let _ ← expect (.keyword .endKw)
          return Stmt.ifElse (← spanFrom start) condition thenBranch elseBranch
        else
          let _ ← expect (.keyword .endKw)
          return Stmt.ifThen (← spanFrom start) condition thenBranch)
      (do
        let thenBranch ← m.stmts
        if ← accept (.keyword .elseKw) then
          let elseBranch ← m.stmts
          let _ ← expect (.keyword .endKw)
          return Stmt.ifElse (← spanFrom (e.move start)) (condition.edit e.edit) thenBranch
            elseBranch
        else
          let _ ← expect (.keyword .endKw)
          return Stmt.ifThen (← spanFrom (e.move start)) (condition.edit e.edit) thenBranch) := by
  refine h.stmts (fun ss => needs_accept (needs_expect _).bind) fun ss => ?_
  refine (inStep_accept _).bind fun other => .ite ?_ ?_
  · refine h.stmts (fun rs => (needs_expect _).bind) fun rs => (inStep_expect _).bind fun _ => ?_
    exact inStep_spanned start fun s => by simp
  · refine (inStep_expect _).bind fun _ => ?_
    exact inStep_spanned start fun s => by simp

theorem before_loop (start : Span) :
    e.InStepBefore (Stmt.edit e.edit)
      (do
        let head ← header l
        let _ ← expect (.keyword .loopKw)
        let ss ← l.stmts
        let _ ← expect (.keyword .endKw)
        return Stmt.loop (← spanFrom start) head ss)
      (do
        let head ← header m
        let _ ← expect (.keyword .loopKw)
        let ss ← m.stmts
        let _ ← expect (.keyword .endKw)
        return Stmt.loop (← spanFrom (e.move start)) head ss) := by
  refine (before_header h).bind fun head => (inStep_expect _).bind fun _ => ?_
  refine h.stmts (fun ss => (needs_expect _).bind) fun ss => (inStep_expect _).bind fun _ => ?_
  exact inStep_spanned start fun s => by simp

theorem before_plainStmt : e.InStepBefore (Stmt.edit e.edit) (plainStmt l) (plainStmt m) := by
  refine before_peek.look looks_peek fun t => ?_
  obtain ⟨kind, start⟩ := t
  simp only [Token.move]
  split
  · refine before_next.bind fun _ => inStep_atReturnEnd.bind fun ends => .ite ?_ ?_
    · exact inStep_spanned start fun s => by simp
    · refine (h.expr 0).bind fun value => ?_
      exact inStep_spanned start fun s => by simp
  · refine before_next.bind fun _ => ?_
    exact inStep_spanned start fun s => by simp
  · refine before_next.bind fun _ => (inStep_expect _).bind fun _ => ?_
    refine (inStep_arguments h).bind fun args => ?_
    exact inStep_spanned start fun s => by simp
  · refine before_next.bind fun _ => (h.expr 0).bind fun condition => ?_
    exact (inStep_expect _).bind fun _ => inStep_ifStmt h start condition
  · exact before_loop h start
  · exact before_loop h start
  · exact (inStep_exprStmt h start).before

theorem before_stmt : e.InStepBefore (Stmt.edit e.edit) (stmt l) (stmt m) := by
  refine before_atDeclaration.look looks_atDeclaration fun declares => ?_
  cases declares with
  | true => exact (before_declaration h).bind fun d => inStep_pure (by simp)
  | false => exact before_plainStmt h

/-- A list of statements ends with the first text, while the second run might read on. So it is
compared together with what has to follow it, which the first run does not find there. -/
theorem inStep_stmts {n k : Nat} (hn : e.Fits n k) {γ : Type} {φ : γ → γ}
    {f g : List Stmt → ReadM γ} (hneeds : ∀ ss, Needs (f ss))
    (hf : ∀ ss, e.InStep φ (f ss) (g (editStmts e.edit ss))) :
    e.InStep φ (stmts l n >>= f) (stmts m k >>= g) := by
  induction n generalizing k f g with
  | zero => exact (inStep_exhausted hn fun hk => hk ▸ rfl).bind hf
  | succ n ih =>
    obtain ⟨k, rfl, hk⟩ := hn.succ
    simp only [stmts, Production.stmts, monadLift_self, bind_assoc]
    refine inStep_of_needs (needs_peek fun t ht => ?_) (before_peek.look looks_peek fun t => ?_)
    · rw [ht]
      exact hneeds []
    · obtain ⟨kind, span⟩ := t
      simp only [Token.move]
      split
      · exact (hf []).before
      · exact (hf []).before
      · exact (hf []).before
      · simp only [bind_assoc, pure_bind]
        refine (before_stmt h).bind fun s => (inStep_accept _).bind fun _ => ?_
        exact ih hk (fun ss => hneeds (s :: ss)) fun ss => hf (s :: ss)

end Readers

/-! ## Levels -/

/-- What `n` levels read, `m` levels read in the second setting. -/
theorem levels {n m : Nat} (h : e.Fits n m) : Levels e (level n) (level m) := by
  have hrounds : e.Fits (level n).rounds (level m).rounds := by
    rw [level_rounds, level_rounds]
    exact h.add_one
  induction n generalizing m with
  | zero =>
    exact {
      rounds := hrounds
      needsExpr := fun _ => needs_exhausted
      expr := fun _ => inStep_exhausted h fun hm => hm ▸ rfl
      typeExpr := inStep_exhausted h fun hm => hm ▸ rfl
      stmts := fun _ hf => (inStep_exhausted h fun hm => hm ▸ rfl).bind hf }
  | succ n ih =>
    obtain ⟨m, rfl, hm⟩ := h.succ
    have hinner : Levels e (level n) (level m) := by
      refine ih hm ?_
      rw [level_rounds, level_rounds]
      exact hm.add_one
    exact {
      rounds := hrounds
      needsExpr := needs_expr
      expr := inStep_expr hinner
      typeExpr := inStep_typeExpr hinner
      stmts := inStep_stmts hinner hinner.rounds }

/-! ## Programs -/

/-- Reading a text is a run of the reader of programs from the stream of the text. -/
theorem ofText_eq_ok_iff {text : List Char} {p : Program} :
    Program.ofText text = .ok p ↔ ∃ s', Runs Program.read (Stream.ofText text) p s' := by
  unfold Program.ofText
  constructor
  · intro h
    split at h
    · next s' hread =>
      cases h
      exact ⟨s', hread⟩
    · cases h
  · rintro ⟨s', hread⟩
    rw [show Program.read (Stream.ofText text) = .ok p s' from hread]

theorem ofText_of_fails {text : List Char} {r : ReadError} {s' : Stream}
    (h : Fails Program.read (Stream.ofText text) r s') : Program.ofText text = .error r := by
  unfold Program.ofText
  rw [show Program.read (Stream.ofText text) = .error r s' from h]

section Programs

variable {l m : Level} {s t s' : Stream}

theorem inStep_declarations (h : Levels e l m) (he : e.exact) {n k : Nat}
    (hn : e.Fits n k) :
    e.InStep (List.map (Declaration.edit e.edit)) (declarations l n) (declarations m k) := by
  have hopen : ∀ s, ¬ e.Ended s := fun _ hended => hended.1 he
  induction n generalizing k with
  | zero => exact inStep_exhausted hn fun hk => hk ▸ rfl
  | succ n ih =>
    obtain ⟨k, rfl, hk⟩ := hn.succ
    intro s t hst
    refine before_peek.look looks_peek (fun u => ?_) s t hst (hopen s)
    obtain ⟨kind, span⟩ := u
    simp only [Token.move]
    split
    · exact (inStep_pure rfl).before
    · refine (before_declaration h).bind fun d => (inStep_accept _).bind fun _ => ?_
      exact (ih hk).bind fun ds => inStep_pure rfl

/-- A program is read in the second setting as it is in the first, if the texts end together. -/
theorem agree_program (he : e.exact) (hst : e.Beside s t)
    (hremaining : e.Fits s.remaining t.remaining) :
    e.Agree (Program.edit e.edit) Program.read Program.read s t := by
  have hlevels := levels hremaining.add_one
  have houter : Runs outermost s (level (s.remaining + 1)) s :=
    runs_get_bind.mpr (runs_pure.mpr ⟨rfl, rfl⟩)
  have houter' : Runs outermost t (level (t.remaining + 1)) t :=
    runs_get_bind.mpr (runs_pure.mpr ⟨rfl, rfl⟩)
  have hopen : ∀ s, ¬ e.Ended s := fun _ hended => hended.1 he
  have hpeek : e.InStep (Token.move e.move) peek peek := fun s t h => before_peek s t h (hopen s)
  refine Agree.after (fun _ => level (t.remaining + 1)) houter houter' ?_
  refine (hpeek.bind fun start => ?_) s t hst
  refine (inStep_declarations hlevels he hlevels.rounds).bind fun ds => ?_
  refine hpeek.bind fun stop => inStep_pure ?_
  simp [Program.edit, e.merge, Token.move]

/-- One round of reading declarations. -/
theorem runs_declarations_cons {u : Token} {s₁ : Stream} (hpeek : Runs peek s u s₁)
    (hu : u.kind ≠ .eof) {k : Nat} {ds : List Declaration} :
    Runs (declarations m (k + 1)) s ds s' ↔
      ∃ d s₂ b s₃ rest, Runs (declaration m) s₁ d s₂ ∧ Runs (accept (.punct .semicolon)) s₂ b s₃ ∧
        Runs (declarations m k) s₃ rest s' ∧ ds = d :: rest := by
  simp only [declarations, Production.declarations, monadLift_self]
  constructor
  · intro hrun
    obtain ⟨u', s₁', hpeek', hrun⟩ := runs_bind.mp hrun
    obtain ⟨rfl, rfl⟩ := hpeek.unique hpeek'
    split at hrun
    · next heof => exact absurd heof hu
    · obtain ⟨d, s₂, hd, hrun⟩ := runs_bind.mp hrun
      obtain ⟨b, s₃, haccept, hrun⟩ := runs_bind.mp hrun
      obtain ⟨rest, s₄, hrest, hrun⟩ := runs_bind.mp hrun
      obtain ⟨rfl, rfl⟩ := runs_pure.mp hrun
      exact ⟨d, s₂, b, s₃, rest, hd, haccept, hrest, rfl⟩
  · rintro ⟨d, s₂, b, s₃, rest, hd, haccept, hrest, rfl⟩
    refine runs_bind.mpr ⟨u, s₁, hpeek, ?_⟩
    split
    · next heof => exact absurd heof hu
    · refine runs_bind.mpr ⟨d, s₂, hd, runs_bind.mpr ⟨b, s₃, haccept, ?_⟩⟩
      exact runs_bind.mpr ⟨rest, s', hrest, runs_pure.mpr ⟨rfl, rfl⟩⟩

/-- Where the declarations of the first text end, the second run goes on with those that follow. -/
theorem runs_declarations_append (h : Levels e l m) {n : Nat} {ds : List Declaration}
    (hst : e.Facing s t) (hrun : Runs (declarations l n) s ds s') :
    ∃ t', t'.Holds e.more ∧ ∀ k ds' t'', Runs (declarations m k) t' ds' t'' →
      Runs (declarations m (ds.length + k)) t (ds.map (Declaration.edit e.edit) ++ ds') t'' := by
  induction n generalizing s t ds with
  | zero => exact absurd hrun not_runs_exhausted
  | succ n ih =>
    obtain ⟨ts, hs, ht⟩ := hst.tokens
    obtain ⟨s₁, hpeek, hs₁, -, -⟩ := exists_runs_peek hs
    cases ts with
    | nil =>
      obtain ⟨u, s₂, hpeek₂, hrun⟩ := runs_bind.mp hrun
      obtain ⟨rfl, rfl⟩ := hpeek.unique hpeek₂
      have hkind : (([] : List Token).headD s.eof).kind = .eof := hs.eof
      rw [hkind] at hrun
      obtain ⟨rfl, rfl⟩ := runs_pure.mp hrun
      refine ⟨t, ht, fun k ds' t'' hds' => ?_⟩
      rw [List.length_nil, Nat.zero_add]
      exact hds'
    | cons u ts =>
      have hkind : u.kind ≠ .eof := hs.tokens u List.mem_cons_self
      obtain ⟨d, s₂, c, s₃, rest, hd, haccept, hrest, rfl⟩ :=
        (runs_declarations_cons hpeek hkind).mp hrun
      obtain ⟨v, s', t₁, hpeek₂, hpeek', hst₁, -, -⟩ := hst.peek (not_ended hs)
      obtain ⟨rfl, rfl⟩ := hpeek.unique hpeek₂
      obtain ⟨t₂, hd', hst₂⟩ := (agree_declaration h hst₁ (not_ended hs₁)).runs d s₂ hd
      obtain ⟨t₃, haccept', hst₃⟩ := (inStep_accept _ s₂ t₂ hst₂).runs c s₃ haccept
      obtain ⟨t', ht', happend⟩ := ih hst₃.toFacing hrest
      refine ⟨t', ht', fun k ds' t'' hds' => ?_⟩
      have hrounds : (d :: rest).length + k = rest.length + k + 1 := by
        rw [List.length_cons]
        omega
      rw [hrounds]
      refine (runs_declarations_cons hpeek' hkind).mpr ?_
      exact ⟨_, t₂, c, t₃, _, hd', haccept', happend k ds' t'' hds', rfl⟩

end Programs

end Grammar

end ExprCheck
