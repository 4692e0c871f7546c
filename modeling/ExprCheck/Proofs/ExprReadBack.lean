import Mathlib
import ExprCheck.Proofs.Offers

/-!
# Reading expressions back

The tokens that write an annotation or an expression are read as that tree, up to the text its nodes
cover. The readers decide by the next token or the next two, so what they do on the tokens of a tree
depends on one token behind it: an operand must not be followed by a suffix, and an expression
neither by a suffix nor by an operator.
-/

namespace ExprCheck.Grammar

open ReadM

variable {α β : Type} {s : Stream} {k : Kind} {ks ls : List Kind} {spell : Float → List Char}

/-! ## Levels that read back -/

/-- No suffix of an operand begins with the token. -/
def NoSuffix (k : Kind) : Prop := k ≠ .punct .lparen ∧ k ≠ .punct .lbracket ∧ k ≠ .punct .dot

/-- Neither an operator nor a suffix begins with the token: an expression before it is complete. -/
def Closes (k : Kind) : Prop := Operator.ofKind? k = none ∧ NoSuffix k

instance : Decidable (NoSuffix k) := inferInstanceAs (Decidable (_ ∧ _))

instance : Decidable (Closes k) := inferInstanceAs (Decidable (_ ∧ _))

theorem noSuffix_operator (op : Operator) : NoSuffix op.kind := by
  cases op <;> decide

/-- A level whose readers read back every tree written with at most `n` tokens. -/
structure Level.ReadsBack (l : Level) (spell : Float → List Char) (n : Nat) : Prop where
  rounds : n < l.rounds
  typeExpr : ∀ t : TypeExpr, t.kinds.length ≤ n →
    Reads l.typeExpr TypeExpr.bare t.bare t.kinds fun _ => True
  expr : ∀ e : Expr, e.WellFormed spell → (e.kinds spell).length ≤ n →
    Reads (l.expr 0) Expr.bare e.bare (e.kinds spell) Closes
  /-- An operand is read back whatever operators it may not hold. -/
  operand : ∀ (least : Nat) (e : Expr), e.WellFormed spell →
    (guarded e.isAtomic (e.kinds spell)).length ≤ n →
    Reads (l.expr least) Expr.bare e.bare (guarded e.isAtomic (e.kinds spell)) Closes
  stmts : ∀ ss : List Stmt, StmtsWellFormed spell ss → (stmtsKinds spell ss).length < n →
    Reads l.stmts (editStmts .forget) (editStmts .forget ss) (stmtsKinds spell ss)
      fun k => k = .keyword .endKw ∨ k = .keyword .elseKw

section

variable {l : Level} {n : Nat}

theorem reads_types (hl : l.ReadsBack spell n) {ts : List TypeExpr}
    (hn : (commas (ts.map TypeExpr.kinds)).length ≤ n) :
    Reads (items (.punct .rparen) l.typeExpr l.rounds) (List.map TypeExpr.bare)
      (ts.map TypeExpr.bare) (commas (ts.map TypeExpr.kinds)) (· = .punct .rparen) :=
  reads_list (by decide) hl.rounds hn
    (fun t _ ht => (hl.typeExpr t ht).mono fun _ _ => trivial) (fun t _ => typeKinds_eq_cons t)

theorem reads_typeExpr (hl : l.ReadsBack spell n) (t : TypeExpr) (hn : t.kinds.length ≤ n + 1) :
    Reads (typeExpr l) TypeExpr.bare t.bare t.kinds fun _ => True := by
  intro s k ls hs _
  simp only [typeExpr, Production.typeExpr, monadLift_self]
  cases t with
  | primitive _ p =>
    rw [TypeExpr.kinds] at hs
    refine next_then hs fun t s₁ ht hs₁ => ?_
    rw [ht]
    cases p <;>
      exact spanFrom_then fun _ => succeeds_pure ⟨by simp only [TypeExpr.move, toOrigin], hs₁⟩
  | func _ params result =>
    simp only [TypeExpr.kinds, typesKinds_eq_map, List.length_cons, List.length_append] at hn
    simp only [TypeExpr.kinds, typesKinds_eq_map, List.cons_append, List.append_assoc] at hs
    refine next_then hs fun t s₁ ht hs₁ => ?_
    rw [ht]
    refine expect_then hs₁ fun _ s₂ hs₂ => ?_
    refine (reads_types hl (by omega)).andThen hs₂ rfl fun params' s₃ hparams hs₃ => ?_
    refine expect_then hs₃ fun _ s₄ hs₄ => ?_
    refine expect_then hs₄ fun _ s₅ hs₅ => ?_
    refine (hl.typeExpr result (by omega)).andThen hs₅ trivial fun result' s₆ hresult hs₆ => ?_
    refine spanFrom_then fun _ => succeeds_pure ⟨?_, hs₆⟩
    simp only [TypeExpr.move, toOrigin, moveTypes_eq_map, hparams, hresult]
  | array _ element =>
    simp only [TypeExpr.kinds, List.length_cons, List.length_append] at hn
    simp only [TypeExpr.kinds, List.cons_append, List.append_assoc, List.nil_append] at hs
    refine next_then hs fun t s₁ ht hs₁ => ?_
    rw [ht]
    refine (hl.typeExpr element (by omega)).andThen hs₁ trivial fun element' s₂ helement hs₂ => ?_
    refine expect_then hs₂ fun _ s₃ hs₃ => ?_
    refine spanFrom_then fun _ => succeeds_pure ⟨?_, hs₃⟩
    simp only [TypeExpr.move, toOrigin, helement]
  | map _ key value =>
    simp only [TypeExpr.kinds, List.length_cons, List.length_append] at hn
    simp only [TypeExpr.kinds, List.cons_append, List.append_assoc, List.nil_append] at hs
    refine next_then hs fun t s₁ ht hs₁ => ?_
    rw [ht]
    refine (hl.typeExpr key (by omega)).andThen hs₁ trivial fun key' s₂ hkey hs₂ => ?_
    refine expect_then hs₂ fun _ s₃ hs₃ => ?_
    refine (hl.typeExpr value (by omega)).andThen hs₃ trivial fun value' s₄ hvalue hs₄ => ?_
    refine expect_then hs₄ fun _ s₅ hs₅ => ?_
    refine spanFrom_then fun _ => succeeds_pure ⟨?_, hs₅⟩
    simp only [TypeExpr.move, toOrigin, hkey, hvalue]
  | tuple _ fields =>
    simp only [TypeExpr.kinds, typesKinds_eq_map, List.length_cons, List.length_append] at hn
    simp only [TypeExpr.kinds, typesKinds_eq_map, List.cons_append, List.append_assoc,
      List.nil_append] at hs
    refine next_then hs fun t s₁ ht hs₁ => ?_
    rw [ht]
    refine (reads_types hl (by omega)).andThen hs₁ rfl fun fields' s₂ hfields hs₂ => ?_
    refine expect_then hs₂ fun _ s₃ hs₃ => ?_
    refine spanFrom_then fun _ => succeeds_pure ⟨?_, hs₃⟩
    simp only [TypeExpr.move, toOrigin, moveTypes_eq_map, hfields]

theorem reads_optionalType (hl : l.ReadsBack spell n) (t : Option TypeExpr)
    (hn : (optTypeKinds t).length ≤ n + 1) :
    Reads (optionalType l) (Option.map TypeExpr.bare) (t.map TypeExpr.bare) (optTypeKinds t)
      (· ≠ .punct .colon) := by
  intro s k ls hs hk
  simp only [optionalType, Production.optionalType, monadLift_self]
  cases t with
  | none =>
    rw [optTypeKinds, List.nil_append] at hs
    exact refuse_then hs hk fun s₁ hs₁ => succeeds_pure ⟨rfl, hs₁⟩
  | some t =>
    rw [optTypeKinds, List.length_cons] at hn
    rw [optTypeKinds, List.cons_append] at hs
    refine accept_then hs fun s₁ hs₁ => ?_
    refine (hl.typeExpr t (by omega)).andThen hs₁ trivial fun t' s₂ ht hs₂ => ?_
    exact succeeds_pure ⟨by rw [Option.map_some, ht, Option.map_some], hs₂⟩

/-! ## Primary expressions -/

theorem reads_exprs (hl : l.ReadsBack spell n) (close : Kind) [Exact close]
    (hcomma : close ≠ .punct .comma) (hcloses : Closes close) (hopens : opensExpr close = false)
    {es : List Expr} (hwf : ∀ e ∈ es, e.WellFormed spell)
    (hn : (commas (es.map (Expr.kinds spell))).length ≤ n) :
    Reads (items close (l.expr 0) l.rounds) (List.map Expr.bare) (es.map Expr.bare)
      (commas (es.map (Expr.kinds spell))) (· = close) := by
  refine reads_list hcomma hl.rounds hn (fun e he hle => ?_) (fun e _ => ?_)
  · refine (hl.expr e (hwf e he) hle).mono fun k hk => ?_
    rcases hk with rfl | rfl
    · decide
    · exact hcloses
  · obtain ⟨k, ks, hks, hk, -⟩ := @kinds_eq_cons spell e
    refine ⟨k, ks, hks, ?_⟩
    rintro rfl
    rw [hk] at hopens
    cases hopens

theorem reads_arguments (hl : l.ReadsBack spell n) {es : List Expr}
    (hwf : ∀ e ∈ es, e.WellFormed spell) (hn : (commas (es.map (Expr.kinds spell))).length ≤ n) :
    Reads (arguments l) (List.map Expr.bare) (es.map Expr.bare)
      (commas (es.map (Expr.kinds spell)) ++ [.punct .rparen]) fun _ => True := by
  intro s k ls hs _
  rw [List.append_assoc, List.singleton_append] at hs
  have hitems := reads_exprs hl (.punct .rparen) (by decide) (by decide) rfl hwf hn
  refine hitems.andThen hs rfl fun es' s₁ hes hs₁ => ?_
  exact expect_then hs₁ fun _ s₂ hs₂ => succeeds_pure ⟨hes, hs₂⟩

theorem reads_conditional (hl : l.ReadsBack spell n) {span : Span} {p t e : Expr}
    (hwf : (Expr.conditional span p t e).WellFormed spell)
    (hn : ((Expr.conditional span p t e).kinds spell).length ≤ n + 1) :
    Reads (conditional l) Expr.bare (Expr.conditional span p t e).bare
      ((Expr.conditional span p t e).kinds spell) fun _ => True := by
  intro s k ls hs _
  rw [Expr.WellFormed] at hwf
  obtain ⟨hp, ht, he⟩ := hwf
  simp only [Expr.kinds, List.length_cons, List.length_append] at hn
  simp only [Expr.kinds, List.cons_append, List.append_assoc, List.nil_append] at hs
  refine expect_then hs fun start s₁ hs₁ => ?_
  refine (hl.expr p hp (by omega)).andThen hs₁ (by decide) fun p' s₂ hp' hs₂ => ?_
  refine expect_then hs₂ fun _ s₃ hs₃ => ?_
  refine (hl.expr t ht (by omega)).andThen hs₃ (by decide) fun t' s₄ ht' hs₄ => ?_
  refine expect_then hs₄ fun _ s₅ hs₅ => ?_
  refine (hl.expr e he (by omega)).andThen hs₅ (by decide) fun e' s₆ he' hs₆ => ?_
  refine expect_then hs₆ fun _ s₇ hs₇ => ?_
  refine spanFrom_then fun _ => succeeds_pure ⟨?_, hs₇⟩
  simp only [Expr.edit, Edit.forget_span, hp', ht', he']

theorem reads_param (hl : l.ReadsBack spell n) (p : Param) (hn : p.kinds.length ≤ n) :
    Reads (param l) Param.bare p.bare p.kinds (· ≠ .punct .colon) := by
  intro s k ls hs hk
  rw [Param.kinds, List.length_cons] at hn
  rw [Param.kinds, List.cons_append] at hs
  simp only [param, Production.param, monadLift_self]
  refine peek_then hs fun start s₁ _ hs₁ => ?_
  refine (succeeds_identifier hs₁).andThen fun s₂ hs₂ => ?_
  refine (reads_optionalType hl _ (by omega)).andThen hs₂ hk fun t s₃ ht hs₃ => ?_
  refine spanFrom_then fun _ => succeeds_pure ⟨?_, hs₃⟩
  rw [Param.bare_mk, ht]
  rfl

theorem reads_params (hl : l.ReadsBack spell n) {ps : List Param}
    (hn : (commas (ps.map Param.kinds)).length ≤ n) :
    Reads (items (.punct .rparen) (param l) l.rounds) (List.map Param.bare) (ps.map Param.bare)
      (commas (ps.map Param.kinds)) (· = .punct .rparen) := by
  refine reads_list (by decide) hl.rounds hn (fun p _ hle => ?_) (fun p _ => ?_)
  · refine (reads_param hl p hle).mono fun k hk => ?_
    rcases hk with rfl | rfl <;> decide
  · exact ⟨_, _, rfl, by simp⟩

theorem reads_body (hl : l.ReadsBack spell n) {b : Body} (hwf : b.WellFormed spell)
    (hn : (b.kinds spell).length ≤ n) :
    Reads (body l) Body.bare b.bare (b.kinds spell) Closes := by
  intro s k ls hs hk
  simp only [body, Production.body, monadLift_self]
  cases b with
  | expr _ e =>
    rw [Body.WellFormed] at hwf
    rw [Body.kinds, List.length_cons] at hn
    rw [Body.kinds, List.cons_append] at hs
    refine peek_then hs fun start s₁ _ hs₁ => ?_
    refine accept_then hs₁ fun s₂ hs₂ => ?_
    refine (hl.expr e hwf (by omega)).andThen hs₂ hk fun e' s₃ he' hs₃ => ?_
    refine spanFrom_then fun _ => succeeds_pure ⟨?_, hs₃⟩
    simp only [Body.edit, Edit.forget_span, he']
  | block _ ss =>
    rw [Body.WellFormed] at hwf
    simp only [Body.kinds, List.length_cons, List.length_append, List.length_nil] at hn
    simp only [Body.kinds, List.cons_append, List.append_assoc, List.nil_append] at hs
    refine peek_then hs fun start s₁ _ hs₁ => ?_
    refine refuse_then hs₁ (by simp) fun s₂ hs₂ => ?_
    refine accept_then hs₂ fun s₃ hs₃ => ?_
    refine (hl.stmts ss hwf (by omega)).andThen hs₃ (.inl rfl) fun ss' s₄ hss' hs₄ => ?_
    refine expect_then hs₄ fun _ s₅ hs₅ => ?_
    refine spanFrom_then fun _ => succeeds_pure ⟨?_, hs₅⟩
    simp only [Body.edit, Edit.forget_span, hss']

theorem reads_function (hl : l.ReadsBack spell n) {span : Span} {ps : List Param}
    {r : Option TypeExpr} {b : Body} (hwf : (Expr.function span ps r b).WellFormed spell)
    (hn : ((Expr.function span ps r b).kinds spell).length ≤ n + 1) :
    Reads (function l) Expr.bare (Expr.function span ps r b).bare
      ((Expr.function span ps r b).kinds spell) Closes := by
  intro s k ls hs hk
  rw [Expr.WellFormed] at hwf
  simp only [Expr.kinds, List.length_cons, List.length_append] at hn
  simp only [Expr.kinds, List.cons_append, List.append_assoc] at hs
  -- A body begins with a mark of its own, so the result type ends before it.
  obtain ⟨k₀, ks₀, hb, hk₀⟩ : ∃ k ks, b.kinds spell = k :: ks ∧ k ≠ .punct .colon := by
    cases b <;> exact ⟨_, _, by rw [Body.kinds], by simp⟩
  refine expect_then hs fun start s₁ hs₁ => ?_
  refine expect_then hs₁ fun _ s₂ hs₂ => ?_
  refine (reads_params hl (by omega)).andThen hs₂ rfl fun ps' s₃ hps' hs₃ => ?_
  refine expect_then hs₃ fun _ s₄ hs₄ => ?_
  rw [hb, List.cons_append] at hs₄
  refine (reads_optionalType hl r (by omega)).andThen hs₄ hk₀ fun r' s₅ hr' hs₅ => ?_
  rw [← List.cons_append, ← hb] at hs₅
  refine (reads_body hl hwf (by omega)).andThen hs₅ hk fun b' s₆ hb' hs₆ => ?_
  refine spanFrom_then fun _ => succeeds_pure ⟨?_, hs₆⟩
  simp only [Expr.edit, Edit.forget_span, Edit.forget_result, hps', hr', hb']

/-- A literal in brackets reads back if its items do. -/
theorem reads_bracketed {item : ReadM α} {bare : α → α} {opening closing : Punct}
    {node : Span → List α → Expr} {rounds : Nat} {xs : List α}
    (hitems : Reads (items closing item rounds) (List.map bare) (xs.map bare) ks
      (· = .punct closing))
    (hnode : ∀ span xs, (node span xs).bare = node Span.origin (xs.map bare)) (span : Span) :
    Reads (bracketed opening closing node item rounds) Expr.bare (node span xs).bare
      (.punct opening :: (ks ++ [.punct closing])) fun _ => True := by
  intro s k ls hs _
  rw [List.cons_append, List.append_assoc] at hs
  refine expect_then hs fun start s₁ hs₁ => ?_
  refine hitems.andThen hs₁ rfl fun xs' s₂ hxs' hs₂ => ?_
  refine expect_then hs₂ fun _ s₃ hs₃ => ?_
  refine spanFrom_then fun _ => succeeds_pure ⟨?_, hs₃⟩
  rw [hnode, hnode, hxs']

theorem reads_array (hl : l.ReadsBack spell n) {span : Span} {es : List Expr}
    (hwf : (Expr.array span es).WellFormed spell)
    (hn : ((Expr.array span es).kinds spell).length ≤ n + 1) :
    Reads (array l) Expr.bare (Expr.array span es).bare ((Expr.array span es).kinds spell)
      fun _ => True := by
  rw [Expr.WellFormed, exprsWellFormed_iff] at hwf
  simp only [Expr.kinds, exprsKinds_eq_map, List.length_cons, List.length_append] at hn ⊢
  have hitems := reads_exprs hl (.punct .rbracket) (by decide) (by decide) rfl hwf (by omega)
  exact reads_bracketed hitems (fun _ _ => by simp [editExprs_eq_map]) span

theorem reads_entry (hl : l.ReadsBack spell n) {e : Entry} (hwf : e.WellFormed spell)
    (hn : (e.kinds spell).length ≤ n) :
    Reads (entry l) Entry.bare e.bare (e.kinds spell) Closes := by
  intro s k ls hs hk
  obtain ⟨_, key, value⟩ := e
  rw [Entry.WellFormed] at hwf
  simp only [Entry.kinds, List.length_cons, List.length_append] at hn
  simp only [Entry.kinds, List.cons_append, List.append_assoc] at hs
  simp only [entry, Production.entry, monadLift_self]
  refine (hl.expr key hwf.1 (by omega)).andThen hs (by decide) fun key' s₁ hkey' hs₁ => ?_
  refine expect_then hs₁ fun _ s₂ hs₂ => ?_
  refine (hl.expr value hwf.2 (by omega)).andThen hs₂ hk fun value' s₃ hvalue' hs₃ => ?_
  exact succeeds_pure ⟨by simp only [Entry.edit, Edit.forget_span, hkey', hvalue'], hs₃⟩

theorem reads_map (hl : l.ReadsBack spell n) {span : Span} {es : List Entry}
    (hwf : (Expr.map span es).WellFormed spell)
    (hn : ((Expr.map span es).kinds spell).length ≤ n + 1) :
    Reads (map l) Expr.bare (Expr.map span es).bare ((Expr.map span es).kinds spell)
      fun _ => True := by
  rw [Expr.WellFormed, entriesWellFormed_iff] at hwf
  simp only [Expr.kinds, entriesKinds_eq_map, List.length_cons, List.length_append] at hn ⊢
  have hitems : Reads (items (.punct .rbrace) (entry l) l.rounds) (List.map Entry.bare)
      (es.map Entry.bare) (commas (es.map (Entry.kinds spell))) (· = .punct .rbrace) := by
    refine reads_list (by decide) hl.rounds (by omega) (fun e he hle => ?_) (fun e _ => ?_)
    · refine (reads_entry hl (hwf e he) hle).mono fun k hk => ?_
      rcases hk with rfl | rfl <;> decide
    · obtain ⟨_, key, value⟩ := e
      obtain ⟨k, ks, hks, hk, -⟩ := @kinds_eq_cons spell key
      refine ⟨k, _, by rw [Entry.kinds, hks, List.cons_append], ?_⟩
      rintro rfl
      cases hk
  exact reads_bracketed hitems (fun _ _ => by simp [editEntries_eq_map]) span

/-! ## Parentheses -/

theorem reads_element (hl : l.ReadsBack spell n) {e : Element} (hwf : e.WellFormed spell)
    (hn : (e.kinds spell).length ≤ n) :
    Reads (element l) Element.bare e.bare (e.kinds spell)
      fun k => k = .punct .comma ∨ k = .punct .rparen := by
  intro s k ls hs hk
  have hcloses : Closes k := by rcases hk with rfl | rfl <;> decide
  obtain ⟨_, x, e⟩ := e
  rw [Element.WellFormed] at hwf
  simp only [Element.kinds, List.length_append] at hn
  rw [Element.kinds, List.append_assoc] at hs
  simp only [element, Production.element, monadLift_self]
  cases x with
  | none =>
    have hnone : DeclaresNone (e.kinds spell ++ k :: ls) :=
      declaresNone_kinds e (by rcases hk with rfl | rfl <;> rfl)
    rw [labelKinds, List.nil_append] at hs
    obtain ⟨k₀, ks₀, hkinds, -⟩ := @kinds_eq_cons spell e
    refine peek_append_then hkinds hs fun start s₁ _ hs₁ => ?_
    refine (succeeds_nameBefore_not hs₁ (hnone.noNameBefore rfl)).andThen fun s₂ hs₂ => ?_
    refine (hl.expr e hwf (by omega)).andThen hs₂ hcloses fun e' s₃ he' hs₃ => ?_
    refine spanFrom_then fun _ => succeeds_pure ⟨?_, hs₃⟩
    simp only [Element.edit, Edit.forget_span, he']
  | some x =>
    rw [labelKinds, List.cons_append, List.cons_append, List.nil_append] at hs
    refine peek_then hs fun start s₁ _ hs₁ => ?_
    refine (succeeds_nameBefore hs₁).andThen fun s₂ hs₂ => ?_
    refine (succeeds_identifier hs₂).andThen fun s₃ hs₃ => ?_
    refine expect_then hs₃ fun _ s₄ hs₄ => ?_
    refine (hl.expr e hwf (by omega)).andThen hs₄ hcloses fun e' s₅ he' hs₅ => ?_
    refine spanFrom_then fun _ => succeeds_pure ⟨?_, hs₅⟩
    simp only [Element.edit, Edit.forget_span, he']

theorem reads_elements (hl : l.ReadsBack spell n) {es : List Element}
    (hwf : ∀ e ∈ es, e.WellFormed spell)
    (hn : (commas (es.map (Element.kinds spell))).length ≤ n) :
    Reads (items (.punct .rparen) (element l) l.rounds) (List.map Element.bare)
      (es.map Element.bare) (commas (es.map (Element.kinds spell))) (· = .punct .rparen) := by
  refine reads_list (by decide) hl.rounds hn (fun e he hle => reads_element hl (hwf e he) hle) ?_
  rintro ⟨_, x, e⟩ -
  cases x with
  | none =>
    obtain ⟨k, ks, hks, hk, -⟩ := @kinds_eq_cons spell e
    refine ⟨k, ks, by rw [Element.kinds, labelKinds, List.nil_append, hks], ?_⟩
    rintro rfl
    cases hk
  | some x => exact ⟨_, _, by rw [Element.kinds, labelKinds, List.cons_append], by simp⟩

/-- More elements behind the first, or only a comma. -/
theorem tupleFrom_comma (hl : l.ReadsBack spell n) {start : Span} {first : Element}
    {es : List Element} (hwf : ∀ e ∈ es, e.WellFormed spell)
    (hn : (commas (es.map (Element.kinds spell))).length ≤ n)
    (hs : s.Offers (.punct .comma :: (commas (es.map (Element.kinds spell)) ++
      .punct .rparen :: ls))) :
    Succeeds (tupleFrom l start first) s fun e s' =>
      e.bare = .tuple Span.origin (first.bare :: es.map Element.bare) ∧ s'.Offers ls := by
  simp only [tupleFrom, Production.tupleFrom, monadLift_self]
  refine accept_then hs fun s₁ hs₁ => ?_
  refine (reads_elements hl hwf hn).andThen hs₁ rfl fun es' s₂ hes' hs₂ => ?_
  refine expect_then hs₂ fun _ s₃ hs₃ => ?_
  refine spanFrom_then fun _ => succeeds_pure ⟨?_, hs₃⟩
  simp only [Expr.edit, Edit.forget_span, editElements_eq_map, List.map_cons, hes']

theorem tupleFrom_close {start : Span} {first : Element}
    (hs : s.Offers (.punct .rparen :: ls)) :
    Succeeds (tupleFrom l start first) s fun e s' =>
      e.bare = .tuple Span.origin [first.bare] ∧ s'.Offers ls := by
  simp only [tupleFrom, Production.tupleFrom, monadLift_self]
  refine refuse_then hs (by simp) fun s₁ hs₁ => ?_
  refine expect_then hs₁ fun _ s₂ hs₂ => ?_
  refine spanFrom_then fun _ => succeeds_pure ⟨?_, hs₂⟩
  simp only [Expr.edit, Edit.forget_span, editElements_eq_map, List.map_cons, List.map_nil]

theorem name_bare (e : Element) : e.bare.name = e.name := by
  obtain ⟨_, x, e⟩ := e
  simp only [Element.edit, Edit.forget_span]

/-- A comma behind the first element makes a tuple, whether that element is named or not. -/
theorem parenthesized_comma (hl : l.ReadsBack spell n) {first : Element} (es : List Element)
    (hfirst : first.WellFormed spell) (hwf : ∀ e ∈ es, e.WellFormed spell)
    (hn : (first.kinds spell).length ≤ n)
    (hn' : (commas (es.map (Element.kinds spell))).length ≤ n)
    (hs : s.Offers (.punct .lparen :: (first.kinds spell ++ .punct .comma ::
      (commas (es.map (Element.kinds spell)) ++ .punct .rparen :: ls)))) :
    Succeeds (parenthesized l) s fun e s' =>
      e.bare = .tuple Span.origin (first.bare :: es.map Element.bare) ∧ s'.Offers ls := by
  simp only [parenthesized, Production.parenthesized, monadLift_self]
  refine expect_then hs fun start s₁ hs₁ => ?_
  refine (reads_element hl hfirst hn).andThen hs₁ (.inl rfl) fun first' s₂ hfirst' hs₂ => ?_
  rw [← hfirst']
  cases first'.name with
  | some x => exact tupleFrom_comma hl hwf hn' hs₂
  | none => exact refuse_then hs₂ (by simp) fun s₃ hs₃ => tupleFrom_comma hl hwf hn' hs₃

theorem reads_tuple (hl : l.ReadsBack spell n) {span : Span} {es : List Element}
    (hwf : (Expr.tuple span es).WellFormed spell)
    (hn : ((Expr.tuple span es).kinds spell).length ≤ n + 1) :
    Reads (parenthesized l) Expr.bare (Expr.tuple span es).bare ((Expr.tuple span es).kinds spell)
      fun _ => True := by
  intro s k ls hs _
  rw [Expr.WellFormed, elementsWellFormed_iff] at hwf
  simp only [Expr.kinds, elementsKinds_eq_map, List.length_cons, List.length_append] at hn
  simp only [Expr.kinds, elementsKinds_eq_map, List.cons_append, List.append_assoc,
    List.nil_append] at hs
  simp only [Expr.edit, Edit.forget_span, editElements_eq_map]
  match es, hwf with
  | [⟨span', none, e⟩], ⟨_, hwf⟩ =>
    simp only [List.map_cons, List.map_nil, commas, loneComma, List.cons_append,
      List.nil_append] at hn hs
    exact parenthesized_comma hl [] (hwf _ List.mem_cons_self) (by simp) (by omega)
      (by simp [commas]) hs
  | [⟨span', some x, e⟩], ⟨_, hwf⟩ =>
    simp only [List.map_cons, List.map_nil, commas, loneComma, List.nil_append] at hn hs
    have hread := reads_element hl (hwf _ List.mem_cons_self) (by omega)
    refine expect_then hs fun start s₁ hs₁ => ?_
    refine hread.andThen hs₁ (.inr rfl) fun first s₂ hfirst hs₂ => ?_
    have hname : first.name = some x := by rw [← name_bare, hfirst, name_bare]
    rw [hname, List.map_cons, List.map_nil, show Element.edit .forget _ = first.bare from hfirst.symm]
    exact tupleFrom_close hs₂
  | first :: second :: rest, ⟨_, hwf⟩ =>
    simp only [List.map_cons, commas, loneComma, List.nil_append, List.append_assoc,
      List.cons_append, List.length_append, List.length_cons] at hn hs
    exact parenthesized_comma hl (second :: rest) (hwf _ List.mem_cons_self)
      (fun e he => hwf e (List.mem_cons_of_mem _ he)) (by omega)
      (by rw [List.map_cons]; omega) hs

/-- Parentheses around an expression do not show in the tree. -/
theorem reads_parens (hl : l.ReadsBack spell n) {e : Expr} (hwf : e.WellFormed spell)
    (hn : (e.kinds spell).length ≤ n) :
    Reads (parenthesized l) Expr.bare e.bare
      (.punct .lparen :: (e.kinds spell ++ [.punct .rparen])) fun _ => True := by
  intro s k ls hs _
  simp only [List.cons_append, List.append_assoc, List.nil_append] at hs
  have hread := reads_element hl (e := ⟨Span.origin, none, e⟩) (by rwa [Element.WellFormed])
    (by rwa [Element.kinds, labelKinds, List.nil_append])
  rw [Element.kinds, labelKinds, List.nil_append] at hread
  simp only [parenthesized, Production.parenthesized, monadLift_self]
  refine expect_then hs fun start s₁ hs₁ => ?_
  refine hread.andThen hs₁ (.inr rfl) fun first s₂ hfirst hs₂ => ?_
  obtain ⟨span, x, e'⟩ := first
  simp only [Element.edit, Edit.forget_span, Element.mk.injEq, true_and] at hfirst
  obtain ⟨rfl, he'⟩ := hfirst
  refine accept_then hs₂ fun s₃ hs₃ => ?_
  refine spanFrom_then fun _ => succeeds_pure ⟨?_, hs₃⟩
  rw [bare_withSpan]
  exact he'

/-! ## Operands -/

theorem orFail_then {γ : Type} {span : Span} {a : α} {f : α → ReadM γ} {Q : γ → Stream → Prop}
    (hf : Succeeds (f a) s Q) : Succeeds (orFail span (.ok a) >>= f) s Q := by
  obtain ⟨c, s', hrun, hq⟩ := hf
  exact ⟨c, s', runs_bind.mpr ⟨a, s, runs_orFail.mpr ⟨rfl, rfl⟩, hrun⟩, hq⟩

theorem reads_atom {e : Expr} (hatomic : e.isAtomic = true) (hwf : e.WellFormed spell) :
    Reads atom Expr.bare e.bare (e.kinds spell) fun _ => True := by
  intro s k ls hs _
  unfold atom
  cases e with
  | literal _ v =>
    rw [Expr.WellFormed] at hwf
    rw [Expr.kinds] at hs
    refine next_then hs fun t s₁ ht hs₁ => ?_
    rw [ht]
    split
    · next x hx => exact absurd hx (literal_kind_ne_identifier v x)
    · rw [ofKind_kind hwf]
      exact orFail_then (succeeds_pure ⟨by simp only [Expr.edit, Edit.forget_span], hs₁⟩)
  | var _ x =>
    rw [Expr.kinds] at hs
    refine next_then hs fun t s₁ ht hs₁ => ?_
    rw [ht]
    exact succeeds_pure ⟨by simp only [Expr.edit, Edit.forget_span], hs₁⟩
  | _ => cases hatomic

theorem atomic_kinds {e : Expr} (hatomic : e.isAtomic = true) :
    ∃ k, e.kinds spell = [k] ∧
      (k = .keyword .trueKw ∨ k = .keyword .falseKw ∨ ∃ c x, k = .text c x) := by
  cases e with
  | literal _ v =>
    refine ⟨v.kind spell, by rw [Expr.kinds], ?_⟩
    fun_cases Literal.kind <;> simp
  | var _ x => exact ⟨.text .identifier x, by rw [Expr.kinds], .inr (.inr ⟨_, _, rfl⟩)⟩
  | _ => cases hatomic

/-- An operand in its parentheses needs nothing from the token behind it. -/
theorem reads_primary_guarded (hl : l.ReadsBack spell n) {e : Expr} (hwf : e.WellFormed spell)
    (hn : (guarded e.isAtomic (e.kinds spell)).length ≤ n + 1) :
    Reads (primary l) Expr.bare e.bare (guarded e.isAtomic (e.kinds spell)) fun _ => True := by
  intro s k ls hs _
  simp only [primary, Production.primary, monadLift_self]
  cases hatomic : e.isAtomic with
  | true =>
    have hatom := @reads_atom spell e hatomic hwf
    obtain ⟨k₀, hkinds, hk₀⟩ := @atomic_kinds spell e hatomic
    rw [hatomic, guarded, if_pos rfl, hkinds] at hs
    rw [hkinds] at hatom
    refine peek_then hs fun t s₁ ht hs₁ => ?_
    rw [ht]
    rcases hk₀ with rfl | rfl | ⟨c, x, rfl⟩ <;> exact hatom hs₁ trivial
  | false =>
    simp only [hatomic, guarded, Bool.false_eq_true, if_false, List.length_cons,
      List.length_append] at hn
    rw [hatomic, guarded, if_neg Bool.false_ne_true] at hs
    have hparens := reads_parens hl hwf (by omega)
    refine peek_then hs fun t s₁ ht hs₁ => ?_
    rw [ht]
    exact hparens hs₁ trivial

theorem suffixes_end {e : Expr} {rounds : Nat} (hrounds : 0 < rounds) (hk : NoSuffix k)
    {Q : Expr → Stream → Prop} (hs : s.Offers (k :: ls))
    (hq : ∀ s', s'.Offers (k :: ls) → Q e s') : Succeeds (suffixes l rounds e) s Q := by
  obtain ⟨hparen, hbracket, hdot⟩ := hk
  obtain ⟨rounds, rfl⟩ : ∃ m, rounds = m + 1 := ⟨rounds - 1, by omega⟩
  simp only [suffixes, Production.suffixes, monadLift_self]
  refine refuse_then hs hparen fun s₁ hs₁ => ?_
  refine refuse_then hs₁ hbracket fun s₂ hs₂ => ?_
  refine refuse_then hs₂ hdot fun s₃ hs₃ => ?_
  exact succeeds_pure (hq s₃ hs₃)

/-- A primary expression is an operand where no suffix follows. -/
theorem Reads.operand_of_primary {b : Expr} {Next : Kind → Prop} (hl : l.ReadsBack spell n)
    (hprimary : Reads (primary l) Expr.bare b ks Next) :
    Reads (operand l) Expr.bare b ks fun k => Next k ∧ NoSuffix k := by
  intro s k ls hs hk
  have hrounds : 0 < l.rounds := Nat.zero_lt_of_lt hl.rounds
  refine hprimary.andThen hs hk.1 fun e' s₁ he' hs₁ => ?_
  exact suffixes_end hrounds hk.2 hs₁ fun s₂ hs₂ => ⟨he', hs₂⟩

theorem reads_operand_guarded (hl : l.ReadsBack spell n) {e : Expr} (hwf : e.WellFormed spell)
    (hn : (guarded e.isAtomic (e.kinds spell)).length ≤ n + 1) :
    Reads (operand l) Expr.bare e.bare (guarded e.isAtomic (e.kinds spell)) NoSuffix :=
  ((reads_primary_guarded hl hwf hn).operand_of_primary hl).mono fun _ hk => ⟨trivial, hk⟩

/-- A base with one suffix behind it, where `hsuffix` says what one round makes of the base. -/
theorem reads_operand_suffix (hl : l.ReadsBack spell n) {base : Expr} {b : Expr}
    (hwf : base.WellFormed spell)
    (hn : (guarded base.isAtomic (base.kinds spell) ++ k :: ks).length ≤ n + 1)
    (hsuffix : ∀ ⦃base' s k' ls⦄ (rounds : Nat) {Q : Expr → Stream → Prop},
      base'.bare = base.bare → s.Offers (k :: (ks ++ k' :: ls)) →
      (∀ e s', e.bare = b → s'.Offers (k' :: ls) → Succeeds (suffixes l rounds e) s' Q) →
      Succeeds (suffixes l (rounds + 1) base') s Q) :
    Reads (operand l) Expr.bare b (guarded base.isAtomic (base.kinds spell) ++ k :: ks)
      NoSuffix := by
  intro s k' ls hs hk'
  rw [List.append_assoc, List.cons_append] at hs
  simp only [List.length_append, List.length_cons] at hn
  have hpos : 0 < (guarded base.isAtomic (base.kinds spell)).length :=
    Nat.lt_of_lt_of_le (kinds_length_pos base) (length_kinds_le_guarded base)
  have hrounds := hl.rounds
  obtain ⟨m, hm⟩ : ∃ m, l.rounds = m + 1 + 1 := ⟨l.rounds - 2, by omega⟩
  have hprimary := reads_primary_guarded hl hwf (by omega)
  unfold operand Production.operand
  refine hprimary.andThen hs trivial fun base' s₁ hbase hs₁ => ?_
  rw [hm]
  refine hsuffix (m + 1) hbase hs₁ fun e s₂ he hs₂ => ?_
  exact suffixes_end (Nat.succ_pos m) hk' hs₂ fun s₃ hs₃ => ⟨he, hs₃⟩

theorem reads_call (hl : l.ReadsBack spell n) {span : Span} {f : Expr} {es : List Expr}
    (hwf : (Expr.call span f es).WellFormed spell)
    (hn : ((Expr.call span f es).kinds spell).length ≤ n + 1) :
    Reads (operand l) Expr.bare (Expr.call span f es).bare ((Expr.call span f es).kinds spell)
      NoSuffix := by
  rw [Expr.WellFormed, exprsWellFormed_iff] at hwf
  rw [Expr.kinds, exprsKinds_eq_map] at hn ⊢
  refine reads_operand_suffix hl hwf.1 hn fun f' s k' ls rounds Q hf hs hq => ?_
  simp only [List.length_append, List.length_cons] at hn
  simp only [suffixes, Production.suffixes, monadLift_self]
  refine accept_then hs fun s₁ hs₁ => ?_
  refine (reads_arguments hl hwf.2 (by omega)).andThen hs₁ trivial fun es' s₂ hes' hs₂ => ?_
  refine spanFrom_then fun _ => hq _ s₂ ?_ hs₂
  simp only [Expr.edit, Edit.forget_span, editExprs_eq_map, hf, hes']

theorem reads_index (hl : l.ReadsBack spell n) {span : Span} {t i : Expr}
    (hwf : (Expr.index span t i).WellFormed spell)
    (hn : ((Expr.index span t i).kinds spell).length ≤ n + 1) :
    Reads (operand l) Expr.bare (Expr.index span t i).bare ((Expr.index span t i).kinds spell)
      NoSuffix := by
  rw [Expr.WellFormed] at hwf
  rw [Expr.kinds] at hn ⊢
  refine reads_operand_suffix hl hwf.1 hn fun t' s k' ls rounds Q ht hs hq => ?_
  simp only [List.length_append, List.length_cons] at hn
  rw [List.append_assoc, List.singleton_append] at hs
  simp only [suffixes, Production.suffixes, monadLift_self]
  refine refuse_then hs (by simp) fun s₁ hs₁ => ?_
  refine accept_then hs₁ fun s₂ hs₂ => ?_
  refine (hl.expr i hwf.2 (by omega)).andThen hs₂ (by decide) fun i' s₃ hi' hs₃ => ?_
  refine expect_then hs₃ fun _ s₄ hs₄ => ?_
  refine spanFrom_then fun _ => hq _ s₄ ?_ hs₄
  simp only [Expr.edit, Edit.forget_span, ht, hi']

/-- The dot of a field access, and what stands behind it. -/
theorem reads_selector (hl : l.ReadsBack spell n) {t b : Expr} {selected : Kind}
    (hwf : t.WellFormed spell)
    (hn : (guarded t.isAtomic (t.kinds spell) ++ [.punct .dot, selected]).length ≤ n + 1)
    (hselector : ∀ ⦃t' s ls⦄, t'.bare = t.bare → s.Offers (selected :: ls) →
      Succeeds (selector t') s fun e s' => e.bare = b ∧ s'.Offers ls) :
    Reads (operand l) Expr.bare b
      (guarded t.isAtomic (t.kinds spell) ++ [.punct .dot, selected]) NoSuffix := by
  refine reads_operand_suffix hl hwf hn fun t' s k' ls rounds Q ht hs hq => ?_
  simp only [suffixes, Production.suffixes, monadLift_self]
  refine refuse_then hs (by simp) fun s₁ hs₁ => ?_
  refine refuse_then hs₁ (by simp) fun s₂ hs₂ => ?_
  refine accept_then hs₂ fun s₃ hs₃ => ?_
  exact (hselector ht hs₃).bind fun e s₄ h => hq e s₄ h.1 h.2

theorem reads_field (hl : l.ReadsBack spell n) {span : Span} {t : Expr} {x : String}
    (hwf : (Expr.field span t x).WellFormed spell)
    (hn : ((Expr.field span t x).kinds spell).length ≤ n + 1) :
    Reads (operand l) Expr.bare (Expr.field span t x).bare ((Expr.field span t x).kinds spell)
      NoSuffix := by
  rw [Expr.WellFormed] at hwf
  rw [Expr.kinds] at hn ⊢
  refine reads_selector hl hwf hn fun t' s ls ht hs => ?_
  refine next_then hs fun tok s₁ htok hs₁ => ?_
  rw [htok]
  refine spanFrom_then fun _ => succeeds_pure ⟨?_, hs₁⟩
  simp only [Expr.edit, Edit.forget_span, ht]

theorem reads_ordinal (hl : l.ReadsBack spell n) {span : Span} {t : Expr} {i : Nat}
    (hwf : (Expr.ordinal span t i).WellFormed spell)
    (hn : ((Expr.ordinal span t i).kinds spell).length ≤ n + 1) :
    Reads (operand l) Expr.bare (Expr.ordinal span t i).bare ((Expr.ordinal span t i).kinds spell)
      NoSuffix := by
  rw [Expr.WellFormed] at hwf
  rw [Expr.kinds] at hn ⊢
  refine reads_selector hl hwf.1 hn fun t' s ls ht hs => ?_
  refine next_then hs fun tok s₁ htok hs₁ => ?_
  rw [htok]
  simp only [String.toList_ofList, readOrdinal_decimalDigits hwf.2]
  refine orFail_then (spanFrom_then fun _ => succeeds_pure ⟨?_, hs₁⟩)
  simp only [Expr.edit, Edit.forget_span, ht]

/-! ## Expressions -/

/-- A first token that only one primary expression begins with. -/
theorem reads_primary_of {b : Expr} {m : ReadM Expr} {Next : Kind → Prop}
    (hm : Reads m Expr.bare b (k :: ks) Next)
    (hdispatch : (k, m) ∈ [(.keyword .ifKw, conditional l), (.keyword .funcKw, function l),
      (.punct .lbracket, array l), (.punct .lbrace, map l), (.punct .lparen, parenthesized l)]) :
    Reads (primary l) Expr.bare b (k :: ks) Next := by
  intro s k' ls hs hk'
  simp only [primary, Production.primary, monadLift_self]
  refine peek_then hs fun t s₁ ht hs₁ => ?_
  rw [ht]
  simp only [List.mem_cons, Prod.mk.injEq, List.not_mem_nil, or_false] at hdispatch
  rcases hdispatch with ⟨rfl, rfl⟩ | ⟨rfl, rfl⟩ | ⟨rfl, rfl⟩ | ⟨rfl, rfl⟩ | ⟨rfl, rfl⟩ <;>
    exact hm hs₁ hk'

/-- An expression that is not an operator applied to operands is an operand itself. -/
theorem reads_operand (hl : l.ReadsBack spell n) {e : Expr} (hwf : e.WellFormed spell)
    (hn : (e.kinds spell).length ≤ n + 1)
    (hbinary : ∀ span op left right, e ≠ .binary span op left right) :
    Reads (operand l) Expr.bare e.bare (e.kinds spell) Closes := by
  have hnext : ∀ k, Closes k → True ∧ NoSuffix k := fun k hk => ⟨trivial, hk.2⟩
  cases e with
  | literal span v => exact (reads_operand_guarded hl hwf hn).mono fun k hk => hk.2
  | var span x => exact (reads_operand_guarded hl hwf hn).mono fun k hk => hk.2
  | binary span op left right => exact absurd rfl (hbinary span op left right)
  | conditional span p t e =>
    have hread := reads_conditional hl hwf hn
    rw [Expr.kinds] at hread ⊢
    exact ((reads_primary_of hread (by simp)).operand_of_primary hl).mono hnext
  | function span ps r b =>
    have hread := reads_function hl hwf hn
    rw [Expr.kinds] at hread ⊢
    exact ((reads_primary_of hread (by simp)).operand_of_primary hl).mono fun k hk => ⟨hk, hk.2⟩
  | array span es =>
    have hread := reads_array hl hwf hn
    rw [Expr.kinds] at hread ⊢
    exact ((reads_primary_of hread (by simp)).operand_of_primary hl).mono hnext
  | map span es =>
    have hread := reads_map hl hwf hn
    rw [Expr.kinds] at hread ⊢
    exact ((reads_primary_of hread (by simp)).operand_of_primary hl).mono hnext
  | tuple span es =>
    have hread := reads_tuple hl hwf hn
    rw [Expr.kinds] at hread ⊢
    exact ((reads_primary_of hread (by simp)).operand_of_primary hl).mono hnext
  | call span f es => exact (reads_call hl hwf hn).mono fun k hk => hk.2
  | index span t i => exact (reads_index hl hwf hn).mono fun k hk => hk.2
  | field span t x => exact (reads_field hl hwf hn).mono fun k hk => hk.2
  | ordinal span t i => exact (reads_ordinal hl hwf hn).mono fun k hk => hk.2

theorem operators_end {least rounds : Nat} {compared : Bool} {left : Expr} (hrounds : 0 < rounds)
    (hk : Closes k) {Q : Expr → Stream → Prop} (hs : s.Offers (k :: ls))
    (hq : ∀ s', s'.Offers (k :: ls) → Q left s') :
    Succeeds (operators l least rounds compared left) s Q := by
  obtain ⟨rounds, rfl⟩ : ∃ m, rounds = m + 1 := ⟨rounds - 1, by omega⟩
  simp only [operators, Production.operators, monadLift_self]
  refine peek_then hs fun t s₁ ht hs₁ => ?_
  rw [ht, hk.1]
  exact succeeds_pure (hq s₁ hs₁)

theorem reads_expr_guarded (hl : l.ReadsBack spell n) (least : Nat) {e : Expr}
    (hwf : e.WellFormed spell) (hn : (guarded e.isAtomic (e.kinds spell)).length ≤ n + 1) :
    Reads (expr l least) Expr.bare e.bare (guarded e.isAtomic (e.kinds spell)) Closes := by
  intro s k ls hs hk
  have hrounds : 0 < l.rounds := Nat.zero_lt_of_lt hl.rounds
  unfold expr Production.expr
  refine (reads_operand_guarded hl hwf hn).andThen hs hk.2 fun e' s₁ he' hs₁ => ?_
  exact operators_end hrounds hk hs₁ fun s₂ hs₂ => ⟨he', hs₂⟩

theorem ofKind?_kind (op : Operator) : Operator.ofKind? op.kind = some op := by
  cases op <;> rfl

theorem reads_expr (hl : l.ReadsBack spell n) {e : Expr} (hwf : e.WellFormed spell)
    (hn : (e.kinds spell).length ≤ n + 1) :
    Reads (expr l 0) Expr.bare e.bare (e.kinds spell) Closes := by
  intro s k ls hs hk
  have hrounds := hl.rounds
  unfold expr Production.expr
  by_cases hbinary : ∃ span op left right, e = .binary span op left right
  · obtain ⟨span, op, left, right, rfl⟩ := hbinary
    rw [Expr.WellFormed] at hwf
    simp only [Expr.kinds, List.length_append, List.length_cons] at hn
    rw [Expr.kinds, List.append_assoc, List.cons_append] at hs
    have hpos : 0 < (guarded left.isAtomic (left.kinds spell)).length :=
      Nat.lt_of_lt_of_le (kinds_length_pos left) (length_kinds_le_guarded left)
    obtain ⟨m, hm⟩ : ∃ m, l.rounds = m + 1 + 1 := ⟨l.rounds - 2, by
      have := @kinds_length_pos spell right
      have := @length_kinds_le_guarded spell right
      omega⟩
    have hleft := reads_operand_guarded hl hwf.1 (by omega)
    have hright := hl.operand (op.precedence + 1) right hwf.2 (by omega)
    refine hleft.andThen hs (noSuffix_operator op) fun left' s₁ hleft' hs₁ => ?_
    rw [hm, operators]
    refine peek_then hs₁ fun t s₂ ht hs₂ => ?_
    rw [ht, ofKind?_kind op]
    simp only [Nat.not_lt_zero, if_false]
    refine next_then hs₂ fun _ s₃ _ hs₃ => ?_
    rw [Bool.false_and, if_neg Bool.false_ne_true]
    refine hright.andThen hs₃ hk fun right' s₄ hright' hs₄ => ?_
    refine operators_end (Nat.succ_pos m) hk hs₄ fun s₅ hs₅ => ⟨?_, hs₅⟩
    simp only [Expr.edit, Edit.forget_span, hleft', hright']
  · have hoperand := reads_operand hl hwf hn fun span op left right h =>
      hbinary ⟨span, op, left, right, h⟩
    refine hoperand.andThen hs hk fun e' s₁ he' hs₁ => ?_
    exact operators_end (Nat.zero_lt_of_lt hrounds) hk hs₁ fun s₂ hs₂ => ⟨he', hs₂⟩

end

end ExprCheck.Grammar
