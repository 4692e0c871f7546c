import Mathlib
import ExprCheck.Proofs.ExprReadBack

/-!
# Reading programs back

The tokens that write statements, declarations and whole programs are read as these trees, up to the
text their nodes cover. A level of nesting reads back everything that is written with as many tokens
as there are levels inside it, and the outermost level has one for every token of the text.
-/

namespace ExprCheck

namespace Grammar

open ReadM

variable {α β : Type} {s : Stream} {k : Kind} {ks ls : List Kind} {spell : Float → List Char}

section

variable {l : Level} {n : Nat}

/-! ## Declarations and statements -/

theorem reads_declaration (hl : l.ReadsBack spell n) {d : Declaration} (hwf : d.WellFormed spell)
    (hn : (d.kinds spell).length ≤ n + 1) :
    Reads (declaration l) Declaration.bare d.bare (d.kinds spell) Closes := by
  intro s k ls hs hk
  obtain ⟨_, x, t, e⟩ := d
  rw [Declaration.WellFormed] at hwf
  simp only [Declaration.kinds, List.length_cons, List.length_append] at hn
  simp only [Declaration.kinds, List.cons_append, List.append_assoc] at hs
  simp only [declaration, Production.declaration, monadLift_self]
  refine peek_then hs fun start s₁ _ hs₁ => ?_
  refine (succeeds_identifier hs₁).andThen fun s₂ hs₂ => ?_
  refine (reads_optionalType hl t (by omega)).andThen hs₂ (by simp) fun t' s₃ ht' hs₃ => ?_
  refine expect_then hs₃ fun _ s₄ hs₄ => ?_
  refine (hl.expr e hwf (by omega)).andThen hs₄ hk fun e' s₅ he' hs₅ => ?_
  refine spanFrom_then fun _ => succeeds_pure ⟨?_, hs₅⟩
  simp only [Declaration.edit, Edit.forget_span, Edit.forget_declared, ht', he']

theorem succeeds_atDeclaration {d : Declaration} (hs : s.Offers (d.kinds spell ++ ls)) :
    Succeeds atDeclaration s fun b s' => b = true ∧ s'.Offers (d.kinds spell ++ ls) := by
  obtain ⟨_, x, t, e⟩ := d
  simp only [Declaration.kinds, List.cons_append, List.append_assoc] at hs ⊢
  unfold atDeclaration
  cases t with
  | none =>
    rw [optTypeKinds, List.nil_append] at hs ⊢
    exact (succeeds_nameBefore hs).andThen fun s₁ hs₁ => succeeds_pure ⟨rfl, hs₁⟩
  | some t =>
    rw [optTypeKinds, List.cons_append] at hs ⊢
    have hnot : NoNameBefore (.keyword .isKw) (.text .identifier x :: .punct .colon ::
        (t.kinds ++ .keyword .isKw :: (e.kinds spell ++ ls))) :=
      ⟨_, _, rfl, fun _ _ => ⟨_, _, rfl, by simp⟩⟩
    exact (succeeds_nameBefore_not hs hnot).andThen fun s₁ hs₁ => succeeds_nameBefore hs₁

theorem succeeds_atDeclaration_not (hs : s.Offers ks) (hnone : DeclaresNone ks) :
    Succeeds atDeclaration s fun b s' => b = false ∧ s'.Offers ks := by
  unfold atDeclaration
  refine (succeeds_nameBefore_not hs (hnone.noNameBefore rfl)).andThen fun s₁ hs₁ => ?_
  exact succeeds_nameBefore_not hs₁ (hnone.noNameBefore rfl)

/-- A loop has a variable exactly if its name has `in` behind it. -/
theorem binder_then {Q : β → Stream → Prop} {f : Option String → ReadM β} (x : Option String)
    (e : Expr) (hk : marksName k = false)
    (hs : s.Offers (binderKinds x ++ (e.kinds spell ++ k :: ls)))
    (hf : ∀ s', s'.Offers (e.kinds spell ++ k :: ls) → Succeeds (f x) s' Q) :
    Succeeds (do
      let name ←
        if ← nameBefore (.keyword .inKw) then
          let name ← identifier
          let _ ← expect (.keyword .inKw)
          pure (some name)
        else
          pure none
      f name) s Q := by
  cases x with
  | none =>
    rw [binderKinds, List.nil_append] at hs
    have hnone : DeclaresNone (e.kinds spell ++ k :: ls) := declaresNone_kinds e hk
    exact (succeeds_nameBefore_not hs (hnone.noNameBefore rfl)).andThen hf
  | some x =>
    rw [binderKinds, List.cons_append, List.cons_append, List.nil_append] at hs
    refine (succeeds_nameBefore hs).andThen fun s₁ hs₁ => ?_
    refine (succeeds_identifier hs₁).andThen fun s₂ hs₂ => ?_
    exact expect_then hs₂ fun _ s₃ hs₃ => hf s₃ hs₃

theorem reads_header (hl : l.ReadsBack spell n) {h : Header} (hwf : h.WellFormed spell)
    (hn : (h.kinds spell).length ≤ n + 1) :
    Reads (header l) Header.bare h.bare (h.kinds spell) (· = .keyword .loopKw) := by
  rintro s _ ls hs rfl
  simp only [header, Production.header, monadLift_self]
  cases h with
  | items _ x e =>
    rw [Header.WellFormed] at hwf
    simp only [Header.kinds, List.length_cons, List.length_append] at hn
    simp only [Header.kinds, List.cons_append, List.append_assoc] at hs
    refine peek_then hs fun start s₁ _ hs₁ => ?_
    refine accept_then hs₁ fun s₂ hs₂ => ?_
    refine binder_then x e rfl hs₂ fun s₃ hs₃ => ?_
    refine (hl.expr e hwf (by omega)).andThen hs₃ (by decide) fun e' s₄ he' hs₄ => ?_
    refine refuse_then hs₄ (by simp) fun s₅ hs₅ => ?_
    refine spanFrom_then fun _ => succeeds_pure ⟨?_, hs₅⟩
    simp only [Header.edit, Edit.forget_span, he']
  | range _ x a b =>
    rw [Header.WellFormed] at hwf
    simp only [Header.kinds, List.length_cons, List.length_append] at hn
    simp only [Header.kinds, List.cons_append, List.append_assoc] at hs
    refine peek_then hs fun start s₁ _ hs₁ => ?_
    refine accept_then hs₁ fun s₂ hs₂ => ?_
    refine binder_then x a rfl hs₂ fun s₃ hs₃ => ?_
    refine (hl.expr a hwf.1 (by omega)).andThen hs₃ (by decide) fun a' s₄ ha' hs₄ => ?_
    refine accept_then hs₄ fun s₅ hs₅ => ?_
    refine (hl.expr b hwf.2 (by omega)).andThen hs₅ (by decide) fun b' s₆ hb' hs₆ => ?_
    refine spanFrom_then fun _ => succeeds_pure ⟨?_, hs₆⟩
    simp only [Header.edit, Edit.forget_span, ha', hb']
  | condition _ c =>
    rw [Header.WellFormed] at hwf
    rw [Header.kinds, List.length_cons] at hn
    rw [Header.kinds, List.cons_append] at hs
    refine peek_then hs fun start s₁ _ hs₁ => ?_
    refine refuse_then hs₁ (by simp) fun s₂ hs₂ => ?_
    refine expect_then hs₂ fun _ s₃ hs₃ => ?_
    refine (hl.expr c hwf (by omega)).andThen hs₃ (by decide) fun c' s₄ hc' hs₄ => ?_
    refine spanFrom_then fun _ => succeeds_pure ⟨?_, hs₄⟩
    simp only [Header.edit, Edit.forget_span, hc']

/-- An expression does not begin where a return ends. -/
theorem succeeds_atReturnEnd_not (e : Expr) (hs : s.Offers (e.kinds spell ++ ls)) :
    Succeeds atReturnEnd s fun b s' => b = false ∧ s'.Offers (e.kinds spell ++ ls) := by
  obtain ⟨k, ks, hkinds, hk, -⟩ := @kinds_eq_cons spell e
  unfold atReturnEnd
  refine peek_append_then hkinds hs fun t s₁ ht hs₁ => ?_
  rw [ht]
  split
  · cases hk
  · cases hk
  · cases hk
  · exact succeeds_pure ⟨rfl, hs₁⟩

theorem exprStmt_assign (hl : l.ReadsBack spell n) (start : Span) {span : Span} {t e : Expr}
    (hwf : (Stmt.assign span t e).WellFormed spell)
    (hn : ((Stmt.assign span t e).kinds spell).length ≤ n + 1) :
    Reads (exprStmt l start) Stmt.bare (Stmt.assign span t e).bare
      ((Stmt.assign span t e).kinds spell) Closes := by
  intro s k ls hs hk
  rw [Stmt.WellFormed] at hwf
  simp only [Stmt.kinds, List.length_append, List.length_cons] at hn
  rw [Stmt.kinds, List.append_assoc, List.cons_append] at hs
  have hpos := Nat.lt_of_lt_of_le (@kinds_length_pos spell t) (length_kinds_le_guarded t)
  have htarget := reads_operand_guarded hl hwf.1 (by omega)
  simp only [exprStmt, Production.exprStmt, monadLift_self]
  refine htarget.andThen hs (by decide) fun t' s₁ ht' hs₁ => ?_
  refine accept_then hs₁ fun s₂ hs₂ => ?_
  refine (hl.expr e hwf.2 (by omega)).andThen hs₂ hk fun e' s₃ he' hs₃ => ?_
  refine spanFrom_then fun _ => succeeds_pure ⟨?_, hs₃⟩
  simp only [Stmt.edit, Edit.forget_span, ht', he']

theorem exprStmt_call (hl : l.ReadsBack spell n) (start : Span) {span : Span} {f : Expr}
    {es : List Expr}
    (hwf : (Stmt.call span f es).WellFormed spell)
    (hn : ((Stmt.call span f es).kinds spell).length ≤ n + 1) :
    Reads (exprStmt l start) Stmt.bare (Stmt.call span f es).bare
      ((Stmt.call span f es).kinds spell) (· = .punct .semicolon) := by
  rintro s _ ls hs rfl
  have hcall : (Expr.call span f es).WellFormed spell := by
    rwa [Expr.WellFormed, ← Stmt.WellFormed]
  have hkinds : (Expr.call span f es).kinds spell = (Stmt.call span f es).kinds spell := by
    rw [Expr.kinds, Stmt.kinds]
  rw [← hkinds] at hs hn
  simp only [exprStmt, Production.exprStmt, monadLift_self]
  refine (reads_call hl hcall hn).andThen hs (by decide) fun call s₁ hread hs₁ => ?_
  refine refuse_then hs₁ (by simp) fun s₂ hs₂ => ?_
  cases call with
  | call _ f' es' =>
    simp only [Expr.edit, Edit.forget_span, Expr.call.injEq, true_and] at hread
    refine spanFrom_then fun _ => succeeds_pure ⟨?_, hs₂⟩
    simp only [Stmt.edit, Edit.forget_span, hread]
  | _ => simp only [Expr.edit, Edit.forget_span, reduceCtorEq] at hread

/-- A statement that begins like an operand begins with an expression. -/
theorem reads_plainStmt_of_exprStmt {b : Stmt} {Next : Kind → Prop} (hk : opensOperand k = true)
    (hread : ∀ start, Reads (exprStmt l start) Stmt.bare b (k :: ks) Next) :
    Reads (plainStmt l) Stmt.bare b (k :: ks) Next := by
  intro s k' ls hs hk'
  simp only [plainStmt, Production.plainStmt, monadLift_self]
  refine peek_then hs fun t s₁ ht hs₁ => ?_
  rw [ht]
  split
  case h_7 => exact hread _ hs₁ hk'
  all_goals cases hk

theorem reads_loop (hl : l.ReadsBack spell n) {span : Span} {h : Header} {ss : List Stmt}
    (hwf : (Stmt.loop span h ss).WellFormed spell)
    (hn : ((Stmt.loop span h ss).kinds spell).length ≤ n) :
    Reads (plainStmt l) Stmt.bare (Stmt.loop span h ss).bare
      ((Stmt.loop span h ss).kinds spell) fun _ => True := by
  intro s k ls hs _
  rw [Stmt.WellFormed] at hwf
  simp only [Stmt.kinds, List.length_append, List.length_cons, List.length_nil] at hn
  simp only [Stmt.kinds, List.cons_append, List.append_assoc, List.nil_append] at hs
  obtain ⟨k₀, ks₀, hkinds, hk₀⟩ : ∃ k ks, h.kinds spell = k :: ks ∧
      (k = .keyword .forKw ∨ k = .keyword .whileKw) := by
    cases h <;> exact ⟨_, _, by rw [Header.kinds], by simp⟩
  simp only [plainStmt, Production.plainStmt, monadLift_self]
  refine peek_append_then hkinds hs fun t s₁ ht hs₁ => ?_
  rw [ht]
  rcases hk₀ with rfl | rfl
  all_goals
    refine (reads_header hl hwf.1 (by omega)).andThen hs₁ rfl fun h' s₂ hh' hs₂ => ?_
    refine expect_then hs₂ fun _ s₃ hs₃ => ?_
    refine (hl.stmts ss hwf.2 (by omega)).andThen hs₃ (.inl rfl) fun ss' s₄ hss' hs₄ => ?_
    refine expect_then hs₄ fun _ s₅ hs₅ => ?_
    refine spanFrom_then fun _ => succeeds_pure ⟨?_, hs₅⟩
    simp only [Stmt.edit, Edit.forget_span, hh', hss']

theorem reads_returnValue (hl : l.ReadsBack spell n) {span : Span} {e : Expr}
    (hwf : e.WellFormed spell) (hn : ((Stmt.returnValue span e).kinds spell).length ≤ n + 1) :
    Reads (plainStmt l) Stmt.bare (Stmt.returnValue span e).bare
      ((Stmt.returnValue span e).kinds spell) Closes := by
  intro s k ls hs hk
  rw [Stmt.kinds, List.length_cons] at hn
  rw [Stmt.kinds, List.cons_append] at hs
  simp only [plainStmt, Production.plainStmt, monadLift_self]
  refine peek_then hs fun t s₁ ht hs₁ => ?_
  rw [ht]
  refine next_then hs₁ fun _ s₂ _ hs₂ => ?_
  refine (succeeds_atReturnEnd_not e hs₂).andThen fun s₃ hs₃ => ?_
  refine (hl.expr e hwf (by omega)).andThen hs₃ hk fun e' s₄ he' hs₄ => ?_
  refine spanFrom_then fun _ => succeeds_pure ⟨?_, hs₄⟩
  simp only [Stmt.edit, Edit.forget_span, he']

theorem reads_returnNothing {span : Span} :
    Reads (plainStmt l) Stmt.bare (Stmt.returnNothing span).bare
      ((Stmt.returnNothing span).kinds spell) (· = .punct .semicolon) := by
  rintro s _ ls hs rfl
  rw [Stmt.kinds, List.singleton_append] at hs
  simp only [plainStmt, Production.plainStmt, monadLift_self]
  refine peek_then hs fun t s₁ ht hs₁ => ?_
  rw [ht]
  refine next_then hs₁ fun _ s₂ _ hs₂ => ?_
  have hend : Succeeds atReturnEnd s₂ fun b s' =>
      b = true ∧ s'.Offers (.punct .semicolon :: ls) := by
    refine peek_then hs₂ fun t s₃ ht hs₃ => ?_
    rw [ht]
    exact succeeds_pure ⟨rfl, hs₃⟩
  refine hend.andThen fun s₄ hs₄ => ?_
  refine spanFrom_then fun _ => succeeds_pure ⟨?_, hs₄⟩
  simp only [Stmt.edit, Edit.forget_span]

theorem reads_breakLoop {span : Span} :
    Reads (plainStmt l) Stmt.bare (Stmt.breakLoop span).bare
      ((Stmt.breakLoop span).kinds spell) fun _ => True := by
  intro s k ls hs _
  rw [Stmt.kinds, List.singleton_append] at hs
  simp only [plainStmt, Production.plainStmt, monadLift_self]
  refine peek_then hs fun t s₁ ht hs₁ => ?_
  rw [ht]
  refine next_then hs₁ fun _ s₂ _ hs₂ => ?_
  refine spanFrom_then fun _ => succeeds_pure ⟨?_, hs₂⟩
  simp only [Stmt.edit, Edit.forget_span]

theorem reads_print (hl : l.ReadsBack spell n) {span : Span} {es : List Expr}
    (hwf : (Stmt.print span es).WellFormed spell)
    (hn : ((Stmt.print span es).kinds spell).length ≤ n + 1) :
    Reads (plainStmt l) Stmt.bare (Stmt.print span es).bare
      ((Stmt.print span es).kinds spell) fun _ => True := by
  intro s k ls hs _
  rw [Stmt.WellFormed, exprsWellFormed_iff] at hwf
  simp only [Stmt.kinds, exprsKinds_eq_map, List.length_append, List.length_cons] at hn
  simp only [Stmt.kinds, exprsKinds_eq_map, List.cons_append] at hs
  simp only [plainStmt, Production.plainStmt, monadLift_self]
  refine peek_then hs fun t s₁ ht hs₁ => ?_
  rw [ht]
  refine next_then hs₁ fun _ s₂ _ hs₂ => ?_
  refine expect_then hs₂ fun _ s₃ hs₃ => ?_
  refine (reads_arguments hl hwf (by omega)).andThen hs₃ trivial fun es' s₄ hes' hs₄ => ?_
  refine spanFrom_then fun _ => succeeds_pure ⟨?_, hs₄⟩
  simp only [Stmt.edit, Edit.forget_span, editExprs_eq_map, hes']

theorem reads_ifThen (hl : l.ReadsBack spell n) {span : Span} {c : Expr} {ss : List Stmt}
    (hwf : (Stmt.ifThen span c ss).WellFormed spell)
    (hn : ((Stmt.ifThen span c ss).kinds spell).length ≤ n + 1) :
    Reads (plainStmt l) Stmt.bare (Stmt.ifThen span c ss).bare
      ((Stmt.ifThen span c ss).kinds spell) fun _ => True := by
  intro s k ls hs _
  rw [Stmt.WellFormed] at hwf
  simp only [Stmt.kinds, List.length_append, List.length_cons, List.length_nil] at hn
  simp only [Stmt.kinds, List.cons_append, List.append_assoc, List.nil_append] at hs
  simp only [plainStmt, Production.plainStmt, monadLift_self]
  refine peek_then hs fun t s₁ ht hs₁ => ?_
  rw [ht]
  refine next_then hs₁ fun _ s₂ _ hs₂ => ?_
  refine (hl.expr c hwf.1 (by omega)).andThen hs₂ (by decide) fun c' s₃ hc' hs₃ => ?_
  refine expect_then hs₃ fun _ s₄ hs₄ => ?_
  refine (hl.stmts ss hwf.2 (by omega)).andThen hs₄ (.inl rfl) fun ss' s₅ hss' hs₅ => ?_
  refine refuse_then hs₅ (by simp) fun s₆ hs₆ => ?_
  refine expect_then hs₆ fun _ s₇ hs₇ => ?_
  refine spanFrom_then fun _ => succeeds_pure ⟨?_, hs₇⟩
  simp only [Stmt.edit, Edit.forget_span, hc', hss']

theorem reads_ifElse (hl : l.ReadsBack spell n) {span : Span} {c : Expr} {ss rs : List Stmt}
    (hwf : (Stmt.ifElse span c ss rs).WellFormed spell)
    (hn : ((Stmt.ifElse span c ss rs).kinds spell).length ≤ n + 1) :
    Reads (plainStmt l) Stmt.bare (Stmt.ifElse span c ss rs).bare
      ((Stmt.ifElse span c ss rs).kinds spell) fun _ => True := by
  intro s k ls hs _
  rw [Stmt.WellFormed] at hwf
  obtain ⟨hc, hss, hrs⟩ := hwf
  simp only [Stmt.kinds, List.length_append, List.length_cons, List.length_nil] at hn
  simp only [Stmt.kinds, List.cons_append, List.append_assoc, List.nil_append] at hs
  simp only [plainStmt, Production.plainStmt, monadLift_self]
  refine peek_then hs fun t s₁ ht hs₁ => ?_
  rw [ht]
  refine next_then hs₁ fun _ s₂ _ hs₂ => ?_
  refine (hl.expr c hc (by omega)).andThen hs₂ (by decide) fun c' s₃ hc' hs₃ => ?_
  refine expect_then hs₃ fun _ s₄ hs₄ => ?_
  refine (hl.stmts ss hss (by omega)).andThen hs₄ (.inr rfl) fun ss' s₅ hss' hs₅ => ?_
  refine accept_then hs₅ fun s₆ hs₆ => ?_
  refine (hl.stmts rs hrs (by omega)).andThen hs₆ (.inl rfl) fun rs' s₇ hrs' hs₇ => ?_
  refine expect_then hs₇ fun _ s₈ hs₈ => ?_
  refine spanFrom_then fun _ => succeeds_pure ⟨?_, hs₈⟩
  simp only [Stmt.edit, Edit.forget_span, hc', hss', hrs']

/-- A statement that declares nothing does not look like a declaration. -/
theorem declaresNone_stmt {stmt : Stmt} (hplain : ∀ span d, stmt ≠ .declaration span d) :
    DeclaresNone (stmt.kinds spell ++ ls) := by
  have hkeyword : ∀ (w : Keyword) (ks : List Kind), DeclaresNone (.keyword w :: ks) :=
    fun w ks => ⟨_, ks, rfl, fun _ h => by simp at h⟩
  cases stmt with
  | declaration span d => exact absurd rfl (hplain span d)
  | assign _ t e =>
    rw [Stmt.kinds, List.append_assoc, List.cons_append]
    exact declaresNone_guarded t rfl
  | call _ f es =>
    rw [Stmt.kinds, List.append_assoc, List.cons_append]
    exact declaresNone_guarded f rfl
  | loop _ h ss =>
    rw [Stmt.kinds, List.append_assoc]
    cases h <;> rw [Header.kinds, List.cons_append] <;> exact hkeyword _ _
  | _ =>
    rw [Stmt.kinds, List.cons_append]
    exact hkeyword _ _

theorem reads_plainStmt (hl : l.ReadsBack spell n) {stmt : Stmt} (hwf : stmt.WellFormed spell)
    (hn : (stmt.kinds spell).length ≤ n) (hplain : ∀ span d, stmt ≠ .declaration span d) :
    Reads (plainStmt l) Stmt.bare stmt.bare (stmt.kinds spell) (· = .punct .semicolon) := by
  have hn' : (stmt.kinds spell).length ≤ n + 1 := by omega
  have hcloses : ∀ k : Kind, k = .punct .semicolon → Closes k := by
    rintro _ rfl
    decide
  cases stmt with
  | declaration span d => exact absurd rfl (hplain span d)
  | assign span t e =>
    obtain ⟨k₀, ks₀, hkinds, hopens, -⟩ := @guarded_eq_cons spell t
    have hread := fun start => (exprStmt_assign hl start hwf hn').mono hcloses
    rw [Stmt.kinds, hkinds, List.cons_append] at hread ⊢
    exact reads_plainStmt_of_exprStmt hopens hread
  | call span f es =>
    obtain ⟨k₀, ks₀, hkinds, hopens, -⟩ := @guarded_eq_cons spell f
    have hread := fun start => exprStmt_call hl start hwf hn'
    rw [Stmt.kinds, hkinds, List.cons_append] at hread ⊢
    exact reads_plainStmt_of_exprStmt hopens hread
  | ifThen span c ss => exact (reads_ifThen hl hwf hn').mono fun _ _ => trivial
  | ifElse span c ss rs => exact (reads_ifElse hl hwf hn').mono fun _ _ => trivial
  | loop span h ss => exact (reads_loop hl hwf hn).mono fun _ _ => trivial
  | returnNothing span => exact reads_returnNothing
  | returnValue span e =>
    rw [Stmt.WellFormed] at hwf
    exact (reads_returnValue hl hwf hn').mono hcloses
  | breakLoop span => exact reads_breakLoop.mono fun _ _ => trivial
  | print span es => exact (reads_print hl hwf hn').mono fun _ _ => trivial

theorem reads_stmt (hl : l.ReadsBack spell n) {stmt : Stmt} (hwf : stmt.WellFormed spell)
    (hn : (stmt.kinds spell).length ≤ n) :
    Reads (Grammar.stmt l) Stmt.bare stmt.bare (stmt.kinds spell) (· = .punct .semicolon) := by
  rintro s _ ls hs rfl
  simp only [Grammar.stmt, Production.stmt, monadLift_self]
  by_cases hdeclaration : ∃ span d, stmt = .declaration span d
  · obtain ⟨span, d, rfl⟩ := hdeclaration
    rw [Stmt.WellFormed] at hwf
    rw [Stmt.kinds] at hn hs
    have hread := reads_declaration hl hwf (by omega)
    refine (succeeds_atDeclaration hs).andThen fun s₁ hs₁ => ?_
    refine hread.andThen hs₁ (by decide) fun d' s₂ hd' hs₂ => ?_
    exact succeeds_pure ⟨by simp only [Stmt.edit, Edit.forget_span, hd'], hs₂⟩
  · have hplain : ∀ span d, stmt ≠ .declaration span d := fun span d h =>
      hdeclaration ⟨span, d, h⟩
    refine (succeeds_atDeclaration_not hs (declaresNone_stmt hplain)).andThen fun s₁ hs₁ => ?_
    exact reads_plainStmt hl hwf hn hplain hs₁ rfl

/-- No statement begins with a token that ends a block. -/
theorem stmtKinds_eq_cons (stmt : Stmt) :
    ∃ k ks, stmt.kinds spell = k :: ks ∧ k ≠ .keyword .endKw ∧ k ≠ .keyword .elseKw ∧
      k ≠ .eof := by
  have hoperand : ∀ (e : Expr) (ks : List Kind), ∃ k ls,
      guarded e.isAtomic (e.kinds spell) ++ ks = k :: ls ∧ k ≠ .keyword .endKw ∧
        k ≠ .keyword .elseKw ∧ k ≠ .eof := by
    intro e ks
    obtain ⟨k, ls, hkinds, hopens, -⟩ := @guarded_eq_cons spell e
    refine ⟨k, ls ++ ks, by rw [hkinds, List.cons_append], ?_, ?_, ?_⟩ <;>
      · rintro rfl
        cases hopens
  cases stmt with
  | declaration _ d =>
    obtain ⟨_, x, t, e⟩ := d
    exact ⟨_, _, by rw [Stmt.kinds, Declaration.kinds], by simp⟩
  | assign _ t e =>
    rw [Stmt.kinds]
    exact hoperand t _
  | call _ f es =>
    rw [Stmt.kinds]
    exact hoperand f _
  | loop _ h ss => cases h <;> exact ⟨_, _, by rw [Stmt.kinds, Header.kinds]; rfl, by simp⟩
  | _ => exact ⟨_, _, by rw [Stmt.kinds], by simp⟩

theorem length_le_stmtsKinds (ss : List Stmt) : ss.length ≤ (stmtsKinds spell ss).length := by
  induction ss with
  | nil => simp
  | cons stmt ss ih =>
    simp only [stmtsKinds, List.length_append, List.length_cons]
    omega

theorem reads_stmts (hl : l.ReadsBack spell n) {ss : List Stmt} (hwf : StmtsWellFormed spell ss)
    (hn : (stmtsKinds spell ss).length ≤ n) {rounds : Nat} (hrounds : ss.length < rounds) :
    Reads (stmts l rounds) (editStmts .forget) (editStmts .forget ss) (stmtsKinds spell ss)
      fun k => k = .keyword .endKw ∨ k = .keyword .elseKw := by
  induction ss generalizing rounds with
  | nil =>
    intro s k ls hs hk
    obtain ⟨rounds, rfl⟩ : ∃ m, rounds = m + 1 := ⟨rounds - 1, by omega⟩
    rw [stmtsKinds, List.nil_append] at hs
    simp only [stmts, Production.stmts, monadLift_self]
    refine peek_then hs fun t s₁ ht hs₁ => ?_
    rw [ht]
    rcases hk with rfl | rfl <;> exact succeeds_pure ⟨rfl, hs₁⟩
  | cons stmt ss ih =>
    intro s k ls hs hk
    obtain ⟨rounds, rfl⟩ : ∃ m, rounds = m + 1 := ⟨rounds - 1, by omega⟩
    rw [StmtsWellFormed] at hwf
    rw [List.length_cons] at hrounds
    simp only [stmtsKinds, List.length_append, List.length_cons] at hn
    rw [stmtsKinds, List.append_assoc, List.cons_append] at hs
    obtain ⟨k₀, ks₀, hkinds, hend, helse, heof⟩ := @stmtKinds_eq_cons spell stmt
    have hstmt := reads_stmt hl hwf.1 (by omega)
    have hrest : Reads (stmts l rounds) (editStmts .forget) (editStmts .forget ss)
        (stmtsKinds spell ss) fun k => k = .keyword .endKw ∨ k = .keyword .elseKw :=
      ih hwf.2 (by omega) (by omega)
    simp only [stmts, Production.stmts, monadLift_self]
    refine peek_append_then hkinds hs fun t s₁ ht hs₁ => ?_
    rw [ht]
    split
    · exact absurd rfl hend
    · exact absurd rfl helse
    · exact absurd rfl heof
    · refine hstmt.andThen hs₁ rfl fun stmt' s₂ hstmt' hs₂ => ?_
      refine accept_then hs₂ fun s₃ hs₃ => ?_
      refine hrest.andThen hs₃ hk fun ss' s₄ hss' hs₄ => ?_
      exact succeeds_pure ⟨by simp only [editStmts, hstmt', hss'], hs₄⟩

end

/-! ## Programs -/

/-- A level with `n` levels inside it reads back whatever is written with at most `n` tokens: each
reader takes a token before it hands over to the next level. -/
theorem readsBack_level (n : Nat) : (level n).ReadsBack spell n := by
  induction n with
  | zero =>
    refine ⟨Nat.lt_succ_self 0, fun t hn => ?_, fun e _ hn => ?_, fun least e _ hn => ?_,
      fun ss _ hn => absurd hn (Nat.not_lt_zero _)⟩
    · obtain ⟨k, ks, hkinds, -⟩ := typeKinds_eq_cons t
      rw [hkinds] at hn
      exact absurd hn (Nat.not_succ_le_zero _)
    · exact absurd (@kinds_length_pos spell e) (by omega)
    · have hle := @length_kinds_le_guarded spell e
      exact absurd (@kinds_length_pos spell e) (by omega)
  | succ n ih =>
    refine ⟨by rw [level_rounds]; omega, fun t hn => reads_typeExpr ih t hn,
      fun e hwf hn => reads_expr ih hwf hn,
      fun least e hwf hn => reads_expr_guarded ih least hwf hn, fun ss hwf hn => ?_⟩
    have hlength := @length_le_stmtsKinds spell ss
    have hrounds := level_rounds n
    exact reads_stmts ih hwf (by omega) (by omega)

theorem length_le_declarationsKinds (ds : List Declaration) :
    ds.length ≤ (declarationsKinds spell ds).length := by
  induction ds with
  | nil => simp
  | cons d ds ih =>
    simp only [declarationsKinds, List.length_append, List.length_cons]
    omega

theorem succeeds_declarations {l : Level} {n : Nat} (hl : l.ReadsBack spell n)
    {ds : List Declaration} (hwf : ∀ d ∈ ds, d.WellFormed spell) {rounds : Nat}
    (hrounds : ds.length < rounds) (hn : (declarationsKinds spell ds).length ≤ n)
    (hs : s.Offers (declarationsKinds spell ds)) :
    Succeeds (declarations l rounds) s fun ds' s' =>
      ds'.map Declaration.bare = ds.map Declaration.bare ∧ s'.Offers [] := by
  induction ds generalizing s rounds with
  | nil =>
    obtain ⟨rounds, rfl⟩ : ∃ m, rounds = m + 1 := ⟨rounds - 1, by omega⟩
    rw [declarationsKinds] at hs
    simp only [declarations, Production.declarations, monadLift_self]
    refine (succeeds_peek hs).bind fun t s₁ h => ?_
    rw [h.1]
    exact succeeds_pure ⟨rfl, h.2⟩
  | cons d ds ih =>
    obtain ⟨rounds, rfl⟩ : ∃ m, rounds = m + 1 := ⟨rounds - 1, by omega⟩
    rw [List.forall_mem_cons] at hwf
    rw [List.length_cons] at hrounds
    simp only [declarationsKinds, List.length_append, List.length_cons] at hn
    rw [declarationsKinds] at hs
    have hd := reads_declaration hl hwf.1 (by omega)
    obtain ⟨k₀, ks₀, hkinds, heof⟩ : ∃ k ks, d.kinds spell = k :: ks ∧ k ≠ .eof := by
      obtain ⟨_, x, t, e⟩ := d
      exact ⟨_, _, by rw [Declaration.kinds], by simp⟩
    simp only [declarations, Production.declarations, monadLift_self]
    refine peek_append_then hkinds hs fun t s₁ ht hs₁ => ?_
    rw [ht]
    split
    · exact absurd rfl heof
    · refine hd.andThen hs₁ (by decide) fun d' s₂ hd' hs₂ => ?_
      refine accept_then hs₂ fun s₃ hs₃ => ?_
      refine (ih hwf.2 (by omega) (by omega) hs₃).bind fun ds' s₄ h => ?_
      exact succeeds_pure ⟨by rw [List.map_cons, hd', h.1, List.map_cons], h.2⟩

theorem succeeds_program {p : Program} (hwf : p.WellFormed spell) (hs : s.Offers (p.kinds spell))
    (hremaining : (p.kinds spell).length ≤ s.remaining) :
    Succeeds Program.read s fun p' _ => p'.bare = p.bare := by
  have hlength := @length_le_declarationsKinds spell p.declarations
  have hrounds := level_rounds (s.remaining + 1)
  unfold Program.kinds at hs hremaining
  unfold Program.read
  refine outermost_then ?_
  refine (succeeds_peek hs).bind fun start s₁ hs₁ => ?_
  have hread := succeeds_declarations (readsBack_level (s.remaining + 1)) hwf
    (by omega : _ < (level (s.remaining + 1)).rounds) (by omega) hs₁.2
  refine hread.bind fun ds s₂ h => ?_
  refine (succeeds_peek h.2).bind fun stop s₃ _ => ?_
  exact succeeds_pure (congrArg (Program.mk Span.origin) h.1)

/-- A text without junk is its tokens. -/
theorem exists_of_tokensOf {eof : Token} {us : List Scanned} {found : List Token}
    (h : tokensOf eof us = .ok found) : ∃ ts, us = ts.map .token ∧ found = ts ++ [eof] := by
  induction us generalizing found with
  | nil => exact ⟨[], rfl, (Except.ok.inj h).symm⟩
  | cons u us ih =>
    cases u with
    | junk text span => cases h
    | token t =>
      rw [tokensOf] at h
      cases htail : tokensOf eof us with
      | error e =>
        rw [htail] at h
        cases h
      | ok tail =>
        rw [htail] at h
        obtain ⟨ts, rfl, rfl⟩ := ih htail
        exact ⟨t :: ts, rfl, (Except.ok.inj h).symm⟩

theorem offers_of_tokens {ts : List Token} {eof : Token} (last : Span)
    (heof : eof.kind = .eof) (hts : Kind.eof ∉ ts.map Token.kind) :
    Stream.Offers ⟨[], ts.map .token, eof, last⟩ (ts.map Token.kind) := by
  have htook : Took (ts.map .token) (ts.map Token.kind) [] := ⟨ts, by simp, rfl⟩
  refine ⟨ts.map .token, ⟨heof, fun t ht hk => hts ?_, [], 0, rfl, rfl, Or.inl rfl⟩, htook⟩
  obtain ⟨t', ht', heq⟩ := List.mem_map.mp ht
  obtain rfl := Scanned.token.inj heq
  exact List.mem_map.mpr ⟨t', ht', hk⟩

end Grammar

/-- A program that can be written is read back from the tokens that write it, and from every text
made of these tokens, up to the text that its nodes cover. -/
theorem Program.read_kinds {spell : Float → List Char} {p : Program} (hp : p.WellFormed spell)
    {ts : List Token} (hts : ts.map Token.kind = p.kinds spell) :
    (∀ (eof : Token) (last : Span), eof.kind = .eof →
      ∃ p' s', Program.read.run ⟨[], ts.map .token, eof, last⟩ = .ok p' s' ∧ p'.bare = p.bare) ∧
    ∀ text, tokenize text = .ok (ts ++ [Lexer.eof text]) →
      ∃ p', Program.ofText text = .ok p' ∧ p'.bare = p.bare := by
  have htokens : ∀ (eof : Token) (last : Span), eof.kind = .eof →
      Grammar.Succeeds Program.read ⟨[], ts.map .token, eof, last⟩
        fun p' _ => p'.bare = p.bare := by
    intro eof last heof
    have hnoeof : Kind.eof ∉ ts.map Token.kind := by
      rw [hts]
      exact eof_notMem_declarationsKinds p.declarations
    have hoffers := Grammar.offers_of_tokens last heof hnoeof
    rw [hts] at hoffers
    refine Grammar.succeeds_program hp hoffers ?_
    rw [← hts]
    simp [Stream.remaining]
  refine ⟨htokens, fun text htext => ?_⟩
  obtain ⟨ts', hscan, happend⟩ := Grammar.exists_of_tokensOf htext
  obtain rfl := List.append_cancel_right happend
  obtain ⟨p', s', hrun, hbare⟩ := htokens (Lexer.eof text) Span.origin rfl
  refine ⟨p', ?_, hbare⟩
  rw [← hscan] at hrun
  unfold Program.ofText Stream.ofText
  split
  · next p'' s'' hread =>
    injection hread.symm.trans hrun with hp''
    rw [hp'']
  · next e s'' hread => cases hread.symm.trans hrun

/-- A function whose body is made of statements that their first token does not tell apart, with a
tuple of one element. -/
def lookAlikes : Program :=
  let x : Expr := .var Span.origin "x"
  let number : Expr := .literal Span.origin (.real (Literal.readReal ['1', '.', '5']))
  let body : List Stmt :=
    [.assign Span.origin x (.tuple Span.origin [⟨Span.origin, none, number⟩]),
      .call Span.origin (.call Span.origin x [x]) [],
      .loop Span.origin (.items Span.origin none x) [.returnNothing Span.origin],
      .declaration Span.origin ⟨Span.origin, "y", some (.primitive Span.origin .real), x⟩]
  ⟨Span.origin, [⟨Span.origin, "f", none, .function Span.origin [⟨Span.origin, "x", none⟩] none
    (.block Span.origin body)⟩]⟩

def lookAlikesText : List Char :=
  "f is func(x) do x := (1.5,); (x(x))(); for x loop return; end; y: real is x; end;".toList

theorem Program.read_kinds_lookAlikes :
    ∃ p', Program.ofText lookAlikesText = .ok p' ∧ p'.bare = lookAlikes.bare := by
  let spell : Float → List Char := fun _ => ['1', '.', '5']
  have hwf : lookAlikes.WellFormed spell := by
    have hspells : Spells ['1', '.', '5'] (Literal.readReal ['1', '.', '5']) :=
      ⟨by decide, by decide, rfl⟩
    simp [lookAlikes, Program.WellFormed, Literal.WellFormed, spell, hspells]
  have hkinds : (tokenize lookAlikesText).toOption.map (List.map Token.kind) =
      some (lookAlikes.kinds spell ++ [.eof]) := by decide +kernel
  cases htext : tokenize lookAlikesText with
  | error e => simp [htext, Except.toOption] at hkinds
  | ok found =>
    obtain ⟨ts, -, rfl⟩ := Grammar.exists_of_tokensOf htext
    rw [htext] at hkinds
    have hts : ts.map Token.kind = lookAlikes.kinds spell := by
      have heq := Option.some.inj hkinds
      rw [List.map_append] at heq
      exact List.append_cancel_right heq
    exact (Program.read_kinds hwf hts).2 lookAlikesText htext

end ExprCheck
