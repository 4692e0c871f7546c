import Mathlib
import ExprCheck.Proofs.GrammarRereading
import ExprCheck.Proofs.Points

/-!
# Parts of a derived tree

The tree of a derivation is made of trees of derivations. The grammar derives an expression in layers,
and parentheses lead back from the innermost layer to the outermost one without a trace in the tree,
so what an expression is made of is found by induction on its tokens.

A constant in a program that was read from a text is therefore the constant of a token.
-/

namespace ExprCheck

open Grammar

/-- The grammar derives the part from some tokens. -/
def Part.Derived : Part → Prop
  | expr e => ∃ ks, IsExpr ks e
  | stmt s => ∃ ks, IsStmt ks s
  | clause _ _ e => ∃ ks, IsExpr ks e
  | header h => ∃ ks, IsHeader ks h
  | declaration d => ∃ ks, IsDeclaration ks d

namespace Grammar

variable {ks : List Kind} {e : Expr}

theorem IsFactor.isExpr (h : IsFactor ks e) : IsExpr ks e := .relation (.factor h)

theorem IsTerm.isExpr (h : IsTerm ks e) : IsExpr ks e := (IsFactor.term h).isExpr

theorem IsSecondary.isExpr (h : IsSecondary ks e) : IsExpr ks e := (IsTerm.secondary h).isExpr

/-- Each item of a list has a derivation of its own. -/
theorem Items.exists_of_mem {α : Type} {Item : List Kind → α → Prop} {xs : List α} {x : α}
    (h : Items Item ks xs) (hx : x ∈ xs) : ∃ ls, Item ls x := by
  induction h with
  | nil => cases hx
  | one hitem =>
    obtain rfl := List.mem_singleton.mp hx
    exact ⟨_, hitem⟩
  | more hitem _ ih =>
    rcases List.mem_cons.mp hx with rfl | hx
    · exact ⟨_, hitem⟩
    · exact ih hx

theorem IsStmts.exists_of_mem {stmts : List Stmt} {s : Stmt} (h : IsStmts ks stmts)
    (hs : s ∈ stmts) : ∃ ls, IsStmt ls s := by
  induction stmts generalizing ks with
  | nil => cases hs
  | cons s' stmts ih =>
    cases h with
    | cons hstmt _ hrest =>
      rcases List.mem_cons.mp hs with rfl | hs
      · exact ⟨_, hstmt⟩
      · exact ih hrest hs

theorem IsDeclarations.exists_of_mem {ds : List Declaration} {d : Declaration}
    (h : IsDeclarations ks ds) (hd : d ∈ ds) : ∃ ls, IsDeclaration ls d := by
  induction h with
  | nil => cases hd
  | cons hdecl _ _ ih =>
    rcases List.mem_cons.mp hd with rfl | hd
    · exact ⟨_, hdecl⟩
    · exact ih hd

/-! ## Expressions -/

/-- What an expression is made of is derived, and if it is a constant, a token writes it. -/
structure MadeOfDerived (e : Expr) : Prop where
  parts : ∀ part ∈ (Part.expr e).parts, part.Derived
  literal : ∀ s v, e = .literal s v → ∃ k, IsLiteral k v

theorem parts_withSpan (s : Span) (e : Expr) :
    (Part.expr (e.withSpan s)).parts = (Part.expr e).parts := by
  cases e <;> rfl

/-- Parentheses change no part of an expression. -/
theorem MadeOfDerived.withSpan (h : MadeOfDerived e) (s : Span) : MadeOfDerived (e.withSpan s) where
  parts := by
    rw [parts_withSpan]
    exact h.parts
  literal := by
    intro s' v heq
    cases e with
    | literal s₀ v₀ =>
      cases heq
      exact h.literal s₀ v rfl
    | _ => cases heq

/-- An expression that is no function and no constant is made of expressions. -/
theorem madeOfDerived_of_parts (hparts : (Part.expr e).parts = e.parts.map .expr)
    (h : ∀ part ∈ e.parts, ∃ ls, IsExpr ls part) (hliteral : ∀ s v, e ≠ .literal s v) :
    MadeOfDerived e where
  parts := by
    intro part hpart
    rw [hparts] at hpart
    obtain ⟨inner, hinner, rfl⟩ := List.mem_map.mp hpart
    exact h inner hinner
  literal := fun s v heq => absurd heq (hliteral s v)

theorem madeOfDerived_binary {s : Span} {op : Operator} {l r : Expr} {ls ms : List Kind}
    (hl : IsExpr ls l) (hr : IsExpr ms r) : MadeOfDerived (.binary s op l r) := by
  refine madeOfDerived_of_parts rfl ?_ (by rintro _ _ ⟨⟩)
  intro part hpart
  rcases List.mem_cons.mp hpart with rfl | hpart
  · exact ⟨_, hl⟩
  · obtain rfl := List.mem_singleton.mp hpart
    exact ⟨_, hr⟩

theorem derived_of_mem_body {b : Body} (h : IsBody ks b) : ∀ part ∈ b.parts, part.Derived := by
  intro part hpart
  cases h with
  | expr he =>
    obtain rfl := List.mem_singleton.mp hpart
    exact ⟨_, he⟩
  | block hstmts =>
    obtain ⟨s, hs, hpart⟩ := List.mem_flatMap.mp hpart
    obtain ⟨ls, hstmt⟩ := hstmts.exists_of_mem hs
    cases s with
    | returnNothing => cases hpart
    | returnValue span e =>
      obtain rfl := List.mem_singleton.mp hpart
      cases hstmt with
      | returnValue he => exact ⟨_, he⟩
    | _ =>
      obtain rfl := List.mem_singleton.mp hpart
      exact ⟨ls, hstmt⟩

/-- Only parentheses lead back to a whole expression, with fewer tokens. -/
theorem madeOfDerived_primary
    (hinner : ∀ ls e', ls.length < ks.length → IsExpr ls e' → MadeOfDerived e')
    (h : IsPrimary ks e) : MadeOfDerived e := by
  cases h with
  | literal hv =>
    refine ⟨by rintro part ⟨⟩, ?_⟩
    rintro s v ⟨⟩
    exact ⟨_, hv⟩
  | var => exact madeOfDerived_of_parts rfl (by rintro part ⟨⟩) (by rintro _ _ ⟨⟩)
  | conditional hp ht he =>
    refine madeOfDerived_of_parts rfl ?_ (by rintro _ _ ⟨⟩)
    intro part hpart
    simp only [Expr.parts, List.mem_cons, List.not_mem_nil, or_false] at hpart
    rcases hpart with rfl | rfl | rfl
    · exact ⟨_, hp⟩
    · exact ⟨_, ht⟩
    · exact ⟨_, he⟩
  | function _ _ hbody => exact ⟨derived_of_mem_body hbody, by rintro _ _ ⟨⟩⟩
  | array hes =>
    exact madeOfDerived_of_parts rfl (fun _ => hes.exists_of_mem) (by rintro _ _ ⟨⟩)
  | map hes =>
    refine madeOfDerived_of_parts rfl ?_ (by rintro _ _ ⟨⟩)
    intro part hpart
    obtain ⟨entry, hentry, hpart⟩ := List.mem_flatMap.mp hpart
    obtain ⟨ls, hentry⟩ := hes.exists_of_mem hentry
    cases hentry with
    | intro hk hv =>
      simp only [List.mem_cons, List.not_mem_nil, or_false] at hpart
      rcases hpart with rfl | rfl
      · exact ⟨_, hk⟩
      · exact ⟨_, hv⟩
  | tuple he hes =>
    refine madeOfDerived_of_parts rfl ?_ (by rintro _ _ ⟨⟩)
    intro part hpart
    obtain ⟨element, helement, rfl⟩ := List.mem_map.mp hpart
    have hderived : ∃ ls, IsElement ls element := by
      rcases List.mem_cons.mp helement with rfl | helement
      · exact ⟨_, he⟩
      · exact hes.exists_of_mem helement
    obtain ⟨ls, helement⟩ := hderived
    cases helement with
    | unnamed he => exact ⟨_, he⟩
    | named he => exact ⟨_, he⟩
  | named he =>
    refine madeOfDerived_of_parts rfl ?_ (by rintro _ _ ⟨⟩)
    intro part hpart
    obtain rfl := List.mem_singleton.mp hpart
    exact ⟨_, he⟩
  | parenthesized he =>
    refine (hinner _ _ ?_ he).withSpan _
    simp only [List.length_cons, List.length_append]
    omega

theorem madeOfDerived_secondary
    (hinner : ∀ ls e', ls.length < ks.length → IsExpr ls e' → MadeOfDerived e')
    (h : IsSecondary ks e) : MadeOfDerived e := by
  cases h with
  | primary he => exact madeOfDerived_primary hinner he
  | call hf hes =>
    refine madeOfDerived_of_parts rfl ?_ (by rintro _ _ ⟨⟩)
    intro part hpart
    rcases List.mem_cons.mp hpart with rfl | hpart
    · exact ⟨_, hf.isExpr⟩
    · exact hes.exists_of_mem hpart
  | index ht hi =>
    refine madeOfDerived_of_parts rfl ?_ (by rintro _ _ ⟨⟩)
    intro part hpart
    rcases List.mem_cons.mp hpart with rfl | hpart
    · exact ⟨_, ht.isExpr⟩
    · obtain rfl := List.mem_singleton.mp hpart
      exact ⟨_, hi⟩
  | field ht | ordinal ht _ =>
    refine madeOfDerived_of_parts rfl ?_ (by rintro _ _ ⟨⟩)
    intro part hpart
    obtain rfl := List.mem_singleton.mp hpart
    exact ⟨_, ht.isExpr⟩

/-- By induction on the number of tokens, as each part is derived from fewer of them. -/
theorem madeOfDerived_expr (h : IsExpr ks e) : MadeOfDerived e := by
  induction hn : ks.length using Nat.strong_induction_on generalizing ks e with
  | _ n ih =>
    subst hn
    have hinner : ∀ ls e', ls.length < ks.length → IsExpr ls e' → MadeOfDerived e' :=
      fun ls e' hlt he => ih ls.length hlt he rfl
    cases h with
    | logical hl _ hr => exact madeOfDerived_binary hl (.relation hr)
    | relation h =>
      cases h with
      | comparison hl _ hr => exact madeOfDerived_binary hl.isExpr hr.isExpr
      | factor h =>
        cases h with
        | sum hl _ hr => exact madeOfDerived_binary hl.isExpr hr.isExpr
        | term h =>
          cases h with
          | product hl _ hr => exact madeOfDerived_binary hl.isExpr hr.isExpr
          | secondary h => exact madeOfDerived_secondary hinner h

/-! ## All parts -/

theorem derived_of_mem_stmt {s : Stmt} (h : IsStmt ks s) : ∀ part ∈ s.parts, part.Derived := by
  intro part hpart
  cases h with
  | declaration hd =>
    obtain rfl := List.mem_singleton.mp hpart
    exact ⟨_, hd⟩
  | assign ht hv =>
    rcases List.mem_cons.mp hpart with rfl | hpart
    · exact ⟨_, ht.isExpr⟩
    · obtain rfl := List.mem_singleton.mp hpart
      exact ⟨_, hv⟩
  | call hcall => exact (madeOfDerived_expr hcall.isExpr).parts part hpart
  | ifThen hc ht =>
    rcases List.mem_cons.mp hpart with rfl | hpart
    · exact ⟨_, hc⟩
    · obtain ⟨s, hs, rfl⟩ := List.mem_map.mp hpart
      exact ht.exists_of_mem hs
  | ifElse hc ht he =>
    rcases List.mem_cons.mp hpart with rfl | hpart
    · exact ⟨_, hc⟩
    · obtain ⟨s, hs, rfl⟩ := List.mem_map.mp hpart
      rcases List.mem_append.mp hs with hs | hs
      · exact ht.exists_of_mem hs
      · exact he.exists_of_mem hs
  | loop hh hb =>
    rcases List.mem_cons.mp hpart with rfl | hpart
    · exact ⟨_, hh⟩
    · obtain ⟨s, hs, rfl⟩ := List.mem_map.mp hpart
      exact hb.exists_of_mem hs
  | returnNothing | breakLoop => cases hpart
  | returnValue he =>
    obtain rfl := List.mem_singleton.mp hpart
    exact ⟨_, he⟩
  | print hes =>
    obtain ⟨e, he, rfl⟩ := List.mem_map.mp hpart
    exact hes.exists_of_mem he

theorem derived_of_mem_header {h : Header} (hh : IsHeader ks h) :
    ∀ part ∈ h.parts, part.Derived := by
  intro part hpart
  cases hh with
  | items _ he | condition he =>
    obtain rfl := List.mem_singleton.mp hpart
    exact ⟨_, he⟩
  | range _ ha hb =>
    rcases List.mem_cons.mp hpart with rfl | hpart
    · exact ⟨_, ha⟩
    · obtain rfl := List.mem_singleton.mp hpart
      exact ⟨_, hb⟩

/-- What a derived part is made of directly is derived. -/
theorem derived_of_mem_parts {part outer : Part} (h : outer.Derived) (hpart : part ∈ outer.parts) :
    part.Derived := by
  cases outer with
  | expr e =>
    obtain ⟨ks, he⟩ := h
    exact (madeOfDerived_expr he).parts part hpart
  | stmt s =>
    obtain ⟨ks, hs⟩ := h
    exact derived_of_mem_stmt hs part hpart
  | clause _ _ e =>
    obtain rfl := List.mem_singleton.mp hpart
    exact h
  | header hd =>
    obtain ⟨ks, hh⟩ := h
    exact derived_of_mem_header hh part hpart
  | declaration d =>
    obtain ⟨ks, hd⟩ := h
    obtain rfl := List.mem_singleton.mp hpart
    cases hd with
    | intro _ he => exact ⟨_, he⟩

/-- So is what it is made of further down. -/
theorem derived_of_within {part outer : Part} (h : part.Within outer) (ho : outer.Derived) :
    part.Derived := by
  induction h with
  | refl => exact ho
  | step hmem _ ih => exact ih (derived_of_mem_parts ho hmem)

end Grammar

/-- An expression stands somewhere in a program. -/
def Program.Holds (p : Program) (e : Expr) : Prop :=
  ∃ d ∈ p.declarations, (Part.expr e).Within (.declaration d)

/-- The constants of a program that was read are those of tokens. -/
theorem isLiteral_of_holds {text : List Char} {p : Program} (hp : Program.ofText text = .ok p)
    {s : Span} {v : Literal} (h : p.Holds (.literal s v)) : ∃ k, IsLiteral k v := by
  obtain ⟨s', hrun⟩ := ofText_eq_ok_iff.mp hp
  obtain ⟨ks, -, -, hprogram⟩ := runs_program (Stream.lexed_ofText text) hrun
  obtain ⟨d, hd, hwithin⟩ := h
  obtain ⟨ls, hliteral⟩ := derived_of_within hwithin (IsDeclarations.exists_of_mem hprogram hd)
  exact (madeOfDerived_expr hliteral).literal s v rfl

end ExprCheck
