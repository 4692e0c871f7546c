import Mathlib
import ExprCheck.Proofs.ReaderProgress
import ExprCheck.Proofs.Rereading

/-!
# Expressions in four layers

The grammar of expressions is often written in layers, one for each binding strength: operands
joined by `*` and `/` make a term, terms joined by `+` and `-` make a factor, two factors may be
compared, and what comes of this is joined by `and`, `or` and `xor`. `Expr.readLayered` reads
expressions in this way.

The reader `Expr.read` has a single loop instead, with a least binding strength and a mark for
comparisons that were taken in. The two agree, except that a comparison of a comparison is refused
by `Expr.read`, while the layers stop in front of it. Both read the operands in the same way, by
`Grammar.operand`.
-/

namespace ExprCheck

open ReadM

namespace Grammar

/-! ## The layers -/

/-- What follows `left` in a chain of operands joined by some operators. The chain goes on as long
as it can, and it is grouped from the left. -/
def chain (ops : List Operator) (side : ReadM Expr) : Nat → Expr → ReadM Expr
  | 0, _ => exhausted
  | n + 1, left => do
    match Operator.ofKind? (← peek).kind with
    | none => return left
    | some op =>
      if op ∈ ops then
        let _ ← next
        let right ← side
        chain ops side n (.binary (left.span.merge right.span) op left right)
      else
        return left

/-- Operands joined by `*` and `/`. -/
def term (n : Nat) : ReadM Expr := do
  let left ← operand (level n)
  chain [.mul, .div] (operand (level n)) (n + 1) left

/-- Terms joined by `+` and `-`. -/
def factor (n : Nat) : ReadM Expr := do
  let left ← term n
  chain [.add, .sub] (term n) (n + 1) left

/-- A comparison of `left` with another factor, if one follows. -/
def compared (n : Nat) (left : Expr) : ReadM Expr := do
  match Operator.ofKind? (← peek).kind with
  | none => return left
  | some op =>
    if op ∈ [Operator.lt, .le, .gt, .ge, .eq, .ne] then
      let _ ← next
      let right ← factor n
      return .binary (left.span.merge right.span) op left right
    else
      return left

/-- A factor, or a comparison of two. -/
def relation (n : Nat) : ReadM Expr := do
  let left ← factor n
  compared n left

/-- Factors and comparisons joined by `and`, `or` and `xor`. -/
def layers (n : Nat) : ReadM Expr := do
  let left ← relation n
  chain [.and, .or, .xor] (relation n) (n + 1) left

end Grammar

/-- Read an expression layer by layer. What follows it is left alone. -/
def Expr.readLayered : ReadM Expr := do
  Grammar.layers (← get).remaining

/-! ## Streams whose next token has been looked at -/

/-- No operator that binds as strongly as `p` says is written by the token. -/
def Token.BindsBelow (t : Token) (p : Nat) : Prop :=
  ∀ op, Operator.ofKind? t.kind = some op → op.precedence < p

theorem ReadM.runs_peek_of_buffer {s : Stream} {t : Token} {rest : List Token}
    (h : s.buffer = t :: rest) : Runs peek s t s := by
  have hfull : 0 + 1 - s.buffer.length = 0 := by simp [h]
  unfold peek peekAt
  rw [runs_get_bind, hfull]
  refine runs_bind.mpr ⟨(), s, runs_pure.mpr ⟨rfl, rfl⟩, ?_⟩
  rw [runs_get_bind]
  exact runs_pure.mpr ⟨by simp [h], rfl⟩

/-- The next token waits in the buffer, and at most `k` reports are to come. -/
structure Stream.AtToken (s : Stream) (t : Token) (k : Nat) : Prop where
  buffer : ∃ rest, s.buffer = t :: rest
  shows : ∃ us, s.Shows us ∧ us.length ≤ k

namespace Stream.AtToken

variable {s : Stream} {t : Token} {k : Nat}

theorem runs_peek (h : s.AtToken t k) : Runs peek s t s := by
  obtain ⟨rest, hb⟩ := h.buffer
  exact runs_peek_of_buffer hb

/-- An operator that comes next can be taken. -/
theorem exists_runs_next (h : s.AtToken t k) {op : Operator}
    (hop : Operator.ofKind? t.kind = some op) :
    ∃ s', Runs next s t s' ∧ ∃ us, s'.Shows us ∧ us.length < k := by
  obtain ⟨rest, hb⟩ := h.buffer
  obtain ⟨us, hs, hk⟩ := h.shows
  have hnext := runs_next_iff.mpr (Or.inl ⟨rest, hb, rfl⟩)
  refine ⟨_, hnext, ?_⟩
  obtain ⟨-, ⟨us', rfl, hs'⟩ | ⟨-, heof, -⟩⟩ := runs_next hs hnext
  · exact ⟨us', hs', hk⟩
  · rw [heof] at hop
    cases hop

end Stream.AtToken

namespace ReadM

variable {α β : Type} {s s' : Stream} {t : Token} {m n : ReadM α} {f g : α → ReadM β}

theorem run_bind_of_runs {a : α} (h : Runs m s a s') : (m >>= f).run s = (f a).run s' := by
  rw [EStateM.run_bind, show m.run s = .ok a s' from h]

theorem run_bind_congr (h : n.run s' = m.run s)
    (hf : ∀ a s₁, Runs m s a s₁ → (g a).run s₁ = (f a).run s₁) :
    (n >>= g).run s' = (m >>= f).run s := by
  rw [EStateM.run_bind, EStateM.run_bind, h]
  cases hrun : m.run s with
  | ok a s₁ => exact hf a s₁ hrun
  | error e s₁ => rfl

theorem buffer_of_accept {kind : Kind} (h : Runs (accept kind) s false s') :
    ∃ t rest, s'.buffer = t :: rest := by
  obtain ⟨b, s₁, hcheck, h⟩ := runs_bind.mp h
  obtain ⟨t, s₂, hpeek, hcheck⟩ := runs_bind.mp hcheck
  obtain ⟨rfl, rfl⟩ := runs_pure.mp hcheck
  split at h
  · obtain ⟨_, _, -, h⟩ := runs_bind.mp h
    cases (runs_pure.mp h).1
  · obtain ⟨-, rfl⟩ := runs_pure.mp h
    exact ⟨t, buffer_of_peek hpeek⟩

end ReadM

namespace Operator

theorem isComparison_iff (op : Operator) : op.isComparison = true ↔ op.precedence = 2 := by
  cases op <;> decide

theorem isComparison_eq_false {op : Operator} (h : op.precedence ≠ 2) :
    op.isComparison = false := by
  rw [Bool.eq_false_iff, Ne, isComparison_iff]
  exact h

end Operator

theorem Token.exists_of_not_bindsBelow {t : Token} {p : Nat} (h : ¬ t.BindsBelow p) :
    ∃ op, Operator.ofKind? t.kind = some op ∧ p ≤ op.precedence := by
  simpa [Token.BindsBelow] using h

namespace Grammar

/-! ## What the readers leave behind -/

section Leaves

variable {s s' : Stream} {l : Level} {e e' : Expr}

theorem buffer_of_suffixes {m : Nat} (h : Runs (suffixes l m e) s e' s') :
    ∃ t rest, s'.buffer = t :: rest := by
  induction m generalizing s e with
  | zero => exact absurd h not_runs_exhausted
  | succ m ih =>
    obtain ⟨called, s₁, -, h⟩ := runs_bind.mp h
    split at h
    · obtain ⟨args, s₂, -, h⟩ := runs_bind.mp h
      obtain ⟨span, s₃, -, h⟩ := runs_bind.mp h
      exact ih h
    · obtain ⟨indexed, s₂, -, h⟩ := runs_bind.mp h
      split at h
      · obtain ⟨i, s₃, -, h⟩ := runs_bind.mp h
        obtain ⟨_, s₄, -, h⟩ := runs_bind.mp h
        obtain ⟨span, s₅, -, h⟩ := runs_bind.mp h
        exact ih h
      · obtain ⟨selected, s₃, haccept, h⟩ := runs_bind.mp h
        cases selected with
        | true =>
          obtain ⟨e₁, s₄, -, h⟩ := runs_bind.mp h
          exact ih h
        | false =>
          -- here the operand ends, and the last look was at what follows it
          obtain ⟨-, rfl⟩ := runs_pure.mp h
          exact buffer_of_accept haccept

theorem buffer_of_operators {p m : Nat} {c : Bool} (h : Runs (operators l p m c e) s e' s') :
    ∃ t rest, s'.buffer = t :: rest ∧ t.BindsBelow p := by
  induction m generalizing s c e with
  | zero => exact absurd h not_runs_exhausted
  | succ m ih =>
    obtain ⟨t, s₁, hpeek, h⟩ := runs_bind.mp h
    cases hop : Operator.ofKind? t.kind with
    | none =>
      simp only [hop] at h
      obtain ⟨-, rfl⟩ := runs_pure.mp h
      obtain ⟨rest, hb⟩ := buffer_of_peek hpeek
      exact ⟨t, rest, hb, fun op hsome => absurd (hop.symm.trans hsome) (by simp)⟩
    | some op =>
      simp only [hop] at h
      split at h
      · next hprec =>
        obtain ⟨-, rfl⟩ := runs_pure.mp h
        obtain ⟨rest, hb⟩ := buffer_of_peek hpeek
        refine ⟨t, rest, hb, fun op' hsome => ?_⟩
        cases hop.symm.trans hsome
        exact hprec
      · obtain ⟨u, s₂, -, h⟩ := runs_bind.mp h
        split at h
        · exact absurd h not_runs_fail
        · obtain ⟨right, s₃, -, h⟩ := runs_bind.mp h
          exact ih h

theorem buffer_of_chain {ops : List Operator} {side : ReadM Expr} {m : Nat}
    (h : Runs (chain ops side m e) s e' s') : ∃ t rest, s'.buffer = t :: rest := by
  induction m generalizing s e with
  | zero => exact absurd h not_runs_exhausted
  | succ m ih =>
    obtain ⟨t, s₁, hpeek, h⟩ := runs_bind.mp h
    split at h
    · obtain ⟨-, rfl⟩ := runs_pure.mp h
      exact ⟨t, buffer_of_peek hpeek⟩
    · split at h
      · obtain ⟨u, s₂, -, h⟩ := runs_bind.mp h
        obtain ⟨right, s₃, -, h⟩ := runs_bind.mp h
        exact ih h
      · obtain ⟨-, rfl⟩ := runs_pure.mp h
        exact ⟨t, buffer_of_peek hpeek⟩

end Leaves

variable {n k p : Nat} {s s' : Stream} {t : Token} {us : List Scanned} {op : Operator}

theorem expr_eq (n p : Nat) :
    expr (level n) p = operand (level n) >>= operators (level n) p (n + 1) false := by
  unfold expr Production.expr
  rw [level_rounds]

theorem atToken_of_operand {e : Expr} (hs : s.Shows us) (hk : us.length ≤ k) (hn : k ≤ n)
    (h : Runs (operand (level n)) s e s') : ∃ t, s'.AtToken t k := by
  have halike := alike_operand (alike_level (Nat.le_refl n) (Nat.le_refl n))
  obtain ⟨us', hs', hlength⟩ := (halike us (by omega)).runs hs h
  obtain ⟨e₁, s₁, -, hsuffixes⟩ := runs_bind.mp h
  obtain ⟨t, rest, hb⟩ := buffer_of_suffixes hsuffixes
  exact ⟨t, ⟨rest, hb⟩, us', hs', by omega⟩

theorem atToken_of_expr {e : Expr} (hs : s.Shows us) (hk : us.length ≤ k) (hn : k ≤ n)
    (h : Runs (expr (level n) p) s e s') : ∃ t, s'.AtToken t k ∧ t.BindsBelow p := by
  have halike := alike_expr (alike_level (Nat.le_refl n) (Nat.le_refl n)) p
  obtain ⟨us', hs', hlength⟩ := (halike us (by omega)).runs hs h
  obtain ⟨e₁, s₁, -, hoperators⟩ := runs_bind.mp h
  obtain ⟨t, rest, hb, ht⟩ := buffer_of_operators hoperators
  exact ⟨t, ⟨⟨rest, hb⟩, us', hs', by omega⟩, ht⟩

/-! ## One round of each loop -/

theorem operators_stop (h : s.AtToken t k) (ht : t.BindsBelow p) (c : Bool) (left : Expr) :
    (operators (level n) p (n + 1) c left).run s = .ok left s := by
  simp only [operators, Production.operators, monadLift_self]
  rw [run_bind_of_runs h.runs_peek]
  cases hop : Operator.ofKind? t.kind with
  | none => rfl
  | some op =>
    simp only [if_pos (ht op hop)]
    rfl

theorem operators_refuse (h : s.AtToken t k) (hop : Operator.ofKind? t.kind = some op)
    (hp : p ≤ op.precedence) (hcmp : op.isComparison = true) (hnext : Runs next s t s')
    (left : Expr) :
    (operators (level n) p (n + 1) true left).run s =
      .error ⟨.chainedComparison op, t.span⟩ s' := by
  simp only [operators, Production.operators, monadLift_self]
  rw [run_bind_of_runs h.runs_peek]
  simp only [hop, if_neg (Nat.not_lt.mpr hp)]
  rw [run_bind_of_runs hnext, hcmp]
  rfl

/-- An operator is taken in. What comes behind it does not depend on how much of the bounds is used
up. -/
theorem operators_step (h : s.AtToken t k) (hop : Operator.ofKind? t.kind = some op)
    (hp : p ≤ op.precedence) {c : Bool} (hc : (c && op.isComparison) = false)
    (hnext : Runs next s t s') (hs' : s'.Shows us) (hus : us.length < n) (left : Expr) :
    (operators (level n) p (n + 1) c left).run s =
      (do let right ← expr (level n) (op.precedence + 1)
          operators (level n) p (n + 1) (c || op.isComparison)
            (.binary (left.span.merge right.span) op left right)).run s' := by
  have hsame : Level.Alike n (level n) (level n) := alike_level (Nat.le_refl n) (Nat.le_refl n)
  have hmore : Level.Alike n (level n) (level (n + 1)) := alike_level (Nat.le_refl n) (by omega)
  simp only [operators, Production.operators, monadLift_self]
  rw [run_bind_of_runs h.runs_peek]
  simp only [hop, if_neg (Nat.not_lt.mpr hp)]
  rw [run_bind_of_runs hnext, hc]
  have halike := (hmore.expr (op.precedence + 1)).andThen fun right =>
    alike_operators hsame p (Nat.le_succ n) (Nat.le_refl n) (Nat.le_succ n)
      (c || op.isComparison) (.binary (left.span.merge right.span) op left right)
  exact ((halike us hus).same hs').symm

theorem alike_chain (ops : List Operator) {side : ReadM Expr} (hside : Alike k 1 side side)
    {j m m' : Nat} (hj : j ≤ k + 1) (hm : j ≤ m) (hm' : j ≤ m') (left : Expr) :
    Alike j 0 (chain ops side m left) (chain ops side m' left) := by
  induction j generalizing m m' left with
  | zero => exact .zero
  | succ j ih =>
    obtain ⟨m, rfl⟩ := Nat.exists_eq_add_one_of_ne_zero (by omega : m ≠ 0)
    obtain ⟨m', rfl⟩ := Nat.exists_eq_add_one_of_ne_zero (by omega : m' ≠ 0)
    intro us hus
    refine .peek fun t ht => ?_
    cases hop : Operator.ofKind? t.kind with
    | none => exact Alike.pure left us hus
    | some op =>
      by_cases hmem : op ∈ ops
      · simp only [hmem, if_true]
        have hne := Operator.ne_eof_of_ofKind? hop
        refine (AlikeOn.taken ht hne fun _ => .mono ?_ (Nat.le_of_lt_succ hus)).weaken
          (Nat.zero_le 1)
        exact (hside.mono (by omega)).andThen fun right => ih (by omega) (by omega) (by omega) _
      · simp only [hmem, if_false]
        exact Alike.pure left us hus

theorem chain_stop {ops : List Operator} (h : s.AtToken t k)
    (ht : ∀ op, Operator.ofKind? t.kind = some op → op ∉ ops) (side : ReadM Expr) (left : Expr) :
    (chain ops side (n + 1) left).run s = .ok left s := by
  rw [chain, run_bind_of_runs h.runs_peek]
  cases hop : Operator.ofKind? t.kind with
  | none => rfl
  | some op =>
    simp only [if_neg (ht op hop)]
    rfl

theorem chain_step {ops : List Operator} {side : ReadM Expr} (hside : Alike n 1 side side)
    (h : s.AtToken t k) (hop : Operator.ofKind? t.kind = some op) (hmem : op ∈ ops)
    (hnext : Runs next s t s') (hs' : s'.Shows us) (hus : us.length < n) (left : Expr) :
    (chain ops side (n + 1) left).run s =
      (do let right ← side
          chain ops side (n + 1) (.binary (left.span.merge right.span) op left right)).run s' := by
  rw [chain, run_bind_of_runs h.runs_peek]
  simp only [hop, if_pos hmem]
  rw [run_bind_of_runs hnext]
  have halike := hside.andThen fun right =>
    alike_chain ops hside (Nat.le_succ n) (Nat.le_refl n) (Nat.le_succ n)
      (.binary (left.span.merge right.span) op left right)
  exact ((halike us hus).same hs').symm

/-! ## The layers above the comparisons -/

/-- The loop may first be run with a larger least strength. Operators of at least that strength are
no comparisons, so that the mark does not matter. -/
theorem run_operators_split {q : Nat} (hq : 3 ≤ q) (hp : p ≤ q) (h : s.AtToken t k) (hk : k ≤ n)
    (c : Bool) (left : Expr) :
    (operators (level n) p (n + 1) c left).run s =
      (operators (level n) q (n + 1) false left >>= operators (level n) p (n + 1) c).run s := by
  induction k using Nat.strong_induction_on generalizing s t left with
  | h k ih =>
    by_cases ht : t.BindsBelow q
    · exact (run_bind_of_runs (operators_stop h ht false left)).symm
    · obtain ⟨op, hop, hprec⟩ := Token.exists_of_not_bindsBelow ht
      have hcmp : op.isComparison = false := Operator.isComparison_eq_false (by omega)
      obtain ⟨s', hnext, us, hs', hus⟩ := h.exists_runs_next hop
      rw [operators_step h hop (hp.trans hprec) (by simp [hcmp]) hnext hs' (by omega)]
      have hright : (operators (level n) q (n + 1) false left).run s = _ :=
        operators_step h hop hprec rfl hnext hs' (by omega) left
      refine Eq.trans ?_ (run_bind_congr hright fun _ _ _ => rfl).symm
      rw [bind_assoc]
      refine run_bind_congr rfl fun right s₁ hrun => ?_
      obtain ⟨t₁, hat, -⟩ := atToken_of_expr hs' (Nat.le_refl _) (by omega) hrun
      rw [hcmp, Bool.or_false, Bool.or_false]
      exact ih us.length hus hat (by omega) _

theorem run_expr_split {q : Nat} (hq : 3 ≤ q) (hp : p ≤ q) (hs : s.Shows us) (hn : us.length ≤ n) :
    (expr (level n) p).run s =
      (expr (level n) q >>= operators (level n) p (n + 1) false).run s := by
  rw [expr_eq, expr_eq, bind_assoc]
  refine run_bind_congr rfl fun e s₁ hrun => ?_
  obtain ⟨t, hat⟩ := atToken_of_operand hs (Nat.le_refl _) hn hrun
  exact run_operators_split hq hp hat hn false e

/-- Where no operator that binds more strongly than `p` comes next, and all operators from `least`
to `p` bind alike and are no comparisons, the loop reads a chain. -/
theorem run_operators_chain {ops : List Operator} {side : ReadM Expr} {least : Nat}
    (hside : Alike (n + 1) 1 (expr (level n) (p + 1)) side)
    (hops : ∀ op : Operator, op ∈ ops ↔ least ≤ op.precedence ∧ op.precedence ≤ p)
    (hlevel : ∀ op ∈ ops, op.precedence = p ∧ op.isComparison = false) (h : s.AtToken t k)
    (hk : k ≤ n) (ht : t.BindsBelow (p + 1)) (c : Bool) (left : Expr) :
    (operators (level n) least (n + 1) c left).run s = (chain ops side (n + 1) left).run s := by
  induction k using Nat.strong_induction_on generalizing s t left with
  | h k ih =>
    by_cases hstop : t.BindsBelow least
    · rw [operators_stop h hstop, chain_stop h]
      intro op hop hmem
      have hlt := hstop op hop
      have hle := ((hops op).mp hmem).1
      omega
    · obtain ⟨op, hop, hleast⟩ := Token.exists_of_not_bindsBelow hstop
      have hmem : op ∈ ops := (hops op).mpr ⟨hleast, Nat.le_of_lt_succ (ht op hop)⟩
      obtain ⟨hprec, hcmp⟩ := hlevel op hmem
      obtain ⟨s', hnext, us, hs', hus⟩ := h.exists_runs_next hop
      rw [operators_step h hop hleast (by simp [hcmp]) hnext hs' (by omega),
        chain_step (hside.right.mono (Nat.le_succ n)) h hop hmem hnext hs' (by omega)]
      refine (run_bind_congr ?_ fun right s₁ hrun => ?_).symm
      · rw [hprec]
        exact (hside us (by omega)).same hs'
      · rw [hprec] at hrun
        obtain ⟨t₁, hat, ht₁⟩ := atToken_of_expr hs' (Nat.le_refl _) (by omega) hrun
        rw [hcmp, Bool.or_false]
        exact (ih us.length hus hat (by omega) ht₁ _).symm

/-- A reader that does what `expr` does inherits its progress. -/
theorem alike_expr_of_run {m : ReadM Expr}
    (h : ∀ us s, s.Shows us → us.length ≤ n → (expr (level n) p).run s = m.run s) :
    Alike (n + 1) 1 (expr (level n) p) m := by
  intro us hus
  have hexpr := alike_expr (alike_level (Nat.le_refl n) (Nat.le_refl n)) p us hus
  exact ⟨fun s hs => (h us s hs (Nat.le_of_lt_succ hus)).symm, hexpr.runs, hexpr.fails⟩

/-- No operator binds more strongly than `*` and `/`. -/
theorem bindsBelow_five (t : Token) : t.BindsBelow 5 := by
  intro op _
  cases op <;> decide

theorem alike_operand_expr (n : Nat) :
    Alike (n + 1) 1 (expr (level n) 5) (operand (level n)) := by
  refine alike_expr_of_run fun us s hs hn => ?_
  rw [expr_eq, EStateM.run_bind]
  cases hrun : (operand (level n)).run s with
  | ok e s₁ =>
    obtain ⟨t, hat⟩ := atToken_of_operand hs (Nat.le_refl _) hn hrun
    exact operators_stop hat (bindsBelow_five t) false e
  | error e s₁ => rfl

/-- Expressions of one strength are chains of expressions of the next. -/
theorem alike_layer {ops : List Operator} {side : ReadM Expr} (hp : 3 ≤ p)
    (hside : Alike (n + 1) 1 (expr (level n) (p + 1)) side)
    (hops : ∀ op : Operator, op ∈ ops ↔ op.precedence = p) :
    Alike (n + 1) 1 (expr (level n) p) (side >>= chain ops side (n + 1)) := by
  refine alike_expr_of_run fun us s hs hn => ?_
  rw [run_expr_split (by omega : 3 ≤ p + 1) (Nat.le_succ p) hs hn]
  refine (run_bind_congr ((hside us (Nat.lt_succ_of_le hn)).same hs) fun e s₁ hrun => ?_).symm
  obtain ⟨t, hat, ht⟩ := atToken_of_expr hs (Nat.le_refl _) hn hrun
  refine (run_operators_chain hside (fun op => ?_) (fun op hmem => ?_) hat hn ht false e).symm
  · rw [hops]
    omega
  · have hprec := (hops op).mp hmem
    exact ⟨hprec, Operator.isComparison_eq_false (by omega)⟩

theorem alike_term (n : Nat) : Alike (n + 1) 1 (expr (level n) 4) (term n) :=
  alike_layer (by omega) (alike_operand_expr n) fun op => by cases op <;> decide

theorem alike_factor (n : Nat) : Alike (n + 1) 1 (expr (level n) 3) (factor n) :=
  alike_layer (by omega) (alike_term n) fun op => by cases op <;> decide

/-! ## Comparisons -/

/-- Refuse a comparison that comes next. -/
def refuseComparison : ReadM Unit := do
  match Operator.ofKind? (← peek).kind with
  | none => return
  | some op =>
    if op.isComparison then
      let t ← next
      fail (.chainedComparison op) t.span
    else
      return

/-- A reader behind which no comparison may come. -/
def settled (m : ReadM Expr) : ReadM Expr := do
  let e ← m
  refuseComparison
  return e

theorem settled_bind {β : Type} (m : ReadM Expr) (f : Expr → ReadM β) :
    settled m >>= f = (do let e ← m; refuseComparison; f e) := by
  simp only [settled, bind_assoc, pure_bind]

theorem bind_settled {α : Type} (m : ReadM α) (f : α → ReadM Expr) :
    settled (m >>= f) = m >>= fun a => settled (f a) := by
  simp only [settled, bind_assoc]

theorem settled_of_runs {m : ReadM Expr} {e : Expr} (h : Runs m s e s') :
    (settled m).run s = (do refuseComparison; return e).run s' :=
  run_bind_of_runs h

theorem refuseComparison_pass (h : s.AtToken t k)
    (ht : ∀ op, Operator.ofKind? t.kind = some op → op.isComparison = false) :
    Runs refuseComparison s () s := by
  refine runs_bind.mpr ⟨t, s, h.runs_peek, ?_⟩
  cases hop : Operator.ofKind? t.kind with
  | none => exact runs_pure.mpr ⟨rfl, rfl⟩
  | some op =>
    simp only [ht op hop]
    exact runs_pure.mpr ⟨rfl, rfl⟩

theorem refuseComparison_fails (h : s.AtToken t k) (hop : Operator.ofKind? t.kind = some op)
    (hcmp : op.isComparison = true) (hnext : Runs next s t s') :
    Fails refuseComparison s ⟨.chainedComparison op, t.span⟩ s' := by
  refine fails_bind.mpr (Or.inr ⟨t, s, h.runs_peek, ?_⟩)
  simp only [hop, hcmp, if_true]
  exact fails_bind.mpr (Or.inr ⟨t, s', hnext, fails_fail.mpr ⟨rfl, rfl⟩⟩)

theorem mem_comparisons (op : Operator) :
    op ∈ [Operator.lt, .le, .gt, .ge, .eq, .ne] ↔ op.isComparison = true := by
  cases op <;> decide

theorem compared_stop (h : s.AtToken t k)
    (ht : ∀ op, Operator.ofKind? t.kind = some op → op.isComparison = false) (left : Expr) :
    Runs (compared n left) s left s := by
  refine runs_bind.mpr ⟨t, s, h.runs_peek, ?_⟩
  cases hop : Operator.ofKind? t.kind with
  | none => exact runs_pure.mpr ⟨rfl, rfl⟩
  | some op =>
    simp only [mem_comparisons, ht op hop]
    exact runs_pure.mpr ⟨rfl, rfl⟩

theorem compared_step (h : s.AtToken t k) (hop : Operator.ofKind? t.kind = some op)
    (hcmp : op.isComparison = true) (hnext : Runs next s t s') (left : Expr) :
    (compared n left).run s =
      (do let right ← factor n
          return Expr.binary (left.span.merge right.span) op left right).run s' := by
  rw [compared, run_bind_of_runs h.runs_peek]
  simp only [hop, mem_comparisons, hcmp, if_true]
  rw [run_bind_of_runs hnext]

/-- A token in front of which only comparisons and weaker operators can stand is a comparison or
binds less strongly. -/
theorem comparison_or_below (ht : t.BindsBelow 3) :
    t.BindsBelow 2 ∨ ∃ op, Operator.ofKind? t.kind = some op ∧ op.isComparison = true := by
  by_cases hbelow : t.BindsBelow 2
  · exact Or.inl hbelow
  · obtain ⟨op, hop, hprec⟩ := Token.exists_of_not_bindsBelow hbelow
    have hlt := ht op hop
    exact Or.inr ⟨op, hop, op.isComparison_iff.mpr (by omega)⟩

theorem isComparison_of_below (ht : t.BindsBelow 2) (op : Operator)
    (hop : Operator.ofKind? t.kind = some op) : op.isComparison = false := by
  have hlt := ht op hop
  exact Operator.isComparison_eq_false (by omega)

section Compared

variable {least : Nat} {K : Expr → ReadM Expr}

/-- After a comparison, the loop refuses another one. `K` is what it does from then on. -/
theorem run_operators_true (hleast : least ≤ 2)
    (hK : ∀ c left s t, s.AtToken t k → t.BindsBelow 2 →
      (operators (level n) least (n + 1) c left).run s = (K left).run s)
    (h : s.AtToken t k) (ht : t.BindsBelow 3) (left : Expr) :
    (operators (level n) least (n + 1) true left).run s =
      (do refuseComparison; K left).run s := by
  rcases comparison_or_below ht with hbelow | ⟨op, hop, hcmp⟩
  · rw [run_bind_of_runs (refuseComparison_pass h (isComparison_of_below hbelow))]
    exact hK true left s t h hbelow
  · have hprec := op.isComparison_iff.mp hcmp
    obtain ⟨s', hnext, -⟩ := h.exists_runs_next hop
    rw [operators_refuse h hop (by omega) hcmp hnext, EStateM.run_bind,
      show refuseComparison.run s = _ from refuseComparison_fails h hop hcmp hnext]

/-- Before a comparison, the loop takes one in. -/
theorem run_operators_false (hk : k ≤ n) (hleast : least ≤ 2)
    (hK : ∀ c left s t, s.AtToken t k → t.BindsBelow 2 →
      (operators (level n) least (n + 1) c left).run s = (K left).run s)
    (h : s.AtToken t k) (ht : t.BindsBelow 3) (left : Expr) :
    (operators (level n) least (n + 1) false left).run s =
      (do let e ← compared n left; refuseComparison; K e).run s := by
  rcases comparison_or_below ht with hbelow | ⟨op, hop, hcmp⟩
  · have hpass := isComparison_of_below hbelow
    rw [run_bind_of_runs (compared_stop h hpass left),
      run_bind_of_runs (refuseComparison_pass h hpass)]
    exact hK false left s t h hbelow
  · have hprec := op.isComparison_iff.mp hcmp
    obtain ⟨s', hnext, us, hs', hus⟩ := h.exists_runs_next hop
    rw [operators_step h hop (by omega) rfl hnext hs' (by omega), hprec]
    refine Eq.trans ?_ (run_bind_congr (compared_step h hop hcmp hnext left) fun _ _ _ => rfl).symm
    rw [bind_assoc]
    refine (run_bind_congr ((alike_factor n us (by omega)).same hs') fun right s₁ hrun => ?_).symm
    obtain ⟨t₁, hat, ht₁⟩ := atToken_of_expr hs' (by omega : us.length ≤ k) hk hrun
    rw [pure_bind, hcmp, Bool.false_or]
    exact (run_operators_true hleast hK hat ht₁ _).symm

/-- An expression is a factor or a comparison of two, and then what `K` does. -/
theorem run_expr_compared (hs : s.Shows us) (hn : us.length ≤ n) (hleast : least ≤ 2)
    (hK : ∀ c left s t, s.AtToken t us.length → t.BindsBelow 2 →
      (operators (level n) least (n + 1) c left).run s = (K left).run s) :
    (expr (level n) least).run s = (do let e ← relation n; refuseComparison; K e).run s := by
  rw [run_expr_split (Nat.le_refl 3) (by omega) hs hn, relation, bind_assoc]
  refine (run_bind_congr ((alike_factor n us (by omega)).same hs) fun e s₁ hrun => ?_).symm
  obtain ⟨t, hat, ht⟩ := atToken_of_expr hs (Nat.le_refl _) hn hrun
  exact (run_operators_false hn hleast hK hat ht e).symm

end Compared

theorem alike_settled_relation (n : Nat) :
    Alike (n + 1) 1 (expr (level n) 2) (settled (relation n)) :=
  alike_expr_of_run fun _ _ hs hn =>
    run_expr_compared hs hn (Nat.le_refl 2) fun c left _ _ hat ht => operators_stop hat ht c left

/-! ## The outermost layer -/

theorem alike_compared (n : Nat) (left : Expr) :
    Alike n 0 (compared n left) (compared n left) := by
  intro us hus
  refine .peek fun t ht => ?_
  cases hop : Operator.ofKind? t.kind with
  | none => exact Alike.pure left us hus
  | some op =>
    by_cases hmem : op ∈ [Operator.lt, .le, .gt, .ge, .eq, .ne]
    · simp only [hmem, if_true]
      have hne := Operator.ne_eof_of_ofKind? hop
      refine (AlikeOn.taken ht hne fun _ => ?_).weaken (Nat.zero_le 1)
      exact ((alike_factor n).right.mono (by omega)).andThen fun right => .pure _
    · simp only [hmem, if_false]
      exact Alike.pure left us hus

theorem alike_relation (n : Nat) : Alike (n + 1) 1 (relation n) (relation n) :=
  (alike_factor n).right.first (alike_compared n)

theorem atToken_of_factor {e : Expr} (hs : s.Shows us) (hk : us.length ≤ k) (hn : k ≤ n)
    (h : Runs (factor n) s e s') : ∃ t, s'.AtToken t k ∧ t.BindsBelow 3 :=
  atToken_of_expr hs hk hn (((alike_factor n us (by omega)).same hs).symm.trans h)

theorem atToken_of_relation {e : Expr} (hs : s.Shows us) (hk : us.length ≤ k) (hn : k ≤ n)
    (h : Runs (relation n) s e s') : ∃ t, s'.AtToken t k := by
  obtain ⟨left, s₁, hleft, hcompared⟩ := runs_bind.mp h
  obtain ⟨t, hat, ht⟩ := atToken_of_factor hs hk hn hleft
  rcases comparison_or_below ht with hbelow | ⟨op, hop, hcmp⟩
  · obtain ⟨-, rfl⟩ := (compared_stop hat (isComparison_of_below hbelow) left).unique hcompared
    exact ⟨t, hat⟩
  · obtain ⟨s₂, hnext, us', hs', hus'⟩ := hat.exists_runs_next hop
    have hstep : Runs (do
        let right ← factor n
        return Expr.binary (left.span.merge right.span) op left right) s₂ e s' :=
      (compared_step hat hop hcmp hnext left).symm.trans hcompared
    obtain ⟨right, s₃, hright, hpure⟩ := runs_bind.mp hstep
    obtain ⟨-, rfl⟩ := runs_pure.mp hpure
    obtain ⟨t', hat', -⟩ := atToken_of_factor hs' hus'.le hn hright
    exact ⟨t', hat'⟩

/-- In a chain of relations it is enough to refuse a comparison at the end, because the chain ends
in front of a comparison anyway. -/
theorem run_chain_settled {ops : List Operator} (hops : ∀ op ∈ ops, op.isComparison = false)
    (h : s.AtToken t k) (hk : k ≤ n) (left : Expr) :
    (do refuseComparison; chain ops (settled (relation n)) (n + 1) left).run s =
      (settled (chain ops (relation n) (n + 1) left)).run s := by
  induction k using Nat.strong_induction_on generalizing s t left with
  | h k ih =>
    by_cases hstop : ∀ op, Operator.ofKind? t.kind = some op → op ∉ ops
    · rw [settled_of_runs (chain_stop h hstop (relation n) left)]
      by_cases hcmp : ∀ op, Operator.ofKind? t.kind = some op → op.isComparison = false
      · have hpass := refuseComparison_pass h hcmp
        rw [run_bind_of_runs hpass, run_bind_of_runs hpass, chain_stop h hstop]
        rfl
      · push Not at hcmp
        obtain ⟨op, hop, hcmp⟩ := hcmp
        obtain ⟨s', hnext, -⟩ := h.exists_runs_next hop
        have hfails := refuseComparison_fails h hop (by simpa using hcmp) hnext
        rw [EStateM.run_bind, EStateM.run_bind, show refuseComparison.run s = _ from hfails]
    · push Not at hstop
      obtain ⟨op, hop, hmem⟩ := hstop
      have hpass : ∀ op', Operator.ofKind? t.kind = some op' → op'.isComparison = false := by
        intro op' hop'
        cases hop.symm.trans hop'
        exact hops op hmem
      obtain ⟨s', hnext, us, hs', hus⟩ := h.exists_runs_next hop
      have hside := (alike_relation n).mono (Nat.le_succ n)
      have hside' := (alike_settled_relation n).right.mono (Nat.le_succ n)
      rw [run_bind_of_runs (refuseComparison_pass h hpass),
        chain_step hside' h hop hmem hnext hs' (by omega), settled_bind]
      refine Eq.trans ?_ (run_bind_congr (chain_step hside h hop hmem hnext hs' (by omega) left)
        fun _ _ _ => rfl).symm
      rw [bind_assoc]
      refine run_bind_congr rfl fun right s₁ hrun => ?_
      obtain ⟨t₁, hat⟩ := atToken_of_relation hs' (Nat.le_refl _) (by omega) hrun
      exact ih us.length hus hat (by omega) _

/-- Reading an expression is reading it layer by layer and then refusing a comparison. -/
theorem run_expr_layers (hs : s.Shows us) (hn : us.length ≤ n) :
    (expr (level n) 0).run s = (settled (layers n)).run s := by
  have hlogical : ∀ op ∈ [Operator.and, .or, .xor],
      op.precedence = 1 ∧ op.isComparison = false := by
    decide
  have hops : ∀ op : Operator, op ∈ [Operator.and, .or, .xor] ↔
      0 ≤ op.precedence ∧ op.precedence ≤ 1 := by
    intro op
    cases op <;> decide
  rw [run_expr_compared hs hn (Nat.zero_le 2) fun c left s t hat ht =>
    run_operators_chain (alike_settled_relation n) hops hlogical hat hn ht c left]
  rw [layers, bind_settled]
  refine run_bind_congr rfl fun e s₁ hrun => ?_
  obtain ⟨t, hat⟩ := atToken_of_relation hs (Nat.le_refl _) hn hrun
  exact run_chain_settled (fun op hmem => (hlogical op hmem).2) hat hn e

theorem alike_layers (n : Nat) : Alike (n + 1) 1 (layers n) (layers n) :=
  (alike_relation n).first fun left =>
    alike_chain _ (alike_relation n) (by omega) (Nat.le_succ n) (Nat.le_succ n) left

end Grammar

/-! ## Both ways of reading -/

namespace Expr

variable {s r : Stream} {us : List Scanned} {e : Expr}

theorem run_readLayered (s : Stream) : readLayered.run s = (Grammar.layers s.remaining).run s :=
  run_bind_of_runs (runs_get.mpr ⟨rfl, rfl⟩)

theorem length_le_remaining (h : s.Shows us) : us.length ≤ s.remaining := by
  obtain ⟨front, m, hb, rfl, -⟩ := h.buffer
  rw [Stream.remaining, hb]
  simp

theorem run_read (hs : s.Shows us) : read.run s = (Grammar.settled readLayered).run s := by
  have hget : Runs get s s s := runs_get.mpr ⟨rfl, rfl⟩
  rw [read, Grammar.outermost, bind_assoc, run_bind_of_runs hget, pure_bind, readLayered,
    Grammar.bind_settled, run_bind_of_runs hget]
  exact Grammar.run_expr_layers hs (length_le_remaining hs)

/-- The layers leave a stream whose next token has been looked at. -/
theorem atToken_of_readLayered (hs : s.Shows us) (h : Runs readLayered s e r) :
    ∃ t, r.AtToken t us.length := by
  have hlayers : Runs (Grammar.layers s.remaining) s e r := (run_readLayered s).symm.trans h
  have hbound := length_le_remaining hs
  obtain ⟨us', hr, hlength⟩ := (Grammar.alike_layers s.remaining us (by omega)).runs hs hlayers
  obtain ⟨left, s₁, -, hchain⟩ := runs_bind.mp hlayers
  obtain ⟨t, rest, hb⟩ := Grammar.buffer_of_chain hchain
  exact ⟨t, ⟨rest, hb⟩, us', hr, by omega⟩

theorem runs_read_iff_layers (hs : s.Shows us) :
    Runs read s e r ↔ Runs readLayered s e r ∧ ∃ t, Runs peek r t r ∧
      ∀ op, Operator.ofKind? t.kind = some op → op.isComparison = false := by
  constructor
  · intro h
    have hsettled : Runs (Grammar.settled readLayered) s e r := (run_read hs).symm.trans h
    obtain ⟨e₀, r₀, hlayers, hrest⟩ := runs_bind.mp hsettled
    obtain ⟨_, r₁, hrefuse, hpure⟩ := runs_bind.mp hrest
    obtain ⟨rfl, rfl⟩ := runs_pure.mp hpure
    obtain ⟨t, hat⟩ := atToken_of_readLayered hs hlayers
    have ht : ∀ op, Operator.ofKind? t.kind = some op → op.isComparison = false := by
      intro op hop
      by_contra hcmp
      obtain ⟨r₂, hnext, -⟩ := hat.exists_runs_next hop
      exact hrefuse.not_fails
        (Grammar.refuseComparison_fails hat hop (by simpa using hcmp) hnext)
    obtain ⟨-, rfl⟩ := (Grammar.refuseComparison_pass hat ht).unique hrefuse
    exact ⟨hlayers, t, hat.runs_peek, ht⟩
  · rintro ⟨h, t, hpeek, ht⟩
    obtain ⟨t', hat⟩ := atToken_of_readLayered hs h
    obtain ⟨rfl, -⟩ := hat.runs_peek.unique hpeek
    have hpass := Grammar.refuseComparison_pass hat ht
    refine (run_read hs).trans (runs_bind.mpr ⟨e, r, h, ?_⟩)
    exact runs_bind.mpr ⟨(), r, hpass, runs_pure.mpr ⟨rfl, rfl⟩⟩

theorem fails_read_of_comparison (hs : s.Shows us) (h : Runs readLayered s e r) {t : Token}
    (hpeek : Runs peek r t r) {op : Operator} (hop : Operator.ofKind? t.kind = some op)
    (hcmp : op.isComparison = true) :
    ∃ r', Runs next r t r' ∧ Fails read s ⟨.chainedComparison op, t.span⟩ r' := by
  obtain ⟨t', hat⟩ := atToken_of_readLayered hs h
  obtain ⟨rfl, -⟩ := hat.runs_peek.unique hpeek
  obtain ⟨r', hnext, -⟩ := hat.exists_runs_next hop
  have hfails := Grammar.refuseComparison_fails hat hop hcmp hnext
  refine ⟨r', hnext, (run_read hs).trans ?_⟩
  exact fails_bind.mpr (Or.inr ⟨e, r, h, fails_bind.mpr (Or.inl hfails)⟩)

theorem fails_readLayered_ne (hs : s.Shows us) {error : ReadError}
    (h : Fails readLayered s error r) : error.fault ≠ .exhausted := by
  have hbound := length_le_remaining hs
  exact (Grammar.alike_layers s.remaining us (by omega)).fails hs
    ((run_readLayered s).symm.trans h)

/-- Reading an expression is reading it layer by layer, as long as no comparison follows. A
comparison that follows is taken and refused, and where the layers fail, reading fails for the same
reason, which is never that a bound was reached. -/
theorem read_eq_layers (s : Stream) (us : List Scanned) (hs : s.Shows us) :
    (∀ e r, Runs read s e r ↔ Runs readLayered s e r ∧ ∃ t, Runs peek r t r ∧
      ∀ op, Operator.ofKind? t.kind = some op → op.isComparison = false) ∧
    (∀ e r t op, Runs readLayered s e r → Runs peek r t r → Operator.ofKind? t.kind = some op →
      op.isComparison = true →
      ∃ r', Runs next r t r' ∧ Fails read s ⟨.chainedComparison op, t.span⟩ r') ∧
    (∀ error r, Fails readLayered s error r →
      Fails read s error r ∧ error.fault ≠ .exhausted) := by
  refine ⟨fun e r => runs_read_iff_layers hs,
    fun e r t op h hpeek hop hcmp => fails_read_of_comparison hs h hpeek hop hcmp,
    fun error r h => ⟨?_, fails_readLayered_ne hs h⟩⟩
  exact (run_read hs).trans (fails_bind.mpr (Or.inl h))

/-- The token in front of which the layers stop. -/
def layersStop? (text : List Char) : Option Token :=
  match readLayered.run (Stream.ofText text) with
  | .ok _ r => r.buffer.head?
  | .error _ _ => none

theorem exists_of_layersStop? {text : List Char} {t : Token} (h : layersStop? text = some t) :
    ∃ e r, Runs readLayered (Stream.ofText text) e r ∧ Runs peek r t r := by
  unfold layersStop? at h
  cases hrun : readLayered.run (Stream.ofText text) with
  | ok e r =>
    rw [hrun] at h
    obtain ⟨rest, hb⟩ := List.head?_eq_some_iff.mp h
    exact ⟨e, r, hrun, runs_peek_of_buffer hb⟩
  | error e r =>
    rw [hrun] at h
    cases h

/-- Comparisons joined by `and` are read, and a comparison of a comparison is refused where it
begins, also in the second of them. -/
theorem read_eq_layers_joinedComparisons :
    (∃ e r, Runs readLayered (Stream.ofText "a < b * 2 and c == d".toList) e r ∧
      Runs read (Stream.ofText "a < b * 2 and c == d".toList) e r) ∧
    ∃ r, Fails read (Stream.ofText "a < b * 2 and c < d >= e or f".toList)
      ⟨.chainedComparison .ge, ⟨20, 22, ⟨1, 21⟩⟩⟩ r := by
  have hlegal := read_eq_layers _ _ (shows_ofText "a < b * 2 and c == d".toList)
  have hchained := read_eq_layers _ _ (shows_ofText "a < b * 2 and c < d >= e or f".toList)
  have hend : (layersStop? "a < b * 2 and c == d".toList).map Token.kind = some .eof := by
    decide +kernel
  have hstop : layersStop? "a < b * 2 and c < d >= e or f".toList =
      some ⟨.punct .ge, ⟨20, 22, ⟨1, 21⟩⟩⟩ := by
    decide +kernel
  constructor
  · obtain ⟨t, ht, hkind⟩ := Option.map_eq_some_iff.mp hend
    obtain ⟨e, r, hlayers, hpeek⟩ := exists_of_layersStop? ht
    refine ⟨e, r, hlayers, (hlegal.1 e r).mpr ⟨hlayers, t, hpeek, fun op hop => ?_⟩⟩
    rw [hkind] at hop
    cases hop
  · obtain ⟨e, r, hlayers, hpeek⟩ := exists_of_layersStop? hstop
    obtain ⟨r', -, hfails⟩ := hchained.2.1 e r _ .ge hlayers hpeek (by decide) (by decide)
    exact ⟨r', hfails⟩

end Expr

end ExprCheck
