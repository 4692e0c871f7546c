import Mathlib
import ExprCheck.Proofs.ReadFailures

/-!
# Readers make progress

The readers of the grammar count down: a level of nesting has room for only so many levels inside of
it, and a list for only so many items. These bounds are never reached, because a reader takes a
token before it goes down a level or around a loop, and there are at most as many tokens as the
bounds allow for.

`Alike k d` says so of two readers that differ in their bounds only. From streams that show fewer
than `k` reports they do the same, they do not give up, and where they succeed they have taken at
least `d` reports. A reader that takes a token first may go on with readers that are alike on one
report less.
-/

namespace ExprCheck

open ReadM

namespace ReadM

variable {α β : Type} {us : List Scanned} {d k : Nat} {m n : ReadM α} {f g : α → ReadM β}

/-- On streams that show `us`, the readers do the same and do not give up, and where they succeed
they have taken at least `d` reports. -/
structure AlikeOn (us : List Scanned) (d : Nat) (m n : ReadM α) : Prop where
  same : ∀ ⦃s⦄, s.Shows us → n.run s = m.run s
  runs : ∀ ⦃s a s'⦄, s.Shows us → Runs m s a s' → ∃ us', s'.Shows us' ∧ us'.length + d ≤ us.length
  fails : ∀ ⦃s e s'⦄, s.Shows us → Fails m s e s' → e.fault ≠ .exhausted

/-- The readers are alike on all streams that show fewer than `k` reports. -/
def Alike (k d : Nat) (m n : ReadM α) : Prop :=
  ∀ us : List Scanned, us.length < k → AlikeOn us d m n

/-! ## One reader after another -/

/-- What is known about the result of the first readers, and about the reports they leave, is known
to the second ones. -/
theorem AlikeOn.bindKnowing {P : α → List Scanned → Prop} (hm : AlikeOn us 0 m n)
    (hP : ∀ ⦃s a s'⦄, s.Shows us → Runs m s a s' → ∃ us', s'.Shows us' ∧ P a us')
    (hf : ∀ a us', P a us' → ∃ d', us'.length + d ≤ us.length + d' ∧ AlikeOn us' d' (f a) (g a)) :
    AlikeOn us d (m >>= f) (n >>= g) where
  same := by
    intro s hs
    rw [EStateM.run_bind, EStateM.run_bind, hm.same hs]
    cases hrun : m.run s with
    | ok a s' =>
      obtain ⟨us', hs', hknown⟩ := hP hs hrun
      obtain ⟨d', -, halike⟩ := hf a us' hknown
      exact halike.same hs'
    | error e s' => rfl
  runs := by
    intro s b s' hs hrun
    obtain ⟨a, s₁, hrun₁, hrun₂⟩ := runs_bind.mp hrun
    obtain ⟨us₁, hs₁, hknown⟩ := hP hs hrun₁
    obtain ⟨d', hlength₁, halike⟩ := hf a us₁ hknown
    obtain ⟨us', hs', hlength⟩ := halike.runs hs₁ hrun₂
    exact ⟨us', hs', by omega⟩
  fails := by
    intro s e s' hs hfail
    rcases fails_bind.mp hfail with hfail | ⟨a, s₁, hrun, hfail⟩
    · exact hm.fails hs hfail
    · obtain ⟨us₁, hs₁, hknown⟩ := hP hs hrun
      obtain ⟨d', -, halike⟩ := hf a us₁ hknown
      exact halike.fails hs₁ hfail

theorem AlikeOn.weaken (h : AlikeOn us d m n) {d' : Nat} (hd : d' ≤ d) : AlikeOn us d' m n where
  same := h.same
  runs := by
    intro s a s' hs hrun
    obtain ⟨us', hs', hlength⟩ := h.runs hs hrun
    exact ⟨us', hs', by omega⟩
  fails := h.fails

/-- The reports that the first readers take are fewer for the second ones, and both amounts count.
-/
theorem AlikeOn.bind {d' : Nat} (hm : AlikeOn us d m n)
    (hf : ∀ a us', us'.length + d ≤ us.length → AlikeOn us' d' (f a) (g a)) :
    AlikeOn us (d + d') (m >>= f) (n >>= g) :=
  (hm.weaken (Nat.zero_le d)).bindKnowing hm.runs fun a us' hlength =>
    ⟨d', by omega, hf a us' hlength⟩

namespace Alike

/-- No stream shows fewer than no reports. -/
theorem zero : Alike 0 d m n := fun _ hus => absurd hus (Nat.not_lt_zero _)

theorem mono (h : Alike k d m n) {k' : Nat} (hk : k' ≤ k) : Alike k' d m n :=
  fun us hus => h us (by omega)

theorem weaken (h : Alike k d m n) {d' : Nat} (hd : d' ≤ d) : Alike k d' m n :=
  fun us hus => (h us hus).weaken hd

/-- The second readers are alike themselves. -/
theorem right (h : Alike k d m n) : Alike k d n n := by
  intro us hus
  refine ⟨fun _ _ => rfl, fun s a s' hs hrun => ?_, fun s e s' hs hfail => ?_⟩
  · exact (h us hus).runs hs (((h us hus).same hs).symm.trans hrun)
  · exact (h us hus).fails hs (((h us hus).same hs).symm.trans hfail)

/-- After a token has been taken, fewer reports are to come. -/
theorem first (hm : Alike (k + 1) 1 m n) (hf : ∀ a, Alike k 0 (f a) (g a)) :
    Alike (k + 1) 1 (m >>= f) (n >>= g) :=
  fun us hus => (hm us hus).bind fun a us' hlength => hf a us' (by omega)

/-- The second readers need not take anything. -/
theorem bind (hm : Alike k d m n) (hf : ∀ a, Alike k 0 (f a) (g a)) :
    Alike k d (m >>= f) (n >>= g) :=
  fun us hus => (hm us hus).bind fun a us' hlength => hf a us' (by omega)

/-- It may be the second readers that take a token. -/
theorem andThen {d' : Nat} (hm : Alike k d' m n) (hf : ∀ a, Alike k d (f a) (g a)) :
    Alike k d (m >>= f) (n >>= g) := by
  intro us hus
  have hbind := (hm us hus).bind fun a us' hlength => hf a us' (by omega)
  exact hbind.weaken (Nat.le_add_left d d')

theorem pure (a : α) : Alike k 0 (pure a : ReadM α) (pure a) := by
  intro us _
  refine ⟨fun _ _ => rfl, ?_, fun _ _ _ _ hfail => absurd hfail not_fails_pure⟩
  intro s b s' hs hrun
  obtain ⟨-, rfl⟩ := runs_pure.mp hrun
  exact ⟨us, hs, Nat.le_refl _⟩

theorem ite {p : Prop} [Decidable p] {m' n' : ReadM α} (h : Alike k d m n)
    (h' : Alike k d m' n') : Alike k d (if p then m else m') (if p then n else n') := by
  by_cases hp : p
  · rw [if_pos hp, if_pos hp]
    exact h
  · rw [if_neg hp, if_neg hp]
    exact h'

/-- A reader that fails for another reason than its bounds does not give up. -/
theorem fail {fault : ReadFault} (h : fault ≠ .exhausted) (span : Span) :
    Alike k d (ReadM.fail fault span : ReadM α) (ReadM.fail fault span) := by
  intro us _
  refine ⟨fun _ _ => rfl, fun _ _ _ _ hrun => absurd hrun not_runs_fail, ?_⟩
  intro s e s' _ hfail
  obtain ⟨rfl, -⟩ := fails_fail.mp hfail
  exact h

/-- A value that may be missing is read alike, if what is said about it is not that a bound was
reached. -/
theorem orFail {r : Except ReadFault α} (span : Span)
    (h : ∀ fault, r = .error fault → fault ≠ .exhausted) :
    Alike k 0 (Grammar.orFail span r) (Grammar.orFail span r) := by
  cases r with
  | ok a => exact .pure a
  | error fault => exact .fail (h fault rfl) span

theorem spanFrom (start : Span) : Alike k 0 (spanFrom start) (spanFrom start) := by
  intro us _
  refine ⟨fun _ _ => rfl, ?_, fun _ _ _ _ hfail => ?_⟩
  · intro s span s' hs hrun
    obtain ⟨-, rfl⟩ := runs_spanFrom.mp hrun
    exact ⟨us, hs, Nat.le_refl _⟩
  · exact absurd (fails_get_bind.mp hfail) not_fails_pure

end Alike

/-! ## Steps of a stream -/

theorem fails_scanNext_ne {s s' : Stream} {e : ReadError} (h : Fails scanNext s e s') :
    e.fault ≠ .exhausted := by
  obtain ⟨text, span, rest, -, rfl⟩ := fails_scanNext h
  simp

/-- Scanning knows no bounds: it fails only on junk. -/
theorem fails_fill_ne {s s' : Stream} {e : ReadError} {i : Nat} (h : Fails (fill i) s e s') :
    e.fault ≠ .exhausted := by
  induction i generalizing s with
  | zero => exact absurd h not_fails_pure
  | succ i ih =>
    rcases fails_bind.mp h with hscan | ⟨t, s₁, -, h⟩
    · exact fails_scanNext_ne hscan
    · rcases fails_bind.mp h with hmodify | ⟨_, s₂, -, h⟩
      · cases hmodify
      · exact ih h

theorem fails_peekAt_ne {s s' : Stream} {e : ReadError} {i : Nat} (h : Fails (peekAt i) s e s') :
    e.fault ≠ .exhausted := by
  unfold peekAt at h
  rw [fails_get_bind] at h
  rcases fails_bind.mp h with hfill | ⟨_, s₁, -, h⟩
  · exact fails_fill_ne hfill
  · exact absurd (fails_get_bind.mp h) not_fails_pure

theorem fails_next_ne {s s' : Stream} {e : ReadError} (h : Fails next s e s') :
    e.fault ≠ .exhausted := by
  unfold next at h
  rw [fails_get_bind] at h
  split at h
  · cases h
  · rcases fails_bind.mp h with hscan | ⟨_, s₁, -, h⟩
    · exact fails_scanNext_ne hscan
    · cases h

theorem fails_accept_ne {s s' : Stream} {e : ReadError} {kind : Kind}
    (h : Fails (accept kind) s e s') : e.fault ≠ .exhausted := by
  rcases fails_bind.mp h with hcheck | ⟨b, s₁, -, h⟩
  · rcases fails_bind.mp hcheck with hpeek | ⟨t, s₁, -, h⟩
    · exact fails_peekAt_ne hpeek
    · exact absurd h not_fails_pure
  · split at h
    · rcases fails_bind.mp h with hnext | ⟨t, s₂, -, h⟩
      · exact fails_next_ne hnext
      · exact absurd h not_fails_pure
    · exact absurd h not_fails_pure

/-- Looking ahead has no bounds to differ in, and takes nothing. -/
theorem alikeOn_peekAt (us : List Scanned) (i : Nat) : AlikeOn us 0 (peekAt i) (peekAt i) where
  same := fun _ _ => rfl
  runs := by
    intro s t s' hs hrun
    obtain ⟨hs', -, -⟩ := runs_peekAt hs hrun
    exact ⟨us, hs', Nat.le_refl _⟩
  fails := fun _ _ _ _ hfail => fails_peekAt_ne hfail

theorem alikeOn_next (us : List Scanned) : AlikeOn us 0 next next where
  same := fun _ _ => rfl
  runs := by
    intro s t s' hs hrun
    obtain ⟨-, ⟨rest, rfl, hs'⟩ | ⟨rfl, -, hs'⟩⟩ := runs_next hs hrun
    · exact ⟨rest, hs', Nat.le_succ _⟩
    · exact ⟨[], hs', Nat.le_refl _⟩
  fails := fun _ _ _ _ hfail => fails_next_ne hfail

/-- Taking a token if it is there takes nothing for certain. -/
theorem alikeOn_accept (us : List Scanned) (kind : Kind) [Exact kind] :
    AlikeOn us 0 (accept kind) (accept kind) where
  same := fun _ _ => rfl
  runs := by
    intro s b s' hs hrun
    rcases runs_accept hs hrun with ⟨-, t, rest, rfl, -, hs'⟩ | ⟨-, hs', -⟩
    · exact ⟨rest, hs', Nat.le_succ _⟩
    · exact ⟨us, hs', Nat.le_refl _⟩
  fails := fun _ _ _ _ hfail => fails_accept_ne hfail

/-- After a look, it is known which token comes next. -/
theorem AlikeOn.peek {f g : Token → ReadM β}
    (h : ∀ t, upcoming? us 0 = some t.kind → AlikeOn us d (f t) (g t)) :
    AlikeOn us d (peek >>= f) (peek >>= g) := by
  refine (alikeOn_peekAt us 0).bindKnowing
    (P := fun t us' => us' = us ∧ upcoming? us 0 = some t.kind)
    (fun s t s' hs hrun => ?_) fun t us' hknown => ?_
  · obtain ⟨hs', hkind, -⟩ := runs_peekAt hs hrun
    exact ⟨us, hs', rfl, hkind⟩
  · obtain ⟨rfl, hkind⟩ := hknown
    exact ⟨d, Nat.le_refl _, h t hkind⟩

/-- The next token is taken, unless only the end of the text is to come. -/
theorem AlikeOn.next {f g : Token → ReadM β}
    (h : ∀ t rest, us = .token t :: rest → AlikeOn rest (d - 1) (f t) (g t))
    (heof : ∀ t, us = [] → t.kind = .eof → AlikeOn [] d (f t) (g t)) :
    AlikeOn us d (next >>= f) (next >>= g) := by
  refine (alikeOn_next us).bindKnowing
    (P := fun t us' => us = .token t :: us' ∨ us = [] ∧ t.kind = .eof ∧ us' = [])
    (fun s t s' hs hrun => ?_) fun t us' hknown => ?_
  · obtain ⟨-, ⟨rest, hus, hs'⟩ | ⟨hus, ht, hs'⟩⟩ := runs_next hs hrun
    · exact ⟨rest, hs', Or.inl hus⟩
    · exact ⟨[], hs', Or.inr ⟨hus, ht, rfl⟩⟩
  · rcases hknown with hus | ⟨hus, ht, rfl⟩
    · refine ⟨d - 1, ?_, h t us' hus⟩
      rw [hus, List.length_cons]
      omega
    · exact ⟨d, by simp, heof t hus ht⟩

/-- A token that was looked at and is not the end of the text can be taken. -/
theorem AlikeOn.taken {f g : Token → ReadM β} {kind : Kind} (hkind : upcoming? us 0 = some kind)
    (hne : kind ≠ .eof) (h : ∀ t, Alike us.length 0 (f t) (g t)) :
    AlikeOn us 1 (ReadM.next >>= f) (ReadM.next >>= g) := by
  refine .next (fun t rest hus => h t rest ?_) fun t hus _ => ?_
  · rw [hus, List.length_cons]
    omega
  · rw [hus] at hkind
    exact absurd (Option.some.inj hkind).symm hne

/-- Either the token was there and there are fewer reports, or all are still to come. -/
theorem AlikeOn.accept {f g : Bool → ReadM β} {kind : Kind} [Exact kind]
    (h : ∀ t rest, us = .token t :: rest → AlikeOn rest (d - 1) (f true) (g true))
    (h' : AlikeOn us d (f false) (g false)) :
    AlikeOn us d (accept kind >>= f) (accept kind >>= g) := by
  refine (alikeOn_accept us kind).bindKnowing
    (P := fun b us' => b = true ∧ (∃ t, us = .token t :: us') ∨ b = false ∧ us' = us)
    (fun s b s' hs hrun => ?_) fun b us' hknown => ?_
  · rcases runs_accept hs hrun with ⟨rfl, t, rest, hus, -, hs'⟩ | ⟨rfl, hs', -⟩
    · exact ⟨rest, hs', Or.inl ⟨rfl, t, hus⟩⟩
    · exact ⟨us, hs', Or.inr ⟨rfl, rfl⟩⟩
  · rcases hknown with ⟨rfl, t, hus⟩ | ⟨rfl, rfl⟩
    · refine ⟨d - 1, ?_, h t us' hus⟩
      rw [hus, List.length_cons]
      omega
    · exact ⟨d, Nat.le_refl _, h'⟩

namespace Alike

theorem peekAt (i : Nat) : Alike k 0 (peekAt i) (peekAt i) := fun us _ => alikeOn_peekAt us i

theorem peek {f g : Token → ReadM β} (h : ∀ t, Alike k d (f t) (g t)) :
    Alike k d (peek >>= f) (peek >>= g) :=
  (peekAt 0).andThen h

/-- A token is taken first, and nothing good comes of the end of the text. -/
theorem next {f g : Token → ReadM β} (h : ∀ t, Alike k 0 (f t) (g t))
    (heof : ∀ t, t.kind = .eof → Alike 1 1 (f t) (g t)) :
    Alike (k + 1) 1 (ReadM.next >>= f) (ReadM.next >>= g) := by
  intro us hus
  refine .next (fun t rest hcons => h t rest ?_) fun t _ ht => heof t ht [] Nat.one_pos
  rw [hcons, List.length_cons] at hus
  omega

theorem take : Alike k 0 ReadM.next ReadM.next := fun us _ => alikeOn_next us

theorem checkAt (i : Nat) (kind : Kind) : Alike k 0 (checkAt i kind) (checkAt i kind) :=
  (peekAt i).andThen fun _ => .pure _

section Exact

variable {kind : Kind} [Exact kind]

theorem expect : Alike k 1 (expect kind) (expect kind) := by
  intro us _
  refine ⟨fun _ _ => rfl, ?_, ?_⟩
  · intro s t s' hs hrun
    obtain ⟨rest, rfl, -, hs'⟩ := runs_expect hs hrun
    exact ⟨rest, hs', Nat.le_refl _⟩
  · intro s e s' hs hfail
    rcases fails_bind.mp hfail with hfail | ⟨t, s₁, -, hfail⟩
    · exact fails_next_ne hfail
    · split at hfail
      · exact absurd hfail not_fails_pure
      · obtain ⟨rfl, -⟩ := fails_fail.mp hfail
        simp

theorem accept : Alike k 0 (accept kind) (accept kind) := fun us _ => alikeOn_accept us kind

/-- A choice by the next token. Where the token is taken, fewer reports are to come. -/
theorem ifAccept {m' n' : ReadM α} (h : Alike k 0 m n) (h' : Alike (k + 1) d m' n') (hd : d ≤ 1) :
    Alike (k + 1) d (do if ← ReadM.accept kind then m else m')
      (do if ← ReadM.accept kind then n else n') := by
  intro us hus
  refine .accept (fun t rest hcons => (h rest ?_).weaken ?_) (h' us hus)
  · rw [hcons, List.length_cons] at hus
    omega
  · omega

end Exact

end Alike

end ReadM

theorem Operator.ne_eof_of_ofKind? {kind : Kind} {op : Operator}
    (h : Operator.ofKind? kind = some op) : kind ≠ .eof := by
  rintro rfl
  cases h

namespace Grammar

variable {α : Type} {k d : Nat}

/-! ## Lists, names and constants -/

/-- A list goes round once for each item, and an item takes a token. So as many rounds suffice as
there can be reports. -/
theorem alike_items {close : Kind} {item item' : ReadM α} (hitem : Alike k 1 item item')
    {j n n' : Nat} (hj : j ≤ k) (hn : j ≤ n) (hn' : j ≤ n') :
    Alike j 0 (items close item n) (items close item' n') := by
  induction j generalizing n n' with
  | zero => exact .zero
  | succ j ih =>
    obtain ⟨n, rfl⟩ := Nat.exists_eq_add_one_of_ne_zero (by omega : n ≠ 0)
    obtain ⟨n', rfl⟩ := Nat.exists_eq_add_one_of_ne_zero (by omega : n' ≠ 0)
    refine (Alike.checkAt 0 close).andThen fun closed => .ite (.pure []) ?_
    refine ((hitem.mono hj).first fun x => ?_).weaken (Nat.zero_le 1)
    refine Alike.accept.andThen fun more => .ite ?_ (.pure [x])
    exact (ih (by omega) (by omega) (by omega)).andThen fun rest => .pure (x :: rest)

theorem alike_identifier : Alike (k + 1) 1 identifier identifier := by
  refine .next (fun t => ?_) fun t ht => ?_
  · split
    · exact .pure _
    · exact .fail (by simp) t.span
  · simp only [ht]
    exact .fail (by simp) t.span

theorem alike_nameBefore (kind : Kind) : Alike k 0 (nameBefore kind) (nameBefore kind) :=
  (Alike.checkAt 0 anyIdentifier).andThen fun _ => .ite (.checkAt 1 kind) (.pure false)

theorem alike_atDeclaration : Alike k 0 atDeclaration atDeclaration :=
  (alike_nameBefore _).andThen fun _ => .ite (.pure true) (alike_nameBefore _)

theorem alike_atReturnEnd : Alike k 0 atReturnEnd atReturnEnd := by
  refine .peek fun t => ?_
  split
  all_goals exact .pure _

theorem alike_atom : Alike (k + 1) 1 atom atom := by
  refine .next (fun t => ?_) fun t ht => ?_
  · split
    · exact .pure _
    · refine (Alike.orFail t.span fun fault hfault => ?_).andThen fun v => .pure _
      rcases ofKind_eq_error hfault with ⟨_, rfl⟩ | ⟨_, rfl⟩ | rfl <;> simp
  · simp only [ht]
    exact (Alike.fail (by simp) t.span).bind fun v => .pure _

theorem alike_selector (target : Expr) : Alike (k + 1) 1 (selector target) (selector target) := by
  refine .next (fun t => ?_) fun t ht => ?_
  · split
    · exact (Alike.spanFrom _).andThen fun _ => .pure _
    · refine (Alike.orFail t.span fun fault hfault => ?_).andThen fun n => ?_
      · rw [readOrdinal_eq_error hfault]
        simp
      · exact (Alike.spanFrom _).andThen fun _ => .pure _
    · exact .fail (by simp) t.span
  · simp only [ht]
    exact .fail (by simp) t.span

/-! ## Readers of one level -/

/-- The readers of two levels are alike, and their bounds are large enough. -/
structure Level.Alike (k : Nat) (l m : Level) : Prop where
  rounds : k < l.rounds
  rounds' : k < m.rounds
  expr : ∀ least, ReadM.Alike k 1 (l.expr least) (m.expr least)
  typeExpr : ReadM.Alike k 1 l.typeExpr m.typeExpr
  stmts : ReadM.Alike k 0 l.stmts m.stmts

section Readers

variable {l m : Level} (h : Level.Alike k l m)

include h

/-- The rounds of a level are enough for a list inside of it. -/
theorem alike_list {close : Kind} {item item' : ReadM α} (hitem : Alike k 1 item item') :
    Alike k 0 (items close item l.rounds) (items close item' m.rounds) :=
  alike_items hitem (Nat.le_refl k) h.rounds.le h.rounds'.le

theorem alike_optionalType : Alike k 0 (optionalType l) (optionalType m) :=
  Alike.accept.andThen fun _ => .ite (h.typeExpr.andThen fun _ => .pure _) (.pure none)

theorem alike_typeExpr : Alike (k + 1) 1 (typeExpr l) (typeExpr m) := by
  refine .next (fun t => ?_) fun t ht => ?_
  · split
    · refine Alike.expect.andThen fun _ => (alike_list h h.typeExpr).andThen fun params => ?_
      refine Alike.expect.andThen fun _ => Alike.expect.andThen fun _ => ?_
      exact h.typeExpr.andThen fun result => (Alike.spanFrom _).andThen fun _ => .pure _
    · refine h.typeExpr.andThen fun element => Alike.expect.andThen fun _ => ?_
      exact (Alike.spanFrom _).andThen fun _ => .pure _
    · refine h.typeExpr.andThen fun key => Alike.expect.andThen fun _ => ?_
      refine h.typeExpr.andThen fun value => Alike.expect.andThen fun _ => ?_
      exact (Alike.spanFrom _).andThen fun _ => .pure _
    · refine (alike_list h h.typeExpr).andThen fun fields => Alike.expect.andThen fun _ => ?_
      exact (Alike.spanFrom _).andThen fun _ => .pure _
    · split
      · exact (Alike.spanFrom _).andThen fun _ => .pure _
      · exact .fail (by simp) t.span
  · simp only [ht]
    exact .fail (by simp) t.span

theorem alike_arguments : Alike k 0 (arguments l) (arguments m) :=
  (alike_list h (h.expr 0)).andThen fun _ => Alike.expect.andThen fun _ => .pure _

theorem alike_conditional : Alike (k + 1) 1 (conditional l) (conditional m) := by
  refine Alike.expect.first fun start => (h.expr 0).andThen fun p => ?_
  refine Alike.expect.andThen fun _ => (h.expr 0).andThen fun t => ?_
  refine Alike.expect.andThen fun _ => (h.expr 0).andThen fun e => ?_
  exact Alike.expect.andThen fun _ => (Alike.spanFrom _).andThen fun _ => .pure _

theorem alike_param : Alike k 1 (param l) (param m) := by
  refine .peek fun start => (alike_identifier.mono (Nat.le_succ k)).bind fun name => ?_
  exact (alike_optionalType h).andThen fun t => (Alike.spanFrom _).andThen fun _ => .pure _

theorem alike_body : Alike k 0 (body l) (body m) := by
  refine .peek fun start => Alike.accept.andThen fun arrow => .ite ?_ ?_
  · exact (h.expr 0).andThen fun value => (Alike.spanFrom _).andThen fun _ => .pure _
  · refine Alike.accept.andThen fun block => .ite ?_ ?_
    · refine h.stmts.andThen fun stmts => Alike.expect.andThen fun _ => ?_
      exact (Alike.spanFrom _).andThen fun _ => .pure _
    · exact Alike.take.andThen fun t => .fail (by simp) t.span

theorem alike_function : Alike (k + 1) 1 (function l) (function m) := by
  refine Alike.expect.first fun start => Alike.expect.andThen fun _ => ?_
  refine (alike_list h (alike_param h)).andThen fun params => Alike.expect.andThen fun _ => ?_
  refine (alike_optionalType h).andThen fun result => (alike_body h).andThen fun b => ?_
  exact (Alike.spanFrom _).andThen fun _ => .pure _

/-- The opening bracket is taken first, so one report less is left for the items. -/
theorem alike_bracketed {item item' : ReadM α} (hitem : Alike k 1 item item')
    {opening closing : Punct} {node : Span → List α → Expr} :
    Alike (k + 1) 1 (bracketed opening closing node item l.rounds)
      (bracketed opening closing node item' m.rounds) := by
  refine Alike.expect.first fun start => (alike_list h hitem).andThen fun xs => ?_
  exact Alike.expect.andThen fun _ => (Alike.spanFrom _).andThen fun _ => .pure _

theorem alike_entry : Alike k 1 (entry l) (entry m) :=
  (h.expr 0).bind fun _ => Alike.expect.andThen fun _ => (h.expr 0).andThen fun _ => .pure _

theorem alike_element : Alike k 1 (element l) (element m) := by
  refine .peek fun start => (alike_nameBefore _).andThen fun named => .ite ?_ ?_
  · refine (alike_identifier.mono (Nat.le_succ k)).bind fun name => Alike.expect.andThen fun _ => ?_
    exact (h.expr 0).andThen fun value => (Alike.spanFrom _).andThen fun _ => .pure _
  · exact (h.expr 0).bind fun value => (Alike.spanFrom _).andThen fun _ => .pure _

theorem alike_tupleFrom (start : Span) (first : Element) :
    Alike k 0 (tupleFrom l start first) (tupleFrom m start first) := by
  refine Alike.accept.andThen fun more => ?_
  split
  · refine (alike_list h (alike_element h)).andThen fun others => Alike.expect.andThen fun _ => ?_
    exact (Alike.spanFrom _).andThen fun _ => .pure _
  · refine (Alike.pure []).andThen fun others => Alike.expect.andThen fun _ => ?_
    exact (Alike.spanFrom _).andThen fun _ => .pure _

theorem alike_parenthesized : Alike (k + 1) 1 (parenthesized l) (parenthesized m) := by
  refine Alike.expect.first fun start => (alike_element h).andThen fun first => ?_
  split
  · exact alike_tupleFrom h start.span first
  · refine Alike.accept.andThen fun closed => .ite ?_ (alike_tupleFrom h start.span first)
    exact (Alike.spanFrom _).andThen fun _ => .pure _

theorem alike_primary : Alike (k + 1) 1 (primary l) (primary m) := by
  refine .peek fun t => ?_
  split
  · exact alike_conditional h
  · exact alike_function h
  · exact alike_bracketed h (h.expr 0)
  · exact alike_bracketed h (alike_entry h)
  · exact alike_parenthesized h
  · exact alike_atom

/-- Each suffix begins with a token of its own, so the rounds suffice. -/
theorem alike_suffixes {j n n' : Nat} (hj : j ≤ k) (hn : j ≤ n) (hn' : j ≤ n') (e : Expr) :
    Alike j 0 (suffixes l n e) (suffixes m n' e) := by
  induction j generalizing n n' e with
  | zero => exact .zero
  | succ j ih =>
    obtain ⟨n, rfl⟩ := Nat.exists_eq_add_one_of_ne_zero (by omega : n ≠ 0)
    obtain ⟨n', rfl⟩ := Nat.exists_eq_add_one_of_ne_zero (by omega : n' ≠ 0)
    have hnext : ∀ e, Alike j 0 (suffixes l n e) (suffixes m n' e) :=
      fun e => ih (by omega) (by omega) (by omega) e
    have hexpr : Alike j 1 (l.expr 0) (m.expr 0) := (h.expr 0).mono (by omega)
    refine .ifAccept ?_ (.ifAccept ?_ (.ifAccept ?_ (.pure e) ?_) ?_) ?_
    · refine ((alike_arguments h).mono (by omega)).andThen fun args => ?_
      exact (Alike.spanFrom _).andThen fun span => hnext _
    · refine hexpr.andThen fun i => Alike.expect.andThen fun _ => ?_
      exact (Alike.spanFrom _).andThen fun span => hnext _
    · exact ((alike_selector e).mono (Nat.le_succ j)).andThen hnext
    all_goals omega

theorem alike_operand : Alike (k + 1) 1 (operand l) (operand m) :=
  (alike_primary h).first fun e => alike_suffixes h (Nat.le_refl k) h.rounds.le h.rounds'.le e

/-- Each operator is a token, so the rounds suffice. -/
theorem alike_operators (least : Nat) {j n n' : Nat} (hj : j ≤ k + 1) (hn : j ≤ n) (hn' : j ≤ n')
    (compared : Bool) (left : Expr) :
    Alike j 0 (operators l least n compared left) (operators m least n' compared left) := by
  induction j generalizing n n' compared left with
  | zero => exact .zero
  | succ j ih =>
    obtain ⟨n, rfl⟩ := Nat.exists_eq_add_one_of_ne_zero (by omega : n ≠ 0)
    obtain ⟨n', rfl⟩ := Nat.exists_eq_add_one_of_ne_zero (by omega : n' ≠ 0)
    intro us hus
    refine .peek fun t ht => ?_
    cases hop : Operator.ofKind? t.kind with
    | none => exact Alike.pure left us hus
    | some op =>
      by_cases hleast : op.precedence < least
      · simp only [hleast, if_true]
        exact Alike.pure left us hus
      · -- the operator is taken, so that fewer reports are to come behind it
        simp only [hleast, if_false]
        have hne := Operator.ne_eof_of_ofKind? hop
        refine (AlikeOn.taken ht hne fun t' => .mono (.ite (.fail (by simp) _) ?_)
          (Nat.le_of_lt_succ hus)).weaken (Nat.zero_le 1)
        refine ((h.expr _).mono (by omega)).andThen fun right => ?_
        exact ih (by omega) (by omega) (by omega) _ _

theorem alike_expr (least : Nat) : Alike (k + 1) 1 (expr l least) (expr m least) :=
  (alike_operand h).first fun e =>
    alike_operators h least (Nat.le_succ k) h.rounds.le h.rounds'.le false e

theorem alike_declaration : Alike (k + 1) 1 (declaration l) (declaration m) := by
  refine .peek fun start => alike_identifier.first fun name => ?_
  refine (alike_optionalType h).andThen fun t => Alike.expect.andThen fun _ => ?_
  exact (h.expr 0).andThen fun value => (Alike.spanFrom _).andThen fun _ => .pure _

theorem alike_header : Alike (k + 1) 1 (header l) (header m) := by
  refine .peek fun start => .ifAccept ?_ ?_ (Nat.le_refl 1)
  · refine (alike_nameBefore _).andThen fun named => ?_
    split
    on_goal 1 =>
      refine (alike_identifier.mono (Nat.le_succ k)).andThen fun name => ?_
      refine Alike.expect.andThen fun _ => ?_
    all_goals
      refine (Alike.pure _).andThen fun x => (h.expr 0).andThen fun first => ?_
      refine Alike.accept.andThen fun ranged => .ite ?_ ?_
      · exact (h.expr 0).andThen fun last => (Alike.spanFrom _).andThen fun _ => .pure _
      · exact (Alike.spanFrom _).andThen fun _ => .pure _
  · refine Alike.expect.first fun _ => (h.expr 0).andThen fun condition => ?_
    exact (Alike.spanFrom _).andThen fun _ => .pure _

theorem alike_exprStmt (start : Span) : Alike (k + 1) 1 (exprStmt l start) (exprStmt m start) := by
  refine (alike_operand h).first fun target => Alike.accept.andThen fun assigned => .ite ?_ ?_
  · exact (h.expr 0).andThen fun value => (Alike.spanFrom _).andThen fun _ => .pure _
  · split
    · exact (Alike.spanFrom _).andThen fun _ => .pure _
    · exact .fail (by simp) target.span

theorem alike_plainStmt : Alike (k + 1) 1 (plainStmt l) (plainStmt m) := by
  intro us hus
  have hk : us.length ≤ k := Nat.le_of_lt_succ hus
  refine .peek fun t ht => ?_
  split
  · next hkind =>
    refine .taken ht (by simp [hkind]) fun _ => .mono ?_ hk
    refine alike_atReturnEnd.andThen fun ended => .ite ?_ ?_
    · exact (Alike.spanFrom _).andThen fun _ => .pure _
    · exact (h.expr 0).andThen fun value => (Alike.spanFrom _).andThen fun _ => .pure _
  · next hkind =>
    refine .taken ht (by simp [hkind]) fun _ => .mono ?_ hk
    exact (Alike.spanFrom _).andThen fun _ => .pure _
  · next hkind =>
    refine .taken ht (by simp [hkind]) fun _ => .mono ?_ hk
    refine Alike.expect.andThen fun _ => (alike_arguments h).andThen fun args => ?_
    exact (Alike.spanFrom _).andThen fun _ => .pure _
  · next hkind =>
    refine .taken ht (by simp [hkind]) fun _ => .mono ?_ hk
    refine (h.expr 0).andThen fun condition => Alike.expect.andThen fun _ => ?_
    refine h.stmts.andThen fun thenBranch => Alike.accept.andThen fun branched => .ite ?_ ?_
    · refine h.stmts.andThen fun elseBranch => Alike.expect.andThen fun _ => ?_
      exact (Alike.spanFrom _).andThen fun _ => .pure _
    · exact Alike.expect.andThen fun _ => (Alike.spanFrom _).andThen fun _ => .pure _
  iterate 2
    · refine Alike.first (alike_header h) (fun hd => ?_) us hus
      refine Alike.expect.andThen fun _ => h.stmts.andThen fun stmts => ?_
      exact Alike.expect.andThen fun _ => (Alike.spanFrom _).andThen fun _ => .pure _
  · exact alike_exprStmt h t.span us hus

theorem alike_stmt : Alike (k + 1) 1 (stmt l) (stmt m) := by
  refine alike_atDeclaration.andThen fun declares => .ite ?_ (alike_plainStmt h)
  exact (alike_declaration h).bind fun d => .pure _

/-- Each statement takes a token, so the rounds suffice. -/
theorem alike_stmts {j n n' : Nat} (hj : j ≤ k + 1) (hn : j ≤ n) (hn' : j ≤ n') :
    Alike j 0 (stmts l n) (stmts m n') := by
  induction j generalizing n n' with
  | zero => exact .zero
  | succ j ih =>
    obtain ⟨n, rfl⟩ := Nat.exists_eq_add_one_of_ne_zero (by omega : n ≠ 0)
    obtain ⟨n', rfl⟩ := Nat.exists_eq_add_one_of_ne_zero (by omega : n' ≠ 0)
    refine .peek fun t => ?_
    split
    · exact .pure []
    · exact .pure []
    · exact .pure []
    · refine (((alike_stmt h).mono hj).first fun st => ?_).weaken (Nat.zero_le 1)
      refine Alike.accept.andThen fun _ => ?_
      exact (ih (by omega) (by omega) (by omega)).andThen fun rest => .pure (st :: rest)

end Readers

/-! ## All levels -/

/-- Levels that allow for all reports to come are alike. -/
theorem alike_level {k n n' : Nat} (hn : k ≤ n) (hn' : k ≤ n') :
    Level.Alike k (level n) (level n') := by
  induction k generalizing n n' with
  | zero =>
    refine ⟨?_, ?_, fun _ => .zero, .zero, .zero⟩
    · rw [level_rounds]
      omega
    · rw [level_rounds]
      omega
  | succ k ih =>
    obtain ⟨n, rfl⟩ := Nat.exists_eq_add_one_of_ne_zero (by omega : n ≠ 0)
    obtain ⟨n', rfl⟩ := Nat.exists_eq_add_one_of_ne_zero (by omega : n' ≠ 0)
    have hinner : Level.Alike k (level n) (level n') := ih (by omega) (by omega)
    refine ⟨?_, ?_, alike_expr hinner, alike_typeExpr hinner, ?_⟩
    · rw [level_rounds]
      omega
    · rw [level_rounds]
      omega
    · exact alike_stmts hinner (Nat.le_refl _) hinner.rounds hinner.rounds'

end Grammar

end ExprCheck
