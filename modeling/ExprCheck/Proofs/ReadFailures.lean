import Mathlib
import ExprCheck.Proofs.ParserSound
import ExprCheck.Proofs.Places

/-!
# Where reading fails

A text that cannot be read is blamed on a stretch of it: on the first junk, or on text that was
looked at before the junk was reached. All that the readers know of the text are the spans of the
tokens before the first junk, and what `Span.merge` makes of them. So whatever holds of these spans
and survives merging holds of the span of every error that is not about junk. `Safe` says this of a
reader, for every such property `G` of spans.
-/

namespace ExprCheck

/-- The error that the first junk among some reports gives, if there is junk. -/
def firstJunk? : List Scanned → Option ReadError
  | [] => none
  | .token _ :: rest => firstJunk? rest
  | .junk text span :: _ => some ⟨.junk text, span⟩

/-- The tokens before the first junk. -/
def leadingTokens : List Scanned → List Token
  | .token t :: rest => t :: leadingTokens rest
  | _ => []

/-- The tokens of a text are those in front of its first junk, if there is junk. -/
theorem tokensOf_eq (eof : Token) (us : List Scanned) :
    tokensOf eof us = match firstJunk? us with
      | some e => .error e
      | none => .ok (leadingTokens us ++ [eof]) := by
  induction us with
  | nil => rfl
  | cons u us ih =>
    cases u with
    | junk text span => rfl
    | token t =>
      rw [tokensOf, ih, firstJunk?]
      cases firstJunk? us <;> rfl

/-- Cutting a text into tokens fails on the first junk and on nothing else. -/
theorem tokensOf_eq_error_iff {eof : Token} {us : List Scanned} {e : ReadError} :
    tokensOf eof us = .error e ↔ firstJunk? us = some e := by
  rw [tokensOf_eq]
  cases firstJunk? us <;> simp

/-- The first junk stands among the reports, and behind all tokens before it. -/
theorem split_firstJunk {us : List Scanned} {e : ReadError} (h : firstJunk? us = some e) :
    ∃ text later, us = (leadingTokens us).map .token ++ .junk text e.span :: later := by
  induction us with
  | nil => cases h
  | cons u us ih =>
    cases u with
    | junk text span =>
      cases h
      exact ⟨text, us, rfl⟩
    | token t =>
      obtain ⟨text, later, hsplit⟩ := ih h
      refine ⟨text, later, ?_⟩
      rw [leadingTokens, List.map_cons, List.cons_append, ← hsplit]

theorem mem_of_mem_leadingTokens {us : List Scanned} {t : Token} (h : t ∈ leadingTokens us) :
    .token t ∈ us := by
  induction us with
  | nil => cases h
  | cons u us ih =>
    cases u with
    | junk text span => cases h
    | token t' =>
      rcases List.mem_cons.mp h with rfl | h
      · exact List.mem_cons_self
      · exact List.mem_cons_of_mem _ (ih h)

/-! ## Failing steps -/

namespace ReadM

variable {α β : Type} {s s' : Stream} {e : ReadError}

/-- A step that starts in `s` fails with the error `e` and leaves `s'` behind. -/
def Fails (m : ReadM α) (s : Stream) (e : ReadError) (s' : Stream) : Prop := m.run s = .error e s'

theorem not_fails_pure {a : α} : ¬ Fails (pure a) s e s' := by
  intro h
  injection h

/-- Of two readers the first one fails, or it succeeds and the second one fails. -/
theorem fails_bind {m : ReadM α} {f : α → ReadM β} :
    Fails (m >>= f) s e s' ↔
      Fails m s e s' ∨ ∃ a s₁, Runs m s a s₁ ∧ Fails (f a) s₁ e s' := by
  unfold Fails Runs
  rw [EStateM.run_bind]
  cases hm : m.run s with
  | ok a s₁ =>
    constructor
    · intro h
      exact Or.inr ⟨a, s₁, rfl, h⟩
    · rintro (h | ⟨_, _, h, hf⟩)
      · cases h
      · cases h
        exact hf
  | error e' s₁ =>
    constructor
    · intro h
      cases h
      exact Or.inl rfl
    · rintro (h | ⟨_, _, h, -⟩)
      · cases h
        rfl
      · cases h

theorem fails_get_bind {f : Stream → ReadM β} :
    Fails (get >>= f) s e s' ↔ Fails (f s) s e s' := Iff.rfl

theorem fails_fail {fault : ReadFault} {span : Span} :
    Fails (fail fault span : ReadM α) s e s' ↔ e = ⟨fault, span⟩ ∧ s' = s := by
  constructor
  · intro h
    injection h with h₁ h₂
    exact ⟨h₁.symm, h₂.symm⟩
  · rintro ⟨rfl, rfl⟩
    rfl

/-- Scanning fails on junk that stands right behind the buffer. -/
theorem fails_scanNext (h : Fails scanNext s e s') :
    ∃ text span rest, s.pending = .junk text span :: rest ∧ e = ⟨.junk text, span⟩ := by
  unfold scanNext at h
  rw [fails_get_bind] at h
  split at h
  · exact absurd h not_fails_pure
  · rcases fails_bind.mp h with h | ⟨_, _, -, h⟩
    · injection h
    · exact absurd h not_fails_pure
  · next text span rest hp =>
    rcases fails_bind.mp h with h | ⟨_, _, -, h⟩
    · injection h
    · exact ⟨text, span, rest, hp, (fails_fail.mp h).1⟩

end ReadM

open ReadM

namespace Stream

variable {G : Span → Prop} {junk : Option ReadError} {s s' : Stream}

/-- All spans that a reader can come across before the first junk satisfy `G`. The end of the text
counts only if there is no junk before it. -/
structure Guarded (G : Span → Prop) (junk : Option ReadError) (s : Stream) : Prop where
  shows : ∃ us, s.Shows us ∧ firstJunk? us = junk ∧ ∀ t ∈ leadingTokens us, G t.span
  eof : junk = none → G s.eof.span
  last : G s.last

/-- Scanning fails only on the first junk. -/
theorem Guarded.fails_scanNext (h : s.Guarded G junk) {e : ReadError}
    (hfail : Fails scanNext s e s') : junk = some e := by
  obtain ⟨us, hs, rfl, -⟩ := h.shows
  obtain ⟨text, span, rest, hp, rfl⟩ := ReadM.fails_scanNext hfail
  obtain ⟨front, n, -, rfl, -⟩ := hs.buffer
  have hfront : ∀ ts : List Token, firstJunk? (ts.map .token ++ s.pending) =
      some ⟨.junk text, span⟩ := by
    intro ts
    induction ts with
    | nil => rw [List.map_nil, List.nil_append, hp, firstJunk?]
    | cons t ts ih => exact ih
  exact hfront front

/-- A stream stays guarded while its buffer is filled. -/
theorem Guarded.fillStep (h : s.Guarded G junk) {t : Token} (hscan : Runs scanNext s t s') :
    Guarded G junk { s' with buffer := s'.buffer ++ [t] } := by
  obtain ⟨us, hs, hjunk, htokens⟩ := h.shows
  obtain ⟨hs', -, hlast⟩ := shows_fillStep hs hscan
  have he : s'.eof = s.eof := eof_scanNext hscan
  exact ⟨⟨us, hs', hjunk, htokens⟩, fun hj => he ▸ h.eof hj, hlast ▸ h.last⟩

/-- The token that comes next satisfies `G`. -/
theorem Guarded.token (h : s.Guarded G junk) {us : List Scanned} {t : Token}
    (hjunk : firstJunk? us = junk) (htokens : ∀ t ∈ leadingTokens us, G t.span)
    (hnext : Next us s.eof t) : G t.span := by
  rcases hnext with ⟨rest, rfl⟩ | ⟨rfl, rfl⟩
  · exact htokens t List.mem_cons_self
  · exact h.eof hjunk.symm

end Stream

/-! ## Safe readers -/

section Safe

variable {α β : Type} {G : Span → Prop} {junk : Option ReadError}

/-- The error is about the first junk, or about text before it. -/
def ReadError.Blames (G : Span → Prop) (junk : Option ReadError) (e : ReadError) : Prop :=
  junk = some e ∨ (e.fault.isLexical = false ∧ G e.span)

/-- From a guarded stream on, the reader leaves a guarded stream and a result that satisfies `Q`, or
fails with an error that blames the right text. -/
structure Safe (G : Span → Prop) (junk : Option ReadError) (m : ReadM α) (Q : α → Prop) :
    Prop where
  runs : ∀ ⦃s a s'⦄, s.Guarded G junk → Runs m s a s' → s'.Guarded G junk ∧ Q a
  fails : ∀ ⦃s e s'⦄, s.Guarded G junk → Fails m s e s' → e.Blames G junk

namespace Safe

/-- A reader that does nothing is safe, if its result is what is asked for. -/
theorem pure {a : α} {Q : α → Prop} (h : Q a) : Safe G junk (pure a : ReadM α) Q where
  runs := by
    intro s b s' hs hrun
    obtain ⟨rfl, rfl⟩ := runs_pure.mp hrun
    exact ⟨hs, h⟩
  fails := fun _ _ _ _ hfail => absurd hfail not_fails_pure

/-- What the first reader guarantees of its result, the second one may rely on. -/
theorem bind {m : ReadM α} {f : α → ReadM β} {P : α → Prop} {Q : β → Prop}
    (hm : Safe G junk m P) (hf : ∀ a, P a → Safe G junk (f a) Q) : Safe G junk (m >>= f) Q where
  runs := by
    intro s b s' hs hrun
    obtain ⟨a, s₁, hrun₁, hrun₂⟩ := runs_bind.mp hrun
    obtain ⟨hs₁, ha⟩ := hm.runs hs hrun₁
    exact (hf a ha).runs hs₁ hrun₂
  fails := by
    intro s e s' hs hfail
    rcases fails_bind.mp hfail with hfail | ⟨a, s₁, hrun, hfail⟩
    · exact hm.fails hs hfail
    · obtain ⟨hs₁, ha⟩ := hm.runs hs hrun
      exact (hf a ha).fails hs₁ hfail

/-- A reader whose result is of no further interest comes before another. -/
theorem andThen {m : ReadM α} {f : α → ReadM β} {P : α → Prop} {Q : β → Prop}
    (hm : Safe G junk m P) (hf : ∀ a, Safe G junk (f a) Q) : Safe G junk (m >>= f) Q :=
  hm.bind fun a _ => hf a

theorem ite {p : Prop} [Decidable p] {m n : ReadM α} {Q : α → Prop} (hm : Safe G junk m Q)
    (hn : Safe G junk n Q) : Safe G junk (if p then m else n) Q := by
  split
  · exact hm
  · exact hn

/-- A reader may fail on its own account, if it blames text that is guarded. -/
theorem fail {fault : ReadFault} {span : Span} {Q : α → Prop} (hfault : fault.isLexical = false)
    (hspan : G span) : Safe G junk (ReadM.fail fault span : ReadM α) Q where
  runs := fun _ _ _ _ hrun => absurd hrun not_runs_fail
  fails := by
    intro s e s' _ hfail
    obtain ⟨rfl, -⟩ := fails_fail.mp hfail
    exact Or.inr ⟨hfault, hspan⟩

/-- A reader that has reached its bounds blames the token it took last. -/
theorem exhausted {Q : α → Prop} : Safe G junk (Grammar.exhausted : ReadM α) Q where
  runs := fun _ _ _ _ hrun => absurd hrun Grammar.not_runs_exhausted
  fails := by
    intro s e s' hs hfail
    obtain ⟨rfl, -⟩ := fails_fail.mp (fails_get_bind.mp hfail)
    exact Or.inr ⟨rfl, hs.last⟩

/-! ## Steps of a stream -/

/-- The only failure is on the first junk. -/
theorem scanFill (n : Nat) : Safe G junk (fill n) fun _ => True where
  runs := by
    induction n with
    | zero =>
      intro s a s' hs hrun
      obtain ⟨-, rfl⟩ := runs_pure.mp hrun
      exact ⟨hs, trivial⟩
    | succ n ih =>
      intro s a s' hs hrun
      obtain ⟨t, s₁, hscan, hrun⟩ := runs_bind.mp hrun
      obtain ⟨_, s₂, hmod, hrun⟩ := runs_bind.mp hrun
      obtain rfl := runs_modify.mp hmod
      exact ih (hs.fillStep hscan) hrun
  fails := by
    induction n with
    | zero => exact fun _ _ _ _ hfail => absurd hfail not_fails_pure
    | succ n ih =>
      intro s e s' hs hfail
      rcases fails_bind.mp hfail with hfail | ⟨t, s₁, hscan, hfail⟩
      · exact Or.inl (hs.fails_scanNext hfail)
      · rcases fails_bind.mp hfail with hfail | ⟨_, s₂, hmod, hfail⟩
        · injection hfail
        · obtain rfl := runs_modify.mp hmod
          exact ih (hs.fillStep hscan) hfail

theorem peekAt (n : Nat) : Safe G junk (peekAt n) fun _ => True where
  runs := by
    intro s t s' hs hrun
    unfold ReadM.peekAt at hrun
    rw [runs_get_bind] at hrun
    obtain ⟨_, s₁, hfill, hrun⟩ := runs_bind.mp hrun
    rw [runs_get_bind] at hrun
    obtain ⟨-, rfl⟩ := runs_pure.mp hrun
    exact (scanFill _).runs hs hfill
  fails := by
    intro s e s' hs hfail
    unfold ReadM.peekAt at hfail
    rw [fails_get_bind] at hfail
    rcases fails_bind.mp hfail with hfail | ⟨_, _, -, hfail⟩
    · exact (scanFill _).fails hs hfail
    · exact absurd (fails_get_bind.mp hfail) not_fails_pure

theorem peek : Safe G junk peek fun t => G t.span where
  runs := by
    intro s t s' hs hrun
    refine ⟨((peekAt 0).runs hs hrun).1, ?_⟩
    obtain ⟨us, hshow, hjunk, htokens⟩ := hs.shows
    exact hs.token hjunk htokens (next_of_peek hshow hrun)
  fails := fun _ _ _ hs hfail => (peekAt 0).fails hs hfail

/-- The token that is taken is one of those in front of the first junk, or the end of the text. -/
theorem next : Safe G junk next fun t => G t.span where
  runs := by
    intro s t s' hs hrun
    obtain ⟨us, hshow, hjunk, htokens⟩ := hs.shows
    have ht : G t.span := hs.token hjunk htokens (next_of_next hshow hrun)
    have he : s'.eof = s.eof := eof_next hrun
    obtain ⟨hlast, ⟨rest, rfl, hshow'⟩ | ⟨rfl, -, hshow'⟩⟩ := runs_next hshow hrun
    · have hrest : ∀ t ∈ leadingTokens rest, G t.span :=
        fun u hu => htokens u (List.mem_cons_of_mem _ hu)
      exact ⟨⟨⟨rest, hshow', hjunk, hrest⟩, fun hj => he ▸ hs.eof hj, hlast ▸ ht⟩, ht⟩
    · exact ⟨⟨⟨[], hshow', hjunk, htokens⟩, fun hj => he ▸ hs.eof hj, hlast ▸ ht⟩, ht⟩
  fails := by
    intro s e s' hs hfail
    unfold ReadM.next at hfail
    rw [fails_get_bind] at hfail
    split at hfail
    · -- a token in the buffer is there for the taking
      cases hfail
    · rcases fails_bind.mp hfail with hfail | ⟨_, _, -, hfail⟩
      · exact Or.inl (hs.fails_scanNext hfail)
      · cases hfail

theorem checkAt (n : Nat) (k : Kind) : Safe G junk (checkAt n k) fun _ => True :=
  (peekAt n).andThen fun _ => .pure trivial

theorem check (k : Kind) : Safe G junk (check k) fun _ => True := checkAt 0 k

theorem accept (k : Kind) : Safe G junk (accept k) fun _ => True :=
  (check k).andThen fun _ => .ite (next.andThen fun _ => .pure trivial) (.pure trivial)

theorem expect (k : Kind) : Safe G junk (expect k) fun t => G t.span := by
  refine next.bind fun t ht => ?_
  exact .ite (.pure ht) (.fail rfl ht)

/-- A constant that cannot be read is blamed on its own token. -/
theorem orFail {span : Span} {r : Except ReadFault α} (hspan : G span)
    (hr : ∀ fault, r = .error fault → fault.isLexical = false) :
    Safe G junk (Grammar.orFail span r) fun _ => True := by
  cases r with
  | ok a => exact .pure trivial
  | error fault => exact .fail (hr fault rfl) hspan

end Safe

/-! ## Lists, names and look-ahead -/

namespace Grammar

/-- By induction on the rounds; each round is one item and perhaps a comma. -/
theorem safe_items {close : Kind} {item : ReadM α} {P : α → Prop} (hitem : Safe G junk item P)
    (n : Nat) : Safe G junk (items close item n) fun _ => True := by
  induction n with
  | zero => exact .exhausted
  | succ n ih =>
    refine (Safe.check close).andThen fun closed => .ite (.pure trivial) ?_
    refine hitem.andThen fun x => (Safe.accept _).andThen fun more => .ite ?_ (.pure trivial)
    exact ih.andThen fun xs => .pure trivial

theorem safe_identifier : Safe G junk identifier fun _ => True := by
  refine Safe.next.bind fun t ht => ?_
  split
  · exact .pure trivial
  · exact .fail rfl ht

theorem safe_nameBefore (k : Kind) : Safe G junk (nameBefore k) fun _ => True :=
  (Safe.check _).andThen fun _ => .ite (Safe.checkAt 1 k) (.pure trivial)

theorem safe_atDeclaration : Safe G junk atDeclaration fun _ => True :=
  (safe_nameBefore _).andThen fun _ => .ite (.pure trivial) (safe_nameBefore _)

theorem safe_atReturnEnd : Safe G junk atReturnEnd fun _ => True := by
  refine Safe.peek.andThen fun t => ?_
  split
  all_goals exact .pure trivial

/-! ## Constants -/

/-- There is one way for a whole number to be refused. -/
theorem readInteger_eq_error {digits : List Char} {fault : ReadFault}
    (h : Literal.readInteger digits = .error fault) :
    fault = .integerOutOfRange (String.ofList digits) := by
  unfold Literal.readInteger at h
  simp only at h
  split at h
  · cases h
  · cases h
    rfl

theorem readOrdinal_eq_error {digits : List Char} {fault : ReadFault}
    (h : Literal.readOrdinal digits = .error fault) :
    fault = .ordinalTooLarge (String.ofList digits) := by
  unfold Literal.readOrdinal at h
  simp only at h
  split at h
  · cases h
  · cases h
    rfl

theorem bind_eq_error {γ ε : Type} {x : Except ε γ} {f : γ → Except ε β} {fault : ε}
    (h : x >>= f = .error fault) : x = .error fault ∨ ∃ a, x = .ok a ∧ f a = .error fault := by
  cases x with
  | ok a => exact Or.inr ⟨a, rfl, h⟩
  | error e =>
    cases h
    exact Or.inl rfl

/-- What can be wrong with a token that should be a constant. -/
theorem ofKind_eq_error {k : Kind} {fault : ReadFault} (h : Literal.ofKind k = .error fault) :
    (∃ digits, fault = .integerOutOfRange digits) ∨ (∃ text, fault = .zeroDenominator text) ∨
      fault = .expectedExpression k := by
  unfold Literal.ofKind at h
  split at h
  · cases h
  · cases h
  · rcases bind_eq_error h with h | ⟨n, -, h⟩
    · exact Or.inl ⟨_, readInteger_eq_error h⟩
    · cases h
  · cases h
  · rcases bind_eq_error h with h | ⟨n, -, h⟩
    · exact Or.inl ⟨_, readInteger_eq_error h⟩
    · rcases bind_eq_error h with h | ⟨d, -, h⟩
      · exact Or.inl ⟨_, readInteger_eq_error h⟩
      · split at h
        · cases h
          exact Or.inr (Or.inl ⟨_, rfl⟩)
        · cases h
  · cases h
  · cases h
  · cases h
    exact Or.inr (Or.inr rfl)

/-- An expression in parentheses covers the parentheses. -/
theorem span_withSpan (s : Span) (e : Expr) : (e.withSpan s).span = s := by
  cases e <;> rfl

theorem safe_atom : Safe G junk atom fun e => G e.span := by
  refine Safe.next.bind fun t ht => ?_
  split
  · exact .pure ht
  · refine (Safe.orFail ht fun fault hfault => ?_).andThen fun v => .pure ht
    rcases ofKind_eq_error hfault with ⟨_, rfl⟩ | ⟨_, rfl⟩ | rfl <;> rfl

/-! ## Readers of one level -/

/-- The readers of a level are safe. -/
structure Level.IsSafe (G : Span → Prop) (junk : Option ReadError) (l : Level) : Prop where
  expr : ∀ least, Safe G junk (l.expr least) fun e => G e.span
  typeExpr : Safe G junk l.typeExpr fun _ => True
  stmts : Safe G junk l.stmts fun _ => True

section Readers

variable (hG : ∀ s t, G s → G t → G (s.merge t))

include hG

theorem safe_spanFrom {start : Span} (hstart : G start) : Safe G junk (spanFrom start) G where
  runs := by
    intro s span s' hs hrun
    obtain ⟨rfl, rfl⟩ := runs_spanFrom.mp hrun
    exact ⟨hs, hG _ _ hstart hs.last⟩
  fails := fun _ _ _ _ hfail => absurd (fails_get_bind.mp hfail) not_fails_pure

/-- A selection is blamed on the token behind the dot, or covers its target and this token. -/
theorem safe_selector {target : Expr} (ht : G target.span) :
    Safe G junk (selector target) fun e => G e.span := by
  refine Safe.next.bind fun t hspan => ?_
  split
  · exact (safe_spanFrom hG ht).bind fun span hs => .pure hs
  · refine (Safe.orFail hspan fun _ h => readOrdinal_eq_error h ▸ rfl).andThen fun n => ?_
    exact (safe_spanFrom hG ht).bind fun span hs => .pure hs
  · exact .fail rfl hspan

variable {inner : Level} (hl : inner.IsSafe G junk)

include hl

omit hG in
theorem safe_optionalType : Safe G junk (optionalType inner) fun _ => True :=
  (Safe.accept _).andThen fun _ => .ite (hl.typeExpr.andThen fun _ => .pure trivial) (.pure trivial)

theorem safe_typeExpr : Safe G junk (typeExpr inner) fun _ => True := by
  refine Safe.next.bind fun t ht => ?_
  split
  · refine (Safe.expect _).andThen fun _ => (safe_items hl.typeExpr _).andThen fun params => ?_
    refine (Safe.expect _).andThen fun _ => (Safe.expect _).andThen fun _ => ?_
    exact hl.typeExpr.andThen fun result => (safe_spanFrom hG ht).andThen fun _ => .pure trivial
  · refine hl.typeExpr.andThen fun element => (Safe.expect _).andThen fun _ => ?_
    exact (safe_spanFrom hG ht).andThen fun _ => .pure trivial
  · refine hl.typeExpr.andThen fun key => (Safe.expect _).andThen fun _ => ?_
    refine hl.typeExpr.andThen fun value => (Safe.expect _).andThen fun _ => ?_
    exact (safe_spanFrom hG ht).andThen fun _ => .pure trivial
  · refine (safe_items hl.typeExpr _).andThen fun fields => (Safe.expect _).andThen fun _ => ?_
    exact (safe_spanFrom hG ht).andThen fun _ => .pure trivial
  · split
    · exact (safe_spanFrom hG ht).andThen fun _ => .pure trivial
    · exact .fail rfl ht

omit hG in
theorem safe_arguments : Safe G junk (arguments inner) fun _ => True :=
  (safe_items (hl.expr 0) _).andThen fun _ => (Safe.expect _).andThen fun _ => .pure trivial

theorem safe_conditional : Safe G junk (conditional inner) fun e => G e.span := by
  refine (Safe.expect _).bind fun start hstart => (hl.expr 0).andThen fun p => ?_
  refine (Safe.expect _).andThen fun _ => (hl.expr 0).andThen fun t => ?_
  refine (Safe.expect _).andThen fun _ => (hl.expr 0).andThen fun e => ?_
  refine (Safe.expect _).andThen fun _ => ?_
  exact (safe_spanFrom hG hstart).bind fun span hs => .pure hs

theorem safe_param : Safe G junk (param inner) fun _ => True := by
  refine Safe.peek.bind fun start hstart => safe_identifier.andThen fun name => ?_
  refine (safe_optionalType hl).andThen fun t => ?_
  exact (safe_spanFrom hG hstart).andThen fun _ => .pure trivial

theorem safe_body : Safe G junk (body inner) fun _ => True := by
  refine Safe.peek.bind fun start hstart => (Safe.accept _).andThen fun arrow => .ite ?_ ?_
  · refine (hl.expr 0).andThen fun value => ?_
    exact (safe_spanFrom hG hstart).andThen fun _ => .pure trivial
  · refine (Safe.accept _).andThen fun block => .ite ?_ ?_
    · refine hl.stmts.andThen fun stmts => (Safe.expect _).andThen fun _ => ?_
      exact (safe_spanFrom hG hstart).andThen fun _ => .pure trivial
    · exact Safe.next.bind fun t ht => .fail rfl ht

theorem safe_function : Safe G junk (function inner) fun e => G e.span := by
  refine (Safe.expect _).bind fun start hstart => (Safe.expect _).andThen fun _ => ?_
  refine (safe_items (safe_param hG hl) _).andThen fun params => (Safe.expect _).andThen fun _ => ?_
  refine (safe_optionalType hl).andThen fun result => (safe_body hG hl).andThen fun b => ?_
  exact (safe_spanFrom hG hstart).bind fun span hs => .pure hs

omit hl in
/-- A literal in brackets fails as its items do, or for want of a bracket. -/
theorem safe_bracketed {item : ReadM α} {P : α → Prop} (hitem : Safe G junk item P)
    {opening closing : Punct} {node : Span → List α → Expr}
    (hnode : ∀ span xs, (node span xs).span = span) (rounds : Nat) :
    Safe G junk (bracketed opening closing node item rounds) fun e => G e.span := by
  refine (Safe.expect _).bind fun start hstart => (safe_items hitem _).andThen fun xs => ?_
  refine (Safe.expect _).andThen fun _ => ?_
  exact (safe_spanFrom hG hstart).bind fun span hs => .pure ((hnode span xs).symm ▸ hs)

omit hG in
theorem safe_entry : Safe G junk (entry inner) fun _ => True :=
  (hl.expr 0).andThen fun _ => (Safe.expect _).andThen fun _ =>
    (hl.expr 0).andThen fun _ => .pure trivial

theorem safe_element : Safe G junk (element inner) fun _ => True := by
  refine Safe.peek.bind fun start hstart => (safe_nameBefore _).andThen fun named => .ite ?_ ?_
  · refine safe_identifier.andThen fun name => (Safe.expect _).andThen fun _ => ?_
    refine (hl.expr 0).andThen fun value => ?_
    exact (safe_spanFrom hG hstart).andThen fun _ => .pure trivial
  · refine (hl.expr 0).andThen fun value => ?_
    exact (safe_spanFrom hG hstart).andThen fun _ => .pure trivial

theorem safe_tupleFrom {start : Span} (hstart : G start) (first : Element) :
    Safe G junk (tupleFrom inner start first) fun e => G e.span := by
  have hclose : ∀ others : List Element, Safe G junk (do
      let _ ← expect (.punct .rparen)
      return Expr.tuple (← spanFrom start) (first :: others)) fun e => G e.span := by
    intro others
    refine (Safe.expect _).andThen fun _ => ?_
    exact (safe_spanFrom hG hstart).bind fun span hs => .pure hs
  refine (Safe.accept _).andThen fun more => ?_
  split
  · exact (safe_items (safe_element hG hl) _).andThen hclose
  · exact (Safe.pure (Q := fun _ => True) trivial).andThen hclose

theorem safe_parenthesized : Safe G junk (parenthesized inner) fun e => G e.span := by
  refine (Safe.expect _).bind fun start hstart => (safe_element hG hl).andThen fun first => ?_
  split
  · exact safe_tupleFrom hG hl hstart first
  · refine (Safe.accept _).andThen fun closed => .ite ?_ (safe_tupleFrom hG hl hstart first)
    refine (safe_spanFrom hG hstart).bind fun span hs => .pure ?_
    rw [span_withSpan]
    exact hs

theorem safe_primary : Safe G junk (primary inner) fun e => G e.span := by
  refine Safe.peek.andThen fun t => ?_
  split
  · exact safe_conditional hG hl
  · exact safe_function hG hl
  · exact safe_bracketed hG (hl.expr 0) (fun _ _ => rfl) _
  · exact safe_bracketed hG (safe_entry hl) (fun _ _ => rfl) _
  · exact safe_parenthesized hG hl
  · exact safe_atom

theorem safe_suffixes (n : Nat) {e : Expr} (he : G e.span) :
    Safe G junk (suffixes inner n e) fun e => G e.span := by
  induction n generalizing e with
  | zero => exact .exhausted
  | succ n ih =>
    refine (Safe.accept _).andThen fun called => .ite ?_ ?_
    · refine (safe_arguments hl).andThen fun args => ?_
      exact (safe_spanFrom hG he).bind fun span hs => ih hs
    · refine (Safe.accept _).andThen fun indexed => .ite ?_ ?_
      · refine (hl.expr 0).andThen fun i => (Safe.expect _).andThen fun _ => ?_
        exact (safe_spanFrom hG he).bind fun span hs => ih hs
      · refine (Safe.accept _).andThen fun selected => .ite ?_ (.pure he)
        exact (safe_selector hG he).bind fun e' he' => ih he'

theorem safe_operand : Safe G junk (operand inner) fun e => G e.span :=
  (safe_primary hG hl).bind fun _ he => safe_suffixes hG hl _ he

theorem safe_operators (least n : Nat) (compared : Bool) {left : Expr} (hleft : G left.span) :
    Safe G junk (operators inner least n compared left) fun e => G e.span := by
  induction n generalizing compared left with
  | zero => exact .exhausted
  | succ n ih =>
    refine Safe.peek.andThen fun t => ?_
    split
    · exact .pure hleft
    · refine .ite (.pure hleft) (Safe.next.bind fun t ht => .ite (.fail rfl ht) ?_)
      exact (hl.expr _).bind fun right hright => ih _ (hG _ _ hleft hright)

theorem safe_expr (least : Nat) : Safe G junk (expr inner least) fun e => G e.span :=
  (safe_operand hG hl).bind fun _ he => safe_operators hG hl least _ false he

theorem safe_declaration : Safe G junk (declaration inner) fun _ => True := by
  refine Safe.peek.bind fun start hstart => safe_identifier.andThen fun name => ?_
  refine (safe_optionalType hl).andThen fun t => (Safe.expect _).andThen fun _ => ?_
  refine (hl.expr 0).andThen fun value => ?_
  exact (safe_spanFrom hG hstart).andThen fun _ => .pure trivial

theorem safe_header : Safe G junk (header inner) fun _ => True := by
  have htail : ∀ (start : Span) (x : Option String), G start → Safe G junk (do
      let first ← inner.expr 0
      if ← accept (.punct .range) then
        let last ← inner.expr 0
        return Header.range (← spanFrom start) x first last
      else
        return Header.items (← spanFrom start) x first) fun _ => True := by
    intro start x hstart
    refine (hl.expr 0).andThen fun first => (Safe.accept _).andThen fun ranged => .ite ?_ ?_
    · refine (hl.expr 0).andThen fun last => ?_
      exact (safe_spanFrom hG hstart).andThen fun _ => .pure trivial
    · exact (safe_spanFrom hG hstart).andThen fun _ => .pure trivial
  refine Safe.peek.bind fun start hstart => (Safe.accept _).andThen fun runsOver => .ite ?_ ?_
  · refine (safe_nameBefore _).andThen fun named => ?_
    split
    · refine safe_identifier.andThen fun name => (Safe.expect _).andThen fun _ => ?_
      exact htail start.span (some name) hstart
    · exact htail start.span none hstart
  · refine (Safe.expect _).andThen fun _ => (hl.expr 0).andThen fun condition => ?_
    exact (safe_spanFrom hG hstart).andThen fun _ => .pure trivial

theorem safe_exprStmt {start : Span} (hstart : G start) :
    Safe G junk (exprStmt inner start) fun _ => True := by
  refine (safe_operand hG hl).bind fun target htarget => (Safe.accept _).andThen fun assigned => ?_
  refine .ite ?_ ?_
  · refine (hl.expr 0).andThen fun value => ?_
    exact (safe_spanFrom hG hstart).andThen fun _ => .pure trivial
  · split
    · exact (safe_spanFrom hG hstart).andThen fun _ => .pure trivial
    · exact .fail rfl htarget

theorem safe_plainStmt : Safe G junk (plainStmt inner) fun _ => True := by
  refine Safe.peek.bind fun t ht => ?_
  have hloop : Safe G junk (do
      let h ← header inner
      let _ ← expect (.keyword .loopKw)
      let stmts ← inner.stmts
      let _ ← expect (.keyword .endKw)
      return Stmt.loop (← spanFrom t.span) h stmts) fun _ => True := by
    refine (safe_header hG hl).andThen fun h => (Safe.expect _).andThen fun _ => ?_
    refine hl.stmts.andThen fun stmts => (Safe.expect _).andThen fun _ => ?_
    exact (safe_spanFrom hG ht).andThen fun _ => .pure trivial
  split
  · refine Safe.next.andThen fun _ => safe_atReturnEnd.andThen fun ended => .ite ?_ ?_
    · exact (safe_spanFrom hG ht).andThen fun _ => .pure trivial
    · refine (hl.expr 0).andThen fun value => ?_
      exact (safe_spanFrom hG ht).andThen fun _ => .pure trivial
  · exact Safe.next.andThen fun _ => (safe_spanFrom hG ht).andThen fun _ => .pure trivial
  · refine Safe.next.andThen fun _ => (Safe.expect _).andThen fun _ => ?_
    refine (safe_arguments hl).andThen fun args => ?_
    exact (safe_spanFrom hG ht).andThen fun _ => .pure trivial
  · refine Safe.next.andThen fun _ => (hl.expr 0).andThen fun condition => ?_
    refine (Safe.expect _).andThen fun _ => hl.stmts.andThen fun thenBranch => ?_
    refine (Safe.accept _).andThen fun branched => .ite ?_ ?_
    · refine hl.stmts.andThen fun elseBranch => (Safe.expect _).andThen fun _ => ?_
      exact (safe_spanFrom hG ht).andThen fun _ => .pure trivial
    · refine (Safe.expect _).andThen fun _ => ?_
      exact (safe_spanFrom hG ht).andThen fun _ => .pure trivial
  · exact hloop
  · exact hloop
  · exact safe_exprStmt hG hl ht

theorem safe_stmt : Safe G junk (stmt inner) fun _ => True := by
  refine safe_atDeclaration.andThen fun declares => .ite ?_ (safe_plainStmt hG hl)
  exact (safe_declaration hG hl).andThen fun d => .pure trivial

theorem safe_stmts (n : Nat) : Safe G junk (stmts inner n) fun _ => True := by
  induction n with
  | zero => exact .exhausted
  | succ n ih =>
    refine Safe.peek.andThen fun t => ?_
    split
    · exact .pure trivial
    · exact .pure trivial
    · exact .pure trivial
    · refine (safe_stmt hG hl).andThen fun st => (Safe.accept _).andThen fun _ => ?_
      exact ih.andThen fun rest => .pure trivial

theorem safe_declarations (n : Nat) : Safe G junk (declarations inner n) fun _ => True := by
  induction n with
  | zero => exact .exhausted
  | succ n ih =>
    refine Safe.peek.andThen fun t => ?_
    split
    · exact .pure trivial
    · refine (safe_declaration hG hl).andThen fun d => (Safe.accept _).andThen fun _ => ?_
      exact ih.andThen fun rest => .pure trivial

end Readers

/-! ## All levels -/

/-- All that is used of the guard is that it holds of what two guarded spans cover together. -/
theorem isSafe_level (hG : ∀ s t, G s → G t → G (s.merge t)) (n : Nat) :
    (level n).IsSafe G junk := by
  induction n with
  | zero => exact ⟨fun _ => .exhausted, .exhausted, .exhausted⟩
  | succ n ih => exact ⟨safe_expr hG ih, safe_typeExpr hG ih, safe_stmts hG ih _⟩

theorem safe_program (hG : ∀ s t, G s → G t → G (s.merge t)) :
    Safe G junk Program.read fun _ => True := by
  have houter : Safe G junk outermost fun outer => outer.IsSafe G junk :=
    { runs := by
        intro s outer s' hs hrun
        unfold outermost at hrun
        rw [runs_get_bind] at hrun
        obtain ⟨rfl, rfl⟩ := runs_pure.mp hrun
        exact ⟨hs, isSafe_level hG _⟩
      fails := fun _ _ _ _ hfail => absurd (fails_get_bind.mp hfail) not_fails_pure }
  refine houter.bind fun outer hl => Safe.peek.andThen fun start => ?_
  refine (safe_declarations hG hl _).andThen fun ds => Safe.peek.andThen fun stop => ?_
  exact .pure trivial

end Grammar

end Safe

/-! ## Whole texts -/

/-- At the beginning of a text, what is guarded is stated in terms of its scan. -/
theorem guarded_ofText {G : Span → Prop} {text : List Char} {junk : Option ReadError}
    (hjunk : firstJunk? (Lexer.scan text) = junk)
    (htokens : ∀ t ∈ leadingTokens (Lexer.scan text), G t.span)
    (heof : junk = none → G (Lexer.eof text).span) (horigin : G .origin) :
    (Stream.ofText text).Guarded G junk :=
  ⟨⟨_, shows_ofText text, hjunk, htokens⟩, heof, horigin⟩

theorem fails_of_ofText {text : List Char} {e : ReadError} (h : Program.ofText text = .error e) :
    ∃ s', Fails Program.read (Stream.ofText text) e s' := by
  unfold Program.ofText at h
  split at h
  · cases h
  · next e' s' hread =>
    cases h
    exact ⟨s', hread⟩

/-- Tokens before the first junk end before it begins. -/
theorem before_firstJunk {text : List Char} {e : ReadError}
    (h : firstJunk? (Lexer.scan text) = some e) {t : Token}
    (ht : t ∈ leadingTokens (Lexer.scan text)) : t.span.Before e.span := by
  obtain ⟨w, later, hsplit⟩ := split_firstJunk h
  have horder := inOrder_scan text
  rw [hsplit] at horder
  exact horder.of_append.2.2 (.token t) (List.mem_map_of_mem ht) (.junk w e.span)
    List.mem_cons_self

/-- The error on a text that cannot be read is its first junk, or lies before that junk. -/
theorem before_junk_of_ofText {text : List Char} {e : ReadError}
    (h : Program.ofText text = .error e) :
    tokenize text = .error e ∨ (e.fault.isLexical = false ∧
      ∀ e', tokenize text = .error e' → e.span.Before e'.span) := by
  obtain ⟨s', hfail⟩ := fails_of_ofText h
  let G : Span → Prop := fun s => ∀ e', firstJunk? (Lexer.scan text) = some e' → s.Before e'.span
  have hG : ∀ s t, G s → G t → G (s.merge t) :=
    fun s t hs ht e' he' => Nat.max_le.mpr ⟨hs e' he', ht e' he'⟩
  have hguard : (Stream.ofText text).Guarded G (firstJunk? (Lexer.scan text)) := by
    refine guarded_ofText rfl (fun t ht e' he' => before_firstJunk he' ht) ?_ ?_
    · intro hnone e' he'
      rw [hnone] at he'
      cases he'
    · intro e' _
      exact Nat.zero_le _
  rcases (Grammar.safe_program hG).fails hguard hfail with hjunk | ⟨hfault, hbefore⟩
  · exact Or.inl (tokensOf_eq_error_iff.mpr hjunk)
  · exact Or.inr ⟨hfault, fun e' he' => hbefore e' (tokensOf_eq_error_iff.mp he')⟩

/-- Junk is a piece of the text. -/
theorem liesIn_of_tokenize {text : List Char} {e : ReadError} (h : tokenize text = .error e) :
    e.span.LiesIn text := by
  obtain ⟨w, later, hsplit⟩ := split_firstJunk (tokensOf_eq_error_iff.mp h)
  have hmem : Scanned.junk w e.span ∈ Lexer.scan text := by
    rw [hsplit]
    exact List.mem_append_right _ List.mem_cons_self
  exact liesIn_of_mem_scan hmem

/-- The error on a text that cannot be read lies in the text. -/
theorem liesIn_of_ofText {text : List Char} {e : ReadError} (h : Program.ofText text = .error e) :
    e.span.LiesIn text := by
  obtain ⟨s', hfail⟩ := fails_of_ofText h
  have hguard : (Stream.ofText text).Guarded (Span.LiesIn text) (firstJunk? (Lexer.scan text)) :=
    guarded_ofText rfl (fun t ht => liesIn_of_mem_scan (mem_of_mem_leadingTokens ht))
      (fun _ => liesIn_eof text) (Span.liesIn_origin text)
  have hsafe : Safe (Span.LiesIn text) (firstJunk? (Lexer.scan text)) Program.read fun _ => True :=
    Grammar.safe_program fun s t hs ht => hs.merge ht
  rcases hsafe.fails hguard hfail with hjunk | ⟨-, hlies⟩
  · exact liesIn_of_tokenize (tokensOf_eq_error_iff.mpr hjunk)
  · exact hlies

end ExprCheck
