import Mathlib
import ExprCheck.Proofs.Edits
import ExprCheck.Proofs.ReadFailures

/-!
# Reading tokens a second time

The tokens of a text can stand elsewhere: in another layout, or in a longer text that has others
behind them. A `Setting` says where they are met the second time, and two streams are `Facing` each
other if the second one shows the tokens of the first in this setting; they are `Beside` each other
if what was taken last is the same as well. A reader is `InStep` with its second run if it does the
same there: what it reads is the same but for the places, and it leaves streams that are beside each
other again.

The second stream goes on where the first one has come to its end, so a reader that only looks at
what comes next may see a difference there. Most readers cannot, because they need one more token:
they fail at the end of the first text, and then nothing is asked of the second run.
-/

namespace ExprCheck

open ReadM

/-- The token, at another place. -/
def Token.move (f : Span → Span) (t : Token) : Token := ⟨t.kind, f t.span⟩

@[simp] theorem Token.kind_move (f : Span → Span) (t : Token) : (t.move f).kind = t.kind := rfl

/-- The stream shows these tokens and then the end of the text. -/
def Stream.Holds (s : Stream) (ts : List Token) : Prop := s.Shows (ts.map .token)

/-! ## Steps of streams without junk -/

namespace ReadM

variable {α β : Type} {s s' s'' : Stream} {ts : List Token}

theorem Runs.unique {m : ReadM α} {a b : α} (h : Runs m s a s') (h' : Runs m s b s'') :
    b = a ∧ s'' = s' := by
  unfold Runs at h h'
  rw [h] at h'
  cases h'
  exact ⟨rfl, rfl⟩

theorem Runs.not_fails {m : ReadM α} {a : α} {e : ReadError} (h : Runs m s a s') :
    ¬ Fails m s e s'' := by
  unfold Runs at h
  unfold Fails
  rw [h]
  intro h'
  cases h'

theorem runs_or_fails (m : ReadM α) (s : Stream) :
    (∃ a s', Runs m s a s') ∨ ∃ e s', Fails m s e s' := by
  unfold Runs Fails
  cases m.run s with
  | ok a s' => exact Or.inl ⟨a, s', rfl⟩
  | error e s' => exact Or.inr ⟨e, s', rfl⟩

/-- The kind of the token that is `n` tokens away. -/
def kindAt (ts : List Token) (n : Nat) : Kind := (ts[n]?.map Token.kind).getD .eof

theorem upcoming?_map_token (ts : List Token) (n : Nat) :
    upcoming? (ts.map .token) n = some (kindAt ts n) := by
  induction ts generalizing n with
  | nil => rfl
  | cons t ts ih =>
    cases n with
    | zero => rfl
    | succ n => exact ih n

theorem eq_headD_of_next {eof t : Token} (h : Next (ts.map .token) eof t) : t = ts.headD eof := by
  cases ts with
  | nil =>
    rcases h with ⟨rest, h⟩ | ⟨-, rfl⟩
    · cases h
    · rfl
  | cons u ts =>
    rcases h with ⟨rest, h⟩ | ⟨h, -⟩
    · cases h
      rfl
    · cases h

theorem exists_runs_peek (h : s.Holds ts) :
    ∃ s', Runs peek s (ts.headD s.eof) s' ∧ s'.Holds ts ∧ s'.eof = s.eof ∧ s'.last = s.last := by
  obtain ⟨t, s', hpeek, -, hshow, hlast⟩ := exists_runs_peekAt h (upcoming?_map_token ts 0)
  have ht : t = ts.headD s.eof := eq_headD_of_next (next_of_peek h hpeek)
  exact ⟨s', ht ▸ hpeek, hshow, eof_peekAt hpeek, hlast⟩

theorem exists_runs_checkAt_last (h : s.Holds ts) (n : Nat) (k : Kind) :
    ∃ s', Runs (checkAt n k) s (decide ((kindAt ts n).terminal = k.terminal)) s' ∧ s'.Holds ts ∧
      s'.eof = s.eof ∧ s'.last = s.last := by
  obtain ⟨t, s', hpeek, hkind, hshow, hlast⟩ := exists_runs_peekAt h (upcoming?_map_token ts n)
  refine ⟨s', ?_, hshow, eof_peekAt hpeek, hlast⟩
  exact runs_bind.mpr ⟨t, s', hpeek, runs_pure.mpr ⟨by rw [hkind], rfl⟩⟩

theorem exists_runs_take (h : s.Holds ts) :
    ∃ s', Runs next s (ts.headD s.eof) s' ∧ s'.Holds ts.tail ∧ s'.eof = s.eof ∧
      s'.last = (ts.headD s.eof).span := by
  obtain ⟨t, s', hnext⟩ : ∃ t s', Runs next s t s' := by
    cases hb : s.buffer with
    | cons u buffer => exact ⟨u, _, runs_next_iff.mpr (Or.inl ⟨buffer, hb, rfl⟩)⟩
    | nil =>
      cases hp : s.pending with
      | nil =>
        have hscan := runs_scanNext.mpr (Or.inl ⟨hp, rfl, rfl⟩)
        exact ⟨s.eof, _, runs_next_iff.mpr (Or.inr ⟨hb, _, hscan, rfl⟩)⟩
      | cons u rest =>
        cases u with
        | token t =>
          have hscan := runs_scanNext.mpr (Or.inr ⟨rest, hp, rfl⟩)
          exact ⟨t, _, runs_next_iff.mpr (Or.inr ⟨hb, _, hscan, rfl⟩)⟩
        | junk text span =>
          have hjunk := upcoming?_of_junk h hp
          rw [upcoming?_map_token] at hjunk
          cases hjunk
  have ht : t = ts.headD s.eof := eq_headD_of_next (next_of_next h hnext)
  subst ht
  obtain ⟨hlast, hshow⟩ := runs_next h hnext
  refine ⟨s', hnext, ?_, eof_next hnext, hlast⟩
  cases ts with
  | nil =>
    rcases hshow with ⟨rest, hrest, -⟩ | ⟨-, -, hshow⟩
    · cases hrest
    · exact hshow
  | cons u ts =>
    rcases hshow with ⟨rest, hrest, hshow⟩ | ⟨hnil, -⟩
    · cases hrest
      exact hshow
    · cases hnil

theorem not_holds_nil {t : Token} (h : s.Holds (t :: ts)) : ¬ s.Holds [] := by
  intro hnil
  obtain ⟨s', hpeek, -⟩ := exists_runs_peek h
  obtain ⟨s'', hpeek', -⟩ := exists_runs_peek hnil
  obtain ⟨heof, -⟩ := hpeek.unique hpeek'
  refine h.tokens t List.mem_cons_self ?_
  rw [show t = s.eof from heof.symm]
  exact h.eof

/-! ## Readers that need a token -/

/-- The reader does not succeed where nothing is left to read. -/
def Needs (m : ReadM α) : Prop := ∀ s a s', s.Holds [] → ¬ Runs m s a s'

theorem Needs.bind {m : ReadM α} {f : α → ReadM β} (h : Needs m) : Needs (m >>= f) := by
  intro s b s' hs hrun
  obtain ⟨a, s₁, hm, -⟩ := runs_bind.mp hrun
  exact h s a s₁ hs hm

theorem Needs.ite {p : Prop} [Decidable p] {m n : ReadM α} (hm : Needs m) (hn : Needs n) :
    Needs (if p then m else n) := by
  by_cases hp : p
  · rw [if_pos hp]
    exact hm
  · rw [if_neg hp]
    exact hn

theorem needs_fail (fault : ReadFault) (span : Span) : Needs (fail fault span : ReadM α) :=
  fun _ _ _ _ => not_runs_fail

theorem needs_exhausted : Needs (Grammar.exhausted : ReadM α) :=
  fun _ _ _ _ => Grammar.not_runs_exhausted

/-- Where nothing is left, the end of the text is what comes next. -/
theorem needs_peek {f : Token → ReadM β} (h : ∀ t, t.kind = .eof → Needs (f t)) :
    Needs (peek >>= f) := by
  intro s b s' hs hrun
  obtain ⟨t, s₁, hpeek, hrun⟩ := runs_bind.mp hrun
  obtain ⟨s₂, hpeek', hs₂, -, -⟩ := exists_runs_peek hs
  obtain ⟨rfl, rfl⟩ := hpeek'.unique hpeek
  exact h _ hs.eof _ _ _ hs₂ hrun

theorem needs_next {f : Token → ReadM β} (h : ∀ t, t.kind = .eof → Needs (f t)) :
    Needs (next >>= f) := by
  intro s b s' hs hrun
  obtain ⟨t, s₁, hnext, hrun⟩ := runs_bind.mp hrun
  obtain ⟨s₂, hnext', hs₂, -, -⟩ := exists_runs_take hs
  obtain ⟨rfl, rfl⟩ := hnext'.unique hnext
  exact h _ hs.eof _ _ _ hs₂ hrun

theorem needs_expect (k : Kind) [hk : Exact k] : Needs (expect k) := by
  refine needs_next fun t ht => ?_
  rw [if_neg]
  · exact needs_fail _ _
  · rw [terminal_eq_iff, ht]
    exact hk.ne_eof.symm

/-- Nothing is accepted where nothing is left. -/
theorem needs_accept {k : Kind} [Exact k] {f : Bool → ReadM β} (h : Needs (f false)) :
    Needs (accept k >>= f) := by
  intro s b s' hs hrun
  obtain ⟨c, s₁, haccept, hrun⟩ := runs_bind.mp hrun
  rcases runs_accept hs haccept with ⟨-, t, rest, hnil, -⟩ | ⟨rfl, hs₁, -⟩
  · cases hnil
  · exact h _ _ _ hs₁ hrun

theorem needs_nameBefore {k : Kind} {f : Bool → ReadM β} (h : Needs (f false)) :
    Needs (Grammar.nameBefore k >>= f) := by
  intro s b s' hs hrun
  obtain ⟨c, s₁, hname, hrun⟩ := runs_bind.mp hrun
  obtain ⟨s₂, hcheck, hs₂, -, -⟩ := exists_runs_checkAt_last hs 0 Grammar.anyIdentifier
  obtain ⟨d, s₃, hcheck', hname⟩ := runs_bind.mp hname
  obtain ⟨rfl, rfl⟩ := Runs.unique hcheck hcheck'
  obtain ⟨rfl, rfl⟩ := runs_pure.mp hname
  exact h _ _ _ hs₂ hrun

end ReadM

/-! ## Settings -/

/-- Where tokens are met a second time: their spans are moved, and others may follow, the first of
which is a name. -/
structure Setting where
  /-- The new place of a stretch of text. -/
  move : Span → Span
  /-- The tokens that follow. -/
  more : List Token
  /-- Whether the second text ends where the first one does, so that failures are the same, too. -/
  exact : Prop
  merge : ∀ s t, move (s.merge t) = (move s).merge (move t)
  name : ∀ t rest, more = t :: rest → t.kind.terminal = Grammar.anyIdentifier.terminal
  alone : exact → more = []

namespace Setting

variable {α β γ : Type}

/-- Tokens that are moved and that no others follow. -/
def ofMove (move : Span → Span) (merge : ∀ s t, move (s.merge t) = (move s).merge (move t))
    (exact : Prop) : Setting where
  move := move
  more := []
  exact := exact
  merge := merge
  name := fun _ _ hmore => absurd hmore.symm (List.cons_ne_nil _ _)
  alone := fun _ => rfl

/-- The same tokens are to come in both streams, and what follows in the second. -/
structure Facing (e : Setting) (s t : Stream) : Prop where
  tokens : ∃ ts, s.Holds ts ∧ t.Holds (ts.map (Token.move e.move) ++ e.more)
  eof : e.exact → t.eof = s.eof.move e.move

/-- In addition, the same token was taken last. -/
structure Beside (e : Setting) (s t : Stream) : Prop extends Facing e s t where
  last : t.last = e.move s.last

/-- The first text has ended, and the second may go on. -/
def Ended (e : Setting) (s : Stream) : Prop := ¬ e.exact ∧ s.Holds []

/-- From these two streams, the second run does what the first one does: it reads the same, moved by
`φ`, or fails for the same reason. -/
structure Agree (e : Setting) (φ : α → β) (m : ReadM α) (n : ReadM β) (s t : Stream) : Prop where
  runs : ∀ a s', Runs m s a s' → ∃ t', Runs n t (φ a) t' ∧ e.Beside s' t'
  fails : e.exact → ∀ r s', Fails m s r s' → ∃ r' t', Fails n t r' t' ∧ r'.fault = r.fault

/-- The second run does what the first one does, wherever they start beside each other. -/
def InStep (e : Setting) (φ : α → β) (m : ReadM α) (n : ReadM β) : Prop :=
  ∀ s t, e.Beside s t → e.Agree φ m n s t

/-- The second run does what the first one does, unless only the first one starts at its end. -/
def InStepBefore (e : Setting) (φ : α → β) (m : ReadM α) (n : ReadM β) : Prop :=
  ∀ s t, e.Beside s t → ¬ e.Ended s → e.Agree φ m n s t

variable {e : Setting} {φ : α → β} {m : ReadM α} {n : ReadM β} {s t : Stream}

theorem agree_of_runs {a : α} {s' t' : Stream} (hs : Runs m s a s') (ht : Runs n t (φ a) t')
    (h : e.Beside s' t') : e.Agree φ m n s t where
  runs := by
    intro b s'' hb
    obtain ⟨rfl, rfl⟩ := hs.unique hb
    exact ⟨t', ht, h⟩
  fails := fun _ _ _ hfail => absurd hfail hs.not_fails

/-- Both runs go on from where a first step has taken them. -/
theorem Agree.after (φ : α → β) {φ' : γ → γ} {f : α → ReadM γ} {g : β → ReadM γ} {a : α}
    {s' t' : Stream} (hs : Runs m s a s') (ht : Runs n t (φ a) t')
    (h : e.Agree φ' (f a) (g (φ a)) s' t') :
    e.Agree φ' (m >>= f) (n >>= g) s t where
  runs := by
    intro b s'' hrun
    obtain ⟨a', s₁, hrun₁, hrun₂⟩ := runs_bind.mp hrun
    obtain ⟨rfl, rfl⟩ := hs.unique hrun₁
    obtain ⟨t'', hrun₂', hbeside⟩ := h.runs b s'' hrun₂
    exact ⟨t'', runs_bind.mpr ⟨_, t', ht, hrun₂'⟩, hbeside⟩
  fails := by
    intro he r s'' hfail
    rcases fails_bind.mp hfail with hfail | ⟨a', s₁, hrun, hfail⟩
    · exact absurd hfail hs.not_fails
    · obtain ⟨rfl, rfl⟩ := hs.unique hrun
      obtain ⟨r', t'', hfail', hfault⟩ := h.fails he r s'' hfail
      exact ⟨r', t'', fails_bind.mpr (Or.inr ⟨_, t', ht, hfail'⟩), hfault⟩

theorem Agree.bind {φ' : γ → γ} {f : α → ReadM γ} {g : β → ReadM γ} (hm : e.Agree φ m n s t)
    (hf : ∀ a s' t', Runs m s a s' → e.Beside s' t' → e.Agree φ' (f a) (g (φ a)) s' t') :
    e.Agree φ' (m >>= f) (n >>= g) s t where
  runs := by
    intro b s' hrun
    obtain ⟨a, s₁, hrun₁, hrun₂⟩ := runs_bind.mp hrun
    obtain ⟨t₁, hrun₁', hbeside⟩ := hm.runs a s₁ hrun₁
    obtain ⟨t', hrun₂', hbeside'⟩ := (hf a s₁ t₁ hrun₁ hbeside).runs b s' hrun₂
    exact ⟨t', runs_bind.mpr ⟨_, t₁, hrun₁', hrun₂'⟩, hbeside'⟩
  fails := by
    intro he r s' hfail
    rcases fails_bind.mp hfail with hfail | ⟨a, s₁, hrun, hfail⟩
    · obtain ⟨r', t', hfail', hfault⟩ := hm.fails he r s' hfail
      exact ⟨r', t', fails_bind.mpr (Or.inl hfail'), hfault⟩
    · obtain ⟨t₁, hrun', hbeside⟩ := hm.runs a s₁ hrun
      obtain ⟨r', t', hfail', hfault⟩ := (hf a s₁ t₁ hrun hbeside).fails he r s' hfail
      exact ⟨r', t', fails_bind.mpr (Or.inr ⟨_, t₁, hrun', hfail'⟩), hfault⟩

/-- Two streams that are read as a third one is are both read, or both are not. -/
theorem Agree.compare {s₁ s₂ : Stream} (he : e.exact) (h₁ : e.Agree φ m n s₁ t)
    (h₂ : e.Agree φ m n s₂ t) :
    (∃ a₁ a₂ s₁' s₂', Runs m s₁ a₁ s₁' ∧ Runs m s₂ a₂ s₂' ∧ φ a₁ = φ a₂) ∨
    ∃ r₁ r₂ s₁' s₂', Fails m s₁ r₁ s₁' ∧ Fails m s₂ r₂ s₂' ∧ r₁.fault = r₂.fault := by
  rcases runs_or_fails m s₁ with ⟨a₁, s₁', hrun₁⟩ | ⟨r₁, s₁', hfail₁⟩
  · obtain ⟨t₁, ht₁, -⟩ := h₁.runs a₁ s₁' hrun₁
    rcases runs_or_fails m s₂ with ⟨a₂, s₂', hrun₂⟩ | ⟨r₂, s₂', hfail₂⟩
    · obtain ⟨t₂, ht₂, -⟩ := h₂.runs a₂ s₂' hrun₂
      exact Or.inl ⟨a₁, a₂, s₁', s₂', hrun₁, hrun₂, (ht₂.unique ht₁).1⟩
    · obtain ⟨r, t₂, ht₂, -⟩ := h₂.fails he r₂ s₂' hfail₂
      exact absurd ht₂ ht₁.not_fails
  · obtain ⟨q₁, t₁, ht₁, hfault₁⟩ := h₁.fails he r₁ s₁' hfail₁
    rcases runs_or_fails m s₂ with ⟨a₂, s₂', hrun₂⟩ | ⟨r₂, s₂', hfail₂⟩
    · obtain ⟨t₂, ht₂, -⟩ := h₂.runs a₂ s₂' hrun₂
      exact absurd ht₁ ht₂.not_fails
    · obtain ⟨q₂, t₂, ht₂, hfault₂⟩ := h₂.fails he r₂ s₂' hfail₂
      cases ht₁.symm.trans ht₂
      exact Or.inr ⟨r₁, r₂, s₁', s₂', hfail₁, hfail₂, hfault₁.symm.trans hfault₂⟩

/-- A token is left, so the first text has not ended. -/
theorem not_ended {u : Token} {ts : List Token} (h : s.Holds (u :: ts)) : ¬ e.Ended s :=
  fun hended => not_holds_nil h hended.2

theorem exact_of_not_ended (hs : s.Holds []) (h : ¬ e.Ended s) : e.exact := by
  by_contra he
  exact h ⟨he, hs⟩

/-! ## Putting readers together -/

theorem InStep.before (h : e.InStep φ m n) : e.InStepBefore φ m n := fun s t hst _ => h s t hst

/-- At the end of the first text, a reader that needs a token fails. -/
theorem inStep_of_needs (hneeds : Needs m) (h : e.InStepBefore φ m n) : e.InStep φ m n := by
  intro s t hst
  by_cases hended : e.Ended s
  · refine ⟨fun a s' hrun => absurd hrun (hneeds s a s' hended.2), fun he => ?_⟩
    exact absurd he hended.1
  · exact h s t hst hended

theorem inStep_pure {a : α} {b : β} (h : b = φ a) : e.InStep φ (pure a) (pure b) := by
  intro s t hst
  exact agree_of_runs (runs_pure.mpr ⟨rfl, rfl⟩) (runs_pure.mpr ⟨h.symm, rfl⟩) hst

theorem InStep.bind {φ' : γ → γ} {f : α → ReadM γ} {g : β → ReadM γ} (hm : e.InStep φ m n)
    (hf : ∀ a, e.InStep φ' (f a) (g (φ a))) : e.InStep φ' (m >>= f) (n >>= g) :=
  fun s t hst => (hm s t hst).bind fun a s' t' _ hst' => hf a s' t' hst'

theorem InStepBefore.bind {φ' : γ → γ} {f : α → ReadM γ} {g : β → ReadM γ}
    (hm : e.InStepBefore φ m n) (hf : ∀ a, e.InStep φ' (f a) (g (φ a))) :
    e.InStepBefore φ' (m >>= f) (n >>= g) :=
  fun s t hst hended => (hm s t hst hended).bind fun a s' t' _ hst' => hf a s' t' hst'

/-- After a look at what comes next, the first text has not ended either. -/
theorem Facing.not_ended_of_looks (h : e.Facing s t) (hended : ¬ e.Ended s) (hlooks : Looks m)
    {a : α} {s' : Stream} (hrun : Runs m s a s') : ¬ e.Ended s' := by
  obtain ⟨ts, hs, -⟩ := h.tokens
  have hs' : s'.Holds ts := hlooks hs hrun
  cases ts with
  | nil => exact fun hended' => hended ⟨hended'.1, hs⟩
  | cons u ts => exact not_ended hs'

theorem InStepBefore.look {φ' : γ → γ} {f : α → ReadM γ} {g : β → ReadM γ}
    (hm : e.InStepBefore φ m n) (hlooks : Looks m)
    (hf : ∀ a, e.InStepBefore φ' (f a) (g (φ a))) : e.InStepBefore φ' (m >>= f) (n >>= g) := by
  intro s t hst hended
  refine (hm s t hst hended).bind fun a s' t' hrun hst' => hf a s' t' hst' ?_
  exact hst.not_ended_of_looks hended hlooks hrun

theorem InStep.ite {p : Prop} [Decidable p] {m' : ReadM α} {n' : ReadM β} (h : e.InStep φ m n)
    (h' : e.InStep φ m' n') : e.InStep φ (if p then m else m') (if p then n else n') := by
  by_cases hp : p
  · rw [if_pos hp, if_pos hp]
    exact h
  · rw [if_neg hp, if_neg hp]
    exact h'

theorem inStep_fail (fault : ReadFault) (span span' : Span) :
    e.InStep φ (fail fault span : ReadM α) (fail fault span' : ReadM β) := by
  intro s t _
  refine ⟨fun _ _ hrun => absurd hrun not_runs_fail, fun _ r s' hfail => ?_⟩
  obtain ⟨rfl, rfl⟩ := fails_fail.mp hfail
  exact ⟨⟨fault, span'⟩, t, fails_fail.mpr ⟨rfl, rfl⟩, rfl⟩

theorem inStep_orFail (r : Except ReadFault α) (span span' : Span) :
    e.InStep id (Grammar.orFail span r) (Grammar.orFail span' r) := by
  cases r with
  | ok a => exact inStep_pure rfl
  | error fault => exact inStep_fail fault span span'

theorem inStep_spanFrom (start : Span) :
    e.InStep e.move (spanFrom start) (spanFrom (e.move start)) := by
  intro s t hst
  refine agree_of_runs (runs_spanFrom.mpr ⟨rfl, rfl⟩) (runs_spanFrom.mpr ⟨?_, rfl⟩) hst
  rw [e.merge, hst.last]

/-! ## Steps of a stream -/

theorem Facing.step (h : e.Facing s t) {ts : List Token} {s' t' : Stream} (hs : s'.Holds ts)
    (ht : t'.Holds (ts.map (Token.move e.move) ++ e.more)) (heof : s'.eof = s.eof)
    (heof' : t'.eof = t.eof) : e.Facing s' t' where
  tokens := ⟨ts, hs, ht⟩
  eof := by
    intro he
    rw [heof, heof']
    exact h.eof he

theorem Beside.step (h : e.Beside s t) {ts : List Token} {s' t' : Stream} (hs : s'.Holds ts)
    (ht : t'.Holds (ts.map (Token.move e.move) ++ e.more)) (heof : s'.eof = s.eof)
    (heof' : t'.eof = t.eof) (hlast : s'.last = s.last) (hlast' : t'.last = t.last) :
    e.Beside s' t' :=
  ⟨h.toFacing.step hs ht heof heof', by rw [hlast', hlast, h.last]⟩

/-- Before the first text ends, the same token comes next. -/
theorem Facing.headD (h : e.Facing s t) {ts : List Token} (hs : s.Holds ts)
    (hended : ¬ e.Ended s) :
    (ts.map (Token.move e.move) ++ e.more).headD t.eof = (ts.headD s.eof).move e.move := by
  cases ts with
  | cons u ts => rfl
  | nil =>
    have he : e.exact := exact_of_not_ended hs hended
    rw [e.alone he]
    exact h.eof he

/-- Both streams are looked at. -/
theorem Facing.peek (h : e.Facing s t) (hended : ¬ e.Ended s) :
    ∃ u s' t', Runs peek s u s' ∧ Runs peek t (u.move e.move) t' ∧ e.Facing s' t' ∧
      s'.last = s.last ∧ t'.last = t.last := by
  obtain ⟨ts, hs, ht⟩ := h.tokens
  obtain ⟨s', hpeek, hs', heof, hlast⟩ := exists_runs_peek hs
  obtain ⟨t', hpeek', ht', heof', hlast'⟩ := exists_runs_peek ht
  rw [h.headD hs hended] at hpeek'
  exact ⟨_, s', t', hpeek, hpeek', h.step hs' ht' heof heof', hlast, hlast'⟩

theorem before_peek : e.InStepBefore (Token.move e.move) peek peek := by
  intro s t hst hended
  obtain ⟨u, s', t', hpeek, hpeek', hst', hlast, hlast'⟩ := hst.toFacing.peek hended
  exact agree_of_runs hpeek hpeek' ⟨hst', by rw [hlast', hlast, hst.last]⟩

/-- Whatever was taken last before, the token that is taken now is the last one afterwards. -/
theorem Facing.agree_next (h : e.Facing s t) (hended : ¬ e.Ended s) :
    e.Agree (Token.move e.move) next next s t := by
  obtain ⟨ts, hs, ht⟩ := h.tokens
  obtain ⟨s', hnext, hs', heof, hlast⟩ := exists_runs_take hs
  obtain ⟨t', hnext', ht', heof', hlast'⟩ := exists_runs_take ht
  have hhead := h.headD hs hended
  have htail : (ts.map (Token.move e.move) ++ e.more).tail =
      ts.tail.map (Token.move e.move) ++ e.more := by
    cases ts with
    | cons u ts => rfl
    | nil =>
      rw [e.alone (exact_of_not_ended hs hended)]
      rfl
  rw [htail] at ht'
  rw [hhead] at hnext' hlast'
  refine agree_of_runs hnext hnext' ⟨h.step hs' ht' heof heof', ?_⟩
  rw [hlast', hlast]
  rfl

theorem before_next : e.InStepBefore (Token.move e.move) next next :=
  fun _ _ hst hended => hst.toFacing.agree_next hended

/-- What follows begins with a name, which is not a token of a kind without a text of its own. -/
theorem terminal_more (k : Kind) [hk : Exact k] : (kindAt e.more 0).terminal ≠ k.terminal := by
  intro hterminal
  cases hmore : e.more with
  | nil =>
    rw [hmore] at hterminal
    exact hk.ne_eof (hk.eq_of_terminal _ hterminal).symm
  | cons t rest =>
    rw [hmore] at hterminal
    have hname := e.name t rest hmore
    have hempty := hk.eq_of_terminal (.text .identifier "") (hname.symm.trans hterminal)
    have hother := hk.eq_of_terminal (.text .identifier "x") (hname.symm.trans hterminal)
    rw [← hempty] at hother
    simp at hother

/-- As far as the end of the first text, both streams show a kind at the same places. -/
theorem terminal_kindAt {ts : List Token} {n : Nat} (hn : n ≤ ts.length) (k : Kind)
    [hk : Exact k] :
    (kindAt (ts.map (Token.move e.move) ++ e.more) n).terminal = k.terminal ↔
      (kindAt ts n).terminal = k.terminal := by
  by_cases hlt : n < ts.length
  · have hsame : kindAt (ts.map (Token.move e.move) ++ e.more) n = kindAt ts n := by
      unfold kindAt
      rw [List.getElem?_append_left (by simpa using hlt), List.getElem?_map, Option.map_map]
      rfl
    rw [hsame]
  · have hend : n = ts.length := by omega
    have hmore : kindAt (ts.map (Token.move e.move) ++ e.more) n = kindAt e.more 0 := by
      unfold kindAt
      rw [List.getElem?_append_right (by simp [hend])]
      simp [hend]
    have heof : kindAt ts n = .eof := by
      unfold kindAt
      rw [List.getElem?_eq_none (by omega)]
      rfl
    rw [hmore, heof]
    constructor
    · exact fun h => absurd h (terminal_more k)
    · exact fun h => absurd (hk.eq_of_terminal _ h).symm hk.ne_eof

theorem agree_checkAt (h : e.Beside s t) {ts : List Token} (hs : s.Holds ts)
    (ht : t.Holds (ts.map (Token.move e.move) ++ e.more)) {n : Nat} (hn : n ≤ ts.length)
    (k : Kind) [Exact k] : e.Agree id (checkAt n k) (checkAt n k) s t := by
  obtain ⟨s', hcheck, hs', heof, hlast⟩ := exists_runs_checkAt_last hs n k
  obtain ⟨t', hcheck', ht', heof', hlast'⟩ := exists_runs_checkAt_last ht n k
  simp only [terminal_kindAt hn k] at hcheck'
  exact agree_of_runs hcheck hcheck' (h.step hs' ht' heof heof' hlast hlast')

theorem inStep_check (k : Kind) [Exact k] : e.InStep id (check k) (check k) := by
  intro s t hst
  obtain ⟨ts, hs, ht⟩ := hst.tokens
  exact agree_checkAt hst hs ht (Nat.zero_le _) k

theorem inStep_expect (k : Kind) [Exact k] :
    e.InStep (Token.move e.move) (expect k) (expect k) := by
  refine inStep_of_needs (needs_expect k) (before_next.bind fun t => ?_)
  exact (inStep_pure rfl).ite (inStep_fail _ _ _)

theorem inStep_accept (k : Kind) [hk : Exact k] : e.InStep id (accept k) (accept k) := by
  intro s t hst
  obtain ⟨ts, hs, ht⟩ := hst.tokens
  obtain ⟨s', hcheck, hs', heof, hlast⟩ := exists_runs_checkAt_last hs 0 k
  obtain ⟨t', hcheck', ht', heof', hlast'⟩ := exists_runs_checkAt_last ht 0 k
  simp only [terminal_kindAt (Nat.zero_le _) k] at hcheck'
  have hst' : e.Beside s' t' := hst.step hs' ht' heof heof' hlast hlast'
  refine Agree.after id hcheck hcheck' ?_
  rw [id_eq]
  cases ts with
  | nil =>
    have hfalse : ¬ decide ((kindAt [] 0).terminal = k.terminal) = true := by
      rw [decide_eq_true_eq, terminal_eq_iff]
      exact hk.ne_eof.symm
    rw [if_neg hfalse]
    exact inStep_pure rfl s' t' hst'
  | cons u ts =>
    by_cases hu : decide ((kindAt (u :: ts) 0).terminal = k.terminal) = true
    · rw [if_pos hu]
      refine (before_next s' t' hst' (not_ended hs')).bind fun _ s'' t'' _ hst'' => ?_
      exact inStep_pure rfl s'' t'' hst''
    · rw [if_neg hu]
      exact inStep_pure rfl s' t' hst'

/-- A name before a token of a kind without text: the second place is at most the end of the first
text. -/
theorem before_nameBefore (k : Kind) [Exact k] :
    e.InStepBefore id (Grammar.nameBefore k) (Grammar.nameBefore k) := by
  intro s t hst hended
  obtain ⟨ts, hs, ht⟩ := hst.tokens
  obtain ⟨s', hcheck, hs', heof, hlast⟩ := exists_runs_checkAt_last hs 0 Grammar.anyIdentifier
  obtain ⟨t', hcheck', ht', heof', hlast'⟩ := exists_runs_checkAt_last ht 0 Grammar.anyIdentifier
  have hst' : e.Beside s' t' := hst.step hs' ht' heof heof' hlast hlast'
  cases ts with
  | nil =>
    rw [e.alone (exact_of_not_ended hs hended)] at hcheck'
    exact Agree.after id hcheck hcheck' (inStep_pure rfl s' t' hst')
  | cons u ts =>
    refine Agree.after id hcheck hcheck' ?_
    rw [id_eq]
    by_cases hu : decide ((kindAt (u :: ts) 0).terminal = Grammar.anyIdentifier.terminal) = true
    · rw [if_pos hu]
      exact agree_checkAt hst' hs' ht' (Nat.le_add_left 1 ts.length) k
    · rw [if_neg hu]
      exact inStep_pure rfl s' t' hst'

/-- What follows begins with a name, if there is anything. -/
theorem kind_headD_more {u : Token} (hu : u.kind = .eof) :
    (e.more.headD u).kind = .eof ∨ ∃ name, (e.more.headD u).kind = .text .identifier name := by
  cases hmore : e.more with
  | nil => exact Or.inl hu
  | cons v rest =>
    have hterminal := e.name v rest hmore
    right
    show ∃ name, v.kind = .text .identifier name
    cases hv : v.kind <;> rw [hv] at hterminal <;> cases hterminal
    exact ⟨_, rfl⟩

/-- A reader that does at a name what it does at the end of the text. -/
theorem inStep_peek {φ' : γ → γ} {f g : Token → ReadM γ}
    (h : ∀ t, e.InStep φ' (f t) (g (t.move e.move)))
    (hname : ∀ t u, t.kind = .eof → (u.kind = .eof ∨ ∃ name, u.kind = .text .identifier name) →
      g u = g t) :
    e.InStep φ' (peek >>= f) (peek >>= g) := by
  intro s t hst
  by_cases hended : e.Ended s
  · obtain ⟨ts, hs, ht⟩ := hst.tokens
    cases ts with
    | cons u ts => exact absurd hended (not_ended hs)
    | nil =>
      obtain ⟨s', hpeek, hs', heof, hlast⟩ := exists_runs_peek hs
      obtain ⟨t', hpeek', ht', heof', hlast'⟩ := exists_runs_peek ht
      have hst' : e.Beside s' t' := hst.step hs' ht' heof heof' hlast hlast'
      refine Agree.after (fun _ => e.more.headD t.eof) hpeek hpeek' ?_
      rw [hname (s.eof.move e.move) _ hs.eof (kind_headD_more ht.eof)]
      exact h s.eof s' t' hst'
  · exact (before_peek.bind h) s t hst hended

end Setting

end ExprCheck
