import Mathlib
import ExprCheck.Token.Stream

/-!
# What a stream shows

The buffer of a stream is invisible to the readers: all that matters is the list of reports that
are still to come. `Shows` relates a stream to this list. The end of the text, which may stand in
the buffer any number of times, is not in it.

Each step of a stream is described twice. Where the reports ahead are known, a step can be run, and
where a step has succeeded, something about the reports ahead is known.
-/

namespace ExprCheck

/-! ## Kinds that a terminal determines -/

/-- Kinds of tokens without text of their own. -/
class Exact (k : Kind) : Prop where
  eq_of_terminal : ∀ k' : Kind, k'.terminal = k.terminal → k' = k
  ne_eof : k ≠ .eof

instance (p : Punct) : Exact (.punct p) where
  eq_of_terminal := by
    intro k' h
    cases k' with
    | punct q => simpa [Kind.terminal] using h
    | keyword _ | text _ _ | eof => exact absurd h (by simp [Kind.terminal])
  ne_eof := by simp

instance (w : Keyword) : Exact (.keyword w) where
  eq_of_terminal := by
    intro k' h
    cases k' with
    | keyword w' => simpa [Kind.terminal] using h
    | punct _ | text _ _ | eof => exact absurd h (by simp [Kind.terminal])
  ne_eof := by simp

theorem terminal_eq_iff {k : Kind} [h : Exact k] {k' : Kind} : k'.terminal = k.terminal ↔ k' = k :=
  ⟨h.eq_of_terminal k', fun e => by rw [e]⟩

/-! ## Reports ahead -/

/-- The kind of the token that is `n` tokens away, unless junk stands before it or in its place. -/
def upcoming? : List Scanned → Nat → Option Kind
  | [], _ => some .eof
  | .junk _ _ :: _, _ => none
  | .token t :: _, 0 => some t.kind
  | .token _ :: rest, n + 1 => upcoming? rest n

/-- The tokens with the kinds `ks` stand between two places ahead. -/
def Took (us : List Scanned) (ks : List Kind) (rest : List Scanned) : Prop :=
  ∃ ts : List Token, us = ts.map .token ++ rest ∧ ts.map Token.kind = ks

theorem Took.refl (us : List Scanned) : Took us [] us := ⟨[], rfl, rfl⟩

theorem Took.cons {us rest : List Scanned} {ks : List Kind} (t : Token) (h : Took us ks rest) :
    Took (.token t :: us) (t.kind :: ks) rest := by
  obtain ⟨ts, rfl, rfl⟩ := h
  exact ⟨t :: ts, rfl, rfl⟩

theorem Took.append {us mid rest : List Scanned} {ks ls : List Kind} (h₁ : Took us ks mid)
    (h₂ : Took mid ls rest) : Took us (ks ++ ls) rest := by
  obtain ⟨ts, rfl, rfl⟩ := h₁
  obtain ⟨ts', rfl, rfl⟩ := h₂
  exact ⟨ts ++ ts', by simp, by simp⟩

theorem Took.of_cons {us rest : List Scanned} {k : Kind} {ks : List Kind}
    (h : Took us (k :: ks) rest) :
    ∃ t us', us = .token t :: us' ∧ t.kind = k ∧ Took us' ks rest := by
  obtain ⟨ts, rfl, hk⟩ := h
  obtain ⟨t, ts', rfl, rfl, rfl⟩ := List.map_eq_cons_iff.mp hk
  exact ⟨t, ts'.map .token ++ rest, rfl, rfl, ts', rfl, rfl⟩

theorem Took.of_nil {us rest : List Scanned} (h : Took us [] rest) : us = rest := by
  obtain ⟨ts, rfl, hk⟩ := h
  obtain rfl := List.map_eq_nil_iff.mp hk
  rfl

theorem upcoming?_zero_of_took {us rest : List Scanned} {k : Kind} {ks : List Kind}
    (h : Took us (k :: ks) rest) : upcoming? us 0 = some k := by
  obtain ⟨t, us', rfl, rfl, -⟩ := h.of_cons
  rfl

theorem upcoming?_one_of_took {us rest : List Scanned} {k l : Kind} {ks : List Kind}
    (h : Took us (k :: l :: ks) rest) : upcoming? us 1 = some l := by
  obtain ⟨t, us', rfl, -, h'⟩ := h.of_cons
  exact upcoming?_zero_of_took h'

/-- Behind the tokens taken, what comes is what comes there. -/
theorem upcoming?_length_of_took {us rest : List Scanned} {ks : List Kind} (h : Took us ks rest)
    (n : Nat) : upcoming? us (ks.length + n) = upcoming? rest n := by
  induction ks generalizing us with
  | nil =>
    obtain rfl := h.of_nil
    simp
  | cons k ks ih =>
    obtain ⟨t, us', rfl, -, h'⟩ := h.of_cons
    rw [List.length_cons, Nat.add_right_comm]
    exact ih h'

theorem upcoming?_mono {us : List Scanned} {m n : Nat} (hmn : m ≤ n)
    (h : (upcoming? us n).isSome) : (upcoming? us m).isSome := by
  induction us generalizing m n with
  | nil => rfl
  | cons u us ih =>
    cases u with
    | junk text span => simp [upcoming?] at h
    | token t =>
      cases m with
      | zero => rfl
      | succ m =>
        obtain ⟨n, rfl⟩ := Nat.exists_eq_add_of_le' (Nat.lt_of_lt_of_le (Nat.succ_pos m) hmn)
        exact ih (by omega) h

/-! ## Streams -/

namespace Stream

/-- The reports still to come from a stream. -/
structure Shows (s : Stream) (us : List Scanned) : Prop where
  /-- The end of the text is marked as such. -/
  eof : s.eof.kind = .eof
  /-- No token before the end of the text is marked as the end. -/
  tokens : ∀ t, .token t ∈ us → t.kind ≠ .eof
  /-- The end of the text gets into the buffer only behind everything else. -/
  buffer : ∃ front n, s.buffer = front ++ List.replicate n s.eof ∧
    us = front.map .token ++ s.pending ∧ (n = 0 ∨ s.pending = [])

theorem upcoming?_buffered {e : Token} (he : e.kind = .eof) {front : List Token} {m n : Nat}
    {pending : List Scanned} (hm : m = 0 ∨ pending = [])
    (hn : n < (front ++ List.replicate m e).length) :
    upcoming? (front.map .token ++ pending) n =
      some ((front ++ List.replicate m e).getD n e).kind := by
  induction front generalizing n with
  | nil =>
    have hpos : m ≠ 0 := by
      intro h0
      simp [h0] at hn
    rw [hm.resolve_left hpos]
    simp [upcoming?, he]
  | cons t front ih =>
    cases n with
    | zero => rfl
    | succ n => exact ih (by simpa using hn)

/-- Where the end of the text comes next, nothing else is to come. -/
theorem Shows.eq_nil_of_eof {s : Stream} {us : List Scanned} (h : s.Shows us)
    (hk : upcoming? us 0 = some .eof) : us = [] := by
  match us, hk with
  | [], _ => rfl
  | .token t :: rest, hk => exact absurd (Option.some.inj hk) (h.tokens t List.mem_cons_self)

/-- What is in the buffer is what comes next. -/
theorem Shows.upcoming?_eq {s : Stream} {us : List Scanned} (h : s.Shows us) {n : Nat}
    (hn : n < s.buffer.length) : upcoming? us n = some (s.buffer.getD n s.eof).kind := by
  obtain ⟨front, m, hb, rfl, hm⟩ := h.buffer
  rw [hb] at hn ⊢
  exact upcoming?_buffered h.eof hm hn

end Stream

/-! ## Steps -/

namespace ReadM

variable {α β : Type} {s s' : Stream} {us : List Scanned}

/-- A step that starts in `s` succeeds with the result `a` and ends in `s'`. -/
def Runs (m : ReadM α) (s : Stream) (a : α) (s' : Stream) : Prop := m.run s = .ok a s'

theorem runs_pure {a b : α} : Runs (pure a) s b s' ↔ b = a ∧ s' = s := by
  constructor
  · intro h
    injection h with h₁ h₂
    exact ⟨h₁.symm, h₂.symm⟩
  · rintro ⟨rfl, rfl⟩
    rfl

theorem runs_bind {m : ReadM α} {f : α → ReadM β} {b : β} :
    Runs (m >>= f) s b s' ↔ ∃ a s₁, Runs m s a s₁ ∧ Runs (f a) s₁ b s' := by
  unfold Runs
  rw [EStateM.run_bind]
  cases m.run s with
  | ok a s₁ =>
    constructor
    · intro h
      exact ⟨a, s₁, rfl, h⟩
    · rintro ⟨_, _, h₁, h₂⟩
      cases h₁
      exact h₂
  | error e s₁ =>
    constructor
    · intro h
      cases h
    · rintro ⟨_, _, h₁, _⟩
      cases h₁

theorem runs_get {a : Stream} : Runs get s a s' ↔ a = s ∧ s' = s := by
  constructor
  · intro h
    injection h with h₁ h₂
    exact ⟨h₁.symm, h₂.symm⟩
  · rintro ⟨rfl, rfl⟩
    rfl

theorem runs_get_bind {f : Stream → ReadM β} {b : β} :
    Runs (get >>= f) s b s' ↔ Runs (f s) s b s' := by
  rw [runs_bind]
  constructor
  · rintro ⟨_, _, hget, h⟩
    obtain ⟨rfl, rfl⟩ := runs_get.mp hget
    exact h
  · intro h
    exact ⟨s, s, runs_get.mpr ⟨rfl, rfl⟩, h⟩

theorem runs_set {a : PUnit} {s₁ : Stream} : Runs (set s₁) s a s' ↔ s' = s₁ := by
  constructor
  · intro h
    injection h with _ h₂
    exact h₂.symm
  · rintro rfl
    rfl

theorem runs_modify {a : PUnit} {f : Stream → Stream} : Runs (modify f) s a s' ↔ s' = f s := by
  constructor
  · intro h
    injection h with _ h₂
    exact h₂.symm
  · rintro rfl
    rfl

theorem not_runs_fail {fault : ReadFault} {span : Span} {a : α} :
    ¬ Runs (fail fault span) s a s' := by
  intro h
  injection h

theorem runs_spanFrom {start span : Span} :
    Runs (spanFrom start) s span s' ↔ span = start.merge s.last ∧ s' = s := by
  unfold spanFrom
  rw [runs_get_bind, runs_pure]

/-- What comes from behind the buffer. -/
theorem runs_scanNext {t : Token} :
    Runs scanNext s t s' ↔ (s.pending = [] ∧ t = s.eof ∧ s' = s) ∨
      ∃ rest, s.pending = .token t :: rest ∧ s' = { s with pending := rest } := by
  unfold scanNext
  rw [runs_get_bind]
  constructor
  · intro h
    split at h
    · next hp => exact Or.inl ⟨hp, runs_pure.mp h⟩
    · next u rest hp =>
      obtain ⟨_, _, hset, h⟩ := runs_bind.mp h
      obtain ⟨rfl, rfl⟩ := runs_pure.mp h
      exact Or.inr ⟨rest, hp, runs_set.mp hset⟩
    · next text span rest hp =>
      obtain ⟨_, _, -, h⟩ := runs_bind.mp h
      exact absurd h not_runs_fail
  · rintro (⟨hp, rfl, rfl⟩ | ⟨rest, hp, rfl⟩)
    · rw [hp]
      exact runs_pure.mpr ⟨rfl, rfl⟩
    · rw [hp]
      exact runs_bind.mpr ⟨⟨⟩, _, runs_set.mpr rfl, runs_pure.mpr ⟨rfl, rfl⟩⟩

/-- A token from behind the buffer goes to the end of the buffer. -/
theorem shows_fillStep {t : Token} (h : s.Shows us) (hscan : Runs scanNext s t s') :
    Stream.Shows { s' with buffer := s'.buffer ++ [t] } us ∧ s'.buffer = s.buffer ∧
      s'.last = s.last := by
  obtain ⟨front, n, hb, hus, hn⟩ := h.buffer
  rcases runs_scanNext.mp hscan with ⟨hp, rfl, rfl⟩ | ⟨rest, hp, rfl⟩
  · refine ⟨⟨h.eof, h.tokens, front, n + 1, ?_, hus, Or.inr hp⟩, rfl, rfl⟩
    simp [hb, List.replicate_succ']
  · have hn0 : n = 0 := hn.resolve_right (by simp [hp])
    subst hn0
    refine ⟨⟨h.eof, h.tokens, front ++ [t], 0, ?_, ?_, Or.inl rfl⟩, rfl, rfl⟩
    · simp [hb]
    · simp [hus, hp]

theorem length_fill {n : Nat} {a : Unit} (h : Runs (fill n) s a s') :
    s'.buffer.length = s.buffer.length + n := by
  induction n generalizing s with
  | zero =>
    obtain ⟨-, rfl⟩ := runs_pure.mp h
    rfl
  | succ n ih =>
    obtain ⟨t, s₁, hscan, h⟩ := runs_bind.mp h
    obtain ⟨_, s₂, hmod, h⟩ := runs_bind.mp h
    obtain rfl := runs_modify.mp hmod
    have hbuffer : s₁.buffer = s.buffer := by
      rcases runs_scanNext.mp hscan with ⟨-, -, rfl⟩ | ⟨rest, -, rfl⟩ <;> rfl
    rw [ih h, hbuffer, List.length_append, List.length_singleton]
    omega

theorem runs_fill {n : Nat} {a : Unit} (h : s.Shows us) (hfill : Runs (fill n) s a s') :
    s'.Shows us ∧ s'.last = s.last := by
  induction n generalizing s with
  | zero =>
    obtain ⟨-, rfl⟩ := runs_pure.mp hfill
    exact ⟨h, rfl⟩
  | succ n ih =>
    obtain ⟨t, s₁, hscan, hfill⟩ := runs_bind.mp hfill
    obtain ⟨_, s₂, hmod, hfill⟩ := runs_bind.mp hfill
    obtain rfl := runs_modify.mp hmod
    obtain ⟨hshow, -, hlast⟩ := shows_fillStep h hscan
    obtain ⟨hshow', hlast'⟩ := ih hshow hfill
    exact ⟨hshow', hlast'.trans hlast⟩

/-- Junk behind the buffer is junk behind what the buffer shows. -/
theorem upcoming?_of_junk {text : String} {span : Span} {rest : List Scanned} (h : s.Shows us)
    (hp : s.pending = .junk text span :: rest) : upcoming? us s.buffer.length = none := by
  obtain ⟨front, n, hb, hus, hn⟩ := h.buffer
  have hn0 : n = 0 := hn.resolve_right (by simp [hp])
  have htook : Took us (front.map Token.kind) s.pending := ⟨front, hus, rfl⟩
  have hlength := upcoming?_length_of_took htook 0
  rw [hp, List.length_map, Nat.add_zero] at hlength
  rw [hb, hn0, List.replicate_zero, List.append_nil, hlength]
  rfl

theorem exists_runs_fill {n : Nat} (h : s.Shows us)
    (hk : ∀ k < s.buffer.length + n, (upcoming? us k).isSome) : ∃ s', Runs (fill n) s () s' := by
  induction n generalizing s with
  | zero => exact ⟨s, runs_pure.mpr ⟨rfl, rfl⟩⟩
  | succ n ih =>
    obtain ⟨t, s₁, hscan⟩ : ∃ t s₁, Runs scanNext s t s₁ := by
      cases hp : s.pending with
      | nil => exact ⟨_, _, runs_scanNext.mpr (Or.inl ⟨hp, rfl, rfl⟩)⟩
      | cons u rest =>
        cases u with
        | token t => exact ⟨_, _, runs_scanNext.mpr (Or.inr ⟨rest, hp, rfl⟩)⟩
        | junk text span =>
          have hsome := hk s.buffer.length (by omega)
          rw [upcoming?_of_junk h hp] at hsome
          exact absurd hsome (by simp)
    obtain ⟨hshow, hbuffer, -⟩ := shows_fillStep h hscan
    obtain ⟨s', hfill⟩ := ih hshow (by
      intro k hlt
      refine hk k ?_
      simp only [List.length_append, List.length_singleton, hbuffer] at hlt
      omega)
    exact ⟨s', runs_bind.mpr ⟨t, s₁, hscan, runs_bind.mpr ⟨⟨⟩, _, runs_modify.mpr rfl, hfill⟩⟩⟩

theorem runs_peekAt {n : Nat} {t : Token} (h : s.Shows us) (hpeek : Runs (peekAt n) s t s') :
    s'.Shows us ∧ upcoming? us n = some t.kind ∧ s'.last = s.last := by
  unfold peekAt at hpeek
  rw [runs_get_bind] at hpeek
  obtain ⟨_, s₁, hfill, hpeek⟩ := runs_bind.mp hpeek
  rw [runs_get_bind] at hpeek
  obtain ⟨rfl, rfl⟩ := runs_pure.mp hpeek
  have hlength := length_fill hfill
  obtain ⟨hshow, hlast⟩ := runs_fill h hfill
  exact ⟨hshow, hshow.upcoming?_eq (by omega), hlast⟩

theorem exists_runs_peekAt {n : Nat} {k : Kind} (h : s.Shows us) (hk : upcoming? us n = some k) :
    ∃ t s', Runs (peekAt n) s t s' ∧ t.kind = k ∧ s'.Shows us ∧ s'.last = s.last := by
  have hfill : ∃ s₁, Runs (fill (n + 1 - s.buffer.length)) s () s₁ := by
    by_cases hn : n + 1 ≤ s.buffer.length
    · rw [Nat.sub_eq_zero_of_le hn]
      exact ⟨s, runs_pure.mpr ⟨rfl, rfl⟩⟩
    · refine exists_runs_fill h fun m hm => upcoming?_mono (by omega : m ≤ n) ?_
      rw [hk]
      rfl
  obtain ⟨s₁, hfill⟩ := hfill
  have hpeek : Runs (peekAt n) s (s₁.buffer.getD n s₁.eof) s₁ := by
    unfold peekAt
    rw [runs_get_bind]
    refine runs_bind.mpr ⟨(), s₁, hfill, ?_⟩
    rw [runs_get_bind]
    exact runs_pure.mpr ⟨rfl, rfl⟩
  obtain ⟨hshow, hkind, hlast⟩ := runs_peekAt h hpeek
  refine ⟨_, s₁, hpeek, ?_, hshow, hlast⟩
  rw [hk] at hkind
  exact (Option.some.inj hkind).symm

/-- The next token stands in the buffer or behind it. -/
theorem runs_next_iff {t : Token} :
    Runs next s t s' ↔
      (∃ rest, s.buffer = t :: rest ∧ s' = { s with buffer := rest, last := t.span }) ∨
      (s.buffer = [] ∧ ∃ s₁, Runs scanNext s t s₁ ∧ s' = { s₁ with last := t.span }) := by
  unfold next
  rw [runs_get_bind]
  cases hb : s.buffer with
  | nil =>
    simp only [runs_bind, runs_modify, runs_pure]
    constructor
    · rintro ⟨u, s₁, hscan, _, _, rfl, rfl, rfl⟩
      exact Or.inr ⟨trivial, s₁, hscan, rfl⟩
    · rintro (⟨rest, h, -⟩ | ⟨-, s₁, hscan, rfl⟩)
      · exact absurd h (by simp)
      · exact ⟨t, s₁, hscan, ⟨⟩, _, rfl, rfl, rfl⟩
  | cons u rest =>
    simp only [runs_bind, runs_set, runs_modify, runs_pure]
    constructor
    · rintro ⟨_, _, rfl, _, _, ⟨rfl, rfl⟩, _, _, rfl, rfl, rfl⟩
      exact Or.inl ⟨rest, rfl, rfl⟩
    · rintro (⟨rest', h, rfl⟩ | ⟨h, -⟩)
      · obtain ⟨rfl, rfl⟩ := List.cons.inj h
        exact ⟨⟨⟩, _, rfl, u, _, ⟨rfl, rfl⟩, ⟨⟩, _, rfl, rfl, rfl⟩
      · exact absurd h (by simp)

/-- The next token is taken off what the stream shows. -/
theorem runs_next {t : Token} (h : s.Shows us) (hnext : Runs next s t s') :
    s'.last = t.span ∧ ((∃ rest, us = .token t :: rest ∧ s'.Shows rest) ∨
      (us = [] ∧ t.kind = .eof ∧ s'.Shows [])) := by
  obtain ⟨front, n, hb, hus, hn⟩ := h.buffer
  rcases runs_next_iff.mp hnext with ⟨rest, hbuffer, rfl⟩ | ⟨hbuffer, s₁, hscan, rfl⟩
  · refine ⟨rfl, ?_⟩
    cases front with
    | nil =>
      -- only the end of the text is left in the buffer
      right
      cases n with
      | zero => simp [hb] at hbuffer
      | succ n =>
        have hp : s.pending = [] := hn.resolve_left (Nat.succ_ne_zero n)
        rw [hb, List.nil_append, List.replicate_succ] at hbuffer
        obtain ⟨rfl, rfl⟩ := List.cons.inj hbuffer
        refine ⟨by simp [hus, hp], h.eof, h.eof, by simp, [], n, rfl, by simp [hp], Or.inr hp⟩
    | cons u front =>
      left
      rw [hb, List.cons_append] at hbuffer
      obtain ⟨rfl, rfl⟩ := List.cons.inj hbuffer
      refine ⟨front.map Scanned.token ++ s.pending, hus, h.eof, ?_, front, n, rfl, rfl, hn⟩
      intro u hu
      exact h.tokens u (by rw [hus]; exact List.mem_cons_of_mem _ hu)
  · refine ⟨rfl, ?_⟩
    obtain ⟨rfl, hrep⟩ := List.append_eq_nil_iff.mp (hb.symm.trans hbuffer)
    rw [List.map_nil, List.nil_append] at hus
    subst hus
    rcases runs_scanNext.mp hscan with ⟨hp, rfl, rfl⟩ | ⟨rest, hp, rfl⟩
    · exact Or.inr ⟨hp, h.eof, h.eof, by simp, [], 0, by simp [hbuffer], by simp [hp], Or.inl rfl⟩
    · refine Or.inl ⟨rest, hp, h.eof, ?_, [], 0, by simp [hbuffer], rfl, Or.inl rfl⟩
      intro u hu
      exact h.tokens u (by rw [hp]; exact List.mem_cons_of_mem _ hu)

theorem exists_runs_next {t : Token} {rest : List Scanned} (h : s.Shows (.token t :: rest)) :
    ∃ s', Runs next s t s' ∧ s'.Shows rest ∧ s'.last = t.span := by
  obtain ⟨u, s', hnext⟩ : ∃ u s', Runs next s u s' := by
    cases hb : s.buffer with
    | cons u buffer => exact ⟨u, _, runs_next_iff.mpr (Or.inl ⟨buffer, hb, rfl⟩)⟩
    | nil =>
      obtain ⟨front, n, hb', hus, -⟩ := h.buffer
      obtain ⟨rfl, -⟩ := List.append_eq_nil_iff.mp (hb'.symm.trans hb)
      have hscan : Runs scanNext s t { s with pending := rest } :=
        runs_scanNext.mpr (Or.inr ⟨rest, hus.symm, rfl⟩)
      exact ⟨t, _, runs_next_iff.mpr (Or.inr ⟨hb, _, hscan, rfl⟩)⟩
  obtain ⟨hlast, ⟨rest', hus, hshow⟩ | ⟨hus, -⟩⟩ := runs_next h hnext
  · obtain ⟨hu, rfl⟩ := List.cons.inj hus
    obtain rfl := Scanned.token.inj hu
    exact ⟨s', hnext, hshow, hlast⟩
  · exact absurd hus (by simp)

theorem runs_checkAt {n : Nat} {k : Kind} {b : Bool} (h : s.Shows us)
    (hcheck : Runs (checkAt n k) s b s') :
    s'.Shows us ∧ ∃ k', upcoming? us n = some k' ∧ b = decide (k'.terminal = k.terminal) := by
  obtain ⟨t, s₁, hpeek, hcheck⟩ := runs_bind.mp hcheck
  obtain ⟨rfl, rfl⟩ := runs_pure.mp hcheck
  obtain ⟨hshow, hkind, -⟩ := runs_peekAt h hpeek
  exact ⟨hshow, t.kind, hkind, rfl⟩

theorem exists_runs_checkAt {n : Nat} {k' : Kind} (h : s.Shows us)
    (hk : upcoming? us n = some k') (k : Kind) :
    ∃ s', Runs (checkAt n k) s (decide (k'.terminal = k.terminal)) s' ∧ s'.Shows us := by
  obtain ⟨t, s', hpeek, rfl, hshow, -⟩ := exists_runs_peekAt h hk
  exact ⟨s', runs_bind.mpr ⟨t, s', hpeek, runs_pure.mpr ⟨rfl, rfl⟩⟩, hshow⟩

theorem exists_runs_accept {t : Token} {rest : List Scanned} {k : Kind}
    (h : s.Shows (.token t :: rest)) (hk : t.kind = k) :
    ∃ s', Runs (accept k) s true s' ∧ s'.Shows rest := by
  obtain ⟨s₁, hcheck, hshow⟩ := exists_runs_checkAt h (rfl : upcoming? _ 0 = some t.kind) k
  obtain ⟨s₂, hnext, hshow', -⟩ := exists_runs_next hshow
  refine ⟨s₂, runs_bind.mpr ⟨_, s₁, hcheck, ?_⟩, hshow'⟩
  rw [if_pos (by simp [hk])]
  exact runs_bind.mpr ⟨t, s₂, hnext, runs_pure.mpr ⟨rfl, rfl⟩⟩

theorem exists_runs_expect {t : Token} {rest : List Scanned} {k : Kind}
    (h : s.Shows (.token t :: rest)) (hk : t.kind = k) :
    ∃ s', Runs (expect k) s t s' ∧ s'.Shows rest := by
  obtain ⟨s₁, hnext, hshow, -⟩ := exists_runs_next h
  refine ⟨s₁, runs_bind.mpr ⟨t, s₁, hnext, ?_⟩, hshow⟩
  rw [if_pos (by rw [hk])]
  exact runs_pure.mpr ⟨rfl, rfl⟩

section Exact

variable {k : Kind} [hexact : Exact k]

/-- A token is accepted if and only if it is of the right kind. -/
theorem runs_accept {b : Bool} (h : s.Shows us) (haccept : Runs (accept k) s b s') :
    (b = true ∧ ∃ t rest, us = .token t :: rest ∧ t.kind = k ∧ s'.Shows rest) ∨
      (b = false ∧ s'.Shows us ∧ upcoming? us 0 ≠ some k) := by
  obtain ⟨c, s₁, hcheck, htake⟩ := runs_bind.mp haccept
  obtain ⟨hshow, k', hk', rfl⟩ := runs_checkAt h hcheck
  simp only [decide_eq_true_eq, terminal_eq_iff] at htake
  by_cases he : k' = k
  · left
    rw [if_pos he] at htake
    obtain ⟨t, s₂, hnext, hpure⟩ := runs_bind.mp htake
    obtain ⟨rfl, rfl⟩ := runs_pure.mp hpure
    obtain ⟨-, ⟨rest, rfl, hshow'⟩ | ⟨rfl, -⟩⟩ := runs_next hshow hnext
    · exact ⟨rfl, t, rest, rfl, (Option.some.inj hk').trans he, hshow'⟩
    · exact absurd (he.symm.trans (Option.some.inj hk').symm) hexact.ne_eof
  · right
    rw [if_neg he] at htake
    obtain ⟨rfl, rfl⟩ := runs_pure.mp htake
    refine ⟨rfl, hshow, fun hk => he ?_⟩
    rw [hk'] at hk
    exact Option.some.inj hk

theorem exists_runs_accept_not {k' : Kind} (h : s.Shows us) (hk' : upcoming? us 0 = some k')
    (hne : k' ≠ k) : ∃ s', Runs (accept k) s false s' ∧ s'.Shows us := by
  obtain ⟨s₁, hcheck, hshow⟩ := exists_runs_checkAt h hk' k
  have hfalse : ¬ decide (k'.terminal = k.terminal) = true := by
    rw [decide_eq_true_eq, terminal_eq_iff]
    exact hne
  refine ⟨s₁, runs_bind.mpr ⟨_, s₁, hcheck, ?_⟩, hshow⟩
  rw [if_neg hfalse]
  exact runs_pure.mpr ⟨rfl, rfl⟩

theorem runs_expect {t : Token} (h : s.Shows us) (hexpect : Runs (expect k) s t s') :
    ∃ rest, us = .token t :: rest ∧ t.kind = k ∧ s'.Shows rest := by
  obtain ⟨u, s₁, hnext, hjudge⟩ := runs_bind.mp hexpect
  simp only [terminal_eq_iff] at hjudge
  by_cases hk : u.kind = k
  · rw [if_pos hk] at hjudge
    obtain ⟨rfl, rfl⟩ := runs_pure.mp hjudge
    obtain ⟨-, ⟨rest, hus, hshow⟩ | ⟨-, heof, -⟩⟩ := runs_next h hnext
    · exact ⟨rest, hus, hk, hshow⟩
    · exact absurd (hk.symm.trans heof) hexact.ne_eof
  · rw [if_neg hk] at hjudge
    exact absurd hjudge not_runs_fail

end Exact

/-! ## Readers that only look -/

/-- The reader leaves in the stream what it shows. -/
def Looks (m : ReadM α) : Prop := ∀ ⦃s us a s'⦄, s.Shows us → Runs m s a s' → s'.Shows us

theorem looks_peek : Looks peek := fun _ _ _ _ hs h => (runs_peekAt hs h).1

theorem looks_checkAt (n : Nat) (k : Kind) : Looks (checkAt n k) :=
  fun _ _ _ _ hs h => (runs_checkAt hs h).1

theorem Looks.bind {m : ReadM α} (hm : Looks m) {f : α → ReadM β} (hf : ∀ a, Looks (f a)) :
    Looks (m >>= f) := by
  intro s us b s' hs h
  obtain ⟨a, s₁, hrun, h⟩ := runs_bind.mp h
  exact hf a (hm hs hrun) h

theorem looks_pure (a : α) : Looks (pure a) := by
  intro s us b s' hs h
  obtain ⟨-, rfl⟩ := runs_pure.mp h
  exact hs

/-! ## Which token it is -/

section Identity

/-- The stream shows the token next, or the end of the text if nothing else is to come. -/
def Next (us : List Scanned) (eof t : Token) : Prop :=
  (∃ rest, us = .token t :: rest) ∨ (us = [] ∧ t = eof)

/-- The first token in the buffer comes next. -/
theorem next_of_buffer {t : Token} {rest : List Token} (h : s.Shows us)
    (hb : s.buffer = t :: rest) : Next us s.eof t := by
  obtain ⟨front, n, hfront, hus, hn⟩ := h.buffer
  rw [hfront] at hb
  cases front with
  | nil =>
    cases n with
    | zero => simp at hb
    | succ n =>
      have hp : s.pending = [] := hn.resolve_left (Nat.succ_ne_zero n)
      rw [List.nil_append, List.replicate_succ] at hb
      exact Or.inr ⟨by simp [hus, hp], (List.cons.inj hb).1.symm⟩
  | cons u front =>
    obtain ⟨rfl, -⟩ := List.cons.inj hb
    exact Or.inl ⟨_, hus⟩

theorem eof_scanNext {t : Token} (h : Runs scanNext s t s') : s'.eof = s.eof := by
  rcases runs_scanNext.mp h with ⟨-, -, rfl⟩ | ⟨rest, -, rfl⟩
  · rfl
  · rfl

theorem eof_fill {n : Nat} {a : Unit} (h : Runs (fill n) s a s') : s'.eof = s.eof := by
  induction n generalizing s with
  | zero =>
    obtain ⟨-, rfl⟩ := runs_pure.mp h
    rfl
  | succ n ih =>
    obtain ⟨t, s₁, hscan, h⟩ := runs_bind.mp h
    obtain ⟨_, s₂, hmod, h⟩ := runs_bind.mp h
    obtain rfl := runs_modify.mp hmod
    have he : s₁.eof = s.eof := eof_scanNext hscan
    exact (ih h).trans he

theorem eof_peekAt {n : Nat} {t : Token} (h : Runs (peekAt n) s t s') : s'.eof = s.eof := by
  unfold peekAt at h
  rw [runs_get_bind] at h
  obtain ⟨_, s₁, hfill, h⟩ := runs_bind.mp h
  rw [runs_get_bind] at h
  obtain ⟨-, rfl⟩ := runs_pure.mp h
  exact eof_fill hfill

/-- A token that was looked at waits in the buffer. -/
theorem buffer_of_peek {t : Token} (h : Runs peek s t s') : ∃ rest, s'.buffer = t :: rest := by
  unfold peek peekAt at h
  rw [runs_get_bind] at h
  obtain ⟨_, s₁, hfill, h⟩ := runs_bind.mp h
  rw [runs_get_bind] at h
  obtain ⟨rfl, rfl⟩ := runs_pure.mp h
  have hlength := length_fill hfill
  cases hb : s'.buffer with
  | nil =>
    rw [hb, List.length_nil] at hlength
    omega
  | cons u rest => exact ⟨rest, rfl⟩

/-- The token looked at is the one that comes next. -/
theorem next_of_peek {t : Token} (hs : s.Shows us) (h : Runs peek s t s') : Next us s.eof t := by
  obtain ⟨rest, hb⟩ := buffer_of_peek h
  have hnext := next_of_buffer (runs_peekAt hs h).1 hb
  rw [eof_peekAt h] at hnext
  exact hnext

theorem eof_next {t : Token} (h : Runs next s t s') : s'.eof = s.eof := by
  rcases runs_next_iff.mp h with ⟨rest, -, rfl⟩ | ⟨-, s₁, hscan, rfl⟩
  · rfl
  · have he : s₁.eof = s.eof := eof_scanNext hscan
    exact he

/-- The token taken is the one that comes next. -/
theorem next_of_next {t : Token} (hs : s.Shows us) (h : Runs next s t s') : Next us s.eof t := by
  rcases runs_next_iff.mp h with ⟨rest, hb, -⟩ | ⟨hb, s₁, hscan, -⟩
  · exact next_of_buffer hs hb
  · obtain ⟨front, n, hfront, hus, -⟩ := hs.buffer
    obtain ⟨rfl, -⟩ := List.append_eq_nil_iff.mp (hfront.symm.trans hb)
    rw [List.map_nil, List.nil_append] at hus
    rcases runs_scanNext.mp hscan with ⟨hp, rfl, -⟩ | ⟨rest, hp, -⟩
    · exact Or.inr ⟨hus.trans hp, rfl⟩
    · exact Or.inl ⟨rest, hus.trans hp⟩

end Identity

end ReadM

end ExprCheck
