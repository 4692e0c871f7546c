import Mathlib
import ExprCheck.Proofs.ParserSound
import ExprCheck.Proofs.Rendering

/-!
# Runs on known tokens

What a reader does on a stream of which only the kinds of its tokens are known. A run is followed
forwards: each step takes a token, looks at one or hands over to a reader that is known to take
exactly the tokens of a tree.
-/

namespace ExprCheck

/-- All that is left of a stream is tokens of the given kinds. -/
def Stream.Offers (s : Stream) (ks : List Kind) : Prop := ∃ us, s.Shows us ∧ Took us ks []

namespace Grammar

open ReadM

variable {α β : Type} {s : Stream} {k : Kind} {ks ls : List Kind} {spell : Float → List Char}

/-! ## Runs that succeed -/

/-- The run succeeds, and what it returns and leaves is as said. -/
def Succeeds (m : ReadM α) (s : Stream) (Q : α → Stream → Prop) : Prop :=
  ∃ a s', Runs m s a s' ∧ Q a s'

section

variable {Q : β → Stream → Prop}

theorem succeeds_pure {b : β} (h : Q b s) : Succeeds (pure b) s Q :=
  ⟨b, s, runs_pure.mpr ⟨rfl, rfl⟩, h⟩

theorem Succeeds.bind {m : ReadM α} {f : α → ReadM β} {P : α → Stream → Prop}
    (h : Succeeds m s P) (hf : ∀ a s', P a s' → Succeeds (f a) s' Q) : Succeeds (m >>= f) s Q := by
  obtain ⟨a, s₁, hrun, hp⟩ := h
  obtain ⟨b, s₂, hrun', hq⟩ := hf a s₁ hp
  exact ⟨b, s₂, runs_bind.mpr ⟨a, s₁, hrun, hrun'⟩, hq⟩

theorem Succeeds.andThen {m : ReadM α} {f : α → ReadM β} {a : α}
    (h : Succeeds m s fun a' s' => a' = a ∧ s'.Offers ks)
    (hf : ∀ s', s'.Offers ks → Succeeds (f a) s' Q) : Succeeds (m >>= f) s Q :=
  h.bind fun _ s' h => h.1 ▸ hf s' h.2

theorem spanFrom_then {start : Span} {f : Span → ReadM β}
    (hf : ∀ span, Succeeds (f span) s Q) : Succeeds (spanFrom start >>= f) s Q := by
  obtain ⟨b, s', hrun, hq⟩ := hf (start.merge s.last)
  exact ⟨b, s', runs_spanFrom_bind.mpr hrun, hq⟩

/-- The outermost level is made for the tokens that are left. -/
theorem outermost_then {f : Level → ReadM β} (hf : Succeeds (f (level (s.remaining + 1))) s Q) :
    Succeeds (outermost >>= f) s Q := by
  obtain ⟨b, s', hrun, hq⟩ := hf
  exact ⟨b, s', runs_bind.mpr ⟨_, s, runs_get_bind.mpr (runs_pure.mpr ⟨rfl, rfl⟩), hrun⟩, hq⟩

/-- Behind the last token, the end of the text can be seen. -/
theorem succeeds_peek (hs : s.Offers ks) :
    Succeeds peek s fun t s' => t.kind = ks.headD .eof ∧ s'.Offers ks := by
  obtain ⟨us, hshow, htook⟩ := hs
  have hk : upcoming? us 0 = some (ks.headD .eof) := by
    cases ks with
    | nil =>
      obtain rfl := htook.of_nil
      rfl
    | cons k ks => exact upcoming?_zero_of_took htook
  obtain ⟨t, s₁, hpeek, ht, hshow₁, -⟩ := exists_runs_peekAt hshow hk
  exact ⟨t, s₁, hpeek, ht, us, hshow₁, htook⟩

theorem peek_then {f : Token → ReadM β} (hs : s.Offers (k :: ks))
    (hf : ∀ t s', t.kind = k → s'.Offers (k :: ks) → Succeeds (f t) s' Q) :
    Succeeds (peek >>= f) s Q :=
  (succeeds_peek hs).bind fun t s' h => hf t s' h.1 h.2

theorem peek_append_then {ms : List Kind} {f : Token → ReadM β} (hks : ks = k :: ms)
    (hs : s.Offers (ks ++ ls))
    (hf : ∀ t s', t.kind = k → s'.Offers (ks ++ ls) → Succeeds (f t) s' Q) :
    Succeeds (peek >>= f) s Q := by
  subst hks
  exact peek_then hs hf

theorem next_then {f : Token → ReadM β} (hs : s.Offers (k :: ks))
    (hf : ∀ t s', t.kind = k → s'.Offers ks → Succeeds (f t) s' Q) :
    Succeeds (next >>= f) s Q := by
  obtain ⟨us, hshow, htook⟩ := hs
  obtain ⟨t, us', rfl, hk, htook'⟩ := htook.of_cons
  obtain ⟨s₁, hnext, hshow₁, -⟩ := exists_runs_next hshow
  have htaken : Succeeds next s fun t s' => t.kind = k ∧ s'.Offers ks :=
    ⟨t, s₁, hnext, hk, us', hshow₁, htook'⟩
  exact htaken.bind fun t s' h => hf t s' h.1 h.2

theorem expect_then {f : Token → ReadM β} (hs : s.Offers (k :: ks))
    (hf : ∀ t s', s'.Offers ks → Succeeds (f t) s' Q) : Succeeds (expect k >>= f) s Q := by
  obtain ⟨us, hshow, htook⟩ := hs
  obtain ⟨t, us', rfl, hk, htook'⟩ := htook.of_cons
  obtain ⟨s₁, hexpect, hshow₁⟩ := exists_runs_expect hshow hk
  have htaken : Succeeds (expect k) s fun _ s' => s'.Offers ks :=
    ⟨t, s₁, hexpect, us', hshow₁, htook'⟩
  exact htaken.bind fun t s' h => hf t s' h

theorem accept_then {f : Bool → ReadM β} (hs : s.Offers (k :: ks))
    (hf : ∀ s', s'.Offers ks → Succeeds (f true) s' Q) : Succeeds (accept k >>= f) s Q := by
  obtain ⟨us, hshow, htook⟩ := hs
  obtain ⟨t, us', rfl, hk, htook'⟩ := htook.of_cons
  obtain ⟨s₁, haccept, hshow₁⟩ := exists_runs_accept hshow hk
  have htaken : Succeeds (accept k) s fun b s' => b = true ∧ s'.Offers ks :=
    ⟨true, s₁, haccept, rfl, us', hshow₁, htook'⟩
  exact htaken.andThen hf

/-- A token that is not there is not taken. -/
theorem refuse_then {k' : Kind} [Exact k'] {f : Bool → ReadM β} (hs : s.Offers (k :: ks))
    (hne : k ≠ k') (hf : ∀ s', s'.Offers (k :: ks) → Succeeds (f false) s' Q) :
    Succeeds (accept k' >>= f) s Q := by
  obtain ⟨us, hshow, htook⟩ := hs
  obtain ⟨s₁, haccept, hshow₁⟩ :=
    exists_runs_accept_not hshow (upcoming?_zero_of_took htook) hne
  have hleft : Succeeds (accept k') s fun b s' => b = false ∧ s'.Offers (k :: ks) :=
    ⟨false, s₁, haccept, rfl, us, hshow₁, htook⟩
  exact hleft.andThen hf

/-- At the end of a text no token is taken. -/
theorem refuse_end_then {k : Kind} [hk : Exact k] {f : Bool → ReadM β} (hs : s.Offers [])
    (hf : ∀ s', s'.Offers [] → Succeeds (f false) s' Q) : Succeeds (accept k >>= f) s Q := by
  obtain ⟨us, hshow, htook⟩ := hs
  obtain rfl := htook.of_nil
  obtain ⟨s₁, haccept, hshow₁⟩ := exists_runs_accept_not hshow rfl hk.ne_eof.symm
  have hleft : Succeeds (accept k) s fun b s' => b = false ∧ s'.Offers [] :=
    ⟨false, s₁, haccept, rfl, [], hshow₁, htook⟩
  exact hleft.andThen hf

theorem check_then {f : Bool → ReadM β} (hs : s.Offers (k :: ks))
    (k' : Kind) (hf : ∀ s', s'.Offers (k :: ks) →
      Succeeds (f (decide (k.terminal = k'.terminal))) s' Q) : Succeeds (check k' >>= f) s Q := by
  obtain ⟨us, hshow, htook⟩ := hs
  obtain ⟨s₁, hcheck, hshow₁⟩ := exists_runs_checkAt hshow (upcoming?_zero_of_took htook) k'
  have hchecked : Succeeds (check k') s fun b s' =>
      b = decide (k.terminal = k'.terminal) ∧ s'.Offers (k :: ks) :=
    ⟨_, s₁, hcheck, rfl, us, hshow₁, htook⟩
  exact hchecked.andThen hf

/-- Some tokens that do not begin with a given one. -/
theorem check_not_then {k' : Kind} [Exact k'] {f : Bool → ReadM β} (hs : s.Offers (ks ++ ls))
    (hfirst : ∃ k ms, ks = k :: ms ∧ k ≠ k')
    (hf : ∀ s', s'.Offers (ks ++ ls) → Succeeds (f false) s' Q) :
    Succeeds (check k' >>= f) s Q := by
  obtain ⟨k, ms, rfl, hk⟩ := hfirst
  refine check_then hs k' fun s₁ hs₁ => ?_
  have hfalse : decide (k.terminal = k'.terminal) = false := by
    rw [decide_eq_false_iff_not, terminal_eq_iff]
    exact hk
  rw [hfalse]
  exact hf s₁ hs₁

end

/-! ## Readers of trees -/

/-- On the tokens `ks` with a token behind them that `Next` allows, the reader takes exactly `ks`,
and what it returns is `b` up to spans. -/
def Reads (m : ReadM α) (bare : α → β) (b : β) (ks : List Kind) (Next : Kind → Prop) : Prop :=
  ∀ ⦃s k ls⦄, s.Offers (ks ++ k :: ls) → Next k →
    Succeeds m s fun a s' => bare a = b ∧ s'.Offers (k :: ls)

theorem Reads.mono {m : ReadM α} {bare : α → β} {b : β} {Next Next' : Kind → Prop}
    (hm : Reads m bare b ks Next) (h : ∀ k, Next' k → Next k) : Reads m bare b ks Next' :=
  fun _ k _ hs hk => hm hs (h k hk)

theorem Reads.andThen {γ : Type} {m : ReadM α} {bare : α → β} {b : β} {Next : Kind → Prop}
    (hm : Reads m bare b ks Next) {f : α → ReadM γ} {Q : γ → Stream → Prop}
    (hs : s.Offers (ks ++ k :: ls)) (hnext : Next k)
    (hf : ∀ a s', bare a = b → s'.Offers (k :: ls) → Succeeds (f a) s' Q) :
    Succeeds (m >>= f) s Q :=
  (hm hs hnext).bind fun a s' h => hf a s' h.1 h.2

/-- A list of items is read back if each of them is and none begins with the closing token. -/
theorem reads_items {item : ReadM α} {bare : α → β} {kinds : α → List Kind} {close : Kind}
    [Exact close] (hclose : close ≠ .punct .comma) (xs : List α) {n : Nat} (hn : xs.length < n)
    (hitem : ∀ x ∈ xs,
      Reads item bare (bare x) (kinds x) (fun k => k = .punct .comma ∨ k = close))
    (hfirst : ∀ x ∈ xs, ∃ k ks, kinds x = k :: ks ∧ k ≠ close) :
    Reads (items close item n) (List.map bare) (xs.map bare) (commas (xs.map kinds))
      (· = close) := by
  induction xs generalizing n with
  | nil =>
    rintro s _ ls hs rfl
    obtain ⟨n, rfl⟩ : ∃ m, n = m + 1 := ⟨n - 1, by simp only [List.length_nil] at hn; omega⟩
    rw [List.map_nil, commas, List.nil_append] at hs
    simp only [items, Production.items, monadLift_self]
    refine check_then hs _ fun s₁ hs₁ => ?_
    rw [decide_eq_true rfl]
    exact succeeds_pure ⟨rfl, hs₁⟩
  | cons x xs ih =>
    rintro s _ ls hs rfl
    obtain ⟨n, rfl⟩ : ∃ m, n = m + 1 := ⟨n - 1, by simp only [List.length_cons] at hn; omega⟩
    have hx := hitem x List.mem_cons_self
    have hxfirst := hfirst x List.mem_cons_self
    simp only [items, Production.items, monadLift_self]
    cases xs with
    | nil =>
      rw [List.map_cons, List.map_nil, commas] at hs
      refine check_not_then hs hxfirst fun s₁ hs₁ => ?_
      refine hx.andThen hs₁ (.inr rfl) fun x' s₂ hx' hs₂ => ?_
      refine refuse_then hs₂ hclose fun s₃ hs₃ => ?_
      exact succeeds_pure ⟨by simp only [List.map_cons, List.map_nil, hx'], hs₃⟩
    | cons y ys =>
      rw [List.map_cons, List.map_cons, commas, ← List.map_cons, List.append_assoc,
        List.cons_append] at hs
      have hrest := ih (n := n) (by simp only [List.length_cons] at hn ⊢; omega)
        (fun z hz => hitem z (List.mem_cons_of_mem _ hz))
        (fun z hz => hfirst z (List.mem_cons_of_mem _ hz))
      refine check_not_then hs hxfirst fun s₁ hs₁ => ?_
      refine hx.andThen hs₁ (.inl rfl) fun x' s₂ hx' hs₂ => ?_
      refine accept_then hs₂ fun s₃ hs₃ => ?_
      refine hrest.andThen hs₃ rfl fun rest s₄ hrest' hs₄ => ?_
      exact succeeds_pure ⟨by simp only [List.map_cons, hx', hrest'], hs₄⟩

/-- A list of items that fits into a bound on the number of tokens, and so on the number of items
too. -/
theorem reads_list {item : ReadM α} {bare : α → β} {kinds : α → List Kind} {close : Kind}
    [Exact close] (hclose : close ≠ .punct .comma) {xs : List α} {n rounds : Nat}
    (hrounds : n < rounds) (hn : (commas (xs.map kinds)).length ≤ n)
    (hitem : ∀ x ∈ xs, (kinds x).length ≤ n →
      Reads item bare (bare x) (kinds x) (fun k => k = .punct .comma ∨ k = close))
    (hfirst : ∀ x ∈ xs, ∃ k ks, kinds x = k :: ks ∧ k ≠ close) :
    Reads (items close item rounds) (List.map bare) (xs.map bare) (commas (xs.map kinds))
      (· = close) := by
  have hne : ∀ ks ∈ xs.map kinds, ks ≠ [] := by
    intro ks hks
    obtain ⟨x, hx, rfl⟩ := List.mem_map.mp hks
    obtain ⟨k, ls, hls, -⟩ := hfirst x hx
    simp [hls]
  have hlength := length_le_length_commas hne
  rw [List.length_map] at hlength
  refine reads_items hclose xs (by omega) (fun x hx => ?_) hfirst
  have hmem : kinds x ∈ xs.map kinds := List.mem_map_of_mem hx
  exact hitem x hx (Nat.le_trans (length_le_commas hmem) hn)

/-! ## Names -/

theorem succeeds_identifier {x : String} (hs : s.Offers (.text .identifier x :: ks)) :
    Succeeds identifier s fun y s' => y = x ∧ s'.Offers ks := by
  refine next_then hs fun t s₁ ht hs₁ => ?_
  rw [ht]
  exact succeeds_pure ⟨rfl, hs₁⟩

/-- The tokens do not begin with a name that the next token declares. -/
def DeclaresNone (ks : List Kind) : Prop :=
  ∃ k ls, ks = k :: ls ∧
    ∀ x, k = .text .identifier x → ∃ k' ms, ls = k' :: ms ∧ marksName k' = false

theorem declaresNone_kinds (e : Expr) (hk : marksName k = false) :
    DeclaresNone (e.kinds spell ++ k :: ks) := by
  obtain ⟨k₀, ls, hkinds, -, hname⟩ := @kinds_eq_cons spell e
  refine ⟨k₀, ls ++ k :: ks, by rw [hkinds, List.cons_append], fun x hx => ?_⟩
  rcases hname x hx with rfl | ⟨k', ms, rfl, hk'⟩
  · exact ⟨k, ks, rfl, hk⟩
  · exact ⟨k', ms ++ k :: ks, rfl, hk'⟩

theorem declaresNone_guarded (e : Expr) (hk : marksName k = false) :
    DeclaresNone (guarded e.isAtomic (e.kinds spell) ++ k :: ks) := by
  obtain ⟨k₀, ls, hkinds, -, hname⟩ := @guarded_eq_cons spell e
  refine ⟨k₀, ls ++ k :: ks, by rw [hkinds, List.cons_append], fun x hx => ?_⟩
  rw [hname x hx]
  exact ⟨k, ks, rfl, hk⟩

theorem succeeds_nameBefore {x : String} (hs : s.Offers (.text .identifier x :: k :: ks)) :
    Succeeds (nameBefore k) s fun b s' =>
      b = true ∧ s'.Offers (.text .identifier x :: k :: ks) := by
  refine check_then hs _ fun s₁ ⟨us, hshow, htook⟩ => ?_
  have hident : (Kind.text .identifier x).terminal = anyIdentifier.terminal := rfl
  rw [decide_eq_true hident]
  obtain ⟨s₂, hcheck, hshow₂⟩ := exists_runs_checkAt hshow (upcoming?_one_of_took htook) k
  exact ⟨_, s₂, hcheck, decide_eq_true rfl, us, hshow₂, htook⟩

/-- The tokens do not begin with a name and `k` behind it. -/
def NoNameBefore (k : Kind) (ks : List Kind) : Prop :=
  ∃ k₀ ls, ks = k₀ :: ls ∧ ∀ x, k₀ = .text .identifier x → ∃ k' ms, ls = k' :: ms ∧ k' ≠ k

theorem DeclaresNone.noNameBefore (h : DeclaresNone ks) (hk : marksName k = true) :
    NoNameBefore k ks := by
  obtain ⟨k₀, ls, rfl, hname⟩ := h
  refine ⟨k₀, ls, rfl, fun x hx => ?_⟩
  obtain ⟨k', ms, rfl, hk'⟩ := hname x hx
  refine ⟨k', ms, rfl, ?_⟩
  rintro rfl
  rw [hk'] at hk
  cases hk

theorem succeeds_nameBefore_not [Exact k] (hs : s.Offers ks) (hnot : NoNameBefore k ks) :
    Succeeds (nameBefore k) s fun b s' => b = false ∧ s'.Offers ks := by
  obtain ⟨k₀, ls, rfl, hname⟩ := hnot
  refine check_then hs _ fun s₁ hs₁ => ?_
  by_cases hident : k₀.terminal = anyIdentifier.terminal
  · obtain ⟨x, rfl⟩ : ∃ x, k₀ = .text .identifier x := by
      cases k₀ with
      | text c x =>
        simp only [anyIdentifier, Kind.terminal, Terminal.text.injEq] at hident
        exact ⟨x, by rw [hident]⟩
      | keyword _ | punct _ | eof => exact absurd hident (by simp [anyIdentifier, Kind.terminal])
    obtain ⟨k', ms, rfl, hk'⟩ := hname x rfl
    rw [decide_eq_true hident]
    obtain ⟨us, hshow, htook⟩ := hs₁
    obtain ⟨s₂, hcheck, hshow₂⟩ := exists_runs_checkAt hshow (upcoming?_one_of_took htook) k
    refine ⟨_, s₂, hcheck, ?_, us, hshow₂, htook⟩
    rw [decide_eq_false_iff_not, terminal_eq_iff]
    exact hk'
  · rw [decide_eq_false hident]
    exact succeeds_pure ⟨rfl, hs₁⟩

end Grammar

end ExprCheck
