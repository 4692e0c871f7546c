import Mathlib
import ExprCheck.Proofs.LayeredGrammar
import ExprCheck.Proofs.Lookahead
import ExprCheck.Proofs.RecursiveDescent

/-!
# The descent ends

Every reader comes to a result, on every text. A reader that succeeds has taken a token, a loop that
goes around again has taken one, and a call that is made before any token was taken leads to a lower
rank. So along nested calls the number of reports to come falls, or it stays and the rank falls.

`Moves` says this of one plan. It is proved plan by plan, with the tokens that the called plans take
as what is known (`Known`), and then of all plans by induction on the number of reports and on the
rank. The same induction shows that the readers that count never run out (`returns_reader`).
-/

namespace ExprCheck

open ReadM

theorem Took.length_eq {us us' : List Scanned} {ks : List Kind} (h : Took us ks us') :
    us.length = ks.length + us'.length := by
  obtain ⟨ts, rfl, rfl⟩ := h
  simp

/-- The end of the text is never taken off what a stream shows. -/
theorem Took.eof_notMem {s : Stream} {us us' : List Scanned} {ks : List Kind} (h : Took us ks us')
    (hs : s.Shows us) : .eof ∉ ks := by
  obtain ⟨ts, rfl, rfl⟩ := h
  intro hmem
  obtain ⟨t, ht, heof⟩ := List.mem_map.mp hmem
  exact hs.tokens t (List.mem_append_left _ (List.mem_map_of_mem ht)) heof

namespace ReadM

variable {α β : Type} {d : Nat} {m : ReadM α} {f : α → ReadM β}

/-! ## Steps on a stream -/

/-- Where the step succeeds, it has taken at least `d` tokens. Where it fails, no bound was reached,
and there is a stream to go on with. -/
structure Steady (d : Nat) (m : ReadM α) : Prop where
  runs : ∀ ⦃s us a s'⦄, s.Shows us → Runs m s a s' →
    ∃ ks us', d ≤ ks.length ∧ Took us ks us' ∧ s'.Shows us'
  fails : ∀ ⦃s us e s'⦄, s.Shows us → Fails m s e s' →
    e.fault ≠ .exhausted ∧ ∃ us', s'.Shows us'

namespace Steady

theorem pure (a : α) : Steady 0 (pure a : ReadM α) where
  runs := by
    intro s us b s' hs hrun
    obtain ⟨-, rfl⟩ := runs_pure.mp hrun
    exact ⟨[], us, Nat.le_refl _, .refl us, hs⟩
  fails := fun _ _ _ _ _ hfail => absurd hfail not_fails_pure

theorem fail {fault : ReadFault} (h : fault ≠ .exhausted) (span : Span) :
    Steady d (ReadM.fail fault span : ReadM α) where
  runs := fun _ _ _ _ _ hrun => absurd hrun not_runs_fail
  fails := by
    intro s us e s' hs hfail
    obtain ⟨rfl, rfl⟩ := fails_fail.mp hfail
    exact ⟨h, us, hs⟩

theorem bind (hm : Steady d m) (hf : ∀ a, Steady 0 (f a)) : Steady d (m >>= f) where
  runs := by
    intro s us b s' hs hrun
    obtain ⟨a, s₁, hrun₁, hrun₂⟩ := runs_bind.mp hrun
    obtain ⟨ks, us₁, hd, htook, hs₁⟩ := hm.runs hs hrun₁
    obtain ⟨ls, us', -, htook', hs'⟩ := (hf a).runs hs₁ hrun₂
    exact ⟨ks ++ ls, us', by rw [List.length_append]; omega, htook.append htook', hs'⟩
  fails := by
    intro s us e s' hs hfail
    rcases fails_bind.mp hfail with hfail | ⟨a, s₁, hrun, hfail⟩
    · exact hm.fails hs hfail
    · obtain ⟨ks, us₁, -, -, hs₁⟩ := hm.runs hs hrun
      exact (hf a).fails hs₁ hfail

theorem ite {p : Prop} [Decidable p] {m' : ReadM α} (h : Steady d m) (h' : Steady d m') :
    Steady d (if p then m else m') := by
  split
  · exact h
  · exact h'

theorem get {f : Stream → ReadM β} (hf : ∀ s, Steady d (f s)) : Steady d (get >>= f) where
  runs := fun s _ _ _ hs hrun => (hf s).runs hs (runs_get_bind.mp hrun)
  fails := fun s _ _ _ hs hfail => (hf s).fails hs (fails_get_bind.mp hfail)

theorem map {g : α → β} (hm : Steady d m) : Steady d (g <$> m) := by
  rw [map_eq_pure_bind]
  exact hm.bind fun a => .pure (g a)

end Steady

/-- Junk that is reported is gone. What stands in the buffer before it stays. -/
theorem shows_of_fails_scanNext {s s' : Stream} {us : List Scanned} {e : ReadError}
    (hs : s.Shows us) (h : Fails scanNext s e s') : ∃ us', s'.Shows us' := by
  obtain ⟨text, span, rest, hp, -⟩ := fails_scanNext h
  obtain rfl := h.eq_of_scanNext
  obtain ⟨front, n, hb, hus, hn⟩ := hs.buffer
  have hn0 : n = 0 := hn.resolve_right (by simp [hp])
  refine ⟨front.map .token ++ rest, hs.eof, ?_, front, 0, ?_, ?_, Or.inl rfl⟩
  · intro t ht
    refine hs.tokens t ?_
    rw [hus, hp]
    rcases List.mem_append.mp ht with ht | ht
    · exact List.mem_append_left _ ht
    · exact List.mem_append_right _ (List.mem_cons_of_mem _ ht)
  · rw [hb, hn0]
  · rw [hp]
    rfl

theorem shows_of_fails_fill {s s' : Stream} {us : List Scanned} {e : ReadError} {n : Nat}
    (hs : s.Shows us) (h : Fails (fill n) s e s') : ∃ us', s'.Shows us' := by
  induction n generalizing s with
  | zero => exact absurd h not_fails_pure
  | succ n ih =>
    rcases fails_bind.mp h with hscan | ⟨t, s₁, hscan, h⟩
    · exact shows_of_fails_scanNext hs hscan
    · rcases fails_bind.mp h with hmodify | ⟨_, s₂, hmodify, h⟩
      · cases hmodify
      · obtain rfl := runs_modify.mp hmodify
        exact ih (shows_fillStep hs hscan).1 h

theorem steady_peekAt (i : Nat) : Steady 0 (peekAt i) where
  runs := fun s us t s' hs hrun => ⟨[], us, Nat.le_refl _, .refl us, (runs_peekAt hs hrun).1⟩
  fails := by
    intro s us e s' hs hfail
    refine ⟨fails_peekAt_ne hfail, ?_⟩
    unfold peekAt at hfail
    rw [fails_get_bind] at hfail
    rcases fails_bind.mp hfail with hfail | ⟨_, s₁, -, hfail⟩
    · exact shows_of_fails_fill hs hfail
    · exact absurd (fails_get_bind.mp hfail) not_fails_pure

theorem steady_next : Steady 0 next where
  runs := by
    intro s us t s' hs hrun
    obtain ⟨-, ⟨rest, rfl, hs'⟩ | ⟨rfl, -, hs'⟩⟩ := runs_next hs hrun
    · exact ⟨[t.kind], rest, Nat.zero_le _, (Took.refl rest).cons t, hs'⟩
    · exact ⟨[], [], Nat.le_refl _, .refl _, hs'⟩
  fails := by
    intro s us e s' hs hfail
    refine ⟨fails_next_ne hfail, ?_⟩
    unfold next at hfail
    rw [fails_get_bind] at hfail
    split at hfail
    · cases hfail
    · rcases fails_bind.mp hfail with hfail | ⟨_, s₁, -, hfail⟩
      · exact shows_of_fails_scanNext hs hfail
      · cases hfail

/-- A token is taken, unless it is the end of the text, and then the step fails. -/
theorem Steady.next {f : Token → ReadM β} (hf : ∀ t, Steady 0 (f t))
    (heof : ∀ t s b s', t.kind = .eof → ¬ Runs (f t) s b s') : Steady 1 (next >>= f) where
  runs := by
    intro s us b s' hs hrun
    obtain ⟨t, s₁, hnext, hrun⟩ := runs_bind.mp hrun
    obtain ⟨-, ⟨rest, rfl, hs₁⟩ | ⟨-, ht, -⟩⟩ := runs_next hs hnext
    · obtain ⟨ks, us', -, htook, hs'⟩ := (hf t).runs hs₁ hrun
      exact ⟨t.kind :: ks, us', Nat.succ_pos _, htook.cons t, hs'⟩
    · exact absurd hrun (heof t _ _ _ ht)
  fails := (steady_next.bind hf).fails

theorem steady_checkAt (i : Nat) (kind : Kind) : Steady 0 (checkAt i kind) :=
  (steady_peekAt i).bind fun _ => .pure _

theorem steady_accept (kind : Kind) : Steady 0 (accept kind) :=
  (steady_checkAt 0 kind).bind fun _ => .ite (steady_next.bind fun _ => .pure true) (.pure false)

theorem steady_judge (kind : Kind) (t : Token) :
    Steady 0 (if t.kind.terminal = kind.terminal then (return t : ReadM Token)
      else ReadM.fail (.expected kind t.kind) t.span) :=
  .ite (.pure t) (.fail (by simp) t.span)

theorem steady_expect (kind : Kind) [Exact kind] : Steady 1 (expect kind) where
  runs := by
    intro s us t s' hs hrun
    obtain ⟨rest, rfl, -, hs'⟩ := runs_expect hs hrun
    exact ⟨[t.kind], rest, Nat.le_refl _, (Took.refl rest).cons t, hs'⟩
  fails := (steady_next.bind (steady_judge kind)).fails

theorem steady_spanFrom (start : Span) : Steady 0 (spanFrom start) := .get fun _ => .pure _

end ReadM

/-! ## Calls of a stream -/

theorem Call.steady_perform (c : Call) : Steady 0 c.perform := by
  cases c with
  | next => exact steady_next.map
  | peek => exact (steady_peekAt 0).map
  | peekAt n => exact (steady_peekAt n).map
  | check k => exact (steady_checkAt 0 k).map
  | checkSecond k => exact (steady_checkAt 1 k).map
  | accept k => exact (steady_accept k).map
  | expect k => exact (steady_next.bind (steady_judge k)).map

/-- Whatever was called before, and whether it failed or not, a stream shows some reports. -/
theorem History.exists_shows_ofCalls (text : List Char) (calls : List Call) :
    ∃ us, (ofCalls text calls).stream.Shows us := by
  have hrun : ∀ h : History, (∃ us, h.stream.Shows us) →
      ∃ us, (calls.foldl call h).stream.Shows us := by
    induction calls with
    | nil => exact fun h hh => hh
    | cons c calls ih =>
      rintro h ⟨us, hs⟩
      refine ih (h.call c) ?_
      rcases runs_or_fails c.perform h.stream with ⟨a, s', hrun⟩ | ⟨e, s', hfail⟩
      · obtain ⟨ks, us', -, -, hs'⟩ := c.steady_perform.runs hs hrun
        exact ⟨us', by rw [History.call, hrun.leaves]; exact hs'⟩
      · obtain ⟨-, us', hs'⟩ := c.steady_perform.fails hs hfail
        exact ⟨us', by rw [History.call, hfail.leaves]; exact hs'⟩
  exact hrun (start text) ⟨_, shows_ofText text⟩

namespace Grammar

variable {α β : Type} {k r d d' : Nat} {us : List Scanned}

/-! ## Names, constants and questions -/

theorem steady_orFail {result : Except ReadFault α} (span : Span)
    (h : ∀ fault, result = .error fault → fault ≠ .exhausted) : Steady 0 (orFail span result) := by
  cases result with
  | ok a => exact .pure a
  | error fault => exact .fail (h fault rfl) span

theorem steady_identifier : Steady 1 identifier := by
  refine .next (fun t => ?_) fun t s x s' ht hrun => ?_
  · split
    · exact .pure _
    · exact .fail (by simp) t.span
  · simp only [ht] at hrun
    exact not_runs_fail hrun

theorem steady_nameBefore (kind : Kind) : Steady 0 (nameBefore kind) :=
  (steady_checkAt 0 anyIdentifier).bind fun _ => .ite (steady_checkAt 1 kind) (.pure false)

theorem steady_atDeclaration : Steady 0 atDeclaration :=
  (steady_nameBefore _).bind fun _ => .ite (.pure true) (steady_nameBefore _)

theorem steady_atReturnEnd : Steady 0 atReturnEnd := by
  refine (steady_peekAt 0).bind fun t => ?_
  split
  all_goals exact .pure _

theorem steady_atom : Steady 1 atom := by
  refine .next (fun t => ?_) fun t s e s' ht hrun => ?_
  · split
    · exact .pure _
    · refine (steady_orFail t.span fun fault hfault => ?_).bind fun v => .pure _
      rcases ofKind_eq_error hfault with ⟨_, rfl⟩ | ⟨_, rfl⟩ | rfl <;> simp
  · simp only [ht] at hrun
    obtain ⟨v, s₁, hliteral, -⟩ := runs_bind.mp hrun
    exact not_runs_fail hliteral

theorem steady_selector (target : Expr) : Steady 1 (selector target) := by
  refine .next (fun t => ?_) fun t s e s' ht hrun => ?_
  · split
    · exact (steady_spanFrom _).bind fun _ => .pure _
    · refine (steady_orFail t.span fun fault hfault => ?_).bind fun n => ?_
      · rw [readOrdinal_eq_error hfault]
        simp
      · exact (steady_spanFrom _).bind fun _ => .pure _
    · exact .fail (by simp) t.span
  · simp only [ht] at hrun
    exact not_runs_fail hrun

/-! ## Progress of plans -/

/-- On streams that show `us`, following the plan takes at least `d` tokens if it succeeds. If it
fails, no bound was reached. -/
structure Consumes (us : List Scanned) (d : Nat) (p : Plan α) : Prop where
  ok : ∀ ⦃s a s'⦄, s.Shows us → p.Returns s (.ok a s') →
    ∃ ks us', d ≤ ks.length ∧ Took us ks us' ∧ s'.Shows us'
  error : ∀ ⦃s e s'⦄, s.Shows us → p.Returns s (.error e s') →
    e.fault ≠ .exhausted ∧ ∃ us', s'.Shows us'

/-- Besides, every call on the way is made with fewer than `k` reports to come, or it is a call of a
nonterminal below rank `r`. -/
structure Moves (k r : Nat) (us : List Scanned) (d : Nat) (p : Plan α) : Prop
    extends Consumes us d p where
  calls : ∀ ⦃γ : Type⦄ ⦃n : Nonterminal γ⦄ ⦃s s'⦄, s.Shows us → p.Calls s n s' →
    ∃ ks us', Took us ks us' ∧ s'.Shows us' ∧ (us'.length < k ∨ n.rank < r)

variable {p p' : Plan α} {m : ReadM α} {f : α → Plan β}

theorem Consumes.weaken (h : Consumes us d p) (hd : d' ≤ d) : Consumes us d' p where
  ok := by
    intro s a s' hs hreturns
    obtain ⟨ks, us', hlength, hrest⟩ := h.ok hs hreturns
    exact ⟨ks, us', by omega, hrest⟩
  error := h.error

/-- A step on the stream as a plan of its own. -/
theorem returns_liftM_ok {s s' : Stream} {a : α}
    (h : (liftM m : Plan α).Returns s (.ok a s')) : Runs m s a s' := by
  cases h with
  | read hrun hdone =>
    cases hdone
    exact hrun

namespace Moves

theorem weaken (h : Moves k r us d p) (hd : d' ≤ d) : Moves k r us d' p :=
  ⟨h.toConsumes.weaken hd, h.calls⟩

/-- A step on the stream calls nothing. -/
theorem lift (h : Steady d m) : Moves k r us d (liftM m : Plan α) where
  ok := fun _ _ _ hs hreturns => h.runs hs (returns_liftM_ok hreturns)
  error := by
    intro s e s' hs hreturns
    cases hreturns with
    | read _ hdone => cases hdone
    | readFails hfail => exact h.fails hs hfail
  calls := by
    intro γ n s s' hs hcall
    cases hcall with
    | afterRead _ hcall => cases hcall

theorem pure (a : α) : Moves k r us 0 (pure a : Plan α) where
  ok := by
    intro s b s' hs hreturns
    cases hreturns
    exact ⟨[], us, Nat.le_refl _, .refl us, hs⟩
  error := by
    intro s e s' hs hreturns
    cases hreturns
  calls := by
    intro γ n s s' hs hcall
    cases hcall

theorem ask {n : Nonterminal α} (h : Consumes us d n.plan) (hn : us.length < k ∨ n.rank < r) :
    Moves k r us d (Plan.ask n) where
  ok := by
    intro s a s' hs hreturns
    cases hreturns with
    | call hcall hdone =>
      cases hdone
      exact h.ok hs hcall
  error := by
    intro s e s' hs hreturns
    cases hreturns with
    | call _ hdone => cases hdone
    | callFails hcall => exact h.error hs hcall
  calls := by
    intro γ n' s s' hs hcall
    cases hcall with
    | here => exact ⟨[], us, .refl us, hs, hn⟩
    | afterCall _ hcall => cases hcall

/-- What is known about the result of the first plan, and about the reports it leaves, is known to
the second one. -/
theorem bindKnowing {P : α → List Scanned → Prop} (hp : Moves k r us 0 p)
    (hP : ∀ ⦃s a s'⦄, s.Shows us → p.Returns s (.ok a s') →
      ∃ ks us', Took us ks us' ∧ s'.Shows us' ∧ P a us')
    (hf : ∀ a ks us', Took us ks us' → P a us' →
      ∃ d', d ≤ ks.length + d' ∧ Moves k r us' d' (f a)) :
    Moves k r us d (p >>= f) where
  ok := by
    intro s b s' hs hreturns
    rcases hreturns.of_bind with ⟨a, s₁, hfirst, hsecond⟩ | ⟨_, _, _, hr⟩
    · obtain ⟨ks, us₁, htook, hs₁, hknown⟩ := hP hs hfirst
      obtain ⟨d', hd, hrest⟩ := hf a ks us₁ htook hknown
      obtain ⟨ls, us', hd', htook', hs'⟩ := hrest.ok hs₁ hsecond
      exact ⟨ks ++ ls, us', by rw [List.length_append]; omega, htook.append htook', hs'⟩
    · cases hr
  error := by
    intro s e s' hs hreturns
    rcases hreturns.of_bind with ⟨a, s₁, hfirst, hsecond⟩ | ⟨_, _, hfirst, hr⟩
    · obtain ⟨ks, us₁, htook, hs₁, hknown⟩ := hP hs hfirst
      obtain ⟨d', -, hrest⟩ := hf a ks us₁ htook hknown
      exact hrest.error hs₁ hsecond
    · cases hr
      exact hp.error hs hfirst
  calls := by
    intro γ n s s' hs hcall
    rcases hcall.of_bind with hcall | ⟨a, s₁, hfirst, hcall⟩
    · exact hp.calls hs hcall
    · obtain ⟨ks, us₁, htook, hs₁, hknown⟩ := hP hs hfirst
      obtain ⟨d', -, hrest⟩ := hf a ks us₁ htook hknown
      obtain ⟨ls, us', htook', hs', hallowed⟩ := hrest.calls hs₁ hcall
      exact ⟨ks ++ ls, us', htook.append htook', hs', hallowed⟩

theorem bind (hp : Moves k r us d p)
    (hf : ∀ a ks us', d ≤ ks.length → Took us ks us' → Moves k r us' 0 (f a)) :
    Moves k r us d (p >>= f) := by
  refine (hp.weaken (Nat.zero_le d)).bindKnowing (P := fun _ us' => us'.length + d ≤ us.length)
    (fun s a s' hs hreturns => ?_) fun a ks us' htook hknown => ?_
  · obtain ⟨ks, us', hd, htook, hs'⟩ := hp.ok hs hreturns
    have hlength := htook.length_eq
    exact ⟨ks, us', htook, hs', by omega⟩
  · have hlength := htook.length_eq
    exact ⟨0, by omega, hf a ks us' (by omega) htook⟩

theorem ite {c : Prop} [Decidable c] (h : Moves k r us d p) (h' : Moves k r us d p') :
    Moves k r us d (if c then p else p') := by
  split
  · exact h
  · exact h'

/-- A look leaves all reports where they are. -/
theorem look (hm : Steady 0 m) (hlooks : Looks m)
    (hf : ∀ a, Moves k r us d (f a)) : Moves k r us d (liftM m >>= f) := by
  refine (lift hm).bindKnowing (P := fun _ us' => us' = us) (fun s a s' hs hreturns => ?_)
    fun a ks us' _ hknown => ?_
  · exact ⟨[], us, .refl us, hlooks hs (returns_liftM_ok hreturns), rfl⟩
  · subst hknown
    exact ⟨d, Nat.le_add_left _ _, hf a⟩

theorem peek {f : Token → Plan β}
    (hf : ∀ t, upcoming? us 0 = some t.kind → Moves k r us d (f t)) :
    Moves k r us d (liftM peek >>= f) := by
  refine (lift (steady_peekAt 0)).bindKnowing
    (P := fun t us' => us' = us ∧ upcoming? us 0 = some t.kind) (fun s t s' hs hreturns => ?_)
    fun t ks us' _ hknown => ?_
  · obtain ⟨hs', hkind, -⟩ := runs_peekAt hs (returns_liftM_ok hreturns)
    exact ⟨[], us, .refl us, hs', rfl, hkind⟩
  · obtain ⟨rfl, hkind⟩ := hknown
    exact ⟨d, Nat.le_add_left _ _, hf t hkind⟩

theorem accept {kind : Kind} [Exact kind] {f : Bool → Plan β} (hd : d ≤ 1)
    (h : ∀ t rest, us = .token t :: rest → Moves k r rest 0 (f true))
    (h' : Moves k r us d (f false)) : Moves k r us d (liftM (accept kind) >>= f) := by
  refine (lift (steady_accept kind)).bindKnowing
    (P := fun b us' => b = true ∧ (∃ t, us = .token t :: us') ∨ b = false ∧ us' = us)
    (fun s b s' hs hreturns => ?_) fun b ks us' htook hknown => ?_
  · rcases runs_accept hs (returns_liftM_ok hreturns) with
      ⟨rfl, t, rest, rfl, -, hs'⟩ | ⟨rfl, hs', -⟩
    · exact ⟨[t.kind], rest, (Took.refl rest).cons t, hs', Or.inl ⟨rfl, t, rfl⟩⟩
    · exact ⟨[], us, .refl us, hs', Or.inr ⟨rfl, rfl⟩⟩
  · rcases hknown with ⟨rfl, t, hus⟩ | ⟨rfl, rfl⟩
    · have hlength := htook.length_eq
      rw [hus, List.length_cons] at hlength
      exact ⟨0, by omega, h t us' hus⟩
    · exact ⟨d, Nat.le_add_left _ _, h'⟩

end Moves

/-! ## Behind the first token -/

/-- The plan moves if fewer than `k` reports are to come. This is how plans go on behind their first
token: calls are free there. -/
def Follows (k r : Nat) (p : Plan α) : Prop :=
  ∀ us : List Scanned, us.length < k → Moves k r us 0 p

namespace Follows

theorem pure (a : α) : Follows k r (pure a : Plan α) := fun _ _ => .pure a

theorem fail {fault : ReadFault} (h : fault ≠ .exhausted) (span : Span) :
    Follows k r (liftM (fail fault span : ReadM α) : Plan α) :=
  fun _ _ => .lift (.fail h span)

theorem andThen (hp : Follows k r p) (hf : ∀ a, Follows k r (f a)) : Follows k r (p >>= f) := by
  intro us hus
  refine (hp us hus).bind fun a ks us' _ htook => hf a us' ?_
  have hlength := htook.length_eq
  omega

theorem step (hm : Steady d m) (hf : ∀ a, Follows k r (f a)) : Follows k r (liftM m >>= f) :=
  andThen (fun _ _ => (Moves.lift hm).weaken (Nat.zero_le d)) hf

theorem ite {c : Prop} [Decidable c] (h : Follows k r p) (h' : Follows k r p') :
    Follows k r (if c then p else p') :=
  fun us hus => .ite (h us hus) (h' us hus)

end Follows

namespace Moves

/-- The first plan takes a token. -/
theorem first (hp : Moves us.length r us 1 p) (hf : ∀ a, Follows us.length r (f a)) :
    Moves us.length r us 1 (p >>= f) := by
  refine hp.bind fun a ks us' hd htook => hf a us' ?_
  have hlength := htook.length_eq
  omega

/-- A token that was looked at and is not the end of the text can be taken. -/
theorem taken {f : Token → Plan β} {kind : Kind} (hkind : upcoming? us 0 = some kind)
    (hne : kind ≠ .eof) (hf : ∀ t, Follows us.length r (f t)) :
    Moves us.length r us 1 (liftM next >>= f) := by
  refine (lift steady_next).bindKnowing (P := fun _ us' => us'.length < us.length)
    (fun s t s' hs hreturns => ?_) fun t ks us' htook hknown => ?_
  · obtain ⟨-, ⟨rest, rfl, hs'⟩ | ⟨rfl, -, -⟩⟩ := runs_next hs (returns_liftM_ok hreturns)
    · exact ⟨[t.kind], rest, (Took.refl rest).cons t, hs', by simp⟩
    · exact absurd (Option.some.inj hkind).symm hne
  · have hlength := htook.length_eq
    exact ⟨0, by omega, hf t us' hknown⟩

/-- A token is taken, and nothing good comes of the end of the text. -/
theorem next {f : Token → Plan β} (hf : ∀ t, Follows us.length r (f t))
    (heof : ∀ t, t.kind = .eof → Moves us.length r [] 1 (f t)) :
    Moves us.length r us 1 (liftM next >>= f) := by
  refine (lift steady_next).bindKnowing
    (P := fun t us' => us'.length < us.length ∨ us' = [] ∧ t.kind = .eof)
    (fun s t s' hs hreturns => ?_) fun t ks us' htook hknown => ?_
  · obtain ⟨-, ⟨rest, rfl, hs'⟩ | ⟨rfl, ht, hs'⟩⟩ := runs_next hs (returns_liftM_ok hreturns)
    · exact ⟨[t.kind], rest, (Took.refl rest).cons t, hs', Or.inl (by simp)⟩
    · exact ⟨[], [], .refl _, hs', Or.inr ⟨rfl, ht⟩⟩
  · have hlength := htook.length_eq
    rcases hknown with hshort | ⟨rfl, ht⟩
    · exact ⟨0, by omega, hf t us' hshort⟩
    · exact ⟨1, Nat.le_add_left _ _, heof t ht⟩

/-- A choice by the next token. Behind the token calls are free. -/
theorem ifAccept {kind : Kind} [Exact kind] (hd : d ≤ 1) (h : Follows us.length r p)
    (h' : Moves us.length r us d p') :
    Moves us.length r us d (do if ← liftM (ReadM.accept kind) then p else p') := by
  refine .accept hd (fun t rest hus => h rest ?_) h'
  rw [hus, List.length_cons]
  omega

end Moves

/-! ## The plans, one by one -/

/-- What the plans take that may be called: all plans where fewer reports are to come, and on the
same reports those below rank `r`. -/
structure Known (us : List Scanned) (r : Nat) : Prop where
  behind : ∀ us' : List Scanned, us'.length < us.length →
    ∀ (γ : Type) (n : Nonterminal γ), Consumes us' n.takesToken.toNat n.plan
  below : ∀ (γ : Type) (n : Nonterminal γ), n.rank < r → Consumes us n.takesToken.toNat n.plan

section Plans

variable (h : Known us r)

include h

/-- A call behind the first token. -/
theorem Known.follows (n : Nonterminal α) : Follows us.length r (Plan.ask n) :=
  fun us' hus => .ask ((h.behind us' hus α n).weaken (Nat.zero_le _)) (Or.inl hus)

/-- A call before any token was taken. -/
theorem Known.moves {n : Nonterminal α} (hn : n.rank < r) :
    Moves us.length r us n.takesToken.toNat (Plan.ask n) :=
  .ask (h.below α n hn) (Or.inr hn)

theorem follows_optionalType : Follows us.length r Plan.optionalType := by
  refine .step (steady_accept _) fun annotated => .ite ?_ (.pure none)
  exact (h.follows .typeExpr).andThen fun t => .pure (some t)

theorem follows_arguments : Follows us.length r Plan.arguments :=
  (h.follows _).andThen fun _ => .step (steady_expect _) fun _ => .pure _

theorem follows_body : Follows us.length r Plan.body := by
  refine .step (steady_peekAt 0) fun start => .step (steady_accept _) fun arrow => .ite ?_ ?_
  · exact (h.follows _).andThen fun value => .step (steady_spanFrom _) fun _ => .pure _
  · refine .step (steady_accept _) fun block => .ite ?_ ?_
    · refine (h.follows .stmts).andThen fun stmts => .step (steady_expect _) fun _ => ?_
      exact .step (steady_spanFrom _) fun _ => .pure _
    · exact .step steady_next fun t => .fail (by simp) t.span

theorem follows_tupleFrom (start : Span) (first : Element) :
    Follows us.length r (Plan.tupleFrom start first) := by
  refine .step (steady_accept _) fun more => ?_
  split
  · refine (h.follows _).andThen fun others => .step (steady_expect _) fun _ => ?_
    exact .step (steady_spanFrom _) fun _ => .pure _
  · refine (Follows.pure []).andThen fun others => .step (steady_expect _) fun _ => ?_
    exact .step (steady_spanFrom _) fun _ => .pure _

theorem moves_typeExpr : Moves us.length r us 1 Nonterminal.typeExpr.plan := by
  refine .next (fun t => ?_) fun t ht => ?_
  · split
    · refine .step (steady_expect _) fun _ => (h.follows _).andThen fun params => ?_
      refine .step (steady_expect _) fun _ => .step (steady_expect _) fun _ => ?_
      exact (h.follows _).andThen fun result => .step (steady_spanFrom _) fun _ => .pure _
    · refine (h.follows _).andThen fun element => .step (steady_expect _) fun _ => ?_
      exact .step (steady_spanFrom _) fun _ => .pure _
    · refine (h.follows _).andThen fun key => .step (steady_expect _) fun _ => ?_
      refine (h.follows _).andThen fun value => .step (steady_expect _) fun _ => ?_
      exact .step (steady_spanFrom _) fun _ => .pure _
    · refine (h.follows _).andThen fun fields => .step (steady_expect _) fun _ => ?_
      exact .step (steady_spanFrom _) fun _ => .pure _
    · split
      · exact .step (steady_spanFrom _) fun _ => .pure _
      · exact .fail (by simp) t.span
  · simp only [ht]
    exact .lift (.fail (by simp) t.span)

theorem moves_conditional : Moves us.length r us 1 Nonterminal.conditional.plan := by
  refine (Moves.lift (steady_expect _)).first fun start => ?_
  refine (h.follows _).andThen fun p => .step (steady_expect _) fun _ => ?_
  refine (h.follows _).andThen fun t => .step (steady_expect _) fun _ => ?_
  refine (h.follows _).andThen fun e => .step (steady_expect _) fun _ => ?_
  exact .step (steady_spanFrom _) fun _ => .pure _

theorem moves_param : Moves us.length r us 1 Nonterminal.param.plan := by
  refine .peek fun start _ => (Moves.lift steady_identifier).first fun name => ?_
  exact (follows_optionalType h).andThen fun t => .step (steady_spanFrom _) fun _ => .pure _

theorem moves_function : Moves us.length r us 1 Nonterminal.function.plan := by
  refine (Moves.lift (steady_expect _)).first fun start => .step (steady_expect _) fun _ => ?_
  refine (h.follows _).andThen fun params => .step (steady_expect _) fun _ => ?_
  refine (follows_optionalType h).andThen fun result => (follows_body h).andThen fun b => ?_
  exact .step (steady_spanFrom _) fun _ => .pure _

theorem moves_bracketed (opening closing : Punct) (node : Span → List α → Expr)
    (list : Nonterminal (List α)) :
    Moves us.length r us 1 (Production.bracketed opening closing node (Plan.ask list)) := by
  refine (Moves.lift (steady_expect _)).first fun start => (h.follows _).andThen fun xs => ?_
  exact .step (steady_expect _) fun _ => .step (steady_spanFrom _) fun _ => .pure _

/-- The key is read before any token was taken. -/
theorem moves_entry (hr : 4 < r) : Moves us.length r us 1 Nonterminal.entry.plan := by
  refine (h.moves (n := .expr 0) hr).first fun key => .step (steady_expect _) fun _ => ?_
  exact (h.follows _).andThen fun value => .pure _

/-- A name is followed by its value. Without a name the value is read before any token was taken. -/
theorem moves_element (hr : 4 < r) : Moves us.length r us 1 Nonterminal.element.plan := by
  refine .peek fun start _ => .look (steady_nameBefore _) (looks_nameBefore _) fun named => ?_
  refine .ite ?_ ?_
  · refine (Moves.lift steady_identifier).first fun name => .step (steady_expect _) fun _ => ?_
    exact (h.follows _).andThen fun value => .step (steady_spanFrom _) fun _ => .pure _
  · refine (h.moves (n := .expr 0) hr).first fun value => ?_
    exact .step (steady_spanFrom _) fun _ => .pure _

theorem moves_parenthesized : Moves us.length r us 1 Nonterminal.parenthesized.plan := by
  refine (Moves.lift (steady_expect _)).first fun start => (h.follows _).andThen fun first => ?_
  split
  · exact follows_tupleFrom h start.span first
  · refine .step (steady_accept _) fun closed => .ite ?_ (follows_tupleFrom h start.span first)
    exact .step (steady_spanFrom _) fun _ => .pure _

theorem moves_primary (hr : 0 < r) : Moves us.length r us 1 Nonterminal.primary.plan := by
  refine .peek fun t _ => ?_
  split
  · exact h.moves (n := .conditional) hr
  · exact h.moves (n := .function) hr
  · exact h.moves (n := .array) hr
  · exact h.moves (n := .map) hr
  · exact h.moves (n := .parenthesized) hr
  · exact .lift steady_atom

theorem moves_suffixes (e : Expr) : Moves us.length r us 0 (Nonterminal.suffixes e).plan := by
  refine .ifAccept (Nat.zero_le 1) ?_ (.ifAccept (Nat.zero_le 1) ?_
    (.ifAccept (Nat.zero_le 1) ?_ (.pure e)))
  · refine (follows_arguments h).andThen fun args => ?_
    exact .step (steady_spanFrom _) fun span => h.follows _
  · refine (h.follows _).andThen fun i => .step (steady_expect _) fun _ => ?_
    exact .step (steady_spanFrom _) fun span => h.follows _
  · exact .step (steady_selector e) fun e' => h.follows _

theorem moves_operand (hr : 1 < r) : Moves us.length r us 1 Nonterminal.operand.plan :=
  (h.moves (n := .primary) hr).first fun _ => h.follows _

theorem moves_operators (least : Nat) (compared : Bool) (left : Expr) :
    Moves us.length r us 0 (Nonterminal.operators least compared left).plan := by
  refine .peek fun t ht => ?_
  split
  · exact .pure left
  · next op hop =>
    refine .ite (.pure left) ?_
    have hne := Operator.ne_eof_of_ofKind? hop
    refine (Moves.taken ht hne fun t' => .ite (.fail (by simp) _) ?_).weaken (Nat.zero_le 1)
    exact (h.follows _).andThen fun right => h.follows _

theorem moves_expr (least : Nat) (hr : 2 < r) : Moves us.length r us 1 (Nonterminal.expr least).plan :=
  (h.moves (n := .operand) hr).first fun _ => h.follows _

theorem moves_declaration : Moves us.length r us 1 Nonterminal.declaration.plan := by
  refine .peek fun start _ => (Moves.lift steady_identifier).first fun name => ?_
  refine (follows_optionalType h).andThen fun t => .step (steady_expect _) fun _ => ?_
  exact (h.follows _).andThen fun value => .step (steady_spanFrom _) fun _ => .pure _

theorem moves_header : Moves us.length r us 1 Nonterminal.header.plan := by
  refine .peek fun start _ => .ifAccept (Nat.le_refl 1) ?_ ?_
  · refine .step (steady_nameBefore _) fun named => ?_
    split
    on_goal 1 => refine .step steady_identifier fun name => .step (steady_expect _) fun _ => ?_
    all_goals
      refine (Follows.pure _).andThen fun x => (h.follows _).andThen fun first => ?_
      refine .step (steady_accept _) fun ranged => .ite ?_ ?_
      · exact (h.follows _).andThen fun last => .step (steady_spanFrom _) fun _ => .pure _
      · exact .step (steady_spanFrom _) fun _ => .pure _
  · refine (Moves.lift (steady_expect _)).first fun _ => ?_
    exact (h.follows _).andThen fun condition => .step (steady_spanFrom _) fun _ => .pure _

theorem moves_exprStmt (start : Span) (hr : 2 < r) :
    Moves us.length r us 1 (Plan.exprStmt start) := by
  refine (h.moves (n := .operand) hr).first fun target => ?_
  refine .step (steady_accept _) fun assigned => .ite ?_ ?_
  · exact (h.follows _).andThen fun value => .step (steady_spanFrom _) fun _ => .pure _
  · split
    · exact .step (steady_spanFrom _) fun _ => .pure _
    · exact .fail (by simp) _

theorem moves_plainStmt (hr : 2 < r) : Moves us.length r us 1 Plan.plainStmt := by
  refine .peek fun t ht => ?_
  generalize t.kind = kind at ht
  split
  · refine .taken ht (by simp) fun _ => .step steady_atReturnEnd fun ended => .ite ?_ ?_
    · exact .step (steady_spanFrom _) fun _ => .pure _
    · exact (h.follows _).andThen fun value => .step (steady_spanFrom _) fun _ => .pure _
  · exact .taken ht (by simp) fun _ => .step (steady_spanFrom _) fun _ => .pure _
  · refine .taken ht (by simp) fun _ => .step (steady_expect _) fun _ => ?_
    exact (follows_arguments h).andThen fun args => .step (steady_spanFrom _) fun _ => .pure _
  · refine .taken ht (by simp) fun _ => (h.follows _).andThen fun condition => ?_
    refine .step (steady_expect _) fun _ => (h.follows .stmts).andThen fun thenBranch => ?_
    refine .step (steady_accept _) fun branched => .ite ?_ ?_
    · refine (h.follows .stmts).andThen fun elseBranch => .step (steady_expect _) fun _ => ?_
      exact .step (steady_spanFrom _) fun _ => .pure _
    · exact .step (steady_expect _) fun _ => .step (steady_spanFrom _) fun _ => .pure _
  iterate 2
    · refine (h.moves (n := .header) (Nat.zero_lt_of_lt hr)).first fun hd => ?_
      refine .step (steady_expect _) fun _ => (h.follows .stmts).andThen fun stmts => ?_
      exact .step (steady_expect _) fun _ => .step (steady_spanFrom _) fun _ => .pure _
  · exact moves_exprStmt h t.span hr

theorem moves_stmt (hr : 2 < r) : Moves us.length r us 1 Nonterminal.stmt.plan := by
  refine .look steady_atDeclaration looks_atDeclaration fun declares => ?_
  refine .ite ?_ (moves_plainStmt h hr)
  exact (h.moves (n := .declaration) (Nat.zero_lt_of_lt hr)).first fun d => .pure _

theorem moves_stmts (hr : 3 < r) : Moves us.length r us 0 Nonterminal.stmts.plan := by
  refine .peek fun t _ => ?_
  split
  iterate 3 exact .pure []
  refine ((h.moves (n := .stmt) hr).first fun st =>
    .step (steady_accept _) fun _ => ?_).weaken (Nat.zero_le 1)
  exact (h.follows .stmts).andThen fun rest => .pure _

theorem moves_declarations (hr : 0 < r) : Moves us.length r us 0 Nonterminal.declarations.plan := by
  refine .peek fun t _ => ?_
  split
  · exact .pure []
  · refine ((h.moves (n := .declaration) hr).first fun d =>
      .step (steady_accept _) fun _ => ?_).weaken (Nat.zero_le 1)
    exact (h.follows .declarations).andThen fun rest => .pure _

theorem moves_program (hr : 1 < r) : Moves us.length r us 0 Nonterminal.program.plan := by
  refine .peek fun start _ => (h.moves (n := .declarations) hr).bind fun ds _ us' _ _ => ?_
  exact .peek fun stop _ => .pure _

/-- A round of a list calls the reader of an item, and goes around again only behind a comma. -/
theorem moves_items (close : Kind) (item : Item α) (hr : item.nonterminal.rank < r) :
    Moves us.length r us 0 (Nonterminal.items close item).plan := by
  refine .look (steady_checkAt 0 close) (looks_checkAt 0 close) fun closed => .ite (.pure []) ?_
  refine ((h.moves hr).weaken (Nat.zero_le _)).bind fun x ks us' _ htook => ?_
  refine .accept (Nat.zero_le 1) (fun t rest hrest => ?_) (.pure [x])
  have hlength := htook.length_eq
  rw [hrest, List.length_cons] at hlength
  have hagain : Follows us.length r (do return x :: (← Plan.ask (.items close item))) :=
    (h.follows _).andThen fun xs => .pure (x :: xs)
  exact hagain rest (by omega)

end Plans

/-- Every plan moves if the plans it calls do. -/
theorem moves_of_known (n : Nonterminal α) (h : Known us n.rank) :
    Moves us.length n.rank us n.takesToken.toNat n.plan := by
  cases n with
  | program => exact moves_program h (Nat.lt_succ_self 1)
  | declarations => exact moves_declarations h Nat.one_pos
  | declaration => exact moves_declaration h
  | typeExpr => exact moves_typeExpr h
  | stmts => exact moves_stmts h (Nat.lt_succ_self 3)
  | stmt => exact moves_stmt h (Nat.lt_succ_self 2)
  | header => exact moves_header h
  | expr least => exact moves_expr h least (show 2 < 4 by decide)
  | operators least compared left => exact moves_operators h least compared left
  | operand => exact moves_operand h (Nat.lt_succ_self 1)
  | suffixes e => exact moves_suffixes h e
  | primary => exact moves_primary h Nat.one_pos
  | conditional => exact moves_conditional h
  | function => exact moves_function h
  | array => exact moves_bracketed h _ _ _ _
  | map => exact moves_bracketed h _ _ _ _
  | parenthesized => exact moves_parenthesized h
  | param => exact moves_param h
  | entry => exact moves_entry h (Nat.lt_succ_self 4)
  | element => exact moves_element h (Nat.lt_succ_self 4)
  | items close item => exact moves_items h close item item.rank_lt

/-- Every plan moves, by induction on the number of reports to come and on the rank. -/
theorem moves_plan {γ : Type} (us : List Scanned) (n : Nonterminal γ) :
    Moves us.length n.rank us n.takesToken.toNat n.plan :=
  moves_of_known n
    ⟨fun us' _ _ n' => (moves_plan us' n').toConsumes, fun _ n' _ => (moves_plan us n').toConsumes⟩
termination_by (us.length, n.rank)
decreasing_by
  · exact Prod.Lex.left _ _ (by assumption)
  · exact Prod.Lex.right _ (by assumption)

/-! ## Readers that count -/

theorem callee_eq {l : Level} {n : Nonterminal α} (hn : n.rank ≠ 4) :
    n.callee l = n.reader l l.rounds := by
  cases n with
  | expr _ | typeExpr | stmts => exact absurd rfl hn
  | _ => rfl

theorem callee_level_succ {n : Nonterminal α} (hn : n.rank = 4) (m : Nat) :
    n.callee (level (m + 1)) = n.reader (level m) (level m).rounds := by
  cases n with
  | expr _ | typeExpr | stmts => rfl
  | _ => cases hn

/-- A reader comes to the result of its plan if it has a level inside of it for each report, one
more if it calls the readers of the level before it takes a token, and more rounds than reports. The
calls on the way have enough of both: a level is entered only behind a token or by the readers that
have one more, and a round is over only behind a token. -/
theorem returns_reader {γ : Type} (us : List Scanned) (n : Nonterminal γ) {s : Stream}
    {m rounds : Nat} (hs : s.Shows us) (hm : us.length ≤ m) (hmore : 4 < n.rank → us.length < m)
    (hrounds : us.length < rounds) : n.plan.Returns s ((n.reader (level m) rounds).run s) := by
  obtain ⟨rounds, rfl⟩ := Nat.exists_eq_add_one_of_ne_zero (by omega : rounds ≠ 0)
  rw [reader_eq]
  refine Plan.returns_run _ fun β n' s' hcall => ?_
  obtain ⟨ks, us', htook, hs', hallowed⟩ := (moves_plan us n).calls hs hcall
  have hlength := htook.length_eq
  unfold Nonterminal.calleeOf
  split
  · next hagain =>
    -- Another round has the same rank, so that a token was taken, and the round is paid for.
    have hsame := hagain.rank_eq
    exact returns_reader us' n' hs' (by omega) (by omega) (by omega)
  · by_cases hn' : n'.rank = 4
    · -- The readers of the level have one level less inside of them.
      obtain ⟨m, rfl⟩ := Nat.exists_eq_add_one_of_ne_zero (by omega : m ≠ 0)
      rw [callee_level_succ hn', level_rounds]
      exact returns_reader us' n' hs' (by omega) (by omega) (by omega)
    · rw [callee_eq hn', level_rounds]
      exact returns_reader us' n' hs' (by omega) (by omega) (by omega)
termination_by (us.length, n.rank)
decreasing_by
  all_goals
    rw [Prod.lex_def]
    dsimp only
    omega

section Runs

variable {s : Stream}

/-- Reading begins by setting the bounds. -/
theorem run_outermost_bind (f : Level → ReadM β) (s : Stream) :
    (outermost >>= f).run s = (f (level (s.remaining + 1))).run s := by
  have hget : Runs get s s s := runs_get.mpr ⟨rfl, rfl⟩
  rw [outermost, bind_assoc, run_bind_of_runs hget, pure_bind]

theorem returns_programRead (hs : s.Shows us) :
    Nonterminal.program.plan.Returns s (Program.read.run s) := by
  have hlength := Expr.length_le_remaining hs
  rw [Program.read, run_outermost_bind]
  exact returns_reader us .program hs (by omega) (fun _ => by omega) (Nat.lt_succ_self us.length)

theorem returns_exprRead (hs : s.Shows us) :
    (Nonterminal.expr 0).plan.Returns s (Expr.read.run s) := by
  have hlength := Expr.length_le_remaining hs
  rw [Expr.read, run_outermost_bind]
  exact returns_reader us (.expr 0) hs hlength (fun hrank => absurd hrank (Nat.lt_irrefl 4))
    (Nat.lt_succ_self us.length)

end Runs

/-- Wherever a stream stands, after whatever calls, the unbounded descent of every nonterminal comes
to exactly one result. If it succeeds, it has taken some tokens off the text, at least one for all
nonterminals but programs and what is left of lists, and the end of the text is not among them. If
it fails, no bound is the reason. Every call that it makes itself is made after a token was taken or
leads to a lower rank, and if it is the next round of a loop, a token was taken.

The readers that count make the same steps and calls, and with bounds that allow for the rest of the
text they come to the same result. In particular, programs and expressions are read to a result. -/
theorem recursive_descent_ends :
    (∀ text calls, ∃ us, (History.ofCalls text calls).stream.Shows us) ∧
    (∀ (α : Type) (n : Nonterminal α) (l : Level) (rounds : Nat),
      n.reader l (rounds + 1) = n.plan.run (n.calleeOf l rounds)) ∧
    ∀ (s : Stream) (us : List Scanned), s.Shows us →
      (∀ (α : Type) (n : Nonterminal α),
        (∃ result, n.plan.Returns s result ∧
          (∀ other, n.plan.Returns s other → other = result) ∧
          ∀ m rounds, s.remaining < m → s.remaining < rounds →
            (n.reader (level m) rounds).run s = result) ∧
        (∀ a s', n.plan.Returns s (.ok a s') → ∃ ks us', Took us ks us' ∧ s'.Shows us' ∧
          .eof ∉ ks ∧ (n.takesToken = true → ks ≠ [])) ∧
        (∀ e s', n.plan.Returns s (.error e s') → e.fault ≠ .exhausted ∧ ∃ us', s'.Shows us') ∧
        ∀ (β : Type) (n' : Nonterminal β) (s' : Stream), n.plan.Calls s n' s' →
          ∃ ks us', Took us ks us' ∧ s'.Shows us' ∧ .eof ∉ ks ∧
            (ks = [] → n'.rank < n.rank) ∧ (n.Continues n' → ks ≠ [])) ∧
      Nonterminal.program.plan.Returns s (Program.read.run s) ∧
      (Nonterminal.expr 0).plan.Returns s (Expr.read.run s) := by
  refine ⟨History.exists_shows_ofCalls, fun α n l rounds => reader_eq l rounds n,
    fun s us hs => ⟨fun α n => ⟨?_, ?_, ?_, ?_⟩, returns_programRead hs, returns_exprRead hs⟩⟩
  · have hlength := Expr.length_le_remaining hs
    have hreturns : ∀ m rounds, s.remaining < m → s.remaining < rounds →
        n.plan.Returns s ((n.reader (level m) rounds).run s) := fun m rounds hm hrounds =>
      returns_reader us n hs (by omega) (fun _ => by omega) (by omega)
    have hresult := hreturns _ _ (Nat.lt_succ_self _) (Nat.lt_succ_self _)
    exact ⟨_, hresult, fun other hother => hother.unique hresult,
      fun m rounds hm hrounds => (hreturns m rounds hm hrounds).unique hresult⟩
  · intro a s' hresult
    obtain ⟨ks, us', hd, htook, hs'⟩ := (moves_plan us n).ok hs hresult
    refine ⟨ks, us', htook, hs', htook.eof_notMem hs, ?_⟩
    rintro htakes rfl
    simp [htakes] at hd
  · exact fun e s' hresult => (moves_plan us n).error hs hresult
  · intro β n' s' hcall
    obtain ⟨ks, us', htook, hs', hallowed⟩ := (moves_plan us n).calls hs hcall
    have hrank : ks = [] → n'.rank < n.rank := by
      rintro rfl
      obtain rfl := htook.of_nil
      exact hallowed.resolve_left (Nat.lt_irrefl _)
    refine ⟨ks, us', htook, hs', htook.eof_notMem hs, hrank, fun hagain hnil => ?_⟩
    have hlower := hrank hnil
    rw [hagain.rank_eq] at hlower
    exact Nat.lt_irrefl _ hlower

/-- What a reader fails with, if it fails. -/
def failure? (m : ReadM α) (s : Stream) : Option ReadError :=
  match m.run s with
  | .ok _ _ => none
  | .error e _ => some e

theorem fails_of_failure? {s : Stream} {e : ReadError} (h : failure? m s = some e) :
    ∃ s', Fails m s e s' := by
  unfold failure? at h
  split at h
  · cases h
  · next s' hrun => exact ⟨s', Option.some.inj h ▸ hrun⟩

theorem runs_of_failure? {s : Stream} (h : failure? m s = none) : ∃ a s', Runs m s a s' := by
  unfold failure? at h
  split at h
  · next a s' hrun => exact ⟨a, s', hrun⟩
  · cases h

/-- A text that is cut off inside of a list is refused where it ends. With the list closed it is a
declaration, and tokens are taken. -/
theorem recursive_descent_ends_cutOff :
    (∃ s', Nonterminal.program.plan.Returns (Stream.ofText "x is [1,".toList)
      (.error ⟨.expectedExpression .eof, ⟨8, 8, ⟨1, 9⟩⟩⟩ s')) ∧
    ∃ d s' ks us', Nonterminal.declaration.plan.Returns (Stream.ofText "x is [1,]".toList)
      (.ok d s') ∧ Took (Lexer.scan "x is [1,]".toList) ks us' ∧ ks ≠ [] := by
  have hcut := recursive_descent_ends.2.2 _ _ (shows_ofText "x is [1,".toList)
  have hclosed := recursive_descent_ends.2.2 _ _ (shows_ofText "x is [1,]".toList)
  constructor
  · have hfailure : failure? Program.read (Stream.ofText "x is [1,".toList) =
        some ⟨.expectedExpression .eof, ⟨8, 8, ⟨1, 9⟩⟩⟩ := by decide +kernel
    obtain ⟨s', hfail⟩ := fails_of_failure? hfailure
    exact ⟨s', hfail ▸ hcut.2.1⟩
  · have hnone : failure? (Nonterminal.declaration.reader (level 7) 7)
        (Stream.ofText "x is [1,]".toList) = none := by decide +kernel
    obtain ⟨d, s', hrun⟩ := runs_of_failure? hnone
    obtain ⟨⟨result, hresult, -, hcount⟩, htakes, -⟩ := hclosed.1 _ .declaration
    rw [← hcount 7 7 (by decide +kernel) (by decide +kernel), hrun] at hresult
    obtain ⟨ks, us', htook, -, -, hne⟩ := htakes d s' hresult
    exact ⟨d, s', ks, us', hresult, htook, hne rfl⟩

end Grammar

end ExprCheck
