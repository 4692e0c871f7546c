import Mathlib
import ExprCheck.Proofs.Rereading
import ExprCheck.Proofs.RoundTrip

/-!
# Looking ahead

A stream lets its user look at tokens before they are taken, any number of them, and reports junk to
whoever comes upon it first. Behind its buffer there is a scanner that is only ever asked for one
more result. Whatever calls are made in whatever order, the tokens that were taken and the tokens in
the buffer are together the tokens among the results drawn from the scanner so far, and the errors
that calls came back with are the errors among them: nothing is lost, repeated or reordered.

A call may fail after it has drawn some tokens. These wait in the buffer, so that the next call finds
them there; this is why the account (`Stream.Draws`) is kept for failing calls as well.
-/

namespace ExprCheck

/-! ## Replies -/

/-- What the scanner gives for a report. -/
def Scanned.reply : Scanned → Except ReadError Token
  | .token t => .ok t
  | .junk text span => .error ⟨.junk text, span⟩

/-- The tokens among some replies. -/
def tokensIn (replies : List (Except ReadError Token)) : List Token :=
  replies.filterMap Except.toOption

/-- The errors among some replies. -/
def errorsIn (replies : List (Except ReadError Token)) : List ReadError :=
  replies.filterMap fun
    | .ok _ => none
    | .error e => some e

@[simp] theorem tokensIn_append (rs rs' : List (Except ReadError Token)) :
    tokensIn (rs ++ rs') = tokensIn rs ++ tokensIn rs' := List.filterMap_append

@[simp] theorem errorsIn_append (rs rs' : List (Except ReadError Token)) :
    errorsIn (rs ++ rs') = errorsIn rs ++ errorsIn rs' := List.filterMap_append

namespace ReadM

variable {α β : Type} {s s' : Stream} {e : ReadError}

/-- What a step comes back with. -/
def reply (m : ReadM α) (s : Stream) : Except ReadError α :=
  match m.run s with
  | .ok a _ => .ok a
  | .error e _ => .error e

/-- The stream that a step leaves behind, whether it succeeds or fails. -/
def leaves (m : ReadM α) (s : Stream) : Stream :=
  match m.run s with
  | .ok _ s' => s'
  | .error _ s' => s'

/-- What a step comes back with each time if it is made `n` times in a row, also after failures. -/
def replies (m : ReadM α) : Nat → Stream → List (Except ReadError α)
  | 0, _ => []
  | n + 1, s => m.reply s :: m.replies n (m.leaves s)

section Outcomes

variable {m : ReadM α} {f : α → ReadM β} {a : α}

theorem Runs.reply (h : Runs m s a s') : m.reply s = .ok a := by
  unfold ReadM.reply
  rw [show m.run s = .ok a s' from h]

theorem Runs.leaves (h : Runs m s a s') : m.leaves s = s' := by
  unfold ReadM.leaves
  rw [show m.run s = .ok a s' from h]

theorem Fails.reply (h : Fails m s e s') : m.reply s = .error e := by
  unfold ReadM.reply
  rw [show m.run s = .error e s' from h]

theorem Fails.leaves (h : Fails m s e s') : m.leaves s = s' := by
  unfold ReadM.leaves
  rw [show m.run s = .error e s' from h]

theorem runs_of_reply (h : m.reply s = .ok a) : Runs m s a (m.leaves s) := by
  rcases runs_or_fails m s with ⟨b, s', hrun⟩ | ⟨e, s', hfail⟩
  · rw [hrun.reply] at h
    cases h
    rw [hrun.leaves]
    exact hrun
  · rw [hfail.reply] at h
    cases h

theorem Runs.reply_bind (h : Runs m s a s') : (m >>= f).reply s = (f a).reply s' := by
  unfold ReadM.reply
  rw [EStateM.run_bind, show m.run s = .ok a s' from h]

theorem Runs.leaves_bind (h : Runs m s a s') : (m >>= f).leaves s = (f a).leaves s' := by
  unfold ReadM.leaves
  rw [EStateM.run_bind, show m.run s = .ok a s' from h]

end Outcomes

/-- The scanner always moves one report on, if there is one. -/
theorem leaves_scanNext (s : Stream) : scanNext.leaves s = { s with pending := s.pending.tail } := by
  obtain ⟨buffer, pending, eof, last⟩ := s
  cases pending with
  | nil => rfl
  | cons u rest => cases u <;> rfl

theorem reply_scanNext (s : Stream) :
    scanNext.reply s = (s.pending.head?.map Scanned.reply).getD (.ok s.eof) := by
  obtain ⟨buffer, pending, eof, last⟩ := s
  cases pending with
  | nil => rfl
  | cons u rest => cases u <;> rfl

theorem Runs.eq_of_scanNext {t : Token} (h : Runs scanNext s t s') :
    s' = { s with pending := s.pending.tail } := by
  rw [← h.leaves, leaves_scanNext]

theorem Fails.eq_of_scanNext (h : Fails scanNext s e s') :
    s' = { s with pending := s.pending.tail } := by
  rw [← h.leaves, leaves_scanNext]

/-- What the scanner gives depends on what is pending and on nothing else. -/
theorem replies_scanNext_congr (n : Nat) (hp : s'.pending = s.pending) (he : s'.eof = s.eof) :
    scanNext.replies n s' = scanNext.replies n s := by
  induction n generalizing s s' with
  | zero => rfl
  | succ n ih =>
    rw [replies, replies, reply_scanNext, reply_scanNext, hp, he]
    congr 1
    refine ih ?_ ?_
    · rw [leaves_scanNext, leaves_scanNext, hp]
    · rw [leaves_scanNext, leaves_scanNext, he]

theorem replies_scanNext_add (m n : Nat) (s : Stream) :
    scanNext.replies (m + n) s =
      scanNext.replies m s ++ scanNext.replies n { s with pending := s.pending.drop m } := by
  induction m generalizing s with
  | zero =>
    rw [Nat.zero_add]
    rfl
  | succ m ih =>
    rw [Nat.succ_add, replies, ih, leaves_scanNext, replies, leaves_scanNext, List.drop_tail]
    rfl

end ReadM

open ReadM

/-! ## The account of a step -/

/-- Between the streams, `n` results are drawn from the scanner. The tokens among them go to the end
of the buffer, and the tokens `taken` leave the buffer at its front. The errors among them are the
`faults`. -/
structure Stream.Draws (s : Stream) (n : Nat) (taken : List Token) (faults : List ReadError)
    (s' : Stream) : Prop where
  pending : s'.pending = s.pending.drop n
  eof : s'.eof = s.eof
  tokens : taken ++ s'.buffer = s.buffer ++ tokensIn (scanNext.replies n s)
  faults : faults = errorsIn (scanNext.replies n s)

namespace Stream

variable {s s₁ s' : Stream} {taken taken' : List Token} {faults faults' : List ReadError}

theorem Draws.none (hb : taken ++ s'.buffer = s.buffer) (hp : s'.pending = s.pending)
    (he : s'.eof = s.eof) : s.Draws 0 taken [] s' :=
  ⟨hp, he, by rw [hb]; exact (List.append_nil _).symm, rfl⟩

theorem Draws.trans {m n : Nat} (h : s.Draws m taken faults s₁) (h' : s₁.Draws n taken' faults' s') :
    s.Draws (m + n) (taken ++ taken') (faults ++ faults') s' := by
  have hlater : scanNext.replies n s₁ =
      scanNext.replies n { s with pending := s.pending.drop m } :=
    replies_scanNext_congr n h.pending h.eof
  refine ⟨?_, h'.eof.trans h.eof, ?_, ?_⟩
  · rw [h'.pending, h.pending, List.drop_drop]
  · rw [replies_scanNext_add, ← hlater, tokensIn_append, List.append_assoc, h'.tokens,
      ← List.append_assoc, h.tokens, List.append_assoc]
  · rw [replies_scanNext_add, ← hlater, errorsIn_append, h.faults, h'.faults]

/-- A token that is drawn and put into the buffer. -/
theorem draws_token {t : Token} (h : Runs scanNext s t s₁)
    (hb : taken ++ s'.buffer = s₁.buffer ++ [t]) (hp : s'.pending = s₁.pending)
    (he : s'.eof = s₁.eof) : s.Draws 1 taken [] s' := by
  have hreplies : scanNext.replies 1 s = [.ok t] := by
    rw [replies, h.reply]
    rfl
  obtain rfl := h.eq_of_scanNext
  exact ⟨by rw [hp, List.drop_one], he, by rw [hb, hreplies]; rfl, by rw [hreplies]; rfl⟩

theorem draws_error {e : ReadError} (h : Fails scanNext s e s') : s.Draws 1 [] [e] s' := by
  have hreplies : scanNext.replies 1 s = [.error e] := by
    rw [replies, h.reply]
    rfl
  obtain rfl := h.eq_of_scanNext
  exact ⟨by rw [List.drop_one], rfl, by rw [hreplies]; exact (List.append_nil _).symm,
    by rw [hreplies]; rfl⟩

end Stream

namespace ReadM

variable {α β : Type}

/-- The error of a reply, if it is about junk. -/
def junkIn : Except ReadError α → List ReadError
  | .ok _ => []
  | .error e => if e.fault.isLexical then [e] else []

/-- Wherever the step starts, it takes these tokens, and it reports what junk it draws. -/
def Accounts (m : ReadM α) (taken : Stream → List Token) : Prop :=
  ∀ s : Stream, ∃ n, s.Draws n (taken s) (junkIn (m.reply s)) (m.leaves s)

theorem accounts_pure (a : α) : Accounts (pure a) fun _ => [] :=
  fun _ => ⟨0, .none rfl rfl rfl⟩

theorem accounts_get : Accounts get fun _ => [] :=
  fun _ => ⟨0, .none rfl rfl rfl⟩

theorem accounts_fail {fault : ReadFault} (hfault : fault.isLexical = false) (span : Span) :
    Accounts (fail fault span : ReadM α) fun _ => [] := by
  intro s
  have hjunk : junkIn ((fail fault span : ReadM α).reply s) = [] := by
    rw [(fails_fail.mpr ⟨rfl, rfl⟩).reply, junkIn, hfault]
    rfl
  rw [hjunk, (fails_fail.mpr ⟨rfl, rfl⟩).leaves]
  exact ⟨0, .none rfl rfl rfl⟩

/-- One step after the other: the second one takes its tokens where the first one has left the
stream, if it gets there. -/
theorem Accounts.bind {m : ReadM α} {f : α → ReadM β} {taken : Stream → List Token}
    {taken' : α → Stream → List Token} (hm : Accounts m taken) (hf : ∀ a, Accounts (f a) (taken' a)) :
    Accounts (m >>= f) fun s => taken s ++
      match m.reply s with
      | .ok a => taken' a (m.leaves s)
      | .error _ => [] := by
  intro s
  obtain ⟨n, hdraws⟩ := hm s
  rcases runs_or_fails m s with ⟨a, s₁, hrun⟩ | ⟨e, s₁, hfail⟩
  · rw [hrun.reply, hrun.leaves] at hdraws
    obtain ⟨n', hdraws'⟩ := hf a s₁
    refine ⟨n + n', ?_⟩
    simp only [hrun.reply, hrun.leaves, hrun.reply_bind, hrun.leaves_bind]
    exact hdraws.trans hdraws'
  · have hbind : Fails (m >>= f) s e s₁ := fails_bind.mpr (Or.inl hfail)
    rw [hfail.reply, hfail.leaves] at hdraws
    refine ⟨n, ?_⟩
    simp only [hfail.reply, hbind.reply, hbind.leaves, List.append_nil]
    exact hdraws

theorem Accounts.congr {m : ReadM α} {taken taken' : Stream → List Token} (h : Accounts m taken)
    (htaken : ∀ s, taken' s = taken s) : Accounts m taken' := by
  intro s
  rw [htaken]
  exact h s

/-- A step that takes nothing, followed by others that take nothing. -/
theorem Accounts.bindNone {m : ReadM α} {f : α → ReadM β} (hm : Accounts m fun _ => [])
    (hf : ∀ a, Accounts (f a) fun _ => []) : Accounts (m >>= f) fun _ => [] := by
  refine (hm.bind hf).congr fun s => ?_
  cases m.reply s <;> rfl

theorem Accounts.map (g : α → β) {m : ReadM α} {taken : Stream → List Token}
    (h : Accounts m taken) : Accounts (g <$> m) taken := by
  rw [map_eq_pure_bind]
  refine (h.bind fun a => accounts_pure (g a)).congr fun s => ?_
  cases m.reply s <;> exact (List.append_nil _).symm

theorem isLexical_of_fails_scanNext {s s' : Stream} {e : ReadError} (h : Fails scanNext s e s') :
    e.fault.isLexical = true := by
  obtain ⟨text, span, rest, -, rfl⟩ := fails_scanNext h
  rfl

theorem junkIn_of_fails {m : ReadM α} {s s' : Stream} {e : ReadError} (h : Fails m s e s')
    (he : e.fault.isLexical = true) : junkIn (m.reply s) = [e] := by
  rw [h.reply, junkIn, he]
  rfl

theorem accounts_fill (n : Nat) : Accounts (fill n) fun _ => [] := by
  induction n with
  | zero => exact accounts_pure ()
  | succ n ih =>
    intro s
    rcases runs_or_fails scanNext s with ⟨t, s₁, hscan⟩ | ⟨e, s₁, hscan⟩
    · have hdraw : s.Draws 1 [] [] { s₁ with buffer := s₁.buffer ++ [t] } :=
        Stream.draws_token hscan rfl rfl rfl
      obtain ⟨k, hfill⟩ := ih { s₁ with buffer := s₁.buffer ++ [t] }
      have hpush : Runs (modify fun s => { s with buffer := s.buffer ++ [t] }) s₁ ⟨⟩
          { s₁ with buffer := s₁.buffer ++ [t] } := runs_modify.mpr rfl
      have hreply : (fill (n + 1)).reply s = (fill n).reply { s₁ with buffer := s₁.buffer ++ [t] } :=
        hscan.reply_bind.trans hpush.reply_bind
      have hleaves : (fill (n + 1)).leaves s =
          (fill n).leaves { s₁ with buffer := s₁.buffer ++ [t] } :=
        hscan.leaves_bind.trans hpush.leaves_bind
      rw [hreply, hleaves]
      exact ⟨1 + k, hdraw.trans hfill⟩
    · have hfail : Fails (fill (n + 1)) s e s₁ := fails_bind.mpr (Or.inl hscan)
      rw [junkIn_of_fails hfail (isLexical_of_fails_scanNext hscan), hfail.leaves]
      exact ⟨1, Stream.draws_error hscan⟩

theorem accounts_peekAt (n : Nat) : Accounts (peekAt n) fun _ => [] :=
  accounts_get.bindNone fun _ => (accounts_fill _).bindNone fun _ =>
    accounts_get.bindNone fun s' => accounts_pure (s'.buffer.getD n s'.eof)

theorem accounts_checkAt (n : Nat) (k : Kind) : Accounts (checkAt n k) fun _ => [] :=
  (accounts_peekAt n).bindNone fun _ => accounts_pure _

theorem fails_next {s s' : Stream} {e : ReadError} (hb : s.buffer = []) (h : Fails scanNext s e s') :
    Fails next s e s' := by
  unfold next
  rw [fails_get_bind, hb]
  exact fails_bind.mpr (Or.inl h)

theorem accounts_next : Accounts next fun s => tokensIn [next.reply s] := by
  intro s
  cases hb : s.buffer with
  | cons t rest =>
    have hrun : Runs next s t { s with buffer := rest, last := t.span } :=
      runs_next_iff.mpr (Or.inl ⟨rest, hb, rfl⟩)
    simp only [hrun.reply, hrun.leaves]
    exact ⟨0, .none hb.symm rfl rfl⟩
  | nil =>
    rcases runs_or_fails scanNext s with ⟨t, s₁, hscan⟩ | ⟨e, s₁, hscan⟩
    · have hrun : Runs next s t { s₁ with last := t.span } :=
        runs_next_iff.mpr (Or.inr ⟨hb, s₁, hscan, rfl⟩)
      have hb₁ : s₁.buffer = [] := by rw [hscan.eq_of_scanNext, hb]
      simp only [hrun.reply, hrun.leaves]
      refine ⟨1, Stream.draws_token hscan ?_ rfl rfl⟩
      rw [hb₁]
      rfl
    · have hfail := fails_next hb hscan
      rw [junkIn_of_fails hfail (isLexical_of_fails_scanNext hscan), hfail.leaves]
      simp only [hfail.reply]
      exact ⟨1, Stream.draws_error hscan⟩

end ReadM

/-! ## Calls -/

/-- A call of a stream. -/
inductive Call where
  /-- Take the next token. -/
  | next
  /-- Look at the next token. -/
  | peek
  /-- Look at the token that is `n` tokens away. -/
  | peekAt (n : Nat)
  /-- Ask for the kind of the next token. -/
  | check (k : Kind)
  /-- Ask for the kind of the token behind the next one. -/
  | checkSecond (k : Kind)
  /-- Take the next token if it is of the right kind. -/
  | accept (k : Kind)
  /-- Take the next token, which must be of the right kind. -/
  | expect (k : Kind)
deriving DecidableEq

namespace Call

/-- What a call comes back with if it succeeds. -/
inductive Answer where
  | token (t : Token)
  | flag (b : Bool)
deriving DecidableEq

/-- What a call does. -/
def perform : Call → ReadM Answer
  | next => .token <$> ReadM.next
  | peek => .token <$> ReadM.peek
  | peekAt n => .token <$> ReadM.peekAt n
  | check k => .flag <$> ReadM.check k
  | checkSecond k => .flag <$> ReadM.checkAt 1 k
  | accept k => .flag <$> ReadM.accept k
  | expect k => .token <$> ReadM.expect k

/-- The calls that only look. -/
def Peeks : Call → Prop
  | peek | peekAt _ | check _ | checkSecond _ => True
  | next | accept _ | expect _ => False

/-- The tokens that are taken in the course of a call: those that `ReadM.next` comes back with. A
token that is not of the kind expected is taken nevertheless. -/
def taken : Call → Stream → List Token
  | next, s => tokensIn [ReadM.next.reply s]
  | expect _, s => tokensIn [ReadM.next.reply s]
  | accept k, s =>
    match (ReadM.check k).reply s with
    | .ok true => tokensIn [ReadM.next.reply ((ReadM.check k).leaves s)]
    | _ => []
  | peek, _ | peekAt _, _ | check _, _ | checkSecond _, _ => []

theorem accounts_accept (k : Kind) : Accounts (ReadM.accept k) (accept k).taken := by
  have htake : ∀ b : Bool, Accounts (if b = true then
      (do let _ ← ReadM.next; return true : ReadM Bool) else return false)
      fun s => if b = true then tokensIn [ReadM.next.reply s] else [] := by
    intro b
    cases b with
    | false => exact accounts_pure false
    | true =>
      refine (accounts_next.bind fun _ => accounts_pure true).congr fun s => ?_
      cases ReadM.next.reply s <;> exact (List.append_nil _).symm
  refine ((accounts_checkAt 0 k).bind htake).congr fun s => ?_
  rw [List.nil_append, taken, ReadM.check]
  cases (ReadM.checkAt 0 k).reply s with
  | error e => rfl
  | ok b => cases b <;> rfl

theorem accounts_expect (k : Kind) : Accounts (ReadM.expect k) (expect k).taken := by
  have hjudge : ∀ t : Token, Accounts (if t.kind.terminal = k.terminal then
      (return t : ReadM Token) else ReadM.fail (.expected k t.kind) t.span) fun _ => [] := by
    intro t
    split
    · exact accounts_pure t
    · exact accounts_fail rfl t.span
  refine (accounts_next.bind hjudge).congr fun s => ?_
  rw [taken]
  cases ReadM.next.reply s <;> exact (List.append_nil _).symm

/-- Whatever a call does, the account of it is right. -/
theorem accounts_perform (c : Call) : Accounts c.perform c.taken := by
  cases c with
  | next => exact accounts_next.map _
  | peek => exact (accounts_peekAt 0).map _
  | peekAt n => exact (accounts_peekAt n).map _
  | check k => exact (accounts_checkAt 0 k).map _
  | checkSecond k => exact (accounts_checkAt 1 k).map _
  | accept k => exact (accounts_accept k).map _
  | expect k => exact (accounts_expect k).map _

end Call

/-! ## Histories -/

/-- What has happened to a stream so far. -/
structure History where
  /-- The stream as it is now. -/
  stream : Stream
  /-- The tokens that were taken, the first one first. -/
  taken : List Token
  /-- The errors about junk that calls came back with, the first one first. -/
  faults : List ReadError

namespace History

/-- Nothing has happened yet to the stream of a text. -/
def start (text : List Char) : History := ⟨Stream.ofText text, [], []⟩

/-- One more call. -/
def call (h : History) (c : Call) : History :=
  ⟨c.perform.leaves h.stream, h.taken ++ c.taken h.stream,
    h.faults ++ junkIn (c.perform.reply h.stream)⟩

/-- The history of the stream of a text on which these calls are made. -/
def ofCalls (text : List Char) (calls : List Call) : History := calls.foldl call (start text)

/-- All that was drawn from the scanner since `s` is accounted for. -/
def Complete (s : Stream) (h : History) : Prop := ∃ n, s.Draws n h.taken h.faults h.stream

theorem Complete.call {s : Stream} {h : History} (hh : h.Complete s) (c : Call) :
    (h.call c).Complete s := by
  obtain ⟨m, hdraws⟩ := hh
  obtain ⟨n, hcall⟩ := c.accounts_perform h.stream
  exact ⟨m + n, hdraws.trans hcall⟩

theorem complete_ofCalls (text : List Char) (calls : List Call) :
    (ofCalls text calls).Complete (Stream.ofText text) := by
  have hrun : ∀ h : History, h.Complete (Stream.ofText text) →
      (calls.foldl call h).Complete (Stream.ofText text) := by
    induction calls with
    | nil => exact fun h hh => hh
    | cons c calls ih => exact fun h hh => ih (h.call c) (hh.call c)
  exact hrun (start text) ⟨0, .none rfl rfl rfl⟩

end History

/-! ## What is looked at comes next -/

namespace ReadM

variable {s s' : Stream}

/-- A token that is drawn early is taken in its turn. -/
theorem replies_next_push {t : Token} (h : Runs scanNext s t s') (n : Nat) :
    next.replies n { s' with buffer := s'.buffer ++ [t] } = next.replies n s := by
  induction n generalizing s s' with
  | zero => rfl
  | succ n ih =>
    have hbuffer : s'.buffer = s.buffer := by rw [h.eq_of_scanNext]
    cases hb : s.buffer with
    | nil =>
      have hnow : Runs next s t { s' with last := t.span } :=
        runs_next_iff.mpr (Or.inr ⟨hb, s', h, rfl⟩)
      have hlater : Runs next { s' with buffer := s'.buffer ++ [t] } t
          { s' with buffer := [], last := t.span } :=
        runs_next_iff.mpr (Or.inl ⟨[], by rw [hbuffer, hb]; rfl, rfl⟩)
      rw [replies, replies, hnow.reply, hnow.leaves, hlater.reply, hlater.leaves, ← hb, ← hbuffer]
    | cons u rest =>
      have hnow : Runs next s u { s with buffer := rest, last := u.span } :=
        runs_next_iff.mpr (Or.inl ⟨rest, hb, rfl⟩)
      have hlater : Runs next { s' with buffer := s'.buffer ++ [t] } u
          { s' with buffer := rest ++ [t], last := u.span } :=
        runs_next_iff.mpr (Or.inl ⟨rest ++ [t], by rw [hbuffer, hb]; rfl, rfl⟩)
      have hscan : Runs scanNext { s with buffer := rest, last := u.span } t
          { s' with buffer := rest, last := u.span } := by
        rcases runs_scanNext.mp h with ⟨hp, rfl, rfl⟩ | ⟨later, hp, rfl⟩
        · exact runs_scanNext.mpr (Or.inl ⟨hp, rfl, rfl⟩)
        · exact runs_scanNext.mpr (Or.inr ⟨later, hp, rfl⟩)
      rw [replies, replies, hnow.reply, hnow.leaves, hlater.reply, hlater.leaves, ← ih hscan]

theorem replies_next_fill {k : Nat} (h : Runs (fill k) s () s') (n : Nat) :
    next.replies n s' = next.replies n s := by
  induction k generalizing s with
  | zero =>
    obtain ⟨-, rfl⟩ := runs_pure.mp h
    rfl
  | succ k ih =>
    obtain ⟨t, s₁, hscan, h⟩ := runs_bind.mp h
    obtain ⟨_, s₂, hpush, h⟩ := runs_bind.mp h
    obtain rfl := runs_modify.mp hpush
    rw [ih h, replies_next_push hscan]

/-- The tokens in the buffer are taken one after the other. -/
theorem replies_next_buffer {ts rest : List Token} (h : s.buffer = ts ++ rest) :
    next.replies ts.length s = ts.map .ok := by
  induction ts generalizing s with
  | nil => rfl
  | cons t ts ih =>
    have hrun : Runs next s t { s with buffer := ts ++ rest, last := t.span } :=
      runs_next_iff.mpr (Or.inl ⟨ts ++ rest, h, rfl⟩)
    rw [List.length_cons, replies, hrun.reply, hrun.leaves, ih rfl, List.map_cons]

/-- Where looking ahead succeeds, taking tokens succeeds up to the token looked at, whether the look
was taken or not. -/
theorem replies_next_peekAt {n : Nat} {t : Token} (h : (peekAt n).reply s = .ok t) :
    ∃ ts : List Token, ts.length = n ∧ next.replies (n + 1) s = (ts ++ [t]).map .ok ∧
      next.replies (n + 1) ((peekAt n).leaves s) = (ts ++ [t]).map .ok := by
  have hrun := runs_of_reply h
  generalize (peekAt n).leaves s = s' at hrun ⊢
  unfold peekAt at hrun
  rw [runs_get_bind] at hrun
  obtain ⟨_, s₁, hfill, hrun⟩ := runs_bind.mp hrun
  rw [runs_get_bind] at hrun
  obtain ⟨rfl, rfl⟩ := runs_pure.mp hrun
  have hn : n < s'.buffer.length := by
    rw [length_fill hfill]
    omega
  have hsplit : s'.buffer = (s'.buffer.take n ++ [s'.buffer.getD n s'.eof]) ++
      s'.buffer.drop (n + 1) := by
    rw [List.getD_eq_getElem _ _ hn, ← List.take_succ_eq_append_getElem hn, List.take_append_drop]
  have hnext := replies_next_buffer hsplit
  have hlength : (s'.buffer.take n).length = n := List.length_take_of_le hn.le
  rw [List.length_append, hlength, List.length_singleton] at hnext
  exact ⟨s'.buffer.take n, hlength, by rw [← replies_next_fill hfill, hnext], hnext⟩

end ReadM

/-! ## A plain cursor -/

namespace Call

/-- The tokens that a call takes off a cursor that has the tokens `ts` in front of it and gives `eof`
behind them. -/
def takes (eof : Token) (ts : List Token) : Call → List Token
  | next | expect _ => [ts.headD eof]
  | accept k => if (kindAt ts 0).terminal = k.terminal then [ts.headD eof] else []
  | peek | peekAt _ | check _ | checkSecond _ => []

variable {s : Stream} {ts : List Token}

/-- The call does to a stream that holds these tokens what it does to a cursor. -/
structure Follows (c : Call) (s : Stream) (ts : List Token) : Prop where
  taken : c.taken s = c.takes s.eof ts
  holds : (c.perform.leaves s).Holds (ts.drop (c.takes s.eof ts).length)
  eof : (c.perform.leaves s).eof = s.eof

theorem leaves_map {α : Type} {m : ReadM α} {a : α} {s' : Stream} (g : α → Answer)
    (h : Runs m s a s') : (g <$> m).leaves s = s' := by
  rw [map_eq_pure_bind, h.leaves_bind]
  rfl

theorem follows_peekAt (h : s.Holds ts) (n : Nat) : (peekAt n).Follows s ts := by
  obtain ⟨t, s', hpeek, -, hholds, -⟩ := exists_runs_peekAt h (upcoming?_map_token ts n)
  have hleaves : (peekAt n).perform.leaves s = s' := leaves_map _ hpeek
  exact ⟨rfl, by rw [hleaves]; exact hholds, by rw [hleaves, eof_peekAt hpeek]⟩

/-- The calls that ask for a kind. -/
theorem leaves_checkAt (h : s.Holds ts) (n : Nat) (k : Kind) :
    ((.flag <$> ReadM.checkAt n k : ReadM Answer).leaves s).Holds ts ∧
      ((.flag <$> ReadM.checkAt n k : ReadM Answer).leaves s).eof = s.eof := by
  obtain ⟨s', hcheck, hholds, heof, -⟩ := exists_runs_checkAt_last h n k
  rw [leaves_map _ hcheck]
  exact ⟨hholds, heof⟩

/-- The calls that take a token in any case. -/
theorem follows_of_take {c : Call} (h : s.Holds ts)
    (htaken : c.taken s = tokensIn [ReadM.next.reply s])
    (htakes : c.takes s.eof ts = [ts.headD s.eof])
    (hleaves : ∀ t s', Runs ReadM.next s t s' → c.perform.leaves s = s') : c.Follows s ts := by
  obtain ⟨s', hnext, hholds, heof, -⟩ := exists_runs_take h
  refine ⟨?_, ?_, by rw [hleaves _ _ hnext, heof]⟩
  · rw [htaken, htakes, hnext.reply]
    rfl
  · rw [hleaves _ _ hnext, htakes, List.length_singleton, List.drop_one]
    exact hholds

theorem leaves_expect {t : Token} {s' : Stream} (k : Kind) (h : Runs ReadM.next s t s') :
    (expect k).perform.leaves s = s' := by
  have hmap : (expect k).perform = ReadM.expect k >>= fun t => pure (.token t) :=
    map_eq_pure_bind _ _
  rw [hmap]
  unfold ReadM.expect
  rw [bind_assoc, h.leaves_bind]
  split <;> rfl

theorem follows_accept (h : s.Holds ts) (k : Kind) : (accept k).Follows s ts := by
  obtain ⟨s₁, hcheck, hholds, heof, -⟩ := exists_runs_checkAt_last h 0 k
  have hmap : (accept k).perform = ReadM.accept k >>= fun b => pure (.flag b) :=
    map_eq_pure_bind _ _
  have hleaves : (accept k).perform.leaves s =
      ((if decide ((kindAt ts 0).terminal = k.terminal) = true then
        (do let _ ← ReadM.next; return true : ReadM Bool) else return false) >>=
          fun b => pure (Answer.flag b)).leaves s₁ := by
    rw [hmap]
    unfold ReadM.accept ReadM.check
    rw [bind_assoc, hcheck.leaves_bind]
  by_cases hk : (kindAt ts 0).terminal = k.terminal
  · obtain ⟨s', hnext, hholds', heof', -⟩ := exists_runs_take hholds
    have hs' : (accept k).perform.leaves s = s' := by
      simp only [hleaves, hk, decide_true, if_true]
      rw [bind_assoc, hnext.leaves_bind]
      rfl
    refine ⟨?_, ?_, by rw [hs', heof', heof]⟩
    · rw [taken, takes, ReadM.check, hcheck.reply, hcheck.leaves, ← heof]
      simp only [hk, decide_true, if_true, hnext.reply]
      rfl
    · rw [hs', takes, if_pos hk, List.length_singleton, List.drop_one]
      exact hholds'
  · have hs₁ : (accept k).perform.leaves s = s₁ := by
      simp only [hleaves, hk, decide_false, Bool.false_eq_true, if_false]
      rfl
    refine ⟨?_, ?_, by rw [hs₁, heof]⟩
    · rw [taken, takes, ReadM.check, hcheck.reply, if_neg hk]
      simp only [hk, decide_false]
    · rw [hs₁, takes, if_neg hk]
      exact hholds

/-- Without junk, every call does to the stream what it does to a cursor. -/
theorem follows (h : s.Holds ts) (c : Call) : c.Follows s ts := by
  cases c with
  | next => exact follows_of_take h rfl rfl fun t s' hnext => leaves_map _ hnext
  | peek =>
    obtain ⟨-, hholds, heof⟩ := follows_peekAt h 0
    exact ⟨rfl, hholds, heof⟩
  | peekAt n => exact follows_peekAt h n
  | check k => exact ⟨rfl, (leaves_checkAt h 0 k).1, (leaves_checkAt h 0 k).2⟩
  | checkSecond k => exact ⟨rfl, (leaves_checkAt h 1 k).1, (leaves_checkAt h 1 k).2⟩
  | accept k => exact follows_accept h k
  | expect k => exact follows_of_take h rfl rfl fun t s' hnext => leaves_expect k hnext

/-- The tokens that a sequence of calls takes off a cursor. -/
def takesAll (eof : Token) : List Token → List Call → List Token
  | _, [] => []
  | ts, c :: calls => c.takes eof ts ++ takesAll eof (ts.drop (c.takes eof ts).length) calls

/-- A look changes nothing about a cursor. -/
theorem takesAll_peek {c : Call} (hc : c.Peeks) (eof : Token) (ts : List Token)
    (before later : List Call) :
    takesAll eof ts (before ++ c :: later) = takesAll eof ts (before ++ later) := by
  induction before generalizing ts with
  | nil =>
    have hnone : c.takes eof ts = [] := by
      cases c with
      | peek | peekAt _ | check _ | checkSecond _ => rfl
      | next | accept _ | expect _ => exact hc.elim
    rw [List.nil_append, List.nil_append, takesAll, hnone]
    rfl
  | cons d before ih => rw [List.cons_append, List.cons_append, takesAll, takesAll, ih]

end Call

/-- Without junk, the tokens taken are those that a cursor gives. -/
theorem History.taken_foldl {h : History} {ts : List Token} (hh : h.stream.Holds ts)
    (calls : List Call) :
    (calls.foldl History.call h).taken = h.taken ++ Call.takesAll h.stream.eof ts calls := by
  induction calls generalizing h ts with
  | nil => exact (List.append_nil _).symm
  | cons c calls ih =>
    obtain ⟨htaken, hholds, heof⟩ := c.follows hh
    have hlater := ih (h := h.call c) hholds
    rw [List.foldl_cons, hlater, Call.takesAll, ← List.append_assoc, ← htaken]
    rw [show (h.call c).stream.eof = h.stream.eof from heof]
    rfl

/-- Let any calls be made on the stream of a text. The tokens taken so far, with those in the buffer
behind them, are the tokens of a first stretch of what the scanner gives for the text, and the errors
about junk that calls came back with are the errors of the same stretch. Where it is possible to look
at a token, that token is the one that as many calls of `next` get to. In a text without junk, a call
that only looks makes no difference to the tokens that are taken. -/
theorem lookahead_refines_cursor (text : List Char) (calls : List Call) :
    (∃ n, (History.ofCalls text calls).taken ++ (History.ofCalls text calls).stream.buffer =
        tokensIn (scanNext.replies n (Stream.ofText text)) ∧
      (History.ofCalls text calls).faults = errorsIn (scanNext.replies n (Stream.ofText text))) ∧
    (∀ n t, (peekAt n).reply (History.ofCalls text calls).stream = .ok t →
      ∃ ts : List Token, ts.length = n ∧
        next.replies (n + 1) (History.ofCalls text calls).stream = (ts ++ [t]).map .ok ∧
        next.replies (n + 1) ((peekAt n).leaves (History.ofCalls text calls).stream) =
          (ts ++ [t]).map .ok) ∧
    ∀ ts, tokenize text = .ok ts → ∀ before c later, calls = before ++ c :: later → c.Peeks →
      (History.ofCalls text calls).taken = (History.ofCalls text (before ++ later)).taken := by
  refine ⟨?_, fun n t => replies_next_peekAt, ?_⟩
  · obtain ⟨n, hdraws⟩ := History.complete_ofCalls text calls
    exact ⟨n, hdraws.tokens, hdraws.faults⟩
  · rintro ts htokens before c later rfl hpeeks
    obtain ⟨us, hscan, -⟩ := Grammar.exists_of_tokensOf htokens
    have hholds : (History.start text).stream.Holds us := by
      have hshow := shows_ofText text
      rw [hscan] at hshow
      exact hshow
    rw [History.ofCalls, History.taken_foldl hholds, History.ofCalls, History.taken_foldl hholds,
      Call.takesAll_peek hpeeks]

/-- A mark that is no token between two names. -/
def junkBetween : List Char := "x # y 1".toList

/-- Two names. -/
def twoNames : List Char := "x y".toList

/-- Looks and takes, of which the first one comes upon the junk and the last one finds another kind
of token than it expects. -/
def mixedCalls : List Call :=
  [.peekAt 1, .next, .checkSecond (.text .integer ""), .accept (.text .identifier ""),
    .expect (.punct .plus)]

theorem lookahead_refines_cursor_junkBetween :
    ((History.ofCalls junkBetween mixedCalls).taken.map Token.kind =
        [.text .identifier "x", .text .identifier "y", .text .integer "1"] ∧
      (History.ofCalls junkBetween mixedCalls).faults = [⟨.junk "#", ⟨2, 3, ⟨1, 3⟩⟩⟩] ∧
      ∃ n, (History.ofCalls junkBetween mixedCalls).taken ++
          (History.ofCalls junkBetween mixedCalls).stream.buffer =
            tokensIn (scanNext.replies n (Stream.ofText junkBetween)) ∧
        (History.ofCalls junkBetween mixedCalls).faults =
          errorsIn (scanNext.replies n (Stream.ofText junkBetween))) ∧
    (∃ t, t.kind = .text .integer "1" ∧ ∃ ts : List Token, ts.length = 1 ∧
      next.replies 2 (History.ofCalls junkBetween [.peekAt 1, .next]).stream =
        (ts ++ [t]).map .ok) ∧
    (History.ofCalls twoNames [.next, .peekAt 1, .next]).taken =
      (History.ofCalls twoNames [.next, .next]).taken := by
  have hpeek : (peekAt 1).reply (History.ofCalls junkBetween [.peekAt 1, .next]).stream =
      .ok ⟨.text .integer "1", ⟨6, 7, ⟨1, 7⟩⟩⟩ := by decide +kernel
  have htokens : (tokenize twoNames).toOption.isSome = true := by decide +kernel
  refine ⟨⟨by decide +kernel, by decide +kernel,
    (lookahead_refines_cursor junkBetween mixedCalls).1⟩, ?_, ?_⟩
  · obtain ⟨ts, hlength, hnext, -⟩ :=
      (lookahead_refines_cursor junkBetween [.peekAt 1, .next]).2.1 1 _ hpeek
    exact ⟨_, rfl, ts, hlength, hnext⟩
  · cases htext : tokenize twoNames with
    | error e => simp [htext, Except.toOption] at htokens
    | ok ts =>
      exact (lookahead_refines_cursor _ _).2.2 ts htext [.next] (.peekAt 1) [.next] rfl trivial

end ExprCheck
