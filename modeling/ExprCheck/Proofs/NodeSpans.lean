import Mathlib
import ExprCheck.Proofs.Nodes
import ExprCheck.Proofs.ParserSound

/-!
# Where the nodes of a program stand

Every reader of a node lays it out over the tokens that it takes off the stream. A reader begins a
span at the token it sees first and ends it at the token taken last, so the readers are followed
with the tokens themselves in hand, not only with their kinds. From the layout of a whole program
come all facts about the spans of its nodes, `wellPlaced_of_ofText`.
-/

namespace ExprCheck

open Text

/-! ## What a step takes off the stream -/

/-- The stream shows these reports, which stand in this order in a text. -/
structure Stream.Ahead (s : Stream) (us : List Scanned) : Prop where
  shows : s.Shows us
  inOrder : InOrder us

/-- The tokens `ts` were taken on the way from one stream to another. -/
structure Passed (s : Stream) (us : List Scanned) (ts : List Token) (s' : Stream)
    (rest : List Scanned) : Prop where
  split : us = ts.map .token ++ rest
  ahead : s'.Ahead rest
  last : s'.last = (ts.getLast?.map Token.span).getD s.last
  eof : s'.eof = s.eof

namespace Passed

variable {s s₁ s' : Stream} {us mid rest : List Scanned} {ts ts' : List Token}

theorem trans (h : Passed s us ts s₁ mid) (h' : Passed s₁ mid ts' s' rest) :
    Passed s us (ts ++ ts') s' rest where
  split := by rw [h.split, h'.split, List.map_append, List.append_assoc]
  ahead := h'.ahead
  last := by
    rw [h'.last, h.last, List.getLast?_append]
    cases ts'.getLast? <;> rfl
  eof := h'.eof.trans h.eof

theorem inRow (h : Passed s us ts s' rest) (hs : s.Ahead us) : InRow ts := by
  have horder := hs.inOrder
  rw [h.split] at horder
  exact horder.of_append.1

theorem last_eq (h : Passed s us ts s' rest) {t : Token} (ht : ts.getLast? = some t) :
    s'.last = t.span := by
  rw [h.last, ht]
  rfl

end Passed

/-- A span that ends with the last token extends one that begins with the first. -/
theorem Covers.merge {ts ts' : List Token} {span span' : Span} (h : Covers ts span)
    (hrow : InRow (ts ++ ts')) (hstart : ∃ t ∈ ts ++ ts', span'.start = t.span.start)
    (hstop : ∃ t, (ts ++ ts').getLast? = some t ∧ span'.stop = t.span.stop) :
    Covers (ts ++ ts') (span.merge span') := by
  obtain ⟨first, hfirst, hfstart, hfposition⟩ := h.first
  obtain ⟨t, ht, htstart⟩ := hstart
  obtain ⟨last, hlast, hlstop⟩ := hstop
  obtain ⟨u, hu, hustop⟩ := h.last
  have hhead : (ts ++ ts').head? = some first := by rw [List.head?_append, hfirst]; rfl
  have hall : Covers (ts ++ ts') ⟨first.span.start, last.span.stop, first.span.position⟩ :=
    ⟨⟨first, hhead, rfl, rfl⟩, ⟨last, hlast, rfl⟩⟩
  have hle : first.span.start ≤ t.span.start := (hall.inside hrow ht).1
  have hle' : u.span.stop ≤ last.span.stop :=
    (hall.inside hrow (List.mem_append_left _ (List.mem_of_getLast? hu))).2
  have hbegin : span.start ≤ span'.start := by omega
  unfold Span.merge
  rw [if_pos hbegin]
  refine ⟨⟨first, hhead, hfstart, hfposition⟩, ⟨last, hlast, ?_⟩⟩
  show max span.stop span'.stop = last.span.stop
  omega

theorem covers_single (t : Token) : Covers [t] t.span := ⟨⟨t, rfl, rfl, rfl⟩, ⟨t, rfl, rfl⟩⟩

/-- A span that begins with the first tokens taken, up to the token taken last. -/
theorem Passed.covers_from {s s' : Stream} {us rest : List Scanned} {ts ts' : List Token}
    {span : Span} (h : Passed s us (ts ++ ts') s' rest) (hs : s.Ahead us) (hc : Covers ts span) :
    Covers (ts ++ ts') (span.merge s'.last) := by
  obtain ⟨first, hfirst, -⟩ := hc.first
  have hne : ts ++ ts' ≠ [] := by
    intro hnil
    rw [(List.append_eq_nil_iff.mp hnil).1] at hfirst
    cases hfirst
  obtain ⟨last, hlast⟩ : ∃ last, (ts ++ ts').getLast? = some last :=
    ⟨_, List.getLast?_eq_some_getLast hne⟩
  rw [h.last_eq hlast]
  exact hc.merge (h.inRow hs) ⟨last, List.mem_of_getLast? hlast, rfl⟩ ⟨last, hlast, rfl⟩

theorem Passed.covers {s s' : Stream} {us rest : List Scanned} {t : Token} {ts : List Token}
    (h : Passed s us (t :: ts) s' rest) (hs : s.Ahead us) :
    Covers (t :: ts) (t.span.merge s'.last) := by
  have h' : Passed s us ([t] ++ ts) s' rest := h
  exact h'.covers_from hs (covers_single t)

/-- Two spans with tokens between them. -/
theorem Covers.join {ts mid ts' : List Token} {span span' : Span} (h : Covers ts span)
    (h' : Covers ts' span') (hrow : InRow (ts ++ (mid ++ ts'))) :
    Covers (ts ++ (mid ++ ts')) (span.merge span') := by
  obtain ⟨first, hfirst, hstart, -⟩ := h'.first
  obtain ⟨last, hlast, hstop⟩ := h'.last
  have hmem : first ∈ ts ++ (mid ++ ts') :=
    List.mem_append_right _ (List.mem_append_right _ (List.mem_of_head? hfirst))
  refine h.merge hrow ⟨first, hmem, hstart⟩ ⟨last, ?_, hstop⟩
  rw [List.getLast?_append, List.getLast?_append, hlast]
  rfl

/-- A node over its tokens, by a layout of the nodes inside it that leaves a token bare. -/
theorem Node.over_of_lays {sort : NodeSort} {span : Span} {inner ns : List Node} {ts : List Token}
    (hcovers : Covers ts span) (h : Lays true ts ns) (hns : ns = inner)
    (hsort : sort ≠ .header ∧ Bodiless inner) : (Node.mk sort span inner).Over ts := by
  subst hns
  exact ⟨hcovers, ⟨true, h, fun _ => rfl⟩, startsBare_of_bodiless hsort.1 hsort.2⟩

/-- A node over its tokens whose first token is bare. -/
theorem Node.over_of_first {sort : NodeSort} {span : Span} {inner ns : List Node} {t : Token}
    {ts : List Token} {b : Bool} (hcovers : Covers (t :: ts) span) (hrow : InRow (t :: ts))
    (h : Lays b ts ns) (hns : ns = inner) : (Node.mk sort span inner).Over (t :: ts) := by
  subst hns
  refine ⟨hcovers, ⟨true, .token t h, fun _ => rfl⟩, fun _ m hm => ?_⟩
  obtain ⟨first, hfirst, hstart, -⟩ := hcovers.first
  obtain rfl := Option.some.inj hfirst
  obtain ⟨u, hu, hstart', -⟩ := ((h.laid hrow.tail).bounded m (mem_allOf_of_mem hm)).start
  have hlt := hrow.nonempty List.mem_cons_self
  have hbefore := hrow.head_before hu
  unfold Span.Before at hbefore
  show span.start < m.span.start
  omega

namespace Grammar

open ReadM

variable {α β : Type} {s s' : Stream} {us : List Scanned}

/-- The tokens that the reader takes are related to what it gives back. -/
def Takes (m : ReadM α) (P : List Token → α → Prop) : Prop :=
  ∀ ⦃s us a s'⦄, s.Ahead us → Runs m s a s' → ∃ ts rest, Passed s us ts s' rest ∧ P ts a

theorem Takes.step {m : ReadM α} {P : List Token → α → Prop} (hm : Takes m P) {f : α → ReadM β}
    {b : β} (hs : s.Ahead us) (h : Runs (m >>= f) s b s') :
    ∃ a ts rest s₁, Passed s us ts s₁ rest ∧ P ts a ∧ Runs (f a) s₁ b s' := by
  obtain ⟨a, s₁, hrun, h'⟩ := runs_bind.mp h
  obtain ⟨ts, rest, hpassed, hP⟩ := hm hs hrun
  exact ⟨a, ts, rest, s₁, hpassed, hP, h'⟩

theorem takes_exhausted (P : List Token → α → Prop) : Takes (exhausted : ReadM α) P :=
  fun _ _ _ _ _ h => absurd h not_runs_exhausted

/-! ## Single tokens -/

/-- A token looked at stays where it is. -/
theorem passed_peekAt {n : Nat} {t : Token} (hs : s.Ahead us) (h : Runs (peekAt n) s t s') :
    Passed s us [] s' us := by
  obtain ⟨hshow, -, hlast⟩ := runs_peekAt hs.shows h
  exact ⟨rfl, ⟨hshow, hs.inOrder⟩, hlast, eof_peekAt h⟩

/-- The next token is taken, unless the text is at its end. -/
theorem passed_next {t : Token} (hs : s.Ahead us) (h : Runs next s t s') :
    (∃ rest, Passed s us [t] s' rest) ∨ t.kind = .eof := by
  obtain ⟨hlast, ⟨rest, rfl, hshow⟩ | ⟨-, heof, -⟩⟩ := runs_next hs.shows h
  · have horder : InOrder ([.token t] ++ rest) := hs.inOrder
    exact Or.inl ⟨rest, rfl, ⟨hshow, horder.of_append.2.1⟩, hlast, eof_next h⟩
  · exact Or.inr heof

theorem next_passed {f : Token → ReadM β} {b : β} (hs : s.Ahead us) (hne : us ≠ [])
    (h : Runs (next >>= f) s b s') :
    ∃ t rest s₁, Passed s us [t] s₁ rest ∧ Runs (f t) s₁ b s' := by
  obtain ⟨t, s₁, hnext, h'⟩ := runs_bind.mp h
  rcases passed_next hs hnext with ⟨rest, hp⟩ | heof
  · exact ⟨t, rest, s₁, hp, h'⟩
  · obtain ⟨-, ⟨rest, rfl, -⟩ | ⟨hnil, -⟩⟩ := runs_next hs.shows hnext
    · exact absurd heof (hs.shows.tokens t List.mem_cons_self)
    · exact absurd hnil hne

theorem peek_step {f : Token → ReadM β} {b : β} (hs : s.Ahead us)
    (h : Runs (peek >>= f) s b s') :
    ∃ t s₁, Passed s us [] s₁ us ∧ Next us s.eof t ∧ Runs (f t) s₁ b s' := by
  obtain ⟨t, s₁, hpeek, h'⟩ := runs_bind.mp h
  exact ⟨t, s₁, passed_peekAt hs hpeek, next_of_peek hs.shows hpeek, h'⟩

theorem ne_nil_of_next {t : Token} (hs : s.Ahead us) (h : Next us s.eof t)
    (hk : t.kind ≠ .eof) : us ≠ [] := by
  rcases h with ⟨rest, rfl⟩ | ⟨-, rfl⟩
  · exact List.cons_ne_nil _ _
  · exact absurd hs.shows.eof hk

/-- The token looked at is the first one taken afterwards. -/
theorem eq_of_next {eof t u : Token} {ts : List Token} {rest : List Scanned}
    (h : Next us eof t) (hp : Passed s us ts s' rest) (hu : ts.head? = some u) : u = t := by
  obtain ⟨ts', rfl⟩ := List.head?_eq_some_iff.mp hu
  have hsplit := hp.split
  rcases h with ⟨rest', rfl⟩ | ⟨rfl, -⟩
  · exact (Scanned.token.inj (List.cons.inj hsplit).1).symm
  · cases hsplit

/-- A span from the token looked at to the token taken last. -/
theorem covers_of_next {eof t u : Token} {ts : List Token} {rest : List Scanned}
    (h : Next us eof t) (hs : s.Ahead us) (hp : Passed s us ts s' rest)
    (hu : ts.head? = some u) : Covers ts (t.span.merge s'.last) := by
  obtain rfl := eq_of_next h hp hu
  obtain ⟨ts', rfl⟩ := List.head?_eq_some_iff.mp hu
  exact hp.covers hs

theorem takes_expect (k : Kind) [hexact : Exact k] : Takes (expect k) (fun ts t => ts = [t]) := by
  intro s us t s' hs h
  obtain ⟨u, s₁, hnext, h⟩ := runs_bind.mp h
  simp only [terminal_eq_iff] at h
  by_cases hk : u.kind = k
  · rw [if_pos hk] at h
    obtain ⟨rfl, rfl⟩ := runs_pure.mp h
    rcases passed_next hs hnext with ⟨rest, hp⟩ | heof
    · exact ⟨[t], rest, hp, rfl⟩
    · exact absurd (hk.symm.trans heof) hexact.ne_eof
  · rw [if_neg hk] at h
    exact absurd h not_runs_fail

theorem takes_checkAt (n : Nat) (k : Kind) : Takes (checkAt n k) (fun ts _ => ts = []) := by
  intro s us b s' hs h
  obtain ⟨t, s₁, hpeek, h⟩ := runs_bind.mp h
  obtain ⟨-, rfl⟩ := runs_pure.mp h
  exact ⟨[], us, passed_peekAt hs hpeek, rfl⟩

/-- A token is taken if and only if it is accepted. -/
theorem takes_accept (k : Kind) [hexact : Exact k] :
    Takes (accept k) (fun ts b => (b = true ∧ ∃ t, ts = [t]) ∨ (b = false ∧ ts = [])) := by
  intro s us b s' hs h
  obtain ⟨c, s₁, hcheck, h⟩ := runs_bind.mp h
  obtain ⟨ts, u₁, p₁, rfl⟩ := takes_checkAt 0 k hs hcheck
  obtain ⟨-, k', hk', rfl⟩ := runs_checkAt hs.shows hcheck
  simp only [decide_eq_true_eq, terminal_eq_iff] at h
  by_cases hk : k' = k
  · rw [if_pos hk] at h
    have hne : u₁ ≠ [] := by
      rintro rfl
      rw [p₁.split] at hk'
      exact absurd ((Option.some.inj hk').trans hk).symm hexact.ne_eof
    obtain ⟨t, u₂, s₂, p₂, h⟩ := next_passed p₁.ahead hne h
    obtain ⟨rfl, rfl⟩ := runs_pure.mp h
    exact ⟨_, u₂, p₁.trans p₂, Or.inl ⟨rfl, t, rfl⟩⟩
  · rw [if_neg hk] at h
    obtain ⟨rfl, rfl⟩ := runs_pure.mp h
    exact ⟨[], u₁, p₁, Or.inr ⟨rfl, rfl⟩⟩

theorem accept_passed {k : Kind} [Exact k] {f : Bool → ReadM β} {b : β} (hs : s.Ahead us)
    (h : Runs (accept k >>= f) s b s') :
    (∃ t rest s₁, Passed s us [t] s₁ rest ∧ Runs (f true) s₁ b s') ∨
      ∃ s₁, Passed s us [] s₁ us ∧ Runs (f false) s₁ b s' := by
  obtain ⟨c, ts, rest, s₁, hp, ⟨rfl, t, rfl⟩ | ⟨rfl, rfl⟩, h⟩ := (takes_accept k).step hs h
  · exact Or.inl ⟨t, rest, s₁, hp, h⟩
  · have hsame : us = rest := hp.split
    subst hsame
    exact Or.inr ⟨s₁, hp, h⟩

theorem takes_identifier : Takes identifier (fun ts _ => ∃ t, ts = [t]) := by
  intro s us x s' hs h
  unfold identifier at h
  obtain ⟨t, s₁, hnext, h⟩ := runs_bind.mp h
  rcases passed_next hs hnext with ⟨rest, hp⟩ | heof
  · split at h
    · obtain ⟨-, rfl⟩ := runs_pure.mp h
      exact ⟨[t], rest, hp, t, rfl⟩
    · exact absurd h not_runs_fail
  · rw [heof] at h
    exact absurd h not_runs_fail

theorem takes_nameBefore (k : Kind) : Takes (nameBefore k) (fun ts _ => ts = []) := by
  intro s us b s' hs h
  unfold nameBefore at h
  obtain ⟨first, _, u₁, s₁, p₁, rfl, h⟩ := (takes_checkAt 0 _).step hs h
  cases first with
  | true =>
    obtain ⟨_, u₂, p₂, rfl⟩ := takes_checkAt 1 k p₁.ahead h
    exact ⟨_, u₂, p₁.trans p₂, rfl⟩
  | false =>
    obtain ⟨-, rfl⟩ := runs_pure.mp h
    exact ⟨[], u₁, p₁, rfl⟩

theorem takes_atDeclaration : Takes atDeclaration (fun ts _ => ts = []) := by
  intro s us b s' hs h
  unfold atDeclaration at h
  obtain ⟨first, _, u₁, s₁, p₁, rfl, h⟩ := (takes_nameBefore _).step hs h
  cases first with
  | true =>
    obtain ⟨-, rfl⟩ := runs_pure.mp h
    exact ⟨[], u₁, p₁, rfl⟩
  | false =>
    obtain ⟨_, u₂, p₂, rfl⟩ := takes_nameBefore _ p₁.ahead h
    exact ⟨_, u₂, p₁.trans p₂, rfl⟩

theorem takes_atReturnEnd : Takes atReturnEnd (fun ts _ => ts = []) := by
  intro s us b s' hs h
  unfold atReturnEnd at h
  obtain ⟨t, s₁, p₁, -, h⟩ := peek_step hs h
  have hsame : s' = s₁ := by
    split at h
    all_goals exact (runs_pure.mp h).2
  rw [hsame]
  exact ⟨[], us, p₁, rfl⟩

/-! ## Lists and annotations -/

/-- The reader gives a node that stands over the tokens it takes. -/
abbrev Places (m : ReadM α) (node : α → Node) : Prop := Takes m fun ts a => (node a).Over ts

/-- The reader gives nodes that are laid out over the tokens it takes. -/
abbrev LaysOut (m : ReadM α) (nodes : α → List Node) : Prop :=
  Takes m fun ts a => ∃ b, Lays b ts (nodes a)

theorem laysOut_items {node : α → Node} {item : ReadM α} (hitem : Places item node)
    (close : Kind) (n : Nat) : LaysOut (items close item n) (List.map node) := by
  induction n with
  | zero => exact takes_exhausted _
  | succ n ih =>
    intro s us xs s' hs h
    simp only [items, Production.items, monadLift_self] at h
    obtain ⟨closed, _, u₁, s₁, p₁, rfl, h⟩ := (takes_checkAt 0 close).step hs h
    cases closed with
    | true =>
      obtain ⟨rfl, rfl⟩ := runs_pure.mp h
      exact ⟨_, _, p₁, _, .nil⟩
    | false =>
      obtain ⟨x, ts, u₂, s₂, p₂, hx, h⟩ := hitem.step p₁.ahead h
      rcases accept_passed p₂.ahead h with ⟨t, u₃, s₃, p₃, h⟩ | ⟨s₃, p₃, h⟩
      · obtain ⟨xs, ts', u₄, s₄, p₄, ⟨b, hxs⟩, h⟩ := ih.step p₃.ahead h
        obtain ⟨rfl, rfl⟩ := runs_pure.mp h
        exact ⟨_, _, p₁.trans (p₂.trans (p₃.trans p₄)), _,
          hx.lay.append ((Lays.single t).append hxs)⟩
      · obtain ⟨rfl, rfl⟩ := runs_pure.mp h
        refine ⟨_, _, p₁.trans (p₂.trans p₃), false, ?_⟩
        rw [List.append_nil]
        exact hx.lay

/-- The readers of a level place the nodes that they give. -/
structure Level.IsPlacing (l : Level) : Prop where
  expr : ∀ least, Places (l.expr least) Expr.node
  typeExpr : Places l.typeExpr TypeExpr.node
  stmts : LaysOut l.stmts stmtNodes

section Readers

variable {inner : Level} (hl : inner.IsPlacing)

include hl

theorem laysOut_optionalType : LaysOut (optionalType inner) optionalNode := by
  intro s us t s' hs h
  simp only [optionalType, Production.optionalType, monadLift_self] at h
  rcases accept_passed hs h with ⟨colon, u₁, s₁, p₁, h⟩ | ⟨s₁, p₁, h⟩
  · obtain ⟨t, ts, u₂, s₂, p₂, ht, h⟩ := hl.typeExpr.step p₁.ahead h
    obtain ⟨rfl, rfl⟩ := runs_pure.mp h
    exact ⟨_, _, p₁.trans p₂, _, (Lays.single colon).append ht.lay⟩
  · obtain ⟨rfl, rfl⟩ := runs_pure.mp h
    exact ⟨_, _, p₁, _, .nil⟩

theorem places_typeExpr : Places (typeExpr inner) TypeExpr.node := by
  intro s us t s' hs h
  simp only [typeExpr, Production.typeExpr, monadLift_self] at h
  obtain ⟨first, s₁, hnext, h⟩ := runs_bind.mp h
  rcases passed_next hs hnext with ⟨u₁, p₁⟩ | heof
  · have l₁ := Lays.single first
    split at h
    · obtain ⟨t₂, _, u₂, s₂, p₂, rfl, h⟩ := (takes_expect _).step p₁.ahead h
      obtain ⟨params, ts₃, u₃, s₃, p₃, ⟨b, hparams⟩, h⟩ :=
        (laysOut_items hl.typeExpr _ _).step p₂.ahead h
      obtain ⟨t₄, _, u₄, s₄, p₄, rfl, h⟩ := (takes_expect _).step p₃.ahead h
      obtain ⟨t₅, _, u₅, s₅, p₅, rfl, h⟩ := (takes_expect _).step p₄.ahead h
      obtain ⟨result, ts₆, u₆, s₆, p₆, hresult, h⟩ := hl.typeExpr.step p₅.ahead h
      rw [runs_spanFrom_bind] at h
      obtain ⟨rfl, rfl⟩ := runs_pure.mp h
      have p := p₁.trans (p₂.trans (p₃.trans (p₄.trans (p₅.trans p₆))))
      have hlays := l₁.append ((Lays.single t₂).append (hparams.append
        ((Lays.single t₄).append ((Lays.single t₅).append hresult.lay))))
      exact ⟨_, _, p, Node.over_of_lays (p.covers hs) hlays (by simp [TypeExpr.nodes_eq_map])
        (by simp)⟩
    · obtain ⟨element, ts₂, u₂, s₂, p₂, helement, h⟩ := hl.typeExpr.step p₁.ahead h
      obtain ⟨t₃, _, u₃, s₃, p₃, rfl, h⟩ := (takes_expect _).step p₂.ahead h
      rw [runs_spanFrom_bind] at h
      obtain ⟨rfl, rfl⟩ := runs_pure.mp h
      have p := p₁.trans (p₂.trans p₃)
      have hlays := l₁.append (helement.lay.behind t₃)
      exact ⟨_, _, p, Node.over_of_lays (p.covers hs) hlays (by simp) (by simp)⟩
    · obtain ⟨key, ts₂, u₂, s₂, p₂, hkey, h⟩ := hl.typeExpr.step p₁.ahead h
      obtain ⟨t₃, _, u₃, s₃, p₃, rfl, h⟩ := (takes_expect _).step p₂.ahead h
      obtain ⟨value, ts₄, u₄, s₄, p₄, hvalue, h⟩ := hl.typeExpr.step p₃.ahead h
      obtain ⟨t₅, _, u₅, s₅, p₅, rfl, h⟩ := (takes_expect _).step p₄.ahead h
      rw [runs_spanFrom_bind] at h
      obtain ⟨rfl, rfl⟩ := runs_pure.mp h
      have p := p₁.trans (p₂.trans (p₃.trans (p₄.trans p₅)))
      have hlays := l₁.append (hkey.lay.append ((Lays.single t₃).append
        (hvalue.lay.behind t₅)))
      exact ⟨_, _, p, Node.over_of_lays (p.covers hs) hlays (by simp) (by simp)⟩
    · obtain ⟨fields, ts₂, u₂, s₂, p₂, ⟨b, hfields⟩, h⟩ :=
        (laysOut_items hl.typeExpr _ _).step p₁.ahead h
      obtain ⟨t₃, _, u₃, s₃, p₃, rfl, h⟩ := (takes_expect _).step p₂.ahead h
      rw [runs_spanFrom_bind] at h
      obtain ⟨rfl, rfl⟩ := runs_pure.mp h
      have p := p₁.trans (p₂.trans p₃)
      have hlays := l₁.append (hfields.behind t₃)
      exact ⟨_, _, p, Node.over_of_lays (p.covers hs) hlays (by simp [TypeExpr.nodes_eq_map])
        (by simp)⟩
    · split at h
      · rw [runs_spanFrom_bind] at h
        obtain ⟨rfl, rfl⟩ := runs_pure.mp h
        exact ⟨_, _, p₁, Node.over_of_lays (p₁.covers hs) l₁ rfl (by simp)⟩
      · exact absurd h not_runs_fail
  · rw [heof] at h
    exact absurd h not_runs_fail

/-! ## Primary expressions -/

theorem laysOut_arguments : LaysOut (arguments inner) exprNodes := by
  intro s us es s' hs h
  simp only [arguments, Production.arguments, monadLift_self] at h
  obtain ⟨es, ts₁, u₁, s₁, p₁, ⟨b, hes⟩, h⟩ := (laysOut_items (hl.expr 0) _ _).step hs h
  obtain ⟨t₂, _, u₂, s₂, p₂, rfl, h⟩ := (takes_expect _).step p₁.ahead h
  obtain ⟨rfl, rfl⟩ := runs_pure.mp h
  have hargs := hes.behind t₂
  rw [← exprNodes_eq_map] at hargs
  exact ⟨_, _, p₁.trans p₂, true, hargs⟩

theorem places_conditional : Places (conditional inner) Expr.node := by
  intro s us e s' hs h
  simp only [conditional, Production.conditional, monadLift_self] at h
  obtain ⟨t₁, _, u₁, s₁, p₁, rfl, h⟩ := (takes_expect _).step hs h
  obtain ⟨p, ts₂, u₂, s₂, p₂, hp, h⟩ := (hl.expr 0).step p₁.ahead h
  obtain ⟨t₃, _, u₃, s₃, p₃, rfl, h⟩ := (takes_expect _).step p₂.ahead h
  obtain ⟨t, ts₄, u₄, s₄, p₄, ht, h⟩ := (hl.expr 0).step p₃.ahead h
  obtain ⟨t₅, _, u₅, s₅, p₅, rfl, h⟩ := (takes_expect _).step p₄.ahead h
  obtain ⟨e, ts₆, u₆, s₆, p₆, he, h⟩ := (hl.expr 0).step p₅.ahead h
  obtain ⟨t₇, _, u₇, s₇, p₇, rfl, h⟩ := (takes_expect _).step p₆.ahead h
  rw [runs_spanFrom_bind] at h
  obtain ⟨rfl, rfl⟩ := runs_pure.mp h
  have hall := p₁.trans (p₂.trans (p₃.trans (p₄.trans (p₅.trans (p₆.trans p₇)))))
  have hlays := (Lays.single t₁).append (hp.lay.append ((Lays.single t₃).append
    (ht.lay.append ((Lays.single t₅).append (he.lay.behind t₇)))))
  exact ⟨_, _, hall, Node.over_of_lays (hall.covers hs) hlays (by simp) (by simp)⟩

theorem places_param : Places (param inner) Param.node := by
  intro s us p s' hs h
  simp only [param, Production.param, monadLift_self] at h
  obtain ⟨start, s₁, p₁, hnext, h⟩ := peek_step hs h
  obtain ⟨name, _, u₂, s₂, p₂, ⟨t₂, rfl⟩, h⟩ := takes_identifier.step p₁.ahead h
  obtain ⟨t, ts₃, u₃, s₃, p₃, ⟨b, ht⟩, h⟩ := (laysOut_optionalType hl).step p₂.ahead h
  rw [runs_spanFrom_bind] at h
  obtain ⟨rfl, rfl⟩ := runs_pure.mp h
  have hall := p₁.trans (p₂.trans p₃)
  exact ⟨_, _, hall, Node.over_of_lays (covers_of_next hnext hs hall rfl)
    ((Lays.single t₂).append ht) rfl (by cases t <;> simp)⟩

theorem places_body : Places (body inner) Body.node := by
  intro s us b s' hs h
  simp only [body, Production.body, monadLift_self] at h
  obtain ⟨start, s₁, p₁, hnext, h⟩ := peek_step hs h
  rcases accept_passed p₁.ahead h with ⟨t₂, u₂, s₂, p₂, h⟩ | ⟨s₂, p₂, h⟩
  · obtain ⟨e, ts₃, u₃, s₃, p₃, he, h⟩ := (hl.expr 0).step p₂.ahead h
    rw [runs_spanFrom_bind] at h
    obtain ⟨rfl, rfl⟩ := runs_pure.mp h
    have hall := p₁.trans (p₂.trans p₃)
    exact ⟨_, _, hall, Node.over_of_lays (covers_of_next hnext hs hall rfl)
      ((Lays.single t₂).append he.lay) (by simp) (by simp)⟩
  · rcases accept_passed p₂.ahead h with ⟨t₃, u₃, s₃, p₃, h⟩ | ⟨s₃, p₃, h⟩
    · obtain ⟨stmts, ts₄, u₄, s₄, p₄, ⟨b, hstmts⟩, h⟩ := hl.stmts.step p₃.ahead h
      obtain ⟨t₅, _, u₅, s₅, p₅, rfl, h⟩ := (takes_expect _).step p₄.ahead h
      rw [runs_spanFrom_bind] at h
      obtain ⟨rfl, rfl⟩ := runs_pure.mp h
      have hall := p₁.trans (p₂.trans (p₃.trans (p₄.trans p₅)))
      have hlays := (Lays.single t₃).append (hstmts.behind t₅)
      exact ⟨_, _, hall, Node.over_of_lays (covers_of_next hnext hs hall rfl) hlays (by simp)
        (by simp)⟩
    · obtain ⟨_, _, -, h⟩ := runs_bind.mp h
      exact absurd h not_runs_fail

theorem places_function : Places (function inner) Expr.node := by
  intro s us e s' hs h
  simp only [function, Production.function, monadLift_self] at h
  obtain ⟨t₁, _, u₁, s₁, p₁, rfl, h⟩ := (takes_expect _).step hs h
  obtain ⟨t₂, _, u₂, s₂, p₂, rfl, h⟩ := (takes_expect _).step p₁.ahead h
  obtain ⟨params, ts₃, u₃, s₃, p₃, ⟨b, hparams⟩, h⟩ :=
    (laysOut_items (places_param hl) _ _).step p₂.ahead h
  obtain ⟨t₄, _, u₄, s₄, p₄, rfl, h⟩ := (takes_expect _).step p₃.ahead h
  obtain ⟨result, ts₅, u₅, s₅, p₅, ⟨b', hresult⟩, h⟩ := (laysOut_optionalType hl).step p₄.ahead h
  obtain ⟨body, ts₆, u₆, s₆, p₆, hbody, h⟩ := (places_body hl).step p₅.ahead h
  rw [runs_spanFrom_bind] at h
  obtain ⟨rfl, rfl⟩ := runs_pure.mp h
  have hall := p₁.trans (p₂.trans (p₃.trans (p₄.trans (p₅.trans p₆))))
  have hlays := (Lays.single t₂).append (hparams.append
    ((Lays.single t₄).append (hresult.append hbody.lay)))
  exact ⟨_, _, hall, Node.over_of_first (hall.covers hs) (hall.inRow hs) hlays (by simp)⟩

omit hl in
/-- A literal in brackets covers its brackets, and its items lie between them. -/
theorem places_bracketed {item : ReadM α} {itemNode : α → Node} (hitem : Places item itemNode)
    {opening closing : Punct} {node : Span → List α → Expr} (rounds : Nat)
    (hnode : ∀ span xs, (node span xs).node = .mk .expr span (xs.map itemNode))
    (hsort : ∀ x, (itemNode x).sort ≠ .body) :
    Places (bracketed opening closing node item rounds) Expr.node := by
  intro s us e s' hs h
  simp only [bracketed, Production.bracketed, monadLift_self] at h
  obtain ⟨t₁, _, u₁, s₁, p₁, rfl, h⟩ := (takes_expect _).step hs h
  obtain ⟨xs, ts₂, u₂, s₂, p₂, ⟨b, hxs⟩, h⟩ := (laysOut_items hitem _ _).step p₁.ahead h
  obtain ⟨t₃, _, u₃, s₃, p₃, rfl, h⟩ := (takes_expect _).step p₂.ahead h
  rw [runs_spanFrom_bind] at h
  obtain ⟨rfl, rfl⟩ := runs_pure.mp h
  have hall := p₁.trans (p₂.trans p₃)
  have hlays := (Lays.single t₁).append (hxs.behind t₃)
  refine ⟨_, _, hall, ?_⟩
  show (node _ xs).node.Over _
  rw [hnode]
  exact Node.over_of_lays (hall.covers hs) hlays (by simp) ⟨by simp, Node.bodiless_map hsort xs⟩

theorem places_array : Places (array inner) Expr.node :=
  places_bracketed (hl.expr 0) _ (fun _ _ => by simp [exprNodes_eq_map]) (by simp)

theorem places_entry : Places (entry inner) Entry.node := by
  intro s us e s' hs h
  simp only [entry, Production.entry, monadLift_self] at h
  obtain ⟨k, ts₁, u₁, s₁, p₁, hk, h⟩ := (hl.expr 0).step hs h
  obtain ⟨t₂, _, u₂, s₂, p₂, rfl, h⟩ := (takes_expect _).step p₁.ahead h
  obtain ⟨v, ts₃, u₃, s₃, p₃, hv, h⟩ := (hl.expr 0).step p₂.ahead h
  obtain ⟨rfl, rfl⟩ := runs_pure.mp h
  have hall := p₁.trans (p₂.trans p₃)
  have hcovers := hk.covers.join hv.covers (hall.inRow hs)
  rw [Expr.span_node, Expr.span_node] at hcovers
  exact ⟨_, _, hall, Node.over_of_lays hcovers (hk.lay.append ((Lays.single t₂).append hv.lay)) rfl
    (by simp)⟩

theorem places_map : Places (map inner) Expr.node :=
  places_bracketed (places_entry hl) _ (fun _ _ => by simp [entryNodes_eq_map]) (by simp [Entry.node])

/-- An element without a name covers what its value covers. -/
theorem takes_element :
    Takes (element inner)
      (fun ts e => e.node.Over ts ∧ (e.name = none → e.value.node.Over ts)) := by
  intro s us e s' hs h
  simp only [element, Production.element, monadLift_self] at h
  obtain ⟨start, s₁, p₁, hnext, h⟩ := peek_step hs h
  obtain ⟨named, _, u₂, s₂, p₂, rfl, h⟩ := (takes_nameBefore _).step p₁.ahead h
  cases named with
  | true =>
    obtain ⟨name, _, u₃, s₃, p₃, ⟨t₃, rfl⟩, h⟩ := takes_identifier.step p₂.ahead h
    obtain ⟨t₄, _, u₄, s₄, p₄, rfl, h⟩ := (takes_expect _).step p₃.ahead h
    obtain ⟨e, ts₅, u₅, s₅, p₅, he, h⟩ := (hl.expr 0).step p₄.ahead h
    rw [runs_spanFrom_bind] at h
    obtain ⟨rfl, rfl⟩ := runs_pure.mp h
    have hall := p₁.trans (p₂.trans (p₃.trans (p₄.trans p₅)))
    have hlays := (Lays.single t₃).append ((Lays.single t₄).append he.lay)
    have hover : (Element.node ⟨start.span.merge s'.last, some name, e⟩).Over _ :=
      Node.over_of_lays (covers_of_next hnext hs hall rfl) hlays rfl (by simp)
    exact ⟨_, _, hall, hover, by simp⟩
  | false =>
    obtain ⟨e, ts₃, u₃, s₃, p₃, he, h⟩ := (hl.expr 0).step p₂.ahead h
    rw [runs_spanFrom_bind] at h
    obtain ⟨rfl, rfl⟩ := runs_pure.mp h
    have hall := p₁.trans (p₂.trans p₃)
    obtain ⟨first, hfirst, -⟩ := he.covers.first
    refine ⟨_, _, hall, ⟨covers_of_next hnext hs hall hfirst, ⟨false, he.lay, ?_⟩, ?_⟩, fun _ => he⟩
    · simp [Element.node, Node.mayWrap]
    · exact Node.startsBare_of_bodiless (by simp [Element.node]) (by simp [Element.node])

theorem places_element : Places (element inner) Element.node := by
  intro s us e s' hs h
  obtain ⟨ts, rest, hp, hover, -⟩ := takes_element hl hs h
  exact ⟨ts, rest, hp, hover⟩

/-- What follows the first element of a tuple. -/
theorem takes_tupleFrom (start : Span) (first : Element) :
    ∀ ⦃s us e s'⦄, s.Ahead us → Runs (tupleFrom inner start first) s e s' →
      ∃ es b ts rest, e = .tuple (start.merge s'.last) (first :: es) ∧ Passed s us ts s' rest ∧
        Lays b ts (es.map Element.node) := by
  intro s us e s' hs h
  simp only [tupleFrom, Production.tupleFrom, monadLift_self] at h
  rcases accept_passed hs h with ⟨t₁, u₁, s₁, p₁, h⟩ | ⟨s₁, p₁, h⟩
  · obtain ⟨es, ts₂, u₂, s₂, p₂, ⟨b, hes⟩, h⟩ :=
      (laysOut_items (places_element hl) _ _).step p₁.ahead h
    obtain ⟨t₃, _, u₃, s₃, p₃, rfl, h⟩ := (takes_expect _).step p₂.ahead h
    rw [runs_spanFrom_bind] at h
    obtain ⟨rfl, rfl⟩ := runs_pure.mp h
    exact ⟨es, _, _, _, rfl, p₁.trans (p₂.trans p₃), (Lays.single t₁).append (hes.behind t₃)⟩
  · obtain ⟨es, s₂, hpure, h⟩ := runs_bind.mp h
    obtain ⟨rfl, rfl⟩ := runs_pure.mp hpure
    obtain ⟨t₃, _, u₃, s₃, p₃, rfl, h⟩ := (takes_expect _).step p₁.ahead h
    rw [runs_spanFrom_bind] at h
    obtain ⟨rfl, rfl⟩ := runs_pure.mp h
    exact ⟨[], _, _, _, rfl, p₁.trans p₃, Lays.single t₃⟩

omit hl in
/-- A tuple from its parenthesis, its first element and what follows. -/
theorem over_tuple {s s₁ s₂ s' : Stream} {us u₁ u₂ rest : List Scanned} {t : Token}
    {ts ts' : List Token} {first : Element} {es : List Element} {b : Bool} (hs : s.Ahead us)
    (p₁ : Passed s us [t] s₁ u₁) (p₂ : Passed s₁ u₁ ts s₂ u₂) (p₃ : Passed s₂ u₂ ts' s' rest)
    (hfirst : first.node.Over ts) (hes : Lays b ts' (es.map Element.node)) :
    (Expr.tuple (t.span.merge s'.last) (first :: es)).node.Over ([t] ++ (ts ++ ts')) := by
  have hlays := (Lays.single t).append (hfirst.lay.append hes)
  refine Node.over_of_lays ((p₁.trans (p₂.trans p₃)).covers hs) hlays ?_ (by simp)
  rw [elementNodes_eq_map]
  rfl

theorem places_parenthesized : Places (parenthesized inner) Expr.node := by
  intro s us e s' hs h
  simp only [parenthesized, Production.parenthesized, monadLift_self] at h
  obtain ⟨t₁, _, u₁, s₁, p₁, rfl, h⟩ := (takes_expect _).step hs h
  obtain ⟨first, ts₂, u₂, s₂, p₂, ⟨hfirst, hvalue⟩, h⟩ := (takes_element hl).step p₁.ahead h
  split at h
  · obtain ⟨es, b, ts₃, u₃, rfl, p₃, hes⟩ := takes_tupleFrom hl _ _ p₂.ahead h
    exact ⟨_, _, p₁.trans (p₂.trans p₃), over_tuple hs p₁ p₂ p₃ hfirst hes⟩
  · next hname =>
    rcases accept_passed p₂.ahead h with ⟨t₃, u₃, s₃, p₃, h⟩ | ⟨s₃, p₃, h⟩
    · -- the parentheses are bare tokens of the expression inside
      rw [if_pos rfl, runs_spanFrom_bind] at h
      obtain ⟨rfl, rfl⟩ := runs_pure.mp h
      have hall := p₁.trans (p₂.trans p₃)
      obtain ⟨b, hinner, -⟩ := (hvalue hname).lays
      have hover : (first.value.withSpan (t₁.span.merge s'.last)).node.Over
          ([t₁] ++ (ts₂ ++ [t₃])) := by
        rw [Expr.node_withSpan]
        exact Node.over_of_first (hall.covers hs) (hall.inRow hs) (hinner.behind t₃) rfl
      exact ⟨_, _, hall, hover⟩
    · obtain ⟨es, b, ts₄, u₄, rfl, p₄, hes⟩ := takes_tupleFrom hl _ _ p₃.ahead h
      exact ⟨_, _, p₁.trans (p₂.trans (p₃.trans p₄)),
        over_tuple hs p₁ p₂ (p₃.trans p₄) hfirst hes⟩

omit hl in
theorem places_atom : Places atom Expr.node := by
  intro s us e s' hs h
  unfold atom at h
  obtain ⟨t, s₁, hnext, h⟩ := runs_bind.mp h
  rcases passed_next hs hnext with ⟨u₁, p₁⟩ | heof
  · split at h
    · obtain ⟨rfl, rfl⟩ := runs_pure.mp h
      exact ⟨_, _, p₁, Node.over_of_lays (covers_single t) (Lays.single t) rfl (by simp)⟩
    · obtain ⟨v, s₂, hread, hpure⟩ := runs_bind.mp h
      obtain ⟨-, rfl⟩ := runs_orFail.mp hread
      obtain ⟨rfl, rfl⟩ := runs_pure.mp hpure
      exact ⟨_, _, p₁, Node.over_of_lays (covers_single t) (Lays.single t) rfl (by simp)⟩
  · rw [heof] at h
    obtain ⟨v, s₂, hv, -⟩ := runs_bind.mp h
    exact absurd hv not_runs_fail

theorem places_primary : Places (primary inner) Expr.node := by
  intro s us e s' hs h
  simp only [primary, Production.primary, monadLift_self] at h
  obtain ⟨t, s₁, p₁, -, h⟩ := peek_step hs h
  have hgo : ∀ {m : ReadM Expr}, Places m Expr.node → Runs m s₁ e s' →
      ∃ ts rest, Passed s us ts s' rest ∧ e.node.Over ts := by
    intro m hm hrun
    obtain ⟨ts, rest, p₂, hover⟩ := hm p₁.ahead hrun
    exact ⟨_, _, p₁.trans p₂, hover⟩
  split at h
  · exact hgo (places_conditional hl) h
  · exact hgo (places_function hl) h
  · exact hgo (places_array hl) h
  · exact hgo (places_map hl) h
  · exact hgo (places_parenthesized hl) h
  · exact hgo places_atom h

/-! ## Suffixes and operators -/

omit hl in
/-- A selector goes on with the expression before the dot. -/
theorem runs_selector_over {s₀ : Stream} {us₀ : List Scanned} {ts₀ : List Token} {dot : Token}
    {target e : Expr} (hs₀ : s₀.Ahead us₀) (p₀ : Passed s₀ us₀ (ts₀ ++ [dot]) s us)
    (htarget : target.node.Over ts₀) (h : Runs (selector target) s e s') :
    ∃ ts rest, Passed s₀ us₀ ts s' rest ∧ e.node.Over ts := by
  unfold selector at h
  obtain ⟨t, s₁, hnext, h⟩ := runs_bind.mp h
  rcases passed_next p₀.ahead hnext with ⟨u₁, p₁⟩ | heof
  · have hall := p₀.trans p₁
    rw [List.append_assoc] at hall
    have hcovers := hall.covers_from hs₀ htarget.covers
    rw [Expr.span_node] at hcovers
    have hlays := htarget.lay.append ((Lays.single dot).behind t)
    split at h
    · rw [runs_spanFrom_bind] at h
      obtain ⟨rfl, rfl⟩ := runs_pure.mp h
      exact ⟨_, u₁, hall, Node.over_of_lays hcovers hlays rfl (by simp)⟩
    · obtain ⟨n, s₂, hread, hspan⟩ := runs_bind.mp h
      obtain ⟨-, rfl⟩ := runs_orFail.mp hread
      rw [runs_spanFrom_bind] at hspan
      obtain ⟨rfl, rfl⟩ := runs_pure.mp hspan
      exact ⟨_, u₁, hall, Node.over_of_lays hcovers hlays rfl (by simp)⟩
    · exact absurd h not_runs_fail
  · rw [heof] at h
    exact absurd h not_runs_fail

/-- Suffixes go on with the expression before them, whose tokens are taken already. -/
theorem runs_suffixes_over {s₀ : Stream} {us₀ : List Scanned} {ts₀ : List Token} {n : Nat}
    {e e' : Expr} (hs₀ : s₀.Ahead us₀) (p₀ : Passed s₀ us₀ ts₀ s us) (he : e.node.Over ts₀)
    (h : Runs (suffixes inner n e) s e' s') :
    ∃ ts rest, Passed s₀ us₀ ts s' rest ∧ e'.node.Over ts := by
  induction n generalizing s us e ts₀ with
  | zero => exact absurd h not_runs_exhausted
  | succ n ih =>
    simp only [suffixes, Production.suffixes, monadLift_self] at h
    rcases accept_passed p₀.ahead h with ⟨t₁, u₁, s₁, p₁, h⟩ | ⟨s₁, p₁, h⟩
    · obtain ⟨args, ts₂, u₂, s₂, p₂, ⟨b, hargs⟩, h⟩ := (laysOut_arguments hl).step p₁.ahead h
      rw [runs_spanFrom_bind] at h
      have hall := p₀.trans (p₁.trans p₂)
      have hcovers := hall.covers_from hs₀ he.covers
      rw [Expr.span_node] at hcovers
      have hlays := he.lay.append ((Lays.single t₁).append hargs)
      have hover : (Expr.call (e.span.merge s₂.last) e args).node.Over _ :=
        Node.over_of_lays hcovers hlays rfl (by simp)
      exact ih hall hover h
    · rcases accept_passed p₁.ahead h with ⟨t₂, u₂, s₂, p₂, h⟩ | ⟨s₂, p₂, h⟩
      · obtain ⟨i, ts₃, u₃, s₃, p₃, hi, h⟩ := (hl.expr 0).step p₂.ahead h
        obtain ⟨t₄, _, u₄, s₄, p₄, rfl, h⟩ := (takes_expect _).step p₃.ahead h
        rw [runs_spanFrom_bind] at h
        have hall := p₀.trans (p₁.trans (p₂.trans (p₃.trans p₄)))
        have hcovers := hall.covers_from hs₀ he.covers
        rw [Expr.span_node] at hcovers
        have hlays := he.lay.append ((Lays.single t₂).append (hi.lay.behind t₄))
        have hover : (Expr.index (e.span.merge s₄.last) e i).node.Over _ :=
          Node.over_of_lays hcovers hlays rfl (by simp)
        exact ih hall hover h
      · rcases accept_passed p₂.ahead h with ⟨t₃, u₃, s₃, p₃, h⟩ | ⟨s₃, p₃, h⟩
        · obtain ⟨e₁, s₄, hselect, h⟩ := runs_bind.mp h
          have hdot := p₀.trans (p₁.trans (p₂.trans p₃))
          obtain ⟨ts₄, u₄, p₄, he₁⟩ := runs_selector_over hs₀ hdot he hselect
          exact ih p₄ he₁ h
        · obtain ⟨rfl, rfl⟩ := runs_pure.mp h
          have hall := p₀.trans (p₁.trans (p₂.trans p₃))
          exact ⟨_, us, hall, by simpa using he⟩

theorem places_operand : Places (operand inner) Expr.node := by
  intro s us e s' hs h
  unfold operand Production.operand at h
  obtain ⟨e₁, ts, u₁, s₁, p₁, he₁, h⟩ := (places_primary hl).step hs h
  exact runs_suffixes_over hl hs p₁ he₁ h

/-- The operators of a chain, taken in from the left. -/
theorem runs_operators_over {s₀ : Stream} {us₀ : List Scanned} {ts₀ : List Token} {least n : Nat}
    {compared : Bool} {left e : Expr} (hs₀ : s₀.Ahead us₀) (p₀ : Passed s₀ us₀ ts₀ s us)
    (hleft : left.node.Over ts₀) (h : Runs (operators inner least n compared left) s e s') :
    ∃ ts rest, Passed s₀ us₀ ts s' rest ∧ e.node.Over ts := by
  induction n generalizing s us compared left ts₀ with
  | zero => exact absurd h not_runs_exhausted
  | succ n ih =>
    simp only [operators, Production.operators, monadLift_self] at h
    obtain ⟨t, s₁, p₁, hnext, h⟩ := peek_step p₀.ahead h
    have hdone : ∀ (_ : Runs (pure left) s₁ e s'),
        ∃ ts rest, Passed s₀ us₀ ts s' rest ∧ e.node.Over ts := by
      intro hpure
      obtain ⟨rfl, rfl⟩ := runs_pure.mp hpure
      exact ⟨_, us, p₀.trans p₁, by simpa using hleft⟩
    split at h
    · exact hdone h
    · next op hop =>
      by_cases hlow : op.precedence < least
      · rw [if_pos hlow] at h
        exact hdone h
      · rw [if_neg hlow] at h
        have hne : us ≠ [] := by
          refine ne_nil_of_next p₀.ahead hnext ?_
          rw [ofKind?_eq_some_iff.mp hop]
          cases op <;> simp [Operator.kind]
        obtain ⟨t₂, u₂, s₂, p₂, h⟩ := next_passed p₁.ahead hne h
        by_cases hchain : (compared && op.isComparison) = true
        · rw [if_pos hchain] at h
          exact absurd h not_runs_fail
        · rw [if_neg hchain] at h
          obtain ⟨right, ts₃, u₃, s₃, p₃, hright, h⟩ := (hl.expr _).step p₂.ahead h
          have hall := p₀.trans (p₁.trans (p₂.trans p₃))
          have hcovers := hleft.covers.join hright.covers (hall.inRow hs₀)
          rw [Expr.span_node, Expr.span_node] at hcovers
          have hlays := hleft.lay.append ((Lays.single t₂).append hright.lay)
          have hover : (Expr.binary (left.span.merge right.span) op left right).node.Over _ :=
            Node.over_of_lays hcovers hlays rfl (by simp)
          exact ih hall hover h

theorem places_expr (least : Nat) : Places (expr inner least) Expr.node := by
  intro s us e s' hs h
  unfold expr Production.expr at h
  obtain ⟨left, ts, u₁, s₁, p₁, hleft, h⟩ := (places_operand hl).step hs h
  exact runs_operators_over hl hs p₁ hleft h

/-! ## Declarations and statements -/

theorem places_declaration : Places (declaration inner) Declaration.node := by
  intro s us d s' hs h
  simp only [declaration, Production.declaration, monadLift_self] at h
  obtain ⟨start, s₁, p₁, hnext, h⟩ := peek_step hs h
  obtain ⟨name, _, u₂, s₂, p₂, ⟨t₂, rfl⟩, h⟩ := takes_identifier.step p₁.ahead h
  obtain ⟨t, ts₃, u₃, s₃, p₃, ⟨b, ht⟩, h⟩ := (laysOut_optionalType hl).step p₂.ahead h
  obtain ⟨t₄, _, u₄, s₄, p₄, rfl, h⟩ := (takes_expect _).step p₃.ahead h
  obtain ⟨e, ts₅, u₅, s₅, p₅, he, h⟩ := (hl.expr 0).step p₄.ahead h
  rw [runs_spanFrom_bind] at h
  obtain ⟨rfl, rfl⟩ := runs_pure.mp h
  have hall := p₁.trans (p₂.trans (p₃.trans (p₄.trans p₅)))
  have hlays := (Lays.single t₂).append (ht.append ((Lays.single t₄).append he.lay))
  exact ⟨_, _, hall, Node.over_of_lays (covers_of_next hnext hs hall rfl) hlays (by simp)
    (by cases t <;> simp)⟩

/-- What follows the variable of a loop. The tokens up to there are taken already. -/
theorem runs_headerTail_over {s₀ : Stream} {us₀ : List Scanned} {t : Token} {ts₀ : List Token}
    {x : Option String} {hd : Header} (hs₀ : s₀.Ahead us₀) (p₀ : Passed s₀ us₀ (t :: ts₀) s us)
    {bare : Bool} (hbefore : Lays bare ts₀ [])
    (h : Runs (do
      let first ← inner.expr 0
      if ← accept (.punct .range) then
        let last ← inner.expr 0
        return .range (← spanFrom t.span) x first last
      else
        return .items (← spanFrom t.span) x first) s hd s') :
    ∃ ts rest, Passed s₀ us₀ ts s' rest ∧ hd.node.Over ts := by
  obtain ⟨a, ts₁, u₁, s₁, p₁, ha, h⟩ := (hl.expr 0).step p₀.ahead h
  rcases accept_passed p₁.ahead h with ⟨t₂, u₂, s₂, p₂, h⟩ | ⟨s₂, p₂, h⟩
  · obtain ⟨b, ts₃, u₃, s₃, p₃, hb, h⟩ := (hl.expr 0).step p₂.ahead h
    rw [runs_spanFrom_bind] at h
    obtain ⟨rfl, rfl⟩ := runs_pure.mp h
    have hall := p₀.trans (p₁.trans (p₂.trans p₃))
    have hlays := hbefore.append (ha.lay.append ((Lays.single t₂).append hb.lay))
    exact ⟨_, _, hall, Node.over_of_first (hall.covers hs₀) (hall.inRow hs₀) hlays (by simp)⟩
  · rw [if_neg (by simp), runs_spanFrom_bind] at h
    obtain ⟨rfl, rfl⟩ := runs_pure.mp h
    have hall := p₀.trans (p₁.trans p₂)
    rw [List.append_nil] at hall
    exact ⟨_, _, hall, Node.over_of_first (hall.covers hs₀) (hall.inRow hs₀)
      (hbefore.append ha.lay) (by simp)⟩

theorem places_header : Places (header inner) Header.node := by
  intro s us hd s' hs h
  simp only [header, Production.header, monadLift_self] at h
  obtain ⟨start, s₁, p₁, hnext, h⟩ := peek_step hs h
  rcases accept_passed p₁.ahead h with ⟨t₂, u₂, s₂, p₂, h⟩ | ⟨s₂, p₂, h⟩
  · obtain rfl : t₂ = start := eq_of_next hnext (p₁.trans p₂) rfl
    obtain ⟨named, _, u₃, s₃, p₃, rfl, h⟩ := (takes_nameBefore _).step p₂.ahead h
    cases named with
    | true =>
      obtain ⟨x, _, u₄, s₄, p₄, ⟨t₄, rfl⟩, h⟩ := takes_identifier.step p₃.ahead h
      obtain ⟨t₅, _, u₅, s₅, p₅, rfl, h⟩ := (takes_expect _).step p₄.ahead h
      exact runs_headerTail_over hl hs (p₁.trans (p₂.trans (p₃.trans (p₄.trans p₅))))
        (.token t₄ (.token t₅ .nil)) h
    | false =>
      exact runs_headerTail_over hl hs (p₁.trans (p₂.trans p₃)) .nil h
  · obtain ⟨t₃, _, u₃, s₃, p₃, rfl, h⟩ := (takes_expect _).step p₂.ahead h
    obtain ⟨e, ts₄, u₄, s₄, p₄, he, h⟩ := (hl.expr 0).step p₃.ahead h
    rw [runs_spanFrom_bind] at h
    obtain ⟨rfl, rfl⟩ := runs_pure.mp h
    have hall := p₁.trans (p₂.trans (p₃.trans p₄))
    exact ⟨_, _, hall, Node.over_of_first (covers_of_next hnext hs hall rfl) (hall.inRow hs)
      he.lay (by simp)⟩

/-- A statement that begins with an expression, at the token looked at. -/
theorem runs_exprStmt_over {eof t : Token} {st : Stmt} (hs : s.Ahead us) (hnext : Next us eof t)
    (h : Runs (exprStmt inner t.span) s st s') :
    ∃ ts rest, Passed s us ts s' rest ∧ st.node.Over ts := by
  simp only [exprStmt, Production.exprStmt, monadLift_self] at h
  obtain ⟨target, ts₁, u₁, s₁, p₁, htarget, h⟩ := (places_operand hl).step hs h
  obtain ⟨first, hfirst, -⟩ := htarget.covers.first
  rcases accept_passed p₁.ahead h with ⟨t₂, u₂, s₂, p₂, h⟩ | ⟨s₂, p₂, h⟩
  · obtain ⟨v, ts₃, u₃, s₃, p₃, hv, h⟩ := (hl.expr 0).step p₂.ahead h
    rw [runs_spanFrom_bind] at h
    obtain ⟨rfl, rfl⟩ := runs_pure.mp h
    have hall := p₁.trans (p₂.trans p₃)
    have hhead : (ts₁ ++ ([t₂] ++ ts₃)).head? = some first := by
      rw [List.head?_append, hfirst]
      rfl
    have hlays := htarget.lay.append ((Lays.single t₂).append hv.lay)
    exact ⟨_, _, hall, Node.over_of_lays (covers_of_next hnext hs hall hhead) hlays (by simp)
      (by simp)⟩
  · rw [if_neg (by simp)] at h
    have hall := p₁.trans p₂
    rw [List.append_nil] at hall
    split at h
    · next span f es =>
      rw [runs_spanFrom_bind] at h
      obtain ⟨rfl, rfl⟩ := runs_pure.mp h
      -- the statement takes over what stands inside the call
      obtain ⟨b, hinner, hwrap⟩ := htarget.lays
      rw [hwrap (Expr.mayWrap_node _)] at hinner
      exact ⟨_, _, hall, Node.over_of_lays (covers_of_next hnext hs hall hfirst) hinner
        (by simp [Node.inner]) (by simp)⟩
    · exact absurd h not_runs_fail

theorem runs_loop_over {eof t : Token} {st : Stmt} (hs : s.Ahead us) (hnext : Next us eof t)
    (h : Runs (do
      let h ← header inner
      let _ ← expect (.keyword .loopKw)
      let stmts ← inner.stmts
      let _ ← expect (.keyword .endKw)
      return .loop (← spanFrom t.span) h stmts) s st s') :
    ∃ ts rest, Passed s us ts s' rest ∧ st.node.Over ts := by
  obtain ⟨hd, ts₁, u₁, s₁, p₁, hhd, h⟩ := (places_header hl).step hs h
  obtain ⟨t₂, _, u₂, s₂, p₂, rfl, h⟩ := (takes_expect _).step p₁.ahead h
  obtain ⟨body, ts₃, u₃, s₃, p₃, ⟨b, hbody⟩, h⟩ := hl.stmts.step p₂.ahead h
  obtain ⟨t₄, _, u₄, s₄, p₄, rfl, h⟩ := (takes_expect _).step p₃.ahead h
  rw [runs_spanFrom_bind] at h
  obtain ⟨rfl, rfl⟩ := runs_pure.mp h
  obtain ⟨first, hfirst, -⟩ := hhd.covers.first
  have hall := p₁.trans (p₂.trans (p₃.trans p₄))
  have hhead : (ts₁ ++ ([t₂] ++ (ts₃ ++ [t₄]))).head? = some first := by
    rw [List.head?_append, hfirst]
    rfl
  have hlays := hhd.lay.append ((Lays.single t₂).append (hbody.behind t₄))
  exact ⟨_, _, hall, Node.over_of_lays (covers_of_next hnext hs hall hhead) hlays (by simp)
    (by simp)⟩

theorem places_plainStmt : Places (plainStmt inner) Stmt.node := by
  intro s us st s' hs h
  simp only [plainStmt, Production.plainStmt, monadLift_self] at h
  obtain ⟨t, s₁, p₁, hnext, h⟩ := peek_step hs h
  have hne : t.kind ≠ .eof → us ≠ [] := ne_nil_of_next hs hnext
  have hgo : (∃ ts rest, Passed s₁ us ts s' rest ∧ st.node.Over ts) →
      ∃ ts rest, Passed s us ts s' rest ∧ st.node.Over ts := by
    rintro ⟨ts, rest, p₂, hover⟩
    exact ⟨_, _, p₁.trans p₂, hover⟩
  split at h
  · next hk =>
    obtain ⟨t₂, u₂, s₂, p₂, h⟩ := next_passed p₁.ahead (hne (by simp [hk])) h
    obtain ⟨ended, _, u₃, s₃, p₃, rfl, h⟩ := takes_atReturnEnd.step p₂.ahead h
    cases ended with
    | true =>
      rw [if_pos rfl, runs_spanFrom_bind] at h
      obtain ⟨rfl, rfl⟩ := runs_pure.mp h
      have hall := p₁.trans (p₂.trans p₃)
      exact ⟨_, _, hall, Node.over_of_lays (covers_of_next hnext hs hall rfl)
        (Lays.single t₂) rfl (by simp)⟩
    | false =>
      obtain ⟨e, ts₄, u₄, s₄, p₄, he, h⟩ := (hl.expr 0).step p₃.ahead h
      rw [runs_spanFrom_bind] at h
      obtain ⟨rfl, rfl⟩ := runs_pure.mp h
      have hall := p₁.trans (p₂.trans (p₃.trans p₄))
      exact ⟨_, _, hall, Node.over_of_lays (covers_of_next hnext hs hall rfl)
        ((Lays.single t₂).append he.lay) (by simp) (by simp)⟩
  · next hk =>
    obtain ⟨t₂, u₂, s₂, p₂, h⟩ := next_passed p₁.ahead (hne (by simp [hk])) h
    rw [runs_spanFrom_bind] at h
    obtain ⟨rfl, rfl⟩ := runs_pure.mp h
    have hall := p₁.trans p₂
    exact ⟨_, _, hall, Node.over_of_lays (covers_of_next hnext hs hall rfl) (Lays.single t₂) rfl
      (by simp)⟩
  · next hk =>
    obtain ⟨t₂, u₂, s₂, p₂, h⟩ := next_passed p₁.ahead (hne (by simp [hk])) h
    obtain ⟨t₃, _, u₃, s₃, p₃, rfl, h⟩ := (takes_expect _).step p₂.ahead h
    obtain ⟨es, ts₄, u₄, s₄, p₄, ⟨b, hes⟩, h⟩ := (laysOut_arguments hl).step p₃.ahead h
    rw [runs_spanFrom_bind] at h
    obtain ⟨rfl, rfl⟩ := runs_pure.mp h
    have hall := p₁.trans (p₂.trans (p₃.trans p₄))
    have hlays := (Lays.single t₂).append ((Lays.single t₃).append hes)
    exact ⟨_, _, hall, Node.over_of_lays (covers_of_next hnext hs hall rfl) hlays (by simp)
      (by simp)⟩
  · next hk =>
    obtain ⟨t₂, u₂, s₂, p₂, h⟩ := next_passed p₁.ahead (hne (by simp [hk])) h
    obtain ⟨c, ts₃, u₃, s₃, p₃, hc, h⟩ := (hl.expr 0).step p₂.ahead h
    obtain ⟨t₄, _, u₄, s₄, p₄, rfl, h⟩ := (takes_expect _).step p₃.ahead h
    obtain ⟨a, ts₅, u₅, s₅, p₅, ⟨b, ha⟩, h⟩ := hl.stmts.step p₄.ahead h
    have hbefore := (Lays.single t₂).append (hc.lay.append ((Lays.single t₄).append ha))
    rcases accept_passed p₅.ahead h with ⟨t₆, u₆, s₆, p₆, h⟩ | ⟨s₆, p₆, h⟩
    · obtain ⟨e, ts₇, u₇, s₇, p₇, ⟨b', he⟩, h⟩ := hl.stmts.step p₆.ahead h
      obtain ⟨t₈, _, u₈, s₈, p₈, rfl, h⟩ := (takes_expect _).step p₇.ahead h
      rw [runs_spanFrom_bind] at h
      obtain ⟨rfl, rfl⟩ := runs_pure.mp h
      have hall := (p₁.trans (p₂.trans (p₃.trans (p₄.trans p₅)))).trans (p₆.trans (p₇.trans p₈))
      have hlays := hbefore.append ((Lays.single t₆).append (he.behind t₈))
      exact ⟨_, _, hall, Node.over_of_lays (covers_of_next hnext hs hall rfl) hlays (by simp)
        (by simp)⟩
    · obtain ⟨t₇, _, u₇, s₇, p₇, rfl, h⟩ := (takes_expect _).step p₆.ahead h
      rw [runs_spanFrom_bind] at h
      obtain ⟨rfl, rfl⟩ := runs_pure.mp h
      have hall := (p₁.trans (p₂.trans (p₃.trans (p₄.trans p₅)))).trans (p₆.trans p₇)
      exact ⟨_, _, hall, Node.over_of_lays (covers_of_next hnext hs hall rfl)
        (hbefore.behind t₇) (by simp) (by simp)⟩
  · exact hgo (runs_loop_over hl p₁.ahead hnext h)
  · exact hgo (runs_loop_over hl p₁.ahead hnext h)
  · exact hgo (runs_exprStmt_over hl p₁.ahead hnext h)

theorem places_stmt : Places (stmt inner) Stmt.node := by
  intro s us st s' hs h
  simp only [stmt, Production.stmt, monadLift_self] at h
  obtain ⟨declares, _, u₁, s₁, p₁, rfl, h⟩ := takes_atDeclaration.step hs h
  cases declares with
  | true =>
    obtain ⟨d, ts₂, u₂, s₂, p₂, hd, h⟩ := (places_declaration hl).step p₁.ahead h
    obtain ⟨rfl, rfl⟩ := runs_pure.mp h
    obtain ⟨span, x, t, v⟩ := d
    have hover : (Stmt.declaration span ⟨span, x, t, v⟩).node.Over ts₂ :=
      ⟨hd.covers, ⟨false, hd.lay, by simp [Node.mayWrap]⟩,
        Node.startsBare_of_bodiless (by simp) (by simp)⟩
    exact ⟨_, _, p₁.trans p₂, hover⟩
  | false =>
    obtain ⟨ts, u₂, p₂, hover⟩ := places_plainStmt hl p₁.ahead h
    exact ⟨_, _, p₁.trans p₂, hover⟩

omit hl in
/-- A semicolon behind a declaration or a statement is bare. -/
theorem laysOut_semicolon : LaysOut (accept (.punct .semicolon)) (fun _ => []) := by
  intro s us b s' hs h
  obtain ⟨ts, rest, hp, ⟨-, t, rfl⟩ | ⟨-, rfl⟩⟩ := takes_accept _ hs h
  · exact ⟨_, _, hp, _, Lays.single t⟩
  · exact ⟨_, _, hp, _, .nil⟩

theorem laysOut_stmts (n : Nat) : LaysOut (stmts inner n) stmtNodes := by
  induction n with
  | zero => exact takes_exhausted _
  | succ n ih =>
    intro s us sts s' hs h
    simp only [stmts, Production.stmts, monadLift_self] at h
    obtain ⟨t, s₁, p₁, -, h⟩ := peek_step hs h
    have hend : ∀ (_ : Runs (pure []) s₁ sts s'),
        ∃ ts rest, Passed s us ts s' rest ∧ ∃ b, Lays b ts (stmtNodes sts) := by
      intro hpure
      obtain ⟨rfl, rfl⟩ := runs_pure.mp hpure
      exact ⟨[], us, p₁, _, .nil⟩
    split at h
    · exact hend h
    · exact hend h
    · exact hend h
    · obtain ⟨st, ts₂, u₂, s₂, p₂, hst, h⟩ := (places_stmt hl).step p₁.ahead h
      obtain ⟨_, ts₃, u₃, s₃, p₃, ⟨b, hsemi⟩, h⟩ := laysOut_semicolon.step p₂.ahead h
      obtain ⟨rest, ts₄, u₄, s₄, p₄, ⟨b', hrest⟩, h⟩ := ih.step p₃.ahead h
      obtain ⟨rfl, rfl⟩ := runs_pure.mp h
      exact ⟨_, _, p₁.trans (p₂.trans (p₃.trans p₄)), _, hst.lay.append (hsemi.append hrest)⟩

end Readers

/-! ## All levels -/

theorem isPlacing_level (n : Nat) : (level n).IsPlacing := by
  induction n with
  | zero => exact ⟨fun _ => takes_exhausted _, takes_exhausted _, takes_exhausted _⟩
  | succ n ih => exact ⟨places_expr ih, places_typeExpr ih, laysOut_stmts ih _⟩

/-- Declarations are laid out over all tokens up to the end of the text. -/
theorem laysOut_declarations {inner : Level} (hl : inner.IsPlacing) {n : Nat}
    {ds : List Declaration} (hs : s.Ahead us) (h : Runs (declarations inner n) s ds s') :
    ∃ b ts, Passed s us ts s' [] ∧ Lays b ts (ds.map Declaration.node) := by
  induction n generalizing s us ds with
  | zero => exact absurd h not_runs_exhausted
  | succ n ih =>
    simp only [declarations, Production.declarations, monadLift_self] at h
    obtain ⟨t, s₁, hpeek, h⟩ := runs_bind.mp h
    have p₁ := passed_peekAt hs hpeek
    obtain ⟨-, hkind, -⟩ := runs_peekAt hs.shows hpeek
    split at h
    · next hk =>
      obtain ⟨rfl, rfl⟩ := runs_pure.mp h
      rw [hk] at hkind
      obtain rfl := hs.shows.eq_nil_of_eof hkind
      exact ⟨_, [], p₁, .nil⟩
    · obtain ⟨d, ts₂, u₂, s₂, p₂, hd, h⟩ := (places_declaration hl).step p₁.ahead h
      obtain ⟨_, ts₃, u₃, s₃, p₃, ⟨b, hsemi⟩, h⟩ := laysOut_semicolon.step p₂.ahead h
      obtain ⟨rest, s₄, hrest, h⟩ := runs_bind.mp h
      obtain ⟨rfl, rfl⟩ := runs_pure.mp h
      obtain ⟨b', ts₄, p₄, hrest⟩ := ih p₃.ahead hrest
      exact ⟨_, _, p₁.trans (p₂.trans (p₃.trans p₄)), hd.lay.append (hsemi.append hrest)⟩

theorem laysOut_program {p : Program} (hs : s.Ahead us) (h : Runs Program.read s p s') :
    ∃ start b ts, Passed s us ts s' [] ∧ Lays b ts p.nodes ∧ Next us s.eof start ∧
      p.span = start.span.merge s.eof.span := by
  simp only [Program.read, outermost, Production.program, monadLift_self] at h
  obtain ⟨outer, s₁, houter, h⟩ := runs_bind.mp h
  rw [runs_get_bind] at houter
  obtain ⟨rfl, rfl⟩ := runs_pure.mp houter
  obtain ⟨start, s₂, p₂, hstart, h⟩ := peek_step hs h
  obtain ⟨ds, s₃, hds, h⟩ := runs_bind.mp h
  obtain ⟨b, ts, p₃, hlays⟩ := laysOut_declarations (isPlacing_level _) p₂.ahead hds
  obtain ⟨stop, s₄, p₄, hstop, h⟩ := peek_step p₃.ahead h
  obtain ⟨rfl, rfl⟩ := runs_pure.mp h
  have hall := p₂.trans (p₃.trans p₄)
  rw [List.append_nil] at hall
  have heof : stop = s₁.eof := by
    rcases hstop with ⟨rest, hcons⟩ | ⟨-, rfl⟩
    · cases hcons
    · exact p₃.eof.trans p₂.eof
  subst heof
  exact ⟨start, b, ts, hall, hlays, hstart, rfl⟩

end Grammar

/-! ## Whole texts -/

theorem Span.start_merge_le (s t : Span) : (s.merge t).start ≤ s.start := by
  unfold merge
  split
  · exact Nat.le_refl _
  · show t.start ≤ s.start
    omega

theorem Span.le_stop_merge (s t : Span) : t.stop ≤ (s.merge t).stop := Nat.le_max_right _ _

/-- A program that is read from a text is laid out over all its tokens. -/
structure Program.LaidOut (text : List Char) (p : Program) (ts : List Token) : Prop where
  scan : Lexer.scan text = ts.map .token
  lays : ∃ b, Lays b ts p.nodes
  start : ∀ t ∈ ts, p.span.start ≤ t.span.start
  stop : byteLength text ≤ p.span.stop

theorem Program.LaidOut.laid {text : List Char} {p : Program} {ts : List Token}
    (h : p.LaidOut text ts) : ∃ b, Laid b ts p.nodes := by
  obtain ⟨b, hlays⟩ := h.lays
  have hrow : InRow ts := by
    have horder := inOrder_scan text
    rwa [h.scan] at horder
  exact ⟨b, hlays.laid hrow⟩

theorem laidOut_of_ofText {text : List Char} {p : Program} (h : Program.ofText text = .ok p) :
    ∃ ts, p.LaidOut text ts := by
  obtain ⟨s', hrun⟩ : ∃ s', ReadM.Runs Program.read (Stream.ofText text) p s' := by
    unfold Program.ofText at h
    split at h
    · next p' s' hread =>
      obtain rfl := Except.ok.inj h
      exact ⟨s', hread⟩
    · cases h
  have hs : (Stream.ofText text).Ahead (Lexer.scan text) :=
    ⟨shows_ofText text, inOrder_scan text⟩
  obtain ⟨start, b, ts, hp, hlays, hnext, hspan⟩ := Grammar.laysOut_program hs hrun
  have hscan : Lexer.scan text = ts.map .token := by rw [hp.split, List.append_nil]
  refine ⟨ts, hscan, ⟨b, hlays⟩, ?_, ?_⟩
  · intro t ht
    obtain ⟨first, rest, rfl⟩ := List.exists_cons_of_ne_nil (List.ne_nil_of_mem ht)
    obtain rfl : first = start := Grammar.eq_of_next hnext hp rfl
    have hle := Span.start_merge_le first.span (Stream.ofText text).eof.span
    rw [hspan]
    rcases List.mem_cons.mp ht with rfl | hmem
    · exact hle
    · have hbefore := (hp.inRow hs).head_before hmem
      have hlt := (hp.inRow hs).nonempty List.mem_cons_self
      unfold Span.Before at hbefore
      omega
  · have hle := Span.le_stop_merge start.span (Lexer.eof text).span
    have heof : (Lexer.eof text).span.stop = byteLength text := by
      rw [span_eof, Span.stop_covering]
      rfl
    rw [heof] at hle
    rw [hspan]
    exact hle

/-- Where a node may stand in a text. -/
structure Node.WellPlaced (text : List Char) (n : Node) : Prop where
  start_lt_stop : n.span.start < n.span.stop
  stop_le : n.span.stop ≤ byteLength text
  /-- The node begins where a token begins. -/
  firstToken : ∃ t, .token t ∈ Lexer.scan text ∧ t.span.start = n.span.start
  /-- The node ends where a token ends. -/
  lastToken : ∃ t, .token t ∈ Lexer.scan text ∧ t.span.stop = n.span.stop
  position : n.span.position = (LineIndex.ofText text).position n.span.start
  inside : ∀ m ∈ n.inner, m.span.Inside n.span
  ordered : n.inner.Pairwise fun a b => a.span.Before b.span

theorem Node.Bounded.liesIn {text : List Char} {ts : List Token} {n : Node}
    (hscan : Lexer.scan text = ts.map .token) (h : n.Bounded ts) (horderly : n.Orderly) :
    n.span.LiesIn text := by
  have hlies : ∀ t ∈ ts, t.span.LiesIn text := by
    intro t ht
    have hmem : Scanned.token t ∈ Lexer.scan text := by
      rw [hscan]
      exact List.mem_map_of_mem ht
    exact liesIn_of_mem_scan hmem
  obtain ⟨t, ht, hstart, hposition⟩ := h.start
  obtain ⟨u, hu, hstop⟩ := h.stop
  exact {
    start_le_stop := Nat.le_of_lt horderly.nonempty
    stop_le := hstop ▸ (hlies u hu).stop_le
    startBoundary := hstart ▸ (hlies t ht).startBoundary
    stopBoundary := hstop ▸ (hlies u hu).stopBoundary
    position := by rw [hposition, hstart, (hlies t ht).position] }

/-- The nodes of a program that is read from a text stand in it where they should: each goes from
the beginning of a token to the end of a token, those inside it lie in its text one behind the
other, and no two expressions cover the same bytes. -/
theorem wellPlaced_of_ofText {text : List Char} {p : Program} (h : Program.ofText text = .ok p) :
    (∀ n ∈ Node.allOf p.nodes, n.WellPlaced text) ∧
      (∀ n ∈ p.nodes, n.span.Inside p.span) ∧
      p.nodes.Pairwise (fun a b => a.span.Before b.span) ∧
      (((Node.allOf p.nodes).filter (·.sort = .expr)).map (·.span.bytes)).Nodup := by
  obtain ⟨ts, hout⟩ := laidOut_of_ofText h
  obtain ⟨b, hlaid⟩ := hout.laid
  have hmem : ∀ t ∈ ts, Scanned.token t ∈ Lexer.scan text := by
    intro t ht
    rw [hout.scan]
    exact List.mem_map_of_mem ht
  have hlies : ∀ n ∈ Node.allOf p.nodes, n.span.LiesIn text :=
    fun n hn => (hlaid.bounded n hn).liesIn hout.scan (hlaid.orderly n hn)
  refine ⟨?_, ?_, hlaid.ordered, ?_⟩
  · intro n hn
    obtain ⟨t, ht, hstart, -⟩ := (hlaid.bounded n hn).start
    obtain ⟨u, hu, hstop⟩ := (hlaid.bounded n hn).stop
    have horderly := hlaid.orderly n hn
    exact ⟨horderly.nonempty, (hlies n hn).stop_le, ⟨t, hmem t ht, hstart.symm⟩,
      ⟨u, hmem u hu, hstop.symm⟩, (hlies n hn).position, horderly.inside, horderly.ordered⟩
  · intro n hn
    have hn' := Node.mem_allOf_of_mem hn
    obtain ⟨t, ht, hstart, -⟩ := (hlaid.bounded n hn').start
    have hle := hout.start t ht
    have hle' := hout.stop
    have hstop := (hlies n hn').stop_le
    exact ⟨by omega, by omega⟩
  · have hapart : Node.Apart (Node.allOf p.nodes) :=
      Node.apart_allOf hlaid.orderly hlaid.ordered fun n hn =>
        Node.apart_all n fun m hm => hlaid.orderly m (Node.mem_allOf.mpr ⟨n, hn, hm⟩)
    -- an expression wraps nothing
    have hexpr : ∀ n : Node, n.sort = .expr → n.mayWrap = false := by
      rintro ⟨sort, span, inner⟩ hsort
      obtain rfl : sort = .expr := hsort
      rfl
    refine List.pairwise_map.mpr (List.Pairwise.imp_of_mem ?_ (hapart.filter _))
    intro a b ha _ hab
    exact hab (hexpr a (by simpa using (List.mem_filter.mp ha).2))

/-- A text with nodes of all sorts, parentheses and a statement that is a declaration. -/
def nestedText : List Char :=
  "f is func(a: [integer]) do for i in (1) .. 2 loop b is {i: (x is a, 2)}; end end".toList

theorem wellPlaced_of_ofText_nestedText :
    ∃ p, Program.ofText nestedText = .ok p ∧ ((Node.allOf p.nodes).map Node.sort).dedup.length = 9 ∧
      (∀ n ∈ Node.allOf p.nodes, n.WellPlaced nestedText) ∧
      (∀ n ∈ p.nodes, n.span.Inside p.span) ∧
      p.nodes.Pairwise (fun a b => a.span.Before b.span) ∧
      (((Node.allOf p.nodes).filter (·.sort = .expr)).map (·.span.bytes)).Nodup := by
  have hsorts : (Program.ofText nestedText).toOption.map
      (fun p => ((Node.allOf p.nodes).map Node.sort).dedup.length) = some 9 := by decide +kernel
  cases h : Program.ofText nestedText with
  | error e => simp [h, Except.toOption] at hsorts
  | ok p =>
    rw [h] at hsorts
    exact ⟨p, rfl, Option.some.inj hsorts, wellPlaced_of_ofText h⟩

end ExprCheck
