import Mathlib
import ExprCheck.Program
import ExprCheck.Proofs.Places

/-!
# Nodes and the tokens under them

For questions about spans only, a program is a forest of nodes: each covers some text and has other
nodes right inside it. A node is orderly if the nodes inside it lie in its text, one behind the other,
and cover less text than it does. Two sorts of nodes may cover exactly the text of the one node
inside them: an element of a tuple without a name, and a statement that is a declaration.

Nodes are orderly because they are laid out over the tokens they were read from. `Lays` describes
such a layout: every node goes from the first to the last token of a stretch of tokens, and the
stretches of neighbours follow each other. In every node but those two there is a bare token, one that
belongs to none of the nodes inside it. In a function literal and in the header of a loop it is the
first token.
-/

namespace ExprCheck

/-- What a node of a program is. -/
inductive NodeSort where
  | declaration | typeExpr | expr | param | body | entry | element | header | stmt
deriving DecidableEq

/-- A node: what it is, the text it covers, and the nodes right inside it, from left to right. -/
inductive Node where
  | mk (sort : NodeSort) (span : Span) (inner : List Node)

/-- The bytes that a span covers, without the position. -/
def Span.bytes (s : Span) : Nat × Nat := (s.start, s.stop)

namespace Node

def sort : Node → NodeSort
  | mk sort _ _ => sort

def span : Node → Span
  | mk _ span _ => span

def inner : Node → List Node
  | mk _ _ inner => inner

@[simp] theorem sort_mk (sort : NodeSort) (span : Span) (inner : List Node) :
    (mk sort span inner).sort = sort := rfl

@[simp] theorem inner_mk (sort : NodeSort) (span : Span) (inner : List Node) :
    (mk sort span inner).inner = inner := rfl

/-- Whether a node may cover no more text than a node inside it. -/
def mayWrap : Node → Bool
  | mk .element _ _ => true
  | mk .stmt _ [mk .declaration _ _] => true
  | _ => false

/-- None of the nodes is the body of a function literal. -/
def Bodiless (ns : List Node) : Prop := ∀ n ∈ ns, n.sort ≠ .body

/-- The node begins before the nodes inside it, if it is a function literal or the header of a
loop. -/
def StartsBare (n : Node) : Prop :=
  n.sort = .header ∨ ¬ Bodiless n.inner → ∀ m ∈ n.inner, n.span.start < m.span.start

mutual

/-- A node and all nodes inside it, at any depth. -/
@[simp] def all : Node → List Node
  | mk sort span inner => mk sort span inner :: allOf inner

/-- Some nodes and all nodes inside them. -/
@[simp] def allOf : List Node → List Node
  | [] => []
  | n :: rest => n.all ++ allOf rest

end

/-- The nodes inside a node lie in its text, in order, and cover less of it. -/
structure Orderly (n : Node) : Prop where
  nonempty : n.span.start < n.span.stop
  inside : ∀ m ∈ n.inner, m.span.Inside n.span
  ordered : n.inner.Pairwise fun a b => a.span.Before b.span
  proper : n.mayWrap = false → ∀ m ∈ n.inner, m.span.bytes ≠ n.span.bytes

@[simp] theorem bodiless_nil : Bodiless [] := by simp [Bodiless]

@[simp] theorem bodiless_cons {n : Node} {ns : List Node} :
    Bodiless (n :: ns) ↔ n.sort ≠ .body ∧ Bodiless ns := by simp [Bodiless]

@[simp] theorem bodiless_append {ms ns : List Node} :
    Bodiless (ms ++ ns) ↔ Bodiless ms ∧ Bodiless ns := List.forall_mem_append

theorem bodiless_map {α : Type} {node : α → Node} (h : ∀ a, (node a).sort ≠ .body) (as : List α) :
    Bodiless (as.map node) := by
  simpa [Bodiless] using fun a _ => h a

/-- The condition is about headers and about nodes with a body inside. -/
theorem startsBare_of_bodiless {n : Node} (hsort : n.sort ≠ .header) (hbody : Bodiless n.inner) :
    n.StartsBare := by
  rintro (hheader | hbody')
  · exact absurd hheader hsort
  · exact absurd hbody hbody'

theorem all_eq (n : Node) : n.all = n :: allOf n.inner := by
  cases n
  rfl

/-- The nodes of a list are those of its members. -/
theorem mem_allOf {m : Node} {ns : List Node} : m ∈ allOf ns ↔ ∃ n ∈ ns, m ∈ n.all := by
  induction ns with
  | nil => simp
  | cons n ns ih => simp [ih]

theorem self_mem_all (n : Node) : n ∈ n.all := by
  rw [all_eq]
  exact List.mem_cons_self

theorem mem_allOf_of_mem {n : Node} {ns : List Node} (h : n ∈ ns) : n ∈ allOf ns :=
  mem_allOf.mpr ⟨n, h, self_mem_all n⟩

theorem mem_all_of_inner {m n : Node} (h : m ∈ allOf n.inner) : m ∈ n.all := by
  rw [all_eq]
  exact List.mem_cons_of_mem _ h

theorem allOf_append (ms ns : List Node) : allOf (ms ++ ns) = allOf ms ++ allOf ns := by
  induction ms with
  | nil => rfl
  | cons m ms ih => simp [ih]

theorem sizeOf_inner {m n : Node} (h : m ∈ n.inner) : sizeOf m < sizeOf n := by
  obtain ⟨sort, span, inner⟩ := n
  have hlt : sizeOf m < sizeOf inner := List.sizeOf_lt_of_mem h
  simp only [mk.sizeOf_spec]
  omega

/-- What holds of every node if it holds of the nodes right inside it holds of all nodes. -/
theorem inner_induction {P : Node → Prop} (h : ∀ n : Node, (∀ m ∈ n.inner, P m) → P n) (n : Node) :
    P n :=
  h n fun m _ => inner_induction h m
termination_by sizeOf n
decreasing_by exact sizeOf_inner ‹_›

/-- What lies in a node that lies in another one lies in that one. -/
theorem all_subset {m n : Node} (h : m ∈ n.all) : ∀ k ∈ m.all, k ∈ n.all := by
  induction n using inner_induction with
  | h n ih =>
    intro k hk
    rw [all_eq] at h
    rcases List.mem_cons.mp h with rfl | h
    · exact hk
    · obtain ⟨j, hj, hmj⟩ := mem_allOf.mp h
      exact mem_all_of_inner (mem_allOf.mpr ⟨j, hj, ih j hj hmj k hk⟩)

/-- In an orderly tree every node stands inside the root. -/
theorem inside_of_mem_all {n : Node} (h : ∀ m ∈ n.all, m.Orderly) :
    ∀ m ∈ n.all, m.span.Inside n.span := by
  induction n using inner_induction with
  | h n ih =>
    intro m hm
    rw [all_eq] at hm
    rcases List.mem_cons.mp hm with rfl | hm
    · exact ⟨Nat.le_refl _, Nat.le_refl _⟩
    · obtain ⟨k, hk, hmk⟩ := mem_allOf.mp hm
      have hk' : ∀ m ∈ k.all, m.Orderly :=
        fun m' hm' => h m' (mem_all_of_inner (mem_allOf.mpr ⟨k, hk, hm'⟩))
      exact (ih k hk hk' m hmk).trans ((h n (self_mem_all n)).inside k hk)

/-- What lies in two nodes that stand one behind the other stands so too. -/
theorem before_of_mem_all {a b m k : Node} (ha : ∀ m ∈ a.all, m.Orderly)
    (hb : ∀ m ∈ b.all, m.Orderly) (hab : a.span.Before b.span) (hm : m ∈ a.all) (hk : k ∈ b.all) :
    m.span.Before k.span := by
  have hm' := inside_of_mem_all ha m hm
  have hk' := inside_of_mem_all hb k hk
  unfold Span.Before at hab ⊢
  unfold Span.Inside at hm' hk'
  omega

/-- Relates all nodes of a list, at any depth, if it relates nodes that stand one behind the other
and the nodes of each tree. -/
theorem pairwise_allOf {R : Node → Node → Prop} {ns : List Node} (h : ∀ m ∈ allOf ns, m.Orderly)
    (hns : ns.Pairwise fun a b => a.span.Before b.span)
    (hbehind : ∀ a ∈ allOf ns, ∀ b, a.span.Before b.span → R a b)
    (hall : ∀ n ∈ ns, n.all.Pairwise R) : (allOf ns).Pairwise R := by
  induction ns with
  | nil => exact .nil
  | cons n ns ih =>
    obtain ⟨hbefore, hpair⟩ := List.pairwise_cons.mp hns
    have horderly : ∀ k ∈ n :: ns, ∀ m ∈ k.all, m.Orderly :=
      fun k hk m hm => h m (mem_allOf.mpr ⟨k, hk, hm⟩)
    have hrest : (allOf ns).Pairwise R :=
      ih (fun m hm => h m (List.mem_append_right _ hm)) hpair
        (fun a ha => hbehind a (List.mem_append_right _ ha))
        fun k hk => hall k (List.mem_cons_of_mem _ hk)
    refine List.pairwise_append.mpr ⟨hall n List.mem_cons_self, hrest, ?_⟩
    intro a ha b hb
    obtain ⟨k, hk, hbk⟩ := mem_allOf.mp hb
    refine hbehind a (List.mem_append_left _ ha) b ?_
    exact before_of_mem_all (horderly n List.mem_cons_self)
      (horderly k (List.mem_cons_of_mem _ hk)) (hbefore k hk) ha hbk

/-- Relates the nodes of a tree if it relates nodes that stand one behind the other, and each node
to those inside it. -/
theorem pairwise_all {R : Node → Node → Prop} (n : Node) (h : ∀ m ∈ n.all, m.Orderly)
    (hbehind : ∀ a ∈ n.all, ∀ b, a.span.Before b.span → R a b)
    (hinside : ∀ m ∈ n.all, ∀ b ∈ allOf m.inner, R m b) : n.all.Pairwise R := by
  induction n using inner_induction with
  | h n ih =>
    have hinner : ∀ k ∈ n.inner, ∀ m ∈ k.all, m ∈ n.all :=
      fun k hk m hm => mem_all_of_inner (mem_allOf.mpr ⟨k, hk, hm⟩)
    rw [all_eq]
    refine List.pairwise_cons.mpr ⟨hinside n (self_mem_all n), ?_⟩
    refine pairwise_allOf (fun m hm => h m (mem_all_of_inner hm)) (h n (self_mem_all n)).ordered
      (fun a ha => hbehind a (mem_all_of_inner ha)) fun k hk => ?_
    exact ih k hk (fun m hm => h m (hinner k hk m hm)) (fun a ha => hbehind a (hinner k hk a ha))
      fun m hm => hinside m (hinner k hk m hm)

/-- What lies in a node that covers less than another one around it does not cover all of it. -/
theorem bytes_ne_of_proper {n k m : Node} (hk : k.span.Inside n.span)
    (hne : k.span.bytes ≠ n.span.bytes) (hm : m.span.Inside k.span) :
    m.span.bytes ≠ n.span.bytes := by
  unfold Span.Inside at hk hm
  intro heq
  have hstart : m.span.start = n.span.start := congrArg Prod.fst heq
  have hstop : m.span.stop = n.span.stop := congrArg Prod.snd heq
  refine hne (Prod.ext ?_ ?_)
  · show k.span.start = n.span.start
    omega
  · show k.span.stop = n.span.stop
    omega

/-- Two nodes of a list cover different bytes, unless the first may wrap the second. -/
def Apart (ns : List Node) : Prop :=
  ns.Pairwise fun a b => a.mayWrap = false → a.span.bytes ≠ b.span.bytes

/-- Nodes of which one stands before the other cover different text, since neither is empty. -/
theorem bytes_ne_of_before {a b : Node} (ha : a.Orderly) (hab : a.span.Before b.span) :
    a.span.bytes ≠ b.span.bytes := by
  have hne := ha.nonempty
  unfold Span.Before at hab
  intro heq
  have hstart : a.span.start = b.span.start := congrArg Prod.fst heq
  omega

theorem apart_allOf {ns : List Node} (h : ∀ m ∈ allOf ns, m.Orderly)
    (hns : ns.Pairwise fun a b => a.span.Before b.span) (hapart : ∀ n ∈ ns, Apart n.all) :
    Apart (allOf ns) :=
  pairwise_allOf h hns (fun a ha _ hab _ => bytes_ne_of_before (h a ha) hab) hapart

theorem apart_all (n : Node) (h : ∀ m ∈ n.all, m.Orderly) : Apart n.all := by
  refine pairwise_all n h (fun a ha _ hab _ => bytes_ne_of_before (h a ha) hab) ?_
  intro m hm b hb hwrap heq
  have hself := h m hm
  obtain ⟨k, hk, hbk⟩ := mem_allOf.mp hb
  have hinner : ∀ j ∈ k.all, j.Orderly :=
    fun j hj => h j (all_subset hm j (mem_all_of_inner (mem_allOf.mpr ⟨k, hk, hj⟩)))
  exact bytes_ne_of_proper (hself.inside k hk) (hself.proper hwrap k hk)
    (inside_of_mem_all hinner b hbk) heq.symm

/-- The node opens a scope: it is a function literal or a loop. -/
def Opens (n : Node) : Prop :=
  (n.sort = .expr ∧ ¬ Bodiless n.inner) ∨
    (n.sort = .stmt ∧ ∃ h rest, n.inner = h :: rest ∧ h.sort = .header)

/-- A scope that is opened inside another one is opened further behind. -/
theorem start_lt_of_opens {n b : Node} (h : ∀ m ∈ n.all, m.Orderly)
    (hbare : ∀ m ∈ n.all, m.StartsBare) (hb : b ∈ allOf n.inner) (hn : n.Opens) (hb' : b.Opens) :
    n.span.start < b.span.start := by
  have hself := h n (self_mem_all n)
  have hmem : ∀ {k m : Node}, k ∈ n.inner → m ∈ k.all → m ∈ n.all :=
    fun hk hm => mem_all_of_inner (mem_allOf.mpr ⟨_, hk, hm⟩)
  have hle : ∀ {k m : Node}, k ∈ n.inner → m ∈ k.all → k.span.start ≤ m.span.start :=
    fun hk hm => (inside_of_mem_all (fun _ hm' => h _ (hmem hk hm')) _ hm).1
  obtain ⟨k, hk, hbk⟩ := mem_allOf.mp hb
  have hkb := hle hk hbk
  rcases hn with ⟨-, hbody⟩ | ⟨-, hd, rest, hinner, hsort⟩
  · have hlt := hbare n (self_mem_all n) (Or.inr hbody) k hk
    omega
  · have hhd : hd ∈ n.inner := by
      rw [hinner]
      exact List.mem_cons_self
    have hstart := (hself.inside hd hhd).1
    have hordered := hself.ordered
    rw [hinner] at hk hordered
    rcases List.mem_cons.mp hk with rfl | hk
    · -- the header itself opens nothing, and what is inside it begins behind its first token
      rw [all_eq] at hbk
      rcases List.mem_cons.mp hbk with rfl | hbk
      · rcases hb' with ⟨hexpr, -⟩ | ⟨hstmt, -⟩
        · exact absurd (hsort.symm.trans hexpr) (by simp)
        · exact absurd (hsort.symm.trans hstmt) (by simp)
      · obtain ⟨m, hm, hbm⟩ := mem_allOf.mp hbk
        have hlt := hbare k (hmem hhd (self_mem_all k)) (Or.inl hsort) m hm
        have hk' : ∀ j ∈ m.all, j.Orderly :=
          fun j hj => h j (hmem hhd (mem_all_of_inner (mem_allOf.mpr ⟨m, hm, hj⟩)))
        have hle' := (inside_of_mem_all hk' b hbm).1
        omega
    · have hbefore := (List.pairwise_cons.mp hordered).1 k hk
      have hne := (h hd (hmem hhd (self_mem_all hd))).nonempty
      unfold Span.Before at hbefore
      omega

/-- The nodes that open scopes begin one behind the other, in the order of `allOf`. -/
theorem opens_ascending {ns : List Node} (h : ∀ m ∈ allOf ns, m.Orderly)
    (hbare : ∀ m ∈ allOf ns, m.StartsBare) (hns : ns.Pairwise fun a b => a.span.Before b.span) :
    (allOf ns).Pairwise fun a b => a.Opens → b.Opens → a.span.start < b.span.start := by
  have hbehind : ∀ a ∈ allOf ns, ∀ b : Node, a.span.Before b.span →
      a.Opens → b.Opens → a.span.start < b.span.start := by
    intro a ha b hab _ _
    have hne := (h a ha).nonempty
    unfold Span.Before at hab
    omega
  refine pairwise_allOf h hns hbehind fun n hn => ?_
  have hsub : ∀ m ∈ n.all, m ∈ allOf ns := fun m hm => mem_allOf.mpr ⟨n, hn, hm⟩
  refine pairwise_all n (fun m hm => h m (hsub m hm)) (fun a ha => hbehind a (hsub a ha)) ?_
  intro m hm b hb
  exact start_lt_of_opens (fun j hj => h j (hsub j (all_subset hm j hj)))
    (fun j hj => hbare j (hsub j (all_subset hm j hj))) hb

/-! ## Layouts -/

end Node

/-- The span goes from the first of the tokens to the last. -/
structure Covers (ts : List Token) (span : Span) : Prop where
  first : ∃ t, ts.head? = some t ∧ span.start = t.span.start ∧ span.position = t.span.position
  last : ∃ t, ts.getLast? = some t ∧ span.stop = t.span.stop

/-- The nodes stand over stretches of the tokens, one behind the other. The flag says whether there
is a token under none of them. -/
inductive Lays : Bool → List Token → List Node → Prop
  | nil : Lays false [] []
  | token {b : Bool} {ts : List Token} {ns : List Node} (t : Token) :
      Lays b ts ns → Lays true (t :: ts) ns
  | node {b b' : Bool} {seg ts : List Token} {n : Node} {ns : List Node} :
      Covers seg n.span → Lays b' seg n.inner → (n.mayWrap = false → b' = true) → n.StartsBare →
        Lays b ts ns → Lays b (seg ++ ts) (n :: ns)

/-- The node stands over these tokens. -/
structure Node.Over (ts : List Token) (n : Node) : Prop where
  covers : Covers ts n.span
  lays : ∃ b, Lays b ts n.inner ∧ (n.mayWrap = false → b = true)
  startsBare : n.StartsBare

/-- The tokens stand in a text in this order. -/
abbrev InRow (ts : List Token) : Prop := InOrder (ts.map .token)

/-- Of tokens in a row, those of the first part stand before those of the second. -/
theorem InRow.before_of_append {ts ts' : List Token} (h : InRow (ts ++ ts')) {t t' : Token}
    (ht : t ∈ ts) (ht' : t' ∈ ts') : t.span.Before t'.span := by
  unfold InRow at h
  rw [List.map_append] at h
  exact h.of_append.2.2 _ (List.mem_map_of_mem ht) _ (List.mem_map_of_mem ht')

theorem InRow.left {ts ts' : List Token} (h : InRow (ts ++ ts')) : InRow ts := by
  unfold InRow at h
  rw [List.map_append] at h
  exact h.of_append.1

theorem InRow.right {ts ts' : List Token} (h : InRow (ts ++ ts')) : InRow ts' := by
  unfold InRow at h
  rw [List.map_append] at h
  exact h.of_append.2.1

theorem InRow.head_before {ts : List Token} {t u : Token} (h : InRow (t :: ts)) (hu : u ∈ ts) :
    t.span.Before u.span := by
  have hrow : InRow ([t] ++ ts) := h
  exact hrow.before_of_append List.mem_cons_self hu

theorem InRow.tail {ts : List Token} {t : Token} (h : InRow (t :: ts)) : InRow ts := by
  have hrow : InRow ([t] ++ ts) := h
  exact hrow.right

theorem InRow.nonempty {ts : List Token} (h : InRow ts) {t : Token} (ht : t ∈ ts) :
    t.span.start < t.span.stop :=
  InOrder.nonempty h _ (List.mem_map_of_mem ht)

/-- The tokens are inside the span that covers them. -/
theorem Covers.inside {ts : List Token} {span : Span} (h : Covers ts span) (hrow : InRow ts)
    {t : Token} (ht : t ∈ ts) : t.span.Inside span := by
  obtain ⟨first, hfirst, hstart, -⟩ := h.first
  obtain ⟨last, hlast, hstop⟩ := h.last
  constructor
  · obtain ⟨rest, rfl⟩ := List.head?_eq_some_iff.mp hfirst
    rcases List.mem_cons.mp ht with rfl | hmem
    · omega
    · have hlt := hrow.nonempty List.mem_cons_self
      have hbefore := hrow.head_before hmem
      unfold Span.Before at hbefore
      omega
  · obtain ⟨rest, rfl⟩ := List.getLast?_eq_some_iff.mp hlast
    rcases List.mem_append.mp ht with hmem | hmem
    · have hlt := hrow.nonempty (List.mem_append_right rest List.mem_cons_self)
      have hbefore := hrow.before_of_append hmem List.mem_cons_self
      unfold Span.Before at hbefore
      omega
    · obtain rfl := List.mem_singleton.mp hmem
      omega

/-- The node begins where a token begins, and ends where a token ends. -/
structure Node.Bounded (ts : List Token) (n : Node) : Prop where
  start : ∃ t ∈ ts, n.span.start = t.span.start ∧ n.span.position = t.span.position
  stop : ∃ t ∈ ts, n.span.stop = t.span.stop

theorem Covers.bounded {ts : List Token} {n : Node} (h : Covers ts n.span) : n.Bounded ts := by
  obtain ⟨first, hfirst, hstart⟩ := h.first
  obtain ⟨last, hlast, hstop⟩ := h.last
  exact ⟨⟨first, List.mem_of_head? hfirst, hstart⟩, ⟨last, List.mem_of_getLast? hlast, hstop⟩⟩

theorem Node.Bounded.mono {ts ts' : List Token} {n : Node} (h : n.Bounded ts)
    (hsub : ∀ t ∈ ts, t ∈ ts') : n.Bounded ts' := by
  obtain ⟨⟨t, ht, hstart⟩, ⟨t', ht', hstop⟩⟩ := h
  exact ⟨⟨t, hsub t ht, hstart⟩, ⟨t', hsub t' ht', hstop⟩⟩

/-- What a layout says about the nodes. -/
structure Laid (b : Bool) (ts : List Token) (ns : List Node) : Prop where
  orderly : ∀ m ∈ Node.allOf ns, m.Orderly
  bounded : ∀ m ∈ Node.allOf ns, m.Bounded ts
  ordered : ns.Pairwise fun m n => m.span.Before n.span
  bare : b = true → ∃ t ∈ ts, ∀ n ∈ ns, n.span.Before t.span ∨ t.span.Before n.span
  startsBare : ∀ m ∈ Node.allOf ns, m.StartsBare

/-- A token in front of laid nodes stands beside them. -/
theorem Laid.token {b : Bool} {ts : List Token} {ns : List Node} {t : Token}
    (h : Laid b ts ns) (hrow : InRow (t :: ts)) : Laid true (t :: ts) ns where
  orderly := h.orderly
  bounded := fun m hm => (h.bounded m hm).mono fun _ => List.mem_cons_of_mem t
  ordered := h.ordered
  bare := by
    intro _
    refine ⟨t, List.mem_cons_self, fun n hn => Or.inr ?_⟩
    obtain ⟨u, hu, hstart, -⟩ := (h.bounded n (Node.mem_allOf_of_mem hn)).start
    have hbefore := hrow.head_before hu
    unfold Span.Before at hbefore ⊢
    omega
  startsBare := h.startsBare

/-- A node over tokens is orderly if those inside it are. -/
theorem Laid.orderly_of_covers {b : Bool} {seg : List Token} {n : Node} (h : Laid b seg n.inner)
    (hcovers : Covers seg n.span) (hwrap : n.mayWrap = false → b = true) (hrow : InRow seg) :
    n.Orderly where
  nonempty := by
    obtain ⟨t, ht, hstart, -⟩ := hcovers.bounded.start
    have hlt := hrow.nonempty ht
    have hle := (hcovers.inside hrow ht).2
    omega
  inside := by
    intro m hm
    have hbounded := h.bounded m (Node.mem_allOf_of_mem hm)
    obtain ⟨t, ht, hstart, -⟩ := hbounded.start
    obtain ⟨u, hu, hstop⟩ := hbounded.stop
    have hle := (hcovers.inside hrow ht).1
    have hle' := (hcovers.inside hrow hu).2
    exact ⟨by omega, by omega⟩
  ordered := h.ordered
  proper := by
    -- a token beside the nodes inside is covered by the outer node only
    intro hn m hm heq
    obtain ⟨t, ht, hbare⟩ := h.bare (hwrap hn)
    have hlt := hrow.nonempty ht
    obtain ⟨hle, hle'⟩ := hcovers.inside hrow ht
    have hstart : m.span.start = n.span.start := congrArg Prod.fst heq
    have hstop : m.span.stop = n.span.stop := congrArg Prod.snd heq
    have hside := hbare m hm
    unfold Span.Before at hside
    omega

/-- A node over its own tokens, in front of laid nodes. -/
theorem Laid.node {b b' : Bool} {seg ts : List Token} {n : Node} {ns : List Node}
    (hinner : Laid b' seg n.inner) (hcovers : Covers seg n.span)
    (hwrap : n.mayWrap = false → b' = true) (hstarts : n.StartsBare) (h : Laid b ts ns)
    (hrow : InRow (seg ++ ts)) : Laid b (seg ++ ts) (n :: ns) where
  orderly := by
    intro m hm
    rcases List.mem_append.mp hm with hm | hm
    · rw [Node.all_eq] at hm
      rcases List.mem_cons.mp hm with rfl | hm
      · exact hinner.orderly_of_covers hcovers hwrap hrow.left
      · exact hinner.orderly m hm
    · exact h.orderly m hm
  bounded := by
    intro m hm
    rcases List.mem_append.mp hm with hm | hm
    · refine Node.Bounded.mono ?_ fun _ => List.mem_append_left ts
      rw [Node.all_eq] at hm
      rcases List.mem_cons.mp hm with rfl | hm
      · exact hcovers.bounded
      · exact hinner.bounded m hm
    · exact (h.bounded m hm).mono fun _ => List.mem_append_right seg
  ordered := by
    refine List.pairwise_cons.mpr ⟨fun m hm => ?_, h.ordered⟩
    obtain ⟨t, ht, hstop⟩ := hcovers.bounded.stop
    obtain ⟨u, hu, hstart, -⟩ := (h.bounded m (Node.mem_allOf_of_mem hm)).start
    have hbefore := hrow.before_of_append ht hu
    unfold Span.Before at hbefore ⊢
    omega
  bare := by
    intro hb
    obtain ⟨t, ht, hbare⟩ := h.bare hb
    refine ⟨t, List.mem_append_right seg ht, fun m hm => ?_⟩
    rcases List.mem_cons.mp hm with rfl | hm
    · obtain ⟨u, hu, hstop⟩ := hcovers.bounded.stop
      have hbefore := hrow.before_of_append hu ht
      unfold Span.Before at hbefore ⊢
      omega
    · exact hbare m hm
  startsBare := by
    intro m hm
    rcases List.mem_append.mp hm with hm | hm
    · rw [Node.all_eq] at hm
      rcases List.mem_cons.mp hm with rfl | hm
      · exact hstarts
      · exact hinner.startsBare m hm
    · exact h.startsBare m hm

namespace Lays

/-- Nodes that are laid out over tokens are orderly and bounded by tokens. -/
theorem laid {b : Bool} {ts : List Token} {ns : List Node} (h : Lays b ts ns) (hrow : InRow ts) :
    Laid b ts ns := by
  induction h with
  | nil => exact ⟨by simp, by simp, .nil, by simp, by simp⟩
  | token t _ ih => exact (ih hrow.tail).token hrow
  | node hcovers _ hwrap hstarts _ ihinner ih =>
    exact (ihinner hrow.left).node hcovers hwrap hstarts (ih hrow.right) hrow

theorem append {b b' : Bool} {ts ts' : List Token} {ns ns' : List Node} (h : Lays b ts ns)
    (h' : Lays b' ts' ns') : Lays (b || b') (ts ++ ts') (ns ++ ns') := by
  induction h with
  | nil => exact h'
  | token t _ ih => exact .token t ih
  | node hcovers hinner hwrap hstarts _ _ ih =>
    rw [List.append_assoc]
    exact .node hcovers hinner hwrap hstarts ih

theorem single (t : Token) : Lays true [t] [] := .token t .nil

theorem behind {b : Bool} {ts : List Token} {ns : List Node} (h : Lays b ts ns) (t : Token) :
    Lays true (ts ++ [t]) ns := by
  have happend := h.append (single t)
  rwa [List.append_nil, Bool.or_true] at happend

end Lays

theorem Node.Over.lay {ts : List Token} {n : Node} (h : n.Over ts) : Lays false ts [n] := by
  obtain ⟨b, hinner, hwrap⟩ := h.lays
  have hlay := Lays.node h.covers hinner hwrap h.startsBare .nil
  rwa [List.append_nil] at hlay

/-! ## The nodes of a program -/

namespace TypeExpr

mutual

/-- An annotation as a node. -/
@[simp] def node : TypeExpr → Node
  | primitive s _ => .mk .typeExpr s []
  | func s params result => .mk .typeExpr s (nodes params ++ [node result])
  | array s element => .mk .typeExpr s [node element]
  | map s key value => .mk .typeExpr s [node key, node value]
  | tuple s fields => .mk .typeExpr s (nodes fields)

/-- Annotations as nodes. -/
@[simp] def nodes : List TypeExpr → List Node
  | [] => []
  | t :: rest => node t :: nodes rest

end

end TypeExpr

/-- An annotation that may be missing, as nodes. -/
@[simp] def optionalNode : Option TypeExpr → List Node
  | none => []
  | some t => [t.node]

def Param.node (p : Param) : Node := .mk .param p.span (optionalNode p.typeExpr)

mutual

/-- An expression as a node. -/
@[simp] def Expr.node : Expr → Node
  | .literal s _ => .mk .expr s []
  | .var s _ => .mk .expr s []
  | .binary s _ l r => .mk .expr s [l.node, r.node]
  | .conditional s p t e => .mk .expr s [p.node, t.node, e.node]
  | .function s params result body =>
    .mk .expr s (params.map Param.node ++ (optionalNode result ++ [body.node]))
  | .array s es => .mk .expr s (exprNodes es)
  | .map s es => .mk .expr s (entryNodes es)
  | .tuple s es => .mk .expr s (elementNodes es)
  | .call s f es => .mk .expr s (f.node :: exprNodes es)
  | .index s t i => .mk .expr s [t.node, i.node]
  | .field s t _ => .mk .expr s [t.node]
  | .ordinal s t _ => .mk .expr s [t.node]

/-- Expressions as nodes. -/
@[simp] def exprNodes : List Expr → List Node
  | [] => []
  | e :: rest => e.node :: exprNodes rest

/-- The entries of a map as nodes. -/
@[simp] def entryNodes : List Entry → List Node
  | [] => []
  | ⟨s, k, v⟩ :: rest => .mk .entry s [k.node, v.node] :: entryNodes rest

/-- The elements of a tuple as nodes. -/
@[simp] def elementNodes : List Element → List Node
  | [] => []
  | ⟨s, _, v⟩ :: rest => .mk .element s [v.node] :: elementNodes rest

/-- A function body as a node. -/
@[simp] def Body.node : Body → Node
  | .expr s e => .mk .body s [e.node]
  | .block s stmts => .mk .body s (stmtNodes stmts)

/-- A statement as a node. -/
@[simp] def Stmt.node : Stmt → Node
  | .declaration s d => .mk .stmt s [d.node]
  | .assign s t v => .mk .stmt s [t.node, v.node]
  | .call s f es => .mk .stmt s (f.node :: exprNodes es)
  | .ifThen s c t => .mk .stmt s (c.node :: stmtNodes t)
  | .ifElse s c t e => .mk .stmt s (c.node :: (stmtNodes t ++ stmtNodes e))
  | .loop s h b => .mk .stmt s (h.node :: stmtNodes b)
  | .returnNothing s => .mk .stmt s []
  | .returnValue s e => .mk .stmt s [e.node]
  | .breakLoop s => .mk .stmt s []
  | .print s es => .mk .stmt s (exprNodes es)

/-- Statements as nodes. -/
@[simp] def stmtNodes : List Stmt → List Node
  | [] => []
  | s :: rest => s.node :: stmtNodes rest

/-- The header of a loop as a node. -/
@[simp] def Header.node : Header → Node
  | .items s _ e => .mk .header s [e.node]
  | .range s _ a b => .mk .header s [a.node, b.node]
  | .condition s e => .mk .header s [e.node]

/-- A declaration as a node. -/
@[simp] def Declaration.node : Declaration → Node
  | ⟨s, _, t, v⟩ => .mk .declaration s (optionalNode t ++ [v.node])

end

def Entry.node (e : Entry) : Node := .mk .entry e.span [e.key.node, e.value.node]

def Element.node (e : Element) : Node := .mk .element e.span [e.value.node]

/-- The declarations of a program as nodes. -/
def Program.nodes (p : Program) : List Node := p.declarations.map Declaration.node

theorem TypeExpr.nodes_eq_map (ts : List TypeExpr) : TypeExpr.nodes ts = ts.map node := by
  induction ts with
  | nil => rfl
  | cons t ts ih => rw [nodes, ih, List.map_cons]

theorem exprNodes_eq_map (es : List Expr) : exprNodes es = es.map Expr.node := by
  induction es with
  | nil => rfl
  | cons e es ih => rw [exprNodes, ih, List.map_cons]

theorem entryNodes_eq_map (es : List Entry) : entryNodes es = es.map Entry.node := by
  induction es with
  | nil => rfl
  | cons e es ih =>
    obtain ⟨s, k, v⟩ := e
    rw [entryNodes, ih, List.map_cons, Entry.node]

theorem stmtNodes_eq_map (ss : List Stmt) : stmtNodes ss = ss.map Stmt.node := by
  induction ss with
  | nil => rfl
  | cons s ss ih => rw [stmtNodes, ih, List.map_cons]

theorem elementNodes_eq_map (es : List Element) : elementNodes es = es.map Element.node := by
  induction es with
  | nil => rfl
  | cons e es ih =>
    obtain ⟨s, x, v⟩ := e
    rw [elementNodes, ih, List.map_cons, Element.node]

@[simp] theorem TypeExpr.sort_node (t : TypeExpr) : t.node.sort = .typeExpr := by
  cases t <;> simp [Node.sort]

@[simp] theorem Expr.sort_node (e : Expr) : e.node.sort = .expr := by
  cases e <;> simp [Node.sort]

@[simp] theorem Stmt.sort_node (s : Stmt) : s.node.sort = .stmt := by
  cases s <;> simp [Node.sort]

@[simp] theorem Header.sort_node (h : Header) : h.node.sort = .header := by
  cases h <;> simp [Node.sort]

@[simp] theorem Declaration.sort_node (d : Declaration) : d.node.sort = .declaration := by
  cases d
  simp [Node.sort]

@[simp] theorem Body.sort_node (b : Body) : b.node.sort = .body := by
  cases b <;> simp [Node.sort]

@[simp] theorem TypeExpr.bodiless_nodes (ts : List TypeExpr) :
    Node.Bodiless (TypeExpr.nodes ts) := by
  rw [nodes_eq_map]
  exact Node.bodiless_map (by simp) ts

@[simp] theorem bodiless_exprNodes (es : List Expr) : Node.Bodiless (exprNodes es) := by
  rw [exprNodes_eq_map]
  exact Node.bodiless_map (by simp) es

@[simp] theorem bodiless_entryNodes (es : List Entry) : Node.Bodiless (entryNodes es) := by
  rw [entryNodes_eq_map]
  exact Node.bodiless_map (by simp [Entry.node]) es

@[simp] theorem bodiless_elementNodes (es : List Element) : Node.Bodiless (elementNodes es) := by
  rw [elementNodes_eq_map]
  exact Node.bodiless_map (by simp [Element.node]) es

@[simp] theorem bodiless_stmtNodes (ss : List Stmt) : Node.Bodiless (stmtNodes ss) := by
  rw [stmtNodes_eq_map]
  exact Node.bodiless_map (by simp) ss

theorem Expr.span_node (e : Expr) : e.node.span = e.span := by
  cases e <;> simp [span, Node.span]

theorem Expr.mayWrap_node (e : Expr) : e.node.mayWrap = false := by
  cases e <;> simp [Node.mayWrap]

theorem Expr.node_withSpan (s : Span) (e : Expr) :
    (e.withSpan s).node = .mk .expr s e.node.inner := by
  cases e <;> simp [withSpan, Node.inner]

end ExprCheck
