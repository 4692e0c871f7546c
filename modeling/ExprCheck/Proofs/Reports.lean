import Mathlib
import ExprCheck.Proofs.Cascades
import ExprCheck.Proofs.Discipline
import ExprCheck.Proofs.NodeSpans
import ExprCheck.Proofs.ReadFailures

/-!
# Where faults are reported

The walk reports every fault at the span of a node, and never two at the same bytes. A fault of an
expression may stand at the span of one of its parts, but only if that part has a type, and an
expression that was reported at its own span has none. A fault of a declaration, a statement or a
header stands at its own span, which is larger than those of its parts; each of them is reported at
most once, since the name that it binds is free when it is bound.

`Adds` says that a step reports only at some nodes, at each of them at most once. It is proved along
the walk, from the order of the nodes in the text.
-/

namespace ExprCheck

open Node

/-! ## Nodes in order -/

/-- Orderly nodes that stand one behind the other. -/
structure Tidy (ns : List Node) : Prop where
  orderly : ∀ m ∈ allOf ns, m.Orderly
  ordered : ns.Pairwise fun a b => a.span.Before b.span

namespace Tidy

variable {n : Node} {ms ns : List Node}

theorem sublist (h : Tidy ns) (hsub : ms.Sublist ns) : Tidy ms where
  orderly := by
    intro m hm
    obtain ⟨k, hk, hmk⟩ := mem_allOf.mp hm
    exact h.orderly m (mem_allOf.mpr ⟨k, hsub.subset hk, hmk⟩)
  ordered := h.ordered.sublist hsub

theorem all (h : Tidy ns) (hn : n ∈ ns) : ∀ m ∈ n.all, m.Orderly :=
  fun m hm => h.orderly m (mem_allOf.mpr ⟨n, hn, hm⟩)

theorem self (h : Tidy [n]) : n.Orderly := h.all List.mem_cons_self n (self_mem_all n)

theorem head (h : Tidy (n :: ns)) : Tidy [n] :=
  h.sublist ((List.nil_sublist ns).cons_cons n)

theorem tail (h : Tidy (n :: ns)) : Tidy ns := h.sublist (List.sublist_cons_self n ns)

theorem inner (h : Tidy [n]) : Tidy n.inner where
  orderly := fun m hm => h.all List.mem_cons_self m (mem_all_of_inner hm)
  ordered := h.self.ordered

/-- The nodes inside a node may take its place. -/
theorem unwrap (h : Tidy (n :: ns)) : Tidy (n.inner ++ ns) where
  orderly := by
    intro m hm
    rw [allOf_append] at hm
    rcases List.mem_append.mp hm with hm | hm
    · exact h.head.inner.orderly m hm
    · exact h.tail.orderly m hm
  ordered := by
    refine List.pairwise_append.mpr ⟨h.head.inner.ordered, h.tail.ordered, ?_⟩
    intro a ha b hb
    have hin := h.head.self.inside a ha
    have hbefore := (List.pairwise_cons.mp h.ordered).1 b hb
    unfold Span.Inside at hin
    unfold Span.Before at hbefore ⊢
    omega

/-- Nodes of two parts of a tidy list never cover the same bytes. -/
theorem bytes_ne (h : Tidy (ms ++ ns)) {a b : Node} (ha : a ∈ allOf ms) (hb : b ∈ allOf ns) :
    a.span.bytes ≠ b.span.bytes := by
  obtain ⟨m, hm, ham⟩ := mem_allOf.mp ha
  obtain ⟨k, hk, hbk⟩ := mem_allOf.mp hb
  have hbefore := (List.pairwise_append.mp h.ordered).2.2 m hm k hk
  have hm' : ∀ a ∈ m.all, a.Orderly := h.all (List.mem_append_left _ hm)
  have hk' : ∀ b ∈ k.all, b.Orderly := h.all (List.mem_append_right _ hk)
  exact bytes_ne_of_before (hm' a ham) (before_of_mem_all hm' hk' hbefore ham hbk)

end Tidy

/-! ## Reports at nodes -/

/-- The errors stand at nodes, and no two of them at the same bytes. -/
structure Reports (ns : List Node) (new : List TypeError) : Prop where
  placed : ∀ e ∈ new, ∃ n ∈ allOf ns, n.span = e.span
  nodup : (new.map fun e => e.span.bytes).Nodup

namespace Reports

variable {n : Node} {ms ns : List Node} {new new' : List TypeError}

theorem nil (ns : List Node) : Reports ns [] := ⟨by simp, .nil⟩

theorem mono (h : Reports ms new) (hsub : ∀ n ∈ allOf ms, n ∈ allOf ns) : Reports ns new where
  placed := by
    intro e he
    obtain ⟨n, hn, hspan⟩ := h.placed e he
    exact ⟨n, hsub n hn, hspan⟩
  nodup := h.nodup

theorem append (htidy : Tidy (ms ++ ns)) (h : Reports ms new) (h' : Reports ns new') :
    Reports (ms ++ ns) (new ++ new') where
  placed := by
    intro e he
    rw [allOf_append]
    rcases List.mem_append.mp he with he | he
    · obtain ⟨n, hn, hspan⟩ := h.placed e he
      exact ⟨n, List.mem_append_left _ hn, hspan⟩
    · obtain ⟨n, hn, hspan⟩ := h'.placed e he
      exact ⟨n, List.mem_append_right _ hn, hspan⟩
  nodup := by
    rw [List.map_append]
    refine List.nodup_append.mpr ⟨h.nodup, h'.nodup, ?_⟩
    intro a ha b hb
    obtain ⟨e, he, rfl⟩ := List.mem_map.mp ha
    obtain ⟨e', he', rfl⟩ := List.mem_map.mp hb
    obtain ⟨m, hm, hspan⟩ := h.placed e he
    obtain ⟨k, hk, hspan'⟩ := h'.placed e' he'
    rw [← hspan, ← hspan']
    exact htidy.bytes_ne hm hk

/-- One more report, at a node that has none yet. -/
theorem concat (h : Reports ns new) (hn : n ∈ allOf ns)
    (hne : ∀ e ∈ new, e.span.bytes ≠ n.span.bytes) (f : TypeFault) :
    Reports ns (new ++ [⟨f, n.span⟩]) where
  placed := by
    intro e he
    rcases List.mem_append.mp he with he | he
    · exact h.placed e he
    · obtain rfl := List.mem_singleton.mp he
      exact ⟨n, hn, rfl⟩
  nodup := by
    rw [List.map_append]
    refine List.nodup_append.mpr ⟨h.nodup, List.nodup_singleton _, ?_⟩
    intro a ha b hb
    obtain ⟨e, he, rfl⟩ := List.mem_map.mp ha
    obtain rfl := List.mem_singleton.mp hb
    exact hne e he

/-- What is reported inside a node is not reported at the node, if it covers more. -/
theorem bytes_ne (h : Reports n.inner new) (htidy : Tidy [n]) (hwrap : n.mayWrap = false) :
    ∀ e ∈ new, e.span.bytes ≠ n.span.bytes := by
  intro e he
  obtain ⟨m, hm, hspan⟩ := h.placed e he
  obtain ⟨k, hk, hmk⟩ := mem_allOf.mp hm
  have hin := inside_of_mem_all (htidy.inner.all hk) m hmk
  rw [← hspan]
  exact bytes_ne_of_proper (htidy.self.inside k hk) (htidy.self.proper hwrap k hk) hin

theorem outer (h : Reports n.inner new) : Reports [n] new :=
  h.mono fun _ hm => List.mem_append_left _ (mem_all_of_inner hm)

/-- One more report at a node between others, which has a type and so has none yet. -/
theorem beside {newm newn newk : List TypeError} (htidy : Tidy (ms ++ (n :: ns)))
    (hm : Reports ms newm) (hn : Reports [n] newn) (hk : Reports ns newk)
    (hne : ∀ e ∈ newn, e.span.bytes ≠ n.span.bytes) (f : TypeFault) :
    Reports (ms ++ (n :: ns)) (newm ++ (newn ++ newk) ++ [⟨f, n.span⟩]) := by
  have htail : Tidy ([n] ++ ns) := htidy.sublist (List.sublist_append_right ms (n :: ns))
  have hself : n ∈ allOf [n] := mem_allOf_of_mem List.mem_cons_self
  refine (append htidy hm (append htail hn hk)).concat
    (mem_allOf_of_mem (List.mem_append_right ms List.mem_cons_self)) ?_ f
  intro e he
  rcases List.mem_append.mp he with he | he
  · obtain ⟨m, hmem, hspan⟩ := hm.placed e he
    rw [← hspan]
    exact htidy.bytes_ne hmem (mem_allOf_of_mem List.mem_cons_self)
  · rcases List.mem_append.mp he with he | he
    · exact hne e he
    · obtain ⟨m, hmem, hspan⟩ := hk.placed e he
      rw [← hspan]
      exact (htail.bytes_ne hself hmem).symm

end Reports

namespace Checker

variable {α β : Type} {n : Node} {ms ns : List Node}

/-! ## Steps that report -/

/-- A step that reports nothing. -/
def Quiet (m : CheckM α) : Prop :=
  ∀ ⦃c : Checker⦄, c.Valid → (after m c).Valid ∧ (after m c).errors = c.errors

/-- A step that reports at the given nodes, at each of them at most once. -/
def Adds (ns : List Node) (m : CheckM α) : Prop :=
  ∀ ⦃c : Checker⦄, c.Valid → (after m c).Valid ∧
    ∃ new, (after m c).errors = c.errors ++ new ∧ Reports ns new

/-- A step that finds the type of a node. It does not report at the node itself if it finds one. -/
def Infers (n : Node) (m : CheckM (Option Ty)) : Prop :=
  ∀ ⦃c : Checker⦄, c.Valid → (after m c).Valid ∧
    ∃ new, (after m c).errors = c.errors ++ new ∧ Reports [n] new ∧
      (answer m c ≠ none → ∀ e ∈ new, e.span.bytes ≠ n.span.bytes)

/-- A step that reports at most once, at the given span. -/
def MayReport (span : Span) (m : CheckM α) : Prop :=
  ∀ ⦃c : Checker⦄, c.Valid → (after m c).Valid ∧
    ((after m c).errors = c.errors ∨ ∃ f, (after m c).errors = c.errors ++ [⟨f, span⟩])

/-- A step that reports at most once, at the given span, and then finds no type. -/
def Settles (span : Span) (m : CheckM (Option Ty)) : Prop :=
  ∀ ⦃c : Checker⦄, c.Valid → (after m c).Valid ∧ ((after m c).errors = c.errors ∨
    ∃ f, (after m c).errors = c.errors ++ [⟨f, span⟩] ∧ answer m c = none)

theorem Quiet.adds {m : CheckM α} (h : Quiet m) (ns : List Node) : Adds ns m := by
  intro c hc
  obtain ⟨hv, he⟩ := h hc
  exact ⟨hv, [], by rw [he, List.append_nil], .nil ns⟩

theorem quiet_pure (a : α) : Quiet (pure a : CheckM α) := fun _ hc => ⟨hc, rfl⟩

theorem Infers.adds {m : CheckM (Option Ty)} (h : Infers n m) : Adds [n] m := by
  intro c hc
  obtain ⟨hv, new, he, hr, -⟩ := h hc
  exact ⟨hv, new, he, hr⟩

theorem Settles.mayReport {span : Span} {m : CheckM (Option Ty)} (h : Settles span m) :
    MayReport span m := by
  intro c hc
  obtain ⟨hv, he | ⟨f, he, -⟩⟩ := h hc
  · exact ⟨hv, Or.inl he⟩
  · exact ⟨hv, Or.inr ⟨f, he⟩⟩

theorem Adds.mono {m : CheckM α} (h : Adds ms m) (hsub : ∀ n ∈ allOf ms, n ∈ allOf ns) :
    Adds ns m := by
  intro c hc
  obtain ⟨hv, new, he, hr⟩ := h hc
  exact ⟨hv, new, he, hr.mono hsub⟩

theorem Adds.bind {m : CheckM α} {f : α → CheckM β} (htidy : Tidy (ms ++ ns)) (hm : Adds ms m)
    (hf : ∀ a, Adds ns (f a)) : Adds (ms ++ ns) (m >>= f) := by
  intro c hc
  obtain ⟨hv, new, he, hr⟩ := hm hc
  obtain ⟨hv', new', he', hr'⟩ := hf (answer m c) hv
  exact ⟨hv', new ++ new', by rw [after_bind, he', he, List.append_assoc], .append htidy hr hr'⟩

theorem Adds.cons {m : CheckM α} {f : α → CheckM β} (htidy : Tidy (n :: ns)) (hm : Adds [n] m)
    (hf : ∀ a, Adds ns (f a)) : Adds (n :: ns) (m >>= f) := by
  have h : Tidy ([n] ++ ns) := htidy
  exact .bind h hm hf

theorem Adds.andQuiet {m : CheckM α} {f : α → CheckM β} (hm : Adds ns m)
    (hf : ∀ a, Quiet (f a)) : Adds ns (m >>= f) := by
  intro c hc
  obtain ⟨hv, new, he, hr⟩ := hm hc
  obtain ⟨hv', he'⟩ := hf (answer m c) hv
  exact ⟨hv', new, he'.trans he, hr⟩

theorem Quiet.andAdds {m : CheckM α} {f : α → CheckM β} (hm : Quiet m)
    (hf : ∀ a, Adds ns (f a)) : Adds ns (m >>= f) := by
  intro c hc
  obtain ⟨hv, he⟩ := hm hc
  obtain ⟨hv', new, he', hr⟩ := hf (answer m c) hv
  exact ⟨hv', new, by rw [after_bind, he', he], hr⟩

theorem Quiet.andMayReport {span : Span} {m : CheckM α} {f : α → CheckM β} (hm : Quiet m)
    (hf : ∀ a, MayReport span (f a)) : MayReport span (m >>= f) := by
  intro c hc
  obtain ⟨hv, he⟩ := hm hc
  obtain ⟨hv', h⟩ := hf (answer m c) hv
  rw [he] at h
  exact ⟨hv', h⟩

/-- What is reported inside a node, and then at most once at the node itself. -/
theorem Adds.own {m : CheckM α} {f : α → CheckM β} (htidy : Tidy [n]) (hwrap : n.mayWrap = false)
    (hm : Adds n.inner m) (hf : ∀ a, MayReport n.span (f a)) : Adds [n] (m >>= f) := by
  intro c hc
  obtain ⟨hv, new, he, hr⟩ := hm hc
  obtain ⟨hv', he' | ⟨fault, he'⟩⟩ := hf (answer m c) hv
  · exact ⟨hv', new, he'.trans he, hr.outer⟩
  · refine ⟨hv', new ++ [⟨fault, n.span⟩], by rw [after_bind, he', he, List.append_assoc], ?_⟩
    exact hr.outer.concat (mem_allOf_of_mem List.mem_cons_self) (hr.bytes_ne htidy hwrap) fault

theorem Infers.own {m : CheckM α} {f : α → CheckM (Option Ty)} (htidy : Tidy [n])
    (hwrap : n.mayWrap = false) (hm : Adds n.inner m) (hf : ∀ a, Settles n.span (f a)) :
    Infers n (m >>= f) := by
  intro c hc
  obtain ⟨hv, new, he, hr⟩ := hm hc
  obtain ⟨hv', he' | ⟨fault, he', hnone⟩⟩ := hf (answer m c) hv
  · exact ⟨hv', new, he'.trans he, hr.outer, fun _ => hr.bytes_ne htidy hwrap⟩
  · refine ⟨hv', new ++ [⟨fault, n.span⟩], by rw [after_bind, he', he, List.append_assoc], ?_, ?_⟩
    · exact hr.outer.concat (mem_allOf_of_mem List.mem_cons_self) (hr.bytes_ne htidy hwrap) fault
    · exact fun hsome => absurd hnone hsome

theorem Infers.within {m : CheckM (Option Ty)} (htidy : Tidy [n]) (hwrap : n.mayWrap = false)
    (hm : Adds n.inner m) : Infers n m := by
  intro c hc
  obtain ⟨hv, new, he, hr⟩ := hm hc
  exact ⟨hv, new, he, hr.outer, fun _ => hr.bytes_ne htidy hwrap⟩

/-- What is reported inside a node stands at a node below it. -/
theorem Adds.wrap {m : CheckM α} (h : Adds (n.inner ++ ns) m) : Adds (n :: ns) m := by
  refine h.mono fun k hk => ?_
  rw [allOf_append] at hk
  rcases List.mem_append.mp hk with hk | hk
  · exact List.mem_append_left _ (mem_all_of_inner hk)
  · exact List.mem_append_right _ hk

theorem Adds.within {m : CheckM α} (h : Adds n.inner m) : Adds [n] m := by
  have h' : Adds (n.inner ++ []) m := by rwa [List.append_nil]
  exact h'.wrap

/-! ## Single steps -/

theorem settles_settle (span : Span) (v : Verdict) : Settles span (settle span v) := by
  intro c hc
  cases v with
  | type t => exact ⟨hc, Or.inl rfl⟩
  | silent => exact ⟨hc, Or.inl rfl⟩
  | fault f => exact ⟨hc.congr rfl rfl, Or.inr ⟨f, rfl, rfl⟩⟩

theorem settles_settleField (span : Span) (target : Expr) (type : Option Ty) (field : String) :
    Settles span (settleField span target type field) :=
  fun c hc => settles_settle span (Rule.field (c.knownField target field) type) hc

theorem settles_inferVar (span : Span) (name : String) : Settles span (inferVar span name) := by
  intro c hc
  unfold inferVar
  rw [after_get, answer_get]
  split
  · exact ⟨hc, Or.inl rfl⟩
  · exact ⟨hc.congr rfl rfl, Or.inr ⟨_, rfl, rfl⟩⟩

theorem mayReport_report (span : Span) (fault : TypeFault) : MayReport span (report span fault) :=
  fun _ hc => ⟨hc.congr rfl rfl, Or.inr ⟨fault, rfl⟩⟩

theorem mayReport_compareTypes (span : Span) (fault : Ty → Ty → TypeFault) (a b : Option Ty) :
    MayReport span (compareTypes span fault a b) := by
  intro c hc
  unfold compareTypes
  split
  · split
    · exact ⟨hc, Or.inl rfl⟩
    · exact mayReport_report span _ hc
  · exact ⟨hc, Or.inl rfl⟩

theorem mayReport_define (span : Span) (name : String) (symbol : Symbol) :
    MayReport span (define span name symbol) := by
  intro c hc
  have hv := (local_define c span name symbol).valid hc
  cases h : c.symbols.contains (c.slot name) with
  | false => exact ⟨hv, Or.inl (errors_define_free c span symbol h)⟩
  | true =>
    refine ⟨hv, Or.inr ⟨.redeclared name, ?_⟩⟩
    rw [after_define_taken c span symbol h]
    rfl

theorem mayReport_defineLoopVariable (span : Span) (name : Option String) (type : Option Ty) :
    MayReport span (defineLoopVariable span name type) := by
  cases name with
  | none => exact fun _ hc => ⟨hc, Or.inl rfl⟩
  | some x => exact mayReport_define span x _

theorem mayReport_strayReturn (span : Span) :
    MayReport span (do if (← get).depth = 0 then report span .strayReturn : CheckM Unit) := by
  intro c hc
  rw [after_get]
  by_cases hd : c.depth = 0
  · rw [if_pos hd]
    exact mayReport_report span _ hc
  · rw [if_neg hd]
    exact ⟨hc, Or.inl rfl⟩

theorem quiet_enterFunction : Quiet enterFunction :=
  fun c hc => ⟨hc.enter (ScopeStack.enters_pushFunction c.scopes), rfl⟩

theorem quiet_enterLoop : Quiet enterLoop :=
  fun c hc => ⟨hc.enter (ScopeStack.enters_pushLoop c.scopes), rfl⟩

theorem quiet_leaveScope : Quiet leaveScope := fun _ hc => ⟨hc.leave, rfl⟩

theorem quiet_modifyDepth (f : Nat → Nat) :
    Quiet (modify fun c => { c with depth := f c.depth } : CheckM Unit) :=
  fun _ hc => ⟨hc.congr rfl rfl, rfl⟩

theorem quiet_recordTuple (fields : List (String × Option Ty)) : Quiet (recordTuple fields) := by
  intro c hc
  unfold recordTuple
  split
  · exact ⟨hc, rfl⟩
  · rw [after_get]
    split
    · exact ⟨hc.congr rfl rfl, rfl⟩
    · exact ⟨hc, rfl⟩

theorem adds_defineParams (params : List Param) (htidy : Tidy (params.map Param.node)) :
    Adds (params.map Param.node) (defineParams params) := by
  induction params with
  | nil => exact (quiet_pure ()).adds []
  | cons p rest ih =>
    have hp : Adds [p.node] (define p.span p.name ⟨.parameter, .of (some (paramType p))⟩) := by
      intro c hc
      obtain ⟨hv, he | ⟨f, he⟩⟩ := mayReport_define p.span p.name _ hc
      · exact ⟨hv, [], by rw [he, List.append_nil], .nil _⟩
      · exact ⟨hv, _, he, (Reports.nil [p.node]).concat (n := p.node)
          (mem_allOf_of_mem List.mem_cons_self) (by simp) f⟩
    exact .cons htidy hp fun _ => ih htidy.tail

/-- A declaration is reported once at its own span: either its name is bound already, or its value
is not of its type and its name, which is free, gets bound. -/
theorem adds_declaration (d : Declaration) (htidy : Tidy [d.node])
    (hvalue : Adds d.node.inner (infer d.value)) : Adds [d.node] (checkDeclaration d) := by
  have hspan : d.node.span = d.span := by
    cases d
    rfl
  have hwrap : d.node.mayWrap = false := by
    cases d
    rfl
  intro c hc
  have hv := (local_checkDeclaration hc d).valid hc
  refine ⟨hv, ?_⟩
  cases h : c.symbols.contains (c.slot d.name) with
  | true =>
    rw [after_checkDeclaration_bound d c h, ← hspan]
    exact ⟨_, rfl, (Reports.nil [d.node]).concat (n := d.node)
      (mem_allOf_of_mem List.mem_cons_self) (by simp) _⟩
  | false =>
    rw [after_checkDeclaration_unbound d c h,
      errors_define_free _ _ _ (free_after_inferDeclared hc d h)]
    have hdeclared : Adds [d.node] (inferDeclared d) := by
      refine Quiet.andAdds (fun _ hc => ⟨hc, rfl⟩) fun c₀ => ?_
      refine Quiet.andAdds (fun _ hc => ⟨hc.congr rfl rfl, rfl⟩) fun _ => ?_
      refine Adds.own htidy hwrap hvalue fun type => ?_
      refine Quiet.andMayReport (fun _ hc => ⟨hc.congr rfl rfl, rfl⟩) fun _ => ?_
      rw [hspan]
      exact fun _ hc => mayReport_compareTypes d.span .declaredType type _ hc
    obtain ⟨-, new, he, hr⟩ := hdeclared hc
    exact ⟨new, he, hr⟩

/-- In a loop the variable is free, so that a header is reported at most once at its own span. -/
theorem adds_rangeHeader {span : Span} {x : Option String} {a b : Expr}
    (htidy : Tidy [(Header.range span x a b).node]) (ha : Infers a.node (infer a))
    (hb : Infers b.node (infer b)) :
    Adds [(Header.range span x a b).node]
      (enterLoop >>= fun _ => checkHeader (.range span x a b)) := by
  intro c hc
  have hc₁ : Valid (after enterLoop c) := hc.enter (ScopeStack.enters_pushLoop c.scopes)
  obtain ⟨hc₂, newa, hea, hra⟩ := ha.adds hc₁
  have hquiet : ∀ type, (after (defineLoopVariable span x type)
      (after (infer a) (after enterLoop c))).errors =
        (after (infer a) (after enterLoop c)).errors := by
    intro type
    cases x with
    | none => rfl
    | some x => exact errors_define_free _ _ _ (free_after_enterLoop hc a x)
  obtain ⟨hc₃, -⟩ := mayReport_defineLoopVariable span x
    (answer (infer a) (after enterLoop c)) hc₂
  obtain ⟨hc₄, newb, heb, hrb⟩ := hb.adds hc₃
  obtain ⟨hc₅, hown⟩ := mayReport_compareTypes span .loopBounds
    (answer (infer a) (after enterLoop c))
    (answer (infer b) (after (defineLoopVariable span x (answer (infer a) (after enterLoop c)))
      (after (infer a) (after enterLoop c)))) hc₄
  have hinner : Reports (Header.range span x a b).node.inner (newa ++ newb) :=
    Reports.append htidy.inner hra hrb
  have herrors : (after (infer b) (after (defineLoopVariable span x
      (answer (infer a) (after enterLoop c))) (after (infer a) (after enterLoop c)))).errors =
        c.errors ++ (newa ++ newb) := by
    rw [heb, hquiet, hea, List.append_assoc]
    rfl
  simp only [checkHeader, after_bind]
  refine ⟨hc₅, ?_⟩
  rw [herrors] at hown
  rcases hown with he | ⟨f, he⟩
  · exact ⟨_, he, hinner.outer⟩
  · refine ⟨_, by rw [he, List.append_assoc], ?_⟩
    exact hinner.outer.concat (n := (Header.range span x a b).node)
      (mem_allOf_of_mem List.mem_cons_self) (hinner.bytes_ne htidy rfl) f

/-- An operator is reported at its left operand, which has a type then. -/
theorem adds_binary {op : Operator} {l r : Expr} (htidy : Tidy [l.node, r.node])
    (hl : Infers l.node (infer l)) (hr : Infers r.node (infer r)) :
    Adds [l.node, r.node] (do
      let left ← infer l
      let right ← infer r
      settle l.span (Rule.binary op left right)) := by
  intro c hc
  obtain ⟨hc₁, newl, hel, hrl, hne⟩ := hl hc
  obtain ⟨hc₂, newr, her, hrr⟩ := hr.adds hc₁
  simp only [after_bind]
  have herrors : (after (infer r) (after (infer l) c)).errors = c.errors ++ (newl ++ newr) := by
    rw [her, hel, List.append_assoc]
  generalize hleft : answer (infer l) c = left at hne
  generalize answer (infer r) (after (infer l) c) = right
  refine ⟨(settles_settle _ _ hc₂).1, ?_⟩
  rw [errors_settle, herrors]
  cases hv : Rule.binary op left right with
  | type t => exact ⟨_, List.append_nil _, .append htidy hrl hrr⟩
  | silent => exact ⟨_, List.append_nil _, .append htidy hrl hrr⟩
  | fault f =>
    have hsome : left ≠ none := by
      rintro rfl
      simp [Rule.binary] at hv
    have hall : Tidy ([] ++ (l.node :: [r.node])) := htidy
    have hreports := Reports.beside hall (.nil []) hrl hrr (hne hsome) f
    rw [Expr.span_node] at hreports
    exact ⟨_, List.append_assoc _ _ _, hreports⟩

/-- A choice is reported at its first branch, which has a type then. -/
theorem adds_conditional {p t e : Expr} (htidy : Tidy [p.node, t.node, e.node])
    (hp : Infers p.node (infer p)) (ht : Infers t.node (infer t)) (he : Infers e.node (infer e)) :
    Adds [p.node, t.node, e.node] (do
      let predicate ← infer p
      let thenType ← infer t
      let elseType ← infer e
      settle t.span (Rule.conditional predicate thenType elseType)) := by
  intro c hc
  obtain ⟨hc₁, newp, hep, hrp⟩ := hp.adds hc
  obtain ⟨hc₂, newt, het, hrt, hne⟩ := ht hc₁
  obtain ⟨hc₃, newe, hee, hre⟩ := he.adds hc₂
  simp only [after_bind]
  have herrors : (after (infer e) (after (infer t) (after (infer p) c))).errors =
      c.errors ++ (newp ++ (newt ++ newe)) := by
    rw [hee, het, hep, List.append_assoc, List.append_assoc]
  generalize hthen : answer (infer t) (after (infer p) c) = thenType at hne
  generalize answer (infer e) (after (infer t) (after (infer p) c)) = elseType
  generalize answer (infer p) c = predicate
  have hparts : Reports [p.node, t.node, e.node] (newp ++ (newt ++ newe)) :=
    Reports.append htidy hrp (Reports.append htidy.tail hrt hre)
  refine ⟨(settles_settle _ _ hc₃).1, ?_⟩
  rw [errors_settle, herrors]
  cases hv : Rule.conditional predicate thenType elseType with
  | type u => exact ⟨_, List.append_nil _, hparts⟩
  | silent => exact ⟨_, List.append_nil _, hparts⟩
  | fault f =>
    have hsome : thenType ≠ none := by
      rintro rfl
      cases predicate <;> simp [Rule.conditional] at hv
    have hall : Tidy ([p.node] ++ (t.node :: [e.node])) := htidy
    have hreports := Reports.beside hall hrp hrt hre (hne hsome) f
    rw [Expr.span_node] at hreports
    exact ⟨_, List.append_assoc _ _ _, hreports⟩

/-- A function is reported at its body. -/
theorem adds_function {params : List Param} {result : Option TypeExpr} {body : Body}
    (htidy : Tidy (params.map Param.node ++ [body.node]))
    (hbody : Adds body.node.inner (inferBody body)) :
    Adds (params.map Param.node ++ [body.node]) (do
      enterFunction
      defineParams params
      modify fun c => { c with depth := c.depth + 1 }
      let type ← inferBody body
      modify fun c => { c with depth := c.depth - 1 }
      leaveScope
      settle body.span (Rule.function (params.map paramType) (result.map Ty.ofTypeExpr) type)) := by
  have hspan : body.node.span = body.span := by cases body <;> rfl
  have hwrap : body.node.mayWrap = false := by cases body <;> rfl
  refine quiet_enterFunction.andAdds fun _ => ?_
  refine .bind htidy (adds_defineParams params (htidy.sublist (List.sublist_append_left _ _)))
    fun _ => ?_
  refine (quiet_modifyDepth (· + 1)).andAdds fun _ => ?_
  refine .own (htidy.sublist (List.sublist_append_right _ _)) hwrap hbody fun type => ?_
  refine (quiet_modifyDepth (· - 1)).andMayReport fun _ => quiet_leaveScope.andMayReport fun _ => ?_
  rw [hspan]
  exact (settles_settle _ _).mayReport

/-- A statement that begins with an expression declares nothing. -/
theorem mayWrap_stmt_expr (s : Span) (e : Expr) (ns : List Node) :
    (Node.mk .stmt s (e.node :: ns)).mayWrap = false := by
  cases ns <;> cases e <;> rfl

theorem infers_call {s : Span} {f : Expr} {es : List Expr} (htidy : Tidy [(Expr.call s f es).node])
    (hf : Infers f.node (infer f)) (hes : Adds (exprNodes es) (inferAll es)) :
    Infers (Expr.call s f es).node (do
      let callee ← infer f
      let types ← inferAll es
      settle s (Rule.call callee types)) := by
  have hparts : Adds (f.node :: exprNodes es) (do
      let callee ← infer f
      let types ← inferAll es
      return (callee, types)) :=
    .cons htidy.inner hf.adds fun callee => hes.andQuiet fun types => quiet_pure _
  have hown := Infers.own htidy rfl hparts fun parts =>
    settles_settle s (Rule.call parts.1 parts.2)
  simpa only [bind_assoc, pure_bind] using hown

theorem infers_index {s : Span} {t i : Expr} (htidy : Tidy [(Expr.index s t i).node])
    (ht : Infers t.node (infer t)) (hi : Infers i.node (infer i)) :
    Infers (Expr.index s t i).node (do
      let target ← infer t
      let type ← infer i
      settle s (Rule.index target type)) := by
  have hparts : Adds [t.node, i.node] (do
      let target ← infer t
      let type ← infer i
      return (target, type)) :=
    .cons htidy.inner ht.adds fun target => hi.adds.andQuiet fun type => quiet_pure _
  have hown := Infers.own htidy rfl hparts fun parts =>
    settles_settle s (Rule.index parts.1 parts.2)
  simpa only [bind_assoc, pure_bind] using hown

theorem adds_assign {s : Span} {t v : Expr} (htidy : Tidy [(Stmt.assign s t v).node])
    (ht : Infers t.node (infer t)) (hv : Infers v.node (infer v)) :
    Adds [(Stmt.assign s t v).node] (do
      let target ← infer t
      let value ← infer v
      compareTypes s .assignment value target) := by
  have hparts : Adds [t.node, v.node] (do
      let target ← infer t
      let value ← infer v
      return (target, value)) :=
    .cons htidy.inner ht.adds fun target => hv.adds.andQuiet fun value => quiet_pure _
  have hown := Adds.own htidy (mayWrap_stmt_expr s t _) hparts fun parts =>
    mayReport_compareTypes s .assignment parts.2 parts.1
  simpa only [bind_assoc, pure_bind] using hown

theorem adds_callStmt {s : Span} {f : Expr} {es : List Expr}
    (htidy : Tidy [(Stmt.call s f es).node]) (hf : Infers f.node (infer f))
    (hes : Adds (exprNodes es) (inferAll es)) :
    Adds [(Stmt.call s f es).node] (do
      let callee ← infer f
      let types ← inferAll es
      let _ ← settle s (Rule.call callee types) : CheckM Unit) := by
  have hparts : Adds (f.node :: exprNodes es) (do
      let callee ← infer f
      let types ← inferAll es
      return (callee, types)) :=
    .cons htidy.inner hf.adds fun callee => hes.andQuiet fun types => quiet_pure _
  have hown := Adds.own htidy (mayWrap_stmt_expr s f _) hparts fun parts =>
    (settles_settle s (Rule.call parts.1 parts.2)).mayReport
  have hadds := hown.andQuiet fun _ => quiet_pure ()
  simpa only [bind_assoc, pure_bind] using hadds

theorem adds_loop {s : Span} {hd : Header} {b : List Stmt} (htidy : Tidy [(Stmt.loop s hd b).node])
    (hhd : Adds [hd.node] (enterLoop >>= fun _ => checkHeader hd))
    (hb : Adds (stmtNodes b) (checkStmts b)) :
    Adds [(Stmt.loop s hd b).node] (do
      enterLoop
      checkHeader hd
      checkStmts b
      leaveScope) := by
  have hadds : Adds (hd.node :: stmtNodes b) ((enterLoop >>= fun _ => checkHeader hd) >>= fun _ =>
      checkStmts b >>= fun _ => leaveScope) :=
    .cons htidy.inner hhd fun _ => hb.andQuiet fun _ => quiet_leaveScope
  exact hadds.within (n := (Stmt.loop s hd b).node)

/-! ## The walk -/

mutual

theorem infers_infer : (e : Expr) → Tidy [e.node] → Infers e.node (infer e)
  | .literal s v, h => by
    simp only [infer]
    exact .within h rfl ((quiet_pure _).adds _)
  | .var s x, h => by
    simp only [infer]
    have hvar : Infers (Expr.var s x).node ((pure () : CheckM Unit) >>= fun _ => inferVar s x) :=
      .own h rfl ((quiet_pure ()).adds _) fun _ => settles_inferVar s x
    exact hvar
  | .binary s op l r, h => by
    simp only [infer]
    have hparts : Tidy [l.node, r.node] := h.inner
    exact .within h rfl
      (adds_binary hparts (infers_infer l hparts.head) (infers_infer r hparts.tail))
  | .conditional s p t e, h => by
    simp only [infer]
    have hparts : Tidy [p.node, t.node, e.node] := h.inner
    exact .within h rfl (adds_conditional hparts (infers_infer p hparts.head)
      (infers_infer t hparts.tail.head) (infers_infer e hparts.tail.tail))
  | .function s params result body, h => by
    simp only [infer]
    have hparts : Tidy (params.map Param.node ++ (optionalNode result ++ [body.node])) := h.inner
    have hsub : (params.map Param.node ++ [body.node]).Sublist
        (params.map Param.node ++ (optionalNode result ++ [body.node])) :=
      (List.sublist_append_right _ _).append_left _
    have htidy := hparts.sublist hsub
    have hbody := adds_inferBody body (htidy.sublist (List.sublist_append_right _ _))
    refine .within h rfl ((adds_function htidy hbody).mono fun n hn => ?_)
    obtain ⟨k, hk, hnk⟩ := mem_allOf.mp hn
    exact mem_allOf.mpr ⟨k, hsub.subset hk, hnk⟩
  | .array s es, h => by
    simp only [infer]
    exact .own h rfl (adds_inferAll es h.inner) fun types => settles_settle s _
  | .map s es, h => by
    simp only [infer]
    exact .own h rfl (adds_inferEntries es h.inner) fun types => settles_settle s _
  | .tuple s es, h => by
    simp only [infer]
    exact .within h rfl ((adds_inferElements 0 es h.inner).andQuiet quiet_recordTuple)
  | .call s f es, h => by
    simp only [infer]
    exact infers_call h (infers_infer f h.inner.head) (adds_inferAll es h.inner.tail)
  | .index s t i, h => by
    simp only [infer]
    exact infers_index h (infers_infer t h.inner.head) (infers_infer i h.inner.tail)
  | .field s t x, h => by
    simp only [infer]
    exact .own h rfl (infers_infer t h.inner).adds fun type => settles_settleField s t type x
  | .ordinal s t n, h => by
    simp only [infer]
    exact .own h rfl (infers_infer t h.inner).adds fun type => settles_settleField s t type _

theorem adds_inferAll : (es : List Expr) → Tidy (exprNodes es) → Adds (exprNodes es) (inferAll es)
  | [], _ => by
    simp only [inferAll]
    exact (quiet_pure _).adds _
  | e :: rest, h => by
    simp only [inferAll]
    refine .cons h (infers_infer e h.head).adds fun type => ?_
    exact (adds_inferAll rest h.tail).andQuiet fun types => quiet_pure _

theorem adds_inferEntries :
    (es : List Entry) → Tidy (entryNodes es) → Adds (entryNodes es) (inferEntries es)
  | [], _ => by
    simp only [inferEntries]
    exact (quiet_pure _).adds _
  | ⟨s, k, v⟩ :: rest, h => by
    simp only [inferEntries]
    have hparts : Tidy (k.node :: v.node :: entryNodes rest) := h.unwrap
    have hadds : Adds (k.node :: v.node :: entryNodes rest) (do
        let key ← infer k
        let value ← infer v
        let types ← inferEntries rest
        return (key, value) :: types) := by
      refine .cons hparts (infers_infer k hparts.head).adds fun key => ?_
      refine .cons hparts.tail (infers_infer v hparts.tail.head).adds fun value => ?_
      exact (adds_inferEntries rest h.tail).andQuiet fun types => quiet_pure _
    exact hadds.wrap

theorem adds_inferElements (place : Nat) :
    (es : List Element) → Tidy (elementNodes es) → Adds (elementNodes es) (inferElements place es)
  | [], _ => by
    simp only [inferElements]
    exact (quiet_pure _).adds _
  | ⟨s, x, v⟩ :: rest, h => by
    simp only [inferElements]
    have hparts : Tidy (v.node :: elementNodes rest) := h.unwrap
    have hadds : Adds (v.node :: elementNodes rest) (do
        let type ← infer v
        let fields ← inferElements (place + 1) rest
        return (Element.fieldName ⟨s, x, v⟩ place, type) :: fields) := by
      refine .cons hparts (infers_infer v hparts.head).adds fun type => ?_
      exact (adds_inferElements (place + 1) rest h.tail).andQuiet fun fields => quiet_pure _
    exact hadds.wrap

theorem adds_inferBody :
    (b : Body) → Tidy [b.node] → Adds b.node.inner (inferBody b)
  | .expr s e, h => by
    simp only [inferBody]
    exact (infers_infer e h.inner).adds
  | .block s stmts, h => by
    simp only [inferBody]
    exact adds_inferBlock _ stmts h.inner

theorem adds_inferBlock (type : Option Ty) :
    (stmts : List Stmt) → Tidy (stmtNodes stmts) → Adds (stmtNodes stmts) (inferBlock type stmts)
  | [], _ => by
    simp only [inferBlock]
    exact (quiet_pure _).adds _
  | .returnNothing s :: rest, h => by
    simp only [inferBlock]
    exact (adds_inferBlock _ rest h.tail).mono fun n hn => List.mem_append_right _ hn
  | .returnValue s e :: rest, h => by
    simp only [inferBlock]
    have hparts : Tidy (e.node :: stmtNodes rest) := h.unwrap
    have hadds : Adds (e.node :: stmtNodes rest) (do
        let type ← infer e
        inferBlock type rest) :=
      .cons hparts (infers_infer e hparts.head).adds fun type => adds_inferBlock type rest h.tail
    exact hadds.wrap
  | .declaration _ _ :: rest, h | .assign _ _ _ :: rest, h | .call _ _ _ :: rest, h
  | .ifThen _ _ _ :: rest, h | .ifElse _ _ _ _ :: rest, h | .loop _ _ _ :: rest, h
  | .breakLoop _ :: rest, h | .print _ _ :: rest, h => by
    simp only [inferBlock]
    exact .cons h (adds_checkStmt _ h.head) fun _ => adds_inferBlock type rest h.tail

theorem adds_checkStmt : (st : Stmt) → Tidy [st.node] → Adds [st.node] (checkStmt st)
  | .declaration s d, h => by
    simp only [checkStmt]
    exact (adds_checkDeclaration d h.inner).wrap
  | .assign s t v, h => by
    simp only [checkStmt]
    exact adds_assign h (infers_infer t h.inner.head) (infers_infer v h.inner.tail)
  | .call s f es, h => by
    simp only [checkStmt]
    exact adds_callStmt h (infers_infer f h.inner.head) (adds_inferAll es h.inner.tail)
  | .ifThen s c t, h => by
    simp only [checkStmt]
    have hadds : Adds (c.node :: stmtNodes t) (do
        let _ ← infer c
        checkStmts t) :=
      .cons h.inner (infers_infer c h.inner.head).adds fun _ => adds_checkStmts t h.inner.tail
    exact hadds.within (n := (Stmt.ifThen s c t).node)
  | .ifElse s c t e, h => by
    simp only [checkStmt]
    have hrest : Tidy (stmtNodes t ++ stmtNodes e) := h.inner.tail
    have ht := adds_checkStmts t (hrest.sublist (List.sublist_append_left _ _))
    have he := adds_checkStmts e (hrest.sublist (List.sublist_append_right _ _))
    have hadds : Adds (c.node :: (stmtNodes t ++ stmtNodes e)) (do
        let _ ← infer c
        checkStmts t
        checkStmts e) :=
      .cons h.inner (infers_infer c h.inner.head).adds fun _ => .bind hrest ht fun _ => he
    exact hadds.within (n := (Stmt.ifElse s c t e).node)
  | .loop s hd b, h => by
    simp only [checkStmt]
    exact adds_loop h (adds_checkHeader hd h.inner.head) (adds_checkStmts b h.inner.tail)
  | .returnNothing s, h => by
    simp only [checkStmt]
    have hstray : Adds [(Stmt.returnNothing s).node] ((pure () : CheckM Unit) >>= fun _ => do
        if (← get).depth = 0 then report s .strayReturn) :=
      .own h rfl ((quiet_pure ()).adds _) fun _ => mayReport_strayReturn s
    exact hstray
  | .returnValue s e, h => by
    simp only [checkStmt]
    exact .own h (mayWrap_stmt_expr s e []) (infers_infer e h.inner).adds fun _ =>
      mayReport_strayReturn s
  | .breakLoop s, _ => by
    simp only [checkStmt]
    exact (quiet_pure ()).adds _
  | .print s es, h => by
    simp only [checkStmt]
    exact ((adds_inferAll es h.inner).andQuiet fun _ => quiet_pure ()).within
      (n := (Stmt.print s es).node)

theorem adds_checkStmts :
    (stmts : List Stmt) → Tidy (stmtNodes stmts) → Adds (stmtNodes stmts) (checkStmts stmts)
  | [], _ => by
    simp only [checkStmts]
    exact (quiet_pure ()).adds _
  | s :: rest, h => by
    simp only [checkStmts]
    exact .cons h (adds_checkStmt s h.head) fun _ => adds_checkStmts rest h.tail

/-- A header is checked in a loop that has just been entered. -/
theorem adds_checkHeader :
    (hd : Header) → Tidy [hd.node] → Adds [hd.node] (enterLoop >>= fun _ => checkHeader hd)
  | .items s x e, h => by
    simp only [checkHeader]
    refine quiet_enterLoop.andAdds fun _ => ?_
    exact .own h rfl (infers_infer e h.inner).adds fun type => mayReport_defineLoopVariable s x type
  | .range s x a b, h =>
    adds_rangeHeader h (infers_infer a h.inner.head) (infers_infer b h.inner.tail)
  | .condition s e, h => by
    simp only [checkHeader]
    refine quiet_enterLoop.andAdds fun _ => ?_
    exact ((infers_infer e h.inner).adds.andQuiet fun _ => quiet_pure ()).within
      (n := (Header.condition s e).node)

theorem adds_checkDeclaration :
    (d : Declaration) → Tidy [d.node] → Adds [d.node] (checkDeclaration d)
  | ⟨s, x, t, v⟩, h => by
    have hparts : Tidy (optionalNode t ++ [v.node]) := h.inner
    have hvalue := infers_infer v (hparts.sublist (List.sublist_append_right _ _))
    refine adds_declaration ⟨s, x, t, v⟩ h (hvalue.adds.mono fun n hn => ?_)
    rw [show (Declaration.node ⟨s, x, t, v⟩).inner = optionalNode t ++ [v.node] from rfl,
      allOf_append]
    exact List.mem_append_right _ hn

end

theorem adds_checkDeclarations (ds : List Declaration) (h : Tidy (ds.map Declaration.node)) :
    Adds (ds.map Declaration.node) (checkDeclarations ds) := by
  induction ds with
  | nil => exact (quiet_pure ()).adds _
  | cons d rest ih => exact .cons h (adds_checkDeclaration d h.head) fun _ => ih h.tail

/-! ## Whole programs -/

/-- The declarations, each with the errors that are recorded while it is checked. -/
def findings (c : Checker) : List Declaration → List (Declaration × List TypeError)
  | [] => []
  | d :: rest =>
    let c' := after (checkDeclaration d) c
    (d, c'.errors.drop c.errors.length) :: c'.findings rest

theorem fst_findings (ds : List Declaration) (c : Checker) :
    (c.findings ds).map Prod.fst = ds := by
  induction ds generalizing c with
  | nil => rfl
  | cons d rest ih => rw [findings, List.map_cons, ih]

/-- The errors of a declaration lie in its text, and they follow those of the declarations before
it. -/
theorem findings_spec {ds : List Declaration} (h : Tidy (ds.map Declaration.node)) {c : Checker}
    (hc : c.Valid) :
    (after (checkDeclarations ds) c).errors = c.errors ++ (c.findings ds).flatMap Prod.snd ∧
      ∀ f ∈ c.findings ds, ∀ e ∈ f.2, e.span.Inside f.1.span := by
  induction ds generalizing c with
  | nil => exact ⟨(List.append_nil _).symm, by simp [findings]⟩
  | cons d rest ih =>
    obtain ⟨hv, new, he, hr⟩ := adds_checkDeclaration d h.head hc
    obtain ⟨herrors, hinside⟩ := ih h.tail hv
    have hdrop : (after (checkDeclaration d) c).errors.drop c.errors.length = new := by
      rw [he, List.drop_left]
    have hspan : d.node.span = d.span := by
      cases d
      rfl
    rw [checkDeclarations, after_bind, findings, List.flatMap_cons, hdrop]
    refine ⟨by rw [herrors, he, List.append_assoc], ?_⟩
    intro f hf e hmem
    rcases List.mem_cons.mp hf with rfl | hf
    · obtain ⟨n, hn, hn'⟩ := hr.placed e hmem
      obtain ⟨k, hk, hnk⟩ := mem_allOf.mp hn
      obtain rfl := List.mem_singleton.mp hk
      rw [← hn', ← hspan]
      exact inside_of_mem_all (h.head.all List.mem_cons_self) n hnk
    · exact hinside f hf e hmem

end Checker

theorem tidy_of_ofText {text : List Char} {p : Program} (h : Program.ofText text = .ok p) :
    Tidy p.nodes := by
  obtain ⟨ts, hout⟩ := laidOut_of_ofText h
  obtain ⟨b, hlaid⟩ := hout.laid
  exact ⟨hlaid.orderly, hlaid.ordered⟩

/-- The errors of a program stand at its nodes. -/
theorem reports_of_ofText {text : List Char} {p : Program} (h : Program.ofText text = .ok p) :
    Reports p.nodes (Checker.initial.check p).errors := by
  obtain ⟨-, new, he, hr⟩ :=
    Checker.adds_checkDeclarations p.declarations (tidy_of_ofText h) Checker.valid_initial
  rw [Checker.check_eq_after, he]
  exact hr

/-- Every fault that is found in a text, be it by the lexer, by a reader or by the checker, is about
a stretch of the text between two characters, with the right position. The faults that the checker
finds lie in the declaration that it was checking, and they come in the order of the
declarations. -/
theorem faults_placed (text : List Char) :
    (∀ e, tokenize text = .error e → e.span.LiesIn text) ∧
      (∀ e, Program.ofText text = .error e → e.span.LiesIn text) ∧
      ∀ p, Program.ofText text = .ok p →
        (∀ e ∈ (Checker.initial.check p).errors, e.span.LiesIn text) ∧
        (Checker.initial.findings p.declarations).map Prod.fst = p.declarations ∧
        (Checker.initial.check p).errors =
          (Checker.initial.findings p.declarations).flatMap Prod.snd ∧
        ∀ f ∈ Checker.initial.findings p.declarations, ∀ e ∈ f.2, e.span.Inside f.1.span := by
  refine ⟨fun _ => liesIn_of_tokenize, fun _ => liesIn_of_ofText, fun p h => ?_⟩
  obtain ⟨herrors, hinside⟩ := Checker.findings_spec (tidy_of_ofText h) Checker.valid_initial
  refine ⟨?_, Checker.fst_findings _ _, herrors, hinside⟩
  intro e he
  obtain ⟨ts, hout⟩ := laidOut_of_ofText h
  obtain ⟨b, hlaid⟩ := hout.laid
  obtain ⟨n, hn, hspan⟩ := (reports_of_ofText h).placed e he
  rw [← hspan]
  exact (hlaid.bounded n hn).liesIn hout.scan (hlaid.orderly n hn)

/-- Two declarations with faults, the first of them behind a character of two bytes. -/
def twoFaults : List Char := "a is (\"é\" * 2, b); b is [1, true]".toList

theorem faults_placed_twoFaults :
    ∃ p, Program.ofText twoFaults = .ok p ∧
      (Checker.initial.findings p.declarations).map (fun f => f.2.map (·.span.bytes)) =
        [[(6, 10), (16, 17)], [(25, 34)]] ∧
      ∀ e ∈ (Checker.initial.check p).errors, e.span.LiesIn twoFaults := by
  have hplaces : (Program.ofText twoFaults).toOption.map (fun p =>
      (Checker.initial.findings p.declarations).map fun f => f.2.map (·.span.bytes)) =
        some [[(6, 10), (16, 17)], [(25, 34)]] := by decide +kernel
  cases h : Program.ofText twoFaults with
  | error e => simp [h, Except.toOption] at hplaces
  | ok p =>
    rw [h] at hplaces
    exact ⟨p, rfl, Option.some.inj hplaces, ((faults_placed twoFaults).2.2 p h).1⟩

/-- No two faults that the checker finds in a program are about the same bytes of its text. -/
theorem errors_bytes_nodup {text : List Char} {p : Program} (h : Program.ofText text = .ok p) :
    ((Checker.initial.check p).errors.map fun e => e.span.bytes).Nodup :=
  (reports_of_ofText h).nodup

/-- Faults at a parameter, at a header, at a statement, at operands, at a body and at a
declaration. -/
def mixedFaults : List Char :=
  ("f is func(a: integer, a: string): string do for i in 1 .. true loop a := true; end " ++
    "i: string is if true then 1 + true else 2 end; return a end; f is 1; " ++
    "g is if true then 1 else (1 * true) - 2 end").toList

theorem errors_bytes_nodup_mixedFaults :
    ∃ p, Program.ofText mixedFaults = .ok p ∧ 5 < (Checker.initial.check p).errors.length ∧
      ((Checker.initial.check p).errors.map fun e => e.span.bytes).Nodup := by
  have hmany : (Program.ofText mixedFaults).toOption.map
      (fun p => decide (5 < (Checker.initial.check p).errors.length)) = some true := by
    decide +kernel
  cases h : Program.ofText mixedFaults with
  | error e => simp [h, Except.toOption] at hmany
  | ok p =>
    rw [h] at hmany
    exact ⟨p, rfl, of_decide_eq_true (Option.some.inj hmany), errors_bytes_nodup h⟩

end ExprCheck
