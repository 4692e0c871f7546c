import Mathlib
import ExprCheck.Proofs.DerivedParts
import ExprCheck.Proofs.EditedRuns
import ExprCheck.Proofs.Openers
import ExprCheck.Proofs.TypeText

/-!
# What inferred types are made of

Types come from annotations, from constants and from other types that were inferred before: through
variables, calls, indices, choices, and through the fields of recorded tuples. No annotation writes
`undefined`, or a function type that lacks even a result. A function type without a result is never
built at all. `undefined` is built for a parameter without an annotation and for a block whose
returns do not say otherwise, and for nothing else: a name without a type is shown with this type,
but it passes no type on.

Both facts are about a type `s` without parts that no annotation writes, and have one proof. The
invariant is `Checker.Lacks s`: no type in the tables has `s` in it. It is kept by every part of the
walk (`Checker.keepsOut`), by induction along the parts.
-/

namespace ExprCheck

namespace Ty

/-- A type is found in another one, at some depth. -/
inductive Occurs (s : Ty) : Ty → Prop where
  | self : Occurs s s
  | part {t u : Ty} : u ∈ t.parts → Occurs s u → Occurs s t

/-- The types without parts that no annotation writes. -/
def IsUnwritten (s : Ty) : Prop := s = .function [] ∨ s = .undefined

/-- One type is not found in the other. -/
def Lacks (s t : Ty) : Prop := ¬ s.Occurs t

/-- The type is not found in what an expression is said to have as its type. -/
def Misses (s : Ty) (type : Option Ty) : Prop := ∀ t, type = some t → s.Lacks t

theorem lacks_iff {s t : Ty} : s.Lacks t ↔ t ≠ s ∧ ∀ u ∈ t.parts, s.Lacks u := by
  constructor
  · intro h
    exact ⟨fun heq => h (heq ▸ .self), fun u hu hs => h (.part hu hs)⟩
  · rintro ⟨hne, hparts⟩ hs
    cases hs with
    | self => exact hne rfl
    | part hu hs => exact hparts _ hu hs

theorem misses_none (s : Ty) : s.Misses none := by
  rintro t ⟨⟩

theorem misses_some {s t : Ty} : s.Misses (some t) ↔ s.Lacks t := by
  simp [Misses]

section Unwritten

variable {s : Ty} (hs : s.IsUnwritten)

include hs

theorem lacks_primitive (p : Primitive) : s.Lacks (.primitive p) := by
  refine lacks_iff.mpr ⟨?_, by simp [parts]⟩
  rcases hs with rfl | rfl <;> simp

theorem lacks_array {t : Ty} (ht : s.Lacks t) : s.Lacks (.array t) := by
  refine lacks_iff.mpr ⟨?_, by simpa [parts] using ht⟩
  rcases hs with rfl | rfl <;> simp

theorem lacks_map {k v : Ty} (hk : s.Lacks k) (hv : s.Lacks v) : s.Lacks (.map k v) := by
  refine lacks_iff.mpr ⟨?_, by simpa [parts] using ⟨hk, hv⟩⟩
  rcases hs with rfl | rfl <;> simp

theorem lacks_tuple {ts : List Ty} (hts : ∀ t ∈ ts, s.Lacks t) : s.Lacks (.tuple ts) := by
  refine lacks_iff.mpr ⟨?_, hts⟩
  rcases hs with rfl | rfl <;> simp

/-- A function type with a result is not the one without. -/
theorem lacks_arrow {params : List Ty} {result : Ty} (hparams : ∀ t ∈ params, s.Lacks t)
    (hresult : s.Lacks result) : s.Lacks (.arrow params result) := by
  refine lacks_iff.mpr ⟨?_, ?_⟩
  · rcases hs with rfl | rfl <;> simp [arrow]
  · intro t ht
    rcases List.mem_append.mp ht with ht | ht
    · exact hparams t ht
    · obtain rfl := List.mem_singleton.mp ht
      exact hresult

end Unwritten

mutual

/-- No annotation writes such a type, at any depth. -/
theorem lacks_ofTypeExpr {s : Ty} (hs : s.IsUnwritten) : (a : TypeExpr) → s.Lacks (ofTypeExpr a)
  | .primitive _ p => lacks_primitive hs p
  | .func _ params result =>
    lacks_arrow hs (lacks_ofTypeExprs hs params) (lacks_ofTypeExpr hs result)
  | .array _ element => lacks_array hs (lacks_ofTypeExpr hs element)
  | .map _ key value => lacks_map hs (lacks_ofTypeExpr hs key) (lacks_ofTypeExpr hs value)
  | .tuple _ fields => lacks_tuple hs (lacks_ofTypeExprs hs fields)

theorem lacks_ofTypeExprs {s : Ty} (hs : s.IsUnwritten) :
    (as : List TypeExpr) → ∀ t ∈ ofTypeExprs as, s.Lacks t
  | [] => by simp [ofTypeExprs]
  | a :: rest => List.forall_mem_cons.mpr ⟨lacks_ofTypeExpr hs a, lacks_ofTypeExprs hs rest⟩

end

theorem lacks_undefined {s : Ty} (hs : s ≠ .undefined) : s.Lacks .undefined :=
  lacks_iff.mpr ⟨hs.symm, by simp [parts]⟩

/-- The result of a function type is a part of it. -/
theorem Lacks.result {s f : Ty} (h : s.Lacks f) {params : List Ty} {result : Ty}
    (hf : f.signature? = some (params, result)) : s.Lacks result := by
  cases f with
  | function signature =>
    obtain ⟨last, hlast, hpair⟩ := Option.map_eq_some_iff.mp hf
    cases hpair
    exact (lacks_iff.mp h).2 _ (List.mem_of_getLast? hlast)
  | _ => cases hf

end Ty

/-! ## Function literals that say what they take and return -/

namespace Stmt

/-- Whether a statement is a return. -/
def isReturn : Stmt → Bool
  | returnNothing _ | returnValue _ _ => true
  | _ => false

end Stmt

/-- Among the statements themselves there is a return, and the last one has a value. -/
def EndsInValue (stmts : List Stmt) : Prop :=
  ∃ before span e later, stmts = before ++ .returnValue span e :: later ∧
    ∀ s ∈ later, s.isReturn = false

theorem EndsInValue.of_cons {s : Stmt} {rest : List Stmt} (h : EndsInValue (s :: rest)) :
    (∃ span e, s = .returnValue span e ∧ ∀ r ∈ rest, r.isReturn = false) ∨ EndsInValue rest := by
  obtain ⟨before, span, e, later, hstmts, hlater⟩ := h
  cases before with
  | nil =>
    cases hstmts
    exact Or.inl ⟨span, e, rfl, hlater⟩
  | cons first before =>
    cases hstmts
    exact Or.inr ⟨before, span, e, later, rfl, hlater⟩

/-- A body that is a block returns a value in the end. -/
def Body.ReturnsValue : Body → Prop
  | .expr _ _ => True
  | .block _ stmts => EndsInValue stmts

/-- If the expression is a function literal, all its parameters have annotations and its body
returns a value. -/
def Expr.Determined : Expr → Prop
  | .function _ params _ body => (∀ p ∈ params, p.typeExpr.isSome = true) ∧ body.ReturnsValue
  | _ => True

/-- Where `undefined` is to be kept out, the function literals of the part are determined. -/
def Part.Determined (s : Ty) (part : Part) : Prop :=
  ∀ e, (Part.expr e).Within part → s = .undefined → e.Determined

theorem Part.Determined.of_mem {s : Ty} {part inner : Part} (h : part.Determined s)
    (hmem : inner ∈ part.parts) : inner.Determined s :=
  fun e he => h e (.step hmem he)

/-! ## Rules -/

/-- The type is not in the type that a verdict gives, nor in one that it says cannot be called. -/
def Verdict.Lacks (s : Ty) : Verdict → Prop
  | .type t => s.Lacks t
  | .silent => True
  | .fault f => ∀ t, f = .notCallable t → s.Lacks t ∧ t.signature? = none

namespace Rule

variable {s : Ty}

theorem mem_of_mem_all? {types : List (Option Ty)} {ts : List Ty} (h : all? types = some ts) :
    ∀ t ∈ ts, some t ∈ types := by
  induction types generalizing ts with
  | nil =>
    cases h
    simp
  | cons type types ih =>
    cases type with
    | none => cases h
    | some t =>
      obtain ⟨us, hus, rfl⟩ := Option.map_eq_some_iff.mp h
      intro u hu
      rcases List.mem_cons.mp hu with rfl | hu
      · exact List.mem_cons_self
      · exact List.mem_cons_of_mem _ (ih hus u hu)

theorem mem_of_mem_allEntries? {types : List (Option Ty)} {entries : List (Ty × Ty)}
    (h : allEntries? (pairUp types) = some entries) :
    ∀ entry ∈ entries, some entry.1 ∈ types ∧ some entry.2 ∈ types := by
  induction types using pairUp.induct generalizing entries with
  | case1 k v rest ih =>
    rw [pairUp] at h
    cases k with
    | none => cases h
    | some k =>
      cases v with
      | none => cases h
      | some v =>
        obtain ⟨others, hothers, rfl⟩ := Option.map_eq_some_iff.mp h
        intro entry hentry
        rcases List.mem_cons.mp hentry with rfl | hentry
        · simp
        · obtain ⟨hkey, hvalue⟩ := ih hothers entry hentry
          exact ⟨by simp [hkey], by simp [hvalue]⟩
  | case2 types hshort =>
    rw [pairUp.eq_2 _ hshort] at h
    cases h
    simp

theorem lacks_binary (hs : s.IsUnwritten) (op : Operator) (l r : Option Ty) :
    (binary op l r).Lacks s := by
  unfold binary
  split
  · split
    · next t ht =>
      -- operators give primitive types only
      unfold Promotion.result? at ht
      split at ht
      · obtain ⟨p, -, rfl⟩ := Option.map_eq_some_iff.mp ht
        exact Ty.lacks_primitive hs p
      · cases ht
    · rintro t ⟨⟩
  · trivial

theorem lacks_conditional (p : Option Ty) {t : Option Ty} (e : Option Ty) (ht : s.Misses t) :
    (conditional p t e).Lacks s := by
  unfold conditional
  split
  · split
    · exact ht _ rfl
    · rintro t ⟨⟩
  · trivial

theorem lacks_function (hs : s.IsUnwritten) {params : List Ty} (hparams : ∀ t ∈ params, s.Lacks t)
    (declared : Option Ty) {body : Option Ty} (hbody : s.Misses body) :
    (function params declared body).Lacks s := by
  unfold function
  split
  · trivial
  · have harrow := Ty.lacks_arrow hs hparams (hbody _ rfl)
    split
    · exact harrow
    · split
      · exact harrow
      · rintro t ⟨⟩

theorem lacks_array (hs : s.IsUnwritten) {types : List (Option Ty)}
    (htypes : ∀ type ∈ types, s.Misses type) : (array types).Lacks s := by
  unfold array
  split
  · trivial
  · rintro t ⟨⟩
  · next first rest hall =>
    split
    · have hfirst := mem_of_mem_all? hall first List.mem_cons_self
      exact Ty.lacks_array hs (htypes _ hfirst _ rfl)
    · rintro t ⟨⟩

theorem lacks_map (hs : s.IsUnwritten) {types : List (Option Ty)}
    (htypes : ∀ type ∈ types, s.Misses type) : (map (pairUp types)).Lacks s := by
  unfold map
  split
  · trivial
  · rintro t ⟨⟩
  · next first rest hall =>
    split
    · obtain ⟨hkey, hvalue⟩ := mem_of_mem_allEntries? hall first List.mem_cons_self
      exact Ty.lacks_map hs (htypes _ hkey _ rfl) (htypes _ hvalue _ rfl)
    · rintro t ⟨⟩

/-- What a call gives is the result of what is called. -/
theorem lacks_call {callee : Option Ty} (hcallee : s.Misses callee) (args : List (Option Ty)) :
    (call callee args).Lacks s := by
  unfold call
  split
  · trivial
  · next f =>
    have hf : s.Lacks f := hcallee f rfl
    split
    · next hsignature =>
      rintro t ⟨⟩
      exact ⟨hf, hsignature⟩
    · next params result hsignature =>
      split
      · rintro t ⟨⟩
      · split
        · trivial
        · split
          · exact hf.result hsignature
          · rintro t ⟨⟩

theorem lacks_index (target : Option Ty) {i : Option Ty} (hi : s.Misses i) :
    (index target i).Lacks s := by
  unfold index
  split
  · split
    · split
      · exact hi _ rfl
      · rintro t ⟨⟩
    · split
      · exact hi _ rfl
      · rintro t ⟨⟩
    · rintro t ⟨⟩
  · trivial

theorem lacks_field {known : Option Ty} (hknown : s.Misses known) (target : Option Ty) :
    (field known target).Lacks s := by
  unfold field
  split
  · trivial
  · split
    · exact hknown _ rfl
    · trivial
  · rintro t ⟨⟩

end Rule

namespace Checker

variable {α β : Type} {s : Ty} {c : Checker}

/-! ## The invariant -/

theorem mem_of_lookup {κ ν : Type} [BEq κ] [LawfulBEq κ] {entries : List (κ × ν)} {k : κ} {v : ν}
    (h : entries.lookup k = some v) : (k, v) ∈ entries := by
  obtain ⟨before, later, rfl, -⟩ := List.lookup_eq_some_iff.mp h
  exact List.mem_append_cons_self

/-- The type is in no type of the tables, nor in the type of anything that was called and cannot
be. What is held for a name is the type of a value that lacks the type, or has none. -/
structure Lacks (s : Ty) (c : Checker) : Prop where
  symbols : ∀ slot symbol, (slot, symbol) ∈ c.symbols.bindings →
    ∃ type, symbol.held = .of type ∧ s.Misses type
  tuples : ∀ slot fields, (slot, fields) ∈ c.tuples.tuples → ∀ field ∈ fields, s.Lacks field.2
  callees : ∀ e ∈ c.errors, ∀ t, e.fault = .notCallable t → s.Lacks t ∧ t.signature? = none

theorem lacks_initial (s : Ty) : Lacks s initial where
  symbols := by simp [initial, SymbolTable.empty]
  tuples := by simp [initial, TupleTable.empty]
  callees := by simp [initial]

theorem Lacks.congr (h : Lacks s c) {d : Checker} (hsymbols : d.symbols = c.symbols)
    (htuples : d.tuples = c.tuples) (herrors : d.errors = c.errors) : Lacks s d := by
  refine ⟨?_, ?_, ?_⟩
  · rw [hsymbols]
    exact h.symbols
  · rw [htuples]
    exact h.tuples
  · rw [herrors]
    exact h.callees

/-- From a state that lacks the type, the step leads to one and gives an answer that satisfies
`Q`. -/
def Keeps (s : Ty) (m : CheckM α) (Q : α → Prop) : Prop :=
  ∀ c, Lacks s c → Lacks s (after m c) ∧ Q (answer m c)

namespace Keeps

variable {m : CheckM α} {P Q : α → Prop}

theorem pure {a : α} (ha : Q a) : Keeps s (pure a) Q := fun _ hc => ⟨hc, ha⟩

theorem bind {f : α → CheckM β} {R : β → Prop} (hm : Keeps s m P)
    (hf : ∀ a, P a → Keeps s (f a) R) : Keeps s (m >>= f) R := by
  intro c hc
  obtain ⟨hafter, hanswer⟩ := hm c hc
  rw [after_bind, answer_bind]
  exact hf _ hanswer _ hafter

theorem andThen {f : α → CheckM β} {R : β → Prop} (hm : Keeps s m P)
    (hf : ∀ a, Keeps s (f a) R) : Keeps s (m >>= f) R :=
  hm.bind fun a _ => hf a

theorem get {f : Checker → CheckM β} {R : β → Prop}
    (hf : ∀ c, Lacks s c → Lacks s (after (f c) c) ∧ R (answer (f c) c)) :
    Keeps s (get >>= f) R := hf

theorem ite {p : Prop} [Decidable p] {n : CheckM α} (hm : Keeps s m Q) (hn : Keeps s n Q) :
    Keeps s (if p then m else n) Q := by
  split
  · exact hm
  · exact hn

/-- A step that leaves the tables and the errors alone. -/
theorem of_same (hsymbols : ∀ c, (after m c).symbols = c.symbols)
    (htuples : ∀ c, (after m c).tuples = c.tuples) (herrors : ∀ c, (after m c).errors = c.errors) :
    Keeps s m fun _ => True :=
  fun c hc => ⟨hc.congr (hsymbols c) (htuples c) (herrors c), trivial⟩

theorem report (span : Span) {fault : TypeFault}
    (hfault : ∀ t, fault = .notCallable t → s.Lacks t ∧ t.signature? = none) :
    Keeps s (report span fault) fun _ => True := by
  refine fun c hc => ⟨⟨hc.symbols, hc.tuples, ?_⟩, trivial⟩
  intro e he
  rcases List.mem_append.mp he with he | he
  · exact hc.callees e he
  · obtain rfl := List.mem_singleton.mp he
    exact hfault

theorem settle (span : Span) {v : Verdict} (hv : v.Lacks s) : Keeps s (settle span v) s.Misses := by
  cases v with
  | type t => exact .pure (Ty.misses_some.mpr hv)
  | silent => exact .pure (Ty.misses_none s)
  | fault f => exact (report span hv).andThen fun _ => .pure (Ty.misses_none s)

theorem compareTypes (span : Span) {fault : Ty → Ty → TypeFault}
    (hfault : ∀ a b t, fault a b ≠ .notCallable t) (a b : Option Ty) :
    Keeps s (compareTypes span fault a b) fun _ => True := by
  unfold Checker.compareTypes
  split
  · exact .ite (.pure trivial) (.report span fun t ht => absurd ht (hfault _ _ t))
  · exact .pure trivial

theorem define (span : Span) (x : String) (kind : SymbolKind) {type : Option Ty}
    (htype : s.Misses type) : Keeps s (define span x ⟨kind, .of type⟩) fun _ => True := by
  intro c hc
  cases hx : c.symbols.contains (c.slot x) with
  | true =>
    rw [after_define_taken c span _ hx]
    exact report span (by rintro t ⟨⟩) c hc
  | false =>
    rw [after_define_of_free hx]
    refine ⟨⟨?_, hc.tuples, hc.callees⟩, trivial⟩
    intro slot other hmem
    rcases List.mem_cons.mp hmem with heq | hmem
    · cases heq
      exact ⟨type, rfl, htype⟩
    · exact hc.symbols slot other hmem

theorem defineLoopVariable (span : Span) (name : Option String) {type : Option Ty}
    (htype : s.Misses type) : Keeps s (defineLoopVariable span name type) fun _ => True := by
  cases name with
  | none => exact .pure trivial
  | some x => exact define span x .loopVariable htype

theorem strayReturn (span : Span) :
    Keeps s (do if (← MonadState.get).depth = 0 then Checker.report span .strayReturn : CheckM Unit)
      fun _ => True := by
  refine .get fun c hc => ?_
  exact Keeps.ite (.report span (by rintro t ⟨⟩)) (.pure trivial) c hc

/-- A name that is referred to has the type that its symbol has. -/
theorem inferVar (span : Span) (x : String) : Keeps s (inferVar span x) s.Misses := by
  refine .get fun c hc => ?_
  split
  · next scope symbol hlookup =>
    obtain ⟨scope', -, hfound⟩ := List.exists_of_findSome?_eq_some hlookup
    obtain ⟨symbol', hget, hpair⟩ := Option.map_eq_some_iff.mp hfound
    cases hpair
    obtain ⟨type, hheld, htype⟩ := hc.symbols _ _ (mem_of_lookup hget)
    refine ⟨hc, ?_⟩
    show s.Misses symbol.held.known?
    rw [hheld, HeldType.known?_of]
    exact htype
  · exact Keeps.andThen (.report span (by rintro t ⟨⟩)) (fun _ => .pure (Ty.misses_none s)) c hc

theorem recordTuple (hs : s.IsUnwritten) {fields : List (String × Option Ty)}
    (hfields : ∀ field ∈ fields, s.Misses field.2) : Keeps s (recordTuple fields) s.Misses := by
  unfold Checker.recordTuple
  split
  · exact .pure (Ty.misses_none s)
  · next types hall =>
    have htypes : ∀ t ∈ types, s.Lacks t := by
      intro t ht
      obtain ⟨field, hfield, htype⟩ := List.mem_map.mp (Rule.mem_of_mem_all? hall t ht)
      exact hfields field hfield t htype
    have htuple : s.Misses (some (.tuple types)) := Ty.misses_some.mpr (Ty.lacks_tuple hs htypes)
    refine .get fun c hc => ?_
    split
    · refine ⟨⟨hc.symbols, ?_, hc.callees⟩, htuple⟩
      intro slot recorded hmem
      rcases List.mem_cons.mp hmem with heq | hmem
      · cases heq
        exact fun field hfield => htypes _ (List.of_mem_zip hfield).2
      · exact hc.tuples slot recorded hmem
    · exact ⟨hc, htuple⟩

theorem settleField (span : Span) (target : Expr) (type : Option Ty) (x : String) :
    Keeps s (settleField span target type x) s.Misses := by
  refine .get fun c hc => Keeps.settle span (Rule.lacks_field ?_ type) c hc
  -- the only fields that are known are recorded ones
  intro t ht
  unfold knownField at ht
  split at ht
  · obtain ⟨fields, hfields, hfield⟩ := Option.bind_eq_some_iff.mp ht
    exact hc.tuples _ _ (mem_of_lookup hfields) _ (mem_of_lookup hfield)
  · cases ht

theorem defineParams {params : List Param} (h : ∀ p ∈ params, s.Lacks (paramType p)) :
    Keeps s (defineParams params) fun _ => True := by
  induction params with
  | nil => exact .pure trivial
  | cons p rest ih =>
    obtain ⟨hp, hrest⟩ := List.forall_mem_cons.mp h
    exact (define p.span p.name .parameter (Ty.misses_some.mpr hp)).andThen fun _ => ih hrest

theorem inferAll {es : List Expr} (h : ∀ e ∈ es, Keeps s (infer e) s.Misses) :
    Keeps s (inferAll es) fun types => ∀ type ∈ types, s.Misses type := by
  induction es with
  | nil => exact .pure (by simp)
  | cons e rest ih =>
    obtain ⟨he, hrest⟩ := List.forall_mem_cons.mp h
    rw [Checker.inferAll]
    refine he.bind fun type htype => (ih hrest).bind fun types htypes => ?_
    exact .pure (List.forall_mem_cons.mpr ⟨htype, htypes⟩)

/-- An expression is given no type that is not in the types of its parts or built from them. -/
theorem judge (hs : s.IsUnwritten) (e : Expr) {types : List (Option Ty)}
    (h : ∀ type ∈ types, s.Misses type) : Keeps s (judge e types) s.Misses := by
  unfold Checker.judge
  split
  · exact .settle _ (Rule.lacks_binary hs _ _ _)
  · exact .settle _ (Rule.lacks_conditional _ _ (h _ (by simp)))
  · exact .settle _ (Rule.lacks_array hs h)
  · exact .settle _ (Rule.lacks_map hs h)
  · exact .recordTuple hs fun field hfield => h _ (List.of_mem_zip hfield).2
  · exact .settle _ (Rule.lacks_call (h _ (by simp)) _)
  · exact .settle _ (Rule.lacks_index _ (h _ (by simp)))
  · exact .settleField _ _ _ _
  · exact .settleField _ _ _ _
  · exact .pure (Ty.misses_none s)

end Keeps

/-! ## Parts -/

/-- Taking up the part keeps the type out, and if the part is an expression, its type lacks it. -/
structure KeepsOut (s : Ty) (part : Part) : Prop where
  run : Keeps s part.run fun _ => True
  infer : ∀ e, part = .expr e → Keeps s (infer e) s.Misses

theorem keepsOut_expr {e : Expr} (h : Keeps s (infer e) s.Misses) : KeepsOut s (.expr e) where
  run := h.andThen fun _ => .pure trivial
  infer := by
    rintro e' ⟨⟩
    exact h

/-- Parts that are no expressions have no type. -/
theorem keepsOut_of_run {part : Part} (h : Keeps s part.run fun _ => True)
    (hpart : ∀ e, part ≠ .expr e) : KeepsOut s part :=
  ⟨h, fun e he => absurd he (hpart e)⟩

theorem keeps_checkStmts {stmts : List Stmt} (h : ∀ r ∈ stmts, KeepsOut s (.stmt r)) :
    Keeps s (checkStmts stmts) fun _ => True := by
  induction stmts with
  | nil => exact .pure trivial
  | cons r rest ih =>
    obtain ⟨hr, hrest⟩ := List.forall_mem_cons.mp h
    rw [checkStmts]
    exact hr.run.andThen fun _ => ih hrest

/-- A block gets its type from the last return with a value, if no bare return stands behind it. The
induction goes from return to return: either the one that decides is still to come, or the type that
was found so far will do. -/
theorem keeps_inferBlock {stmts : List Stmt}
    (hparts : ∀ inner ∈ stmts.flatMap Stmt.inBlock, KeepsOut s inner) {type : Option Ty}
    (h : EndsInValue stmts ∨
      s.Misses type ∧ (s.Lacks .undefined ∨ ∀ r ∈ stmts, r.isReturn = false)) :
    Keeps s (inferBlock type stmts) s.Misses := by
  induction stmts generalizing type with
  | nil =>
    rcases h with ⟨before, span, e, later, hstmts, -⟩ | ⟨htype, -⟩
    · simp at hstmts
    · exact .pure htype
  | cons r rest ih =>
    have hrest : ∀ inner ∈ rest.flatMap Stmt.inBlock, KeepsOut s inner :=
      fun inner hmem => hparts inner (by simp [hmem])
    cases r with
    | returnNothing span =>
      rw [inferBlock]
      refine ih hrest ?_
      rcases h with h | ⟨-, h | h⟩
      · rcases h.of_cons with ⟨_, _, ⟨⟩, _⟩ | h
        exact Or.inl h
      · exact Or.inr ⟨Ty.misses_some.mpr h, Or.inl h⟩
      · exact absurd (h _ List.mem_cons_self) (by simp [Stmt.isReturn])
    | returnValue span e =>
      rw [inferBlock]
      refine ((hparts (.expr e) (by simp [Stmt.inBlock])).infer e rfl).bind fun found hfound => ?_
      refine ih hrest ?_
      rcases h with h | ⟨-, h | h⟩
      · rcases h.of_cons with ⟨_, _, _, hlater⟩ | h
        · exact Or.inr ⟨hfound, Or.inr hlater⟩
        · exact Or.inl h
      · exact Or.inr ⟨hfound, Or.inl h⟩
      · exact absurd (h _ List.mem_cons_self) (by simp [Stmt.isReturn])
    | _ =>
      simp only [inferBlock]
      refine (hparts _ List.mem_cons_self).run.andThen fun _ => ih hrest ?_
      rcases h with h | ⟨htype, h⟩
      · rcases h.of_cons with ⟨_, _, ⟨⟩, _⟩ | h
        exact Or.inl h
      · exact Or.inr ⟨htype, h.imp id fun h r hr => h r (List.mem_cons_of_mem _ hr)⟩

theorem keeps_inferBody {body : Body} (hbody : s = .undefined → body.ReturnsValue)
    (hparts : ∀ inner ∈ body.parts, KeepsOut s inner) : Keeps s (inferBody body) s.Misses := by
  cases body with
  | expr span e =>
    rw [inferBody]
    exact (hparts (.expr e) List.mem_cons_self).infer e rfl
  | block span stmts =>
    rw [inferBody]
    refine keeps_inferBlock hparts ?_
    by_cases hs : s = .undefined
    · exact Or.inl (hbody hs)
    · have hundefined := Ty.lacks_undefined hs
      exact Or.inr ⟨Ty.misses_some.mpr hundefined, Or.inl hundefined⟩

theorem lacks_paramType (hs : s.IsUnwritten) {p : Param}
    (hp : s = .undefined → p.typeExpr.isSome = true) : s.Lacks (paramType p) := by
  unfold paramType
  cases hwritten : p.typeExpr with
  | some a => exact Ty.lacks_ofTypeExpr hs a
  | none =>
    refine Ty.lacks_undefined fun hundefined => ?_
    have hsome := hp hundefined
    simp [hwritten] at hsome

theorem keeps_infer (hs : s.IsUnwritten) {e : Expr} (he : s = .undefined → e.Determined)
    (hparts : ∀ inner ∈ (Part.expr e).parts, KeepsOut s inner) : Keeps s (infer e) s.Misses := by
  cases hcompound : e.isCompound with
  | true =>
    have hfunction : (Part.expr e).isFunction = false := by
      cases e <;> simp_all [Expr.isCompound, Part.isFunction]
    rw [Part.parts_expr hfunction] at hparts
    rw [infer_eq_judge hcompound]
    refine (Keeps.inferAll fun part hpart => ?_).bind fun types htypes => .judge hs e htypes
    exact (hparts (.expr part) (List.mem_map_of_mem hpart)).infer part rfl
  | false =>
    cases e with
    | literal span v =>
      rw [infer]
      exact .pure (Ty.misses_some.mpr (Ty.lacks_primitive hs _))
    | var span x =>
      rw [infer]
      exact .inferVar span x
    | function span params result body =>
      have hparams : ∀ p ∈ params, s.Lacks (paramType p) :=
        fun p hp => lacks_paramType hs fun h => (he h).1 p hp
      have hbody := keeps_inferBody (fun h => (he h).2) hparts
      rw [infer]
      refine .andThen (.of_same (fun _ => rfl) (fun _ => rfl) fun _ => rfl) fun _ => ?_
      refine (Keeps.defineParams hparams).andThen fun _ => ?_
      refine .andThen (.of_same (fun _ => rfl) (fun _ => rfl) fun _ => rfl) fun _ => ?_
      refine hbody.bind fun type htype => ?_
      refine .andThen (.of_same (fun _ => rfl) (fun _ => rfl) fun _ => rfl) fun _ => ?_
      refine .andThen (.of_same (fun _ => rfl) (fun _ => rfl) fun _ => rfl) fun _ => ?_
      exact .settle _ (Rule.lacks_function hs (List.forall_mem_map.mpr hparams) _ htype)
    | _ => simp [Expr.isCompound] at hcompound

theorem keeps_checkStmt {r : Stmt} (hparts : ∀ inner ∈ r.parts, KeepsOut s inner) :
    Keeps s (checkStmt r) fun _ => True := by
  have hexpr : ∀ e, Part.expr e ∈ r.parts → Keeps s (infer e) s.Misses :=
    fun e he => (hparts _ he).infer e rfl
  cases r with
  | declaration span d =>
    rw [checkStmt]
    exact (hparts (.declaration d) List.mem_cons_self).run
  | assign span t v =>
    rw [checkStmt]
    refine (hexpr t (by simp [Stmt.parts])).andThen fun _ => ?_
    refine (hexpr v (by simp [Stmt.parts])).andThen fun _ => ?_
    exact .compareTypes span (by simp) _ _
  | call span f es =>
    rw [checkStmt]
    refine (hexpr f (by simp [Stmt.parts])).bind fun callee hcallee => ?_
    refine (Keeps.inferAll fun e he => hexpr e (by simp [Stmt.parts, he])).andThen fun _ => ?_
    exact (Keeps.settle span (Rule.lacks_call hcallee _)).andThen fun _ => .pure trivial
  | ifThen span e t =>
    rw [checkStmt]
    refine (hexpr e (by simp [Stmt.parts])).andThen fun _ => ?_
    exact keeps_checkStmts fun r hr => hparts _ (by simp [Stmt.parts, hr])
  | ifElse span e t u =>
    rw [checkStmt]
    refine (hexpr e (by simp [Stmt.parts])).andThen fun _ => ?_
    refine (keeps_checkStmts fun r hr => hparts _ (by simp [Stmt.parts, hr])).andThen fun _ => ?_
    exact keeps_checkStmts fun r hr => hparts _ (by simp [Stmt.parts, hr])
  | loop span h b =>
    rw [checkStmt]
    refine .andThen (.of_same (fun _ => rfl) (fun _ => rfl) fun _ => rfl) fun _ => ?_
    refine (hparts (.header h) List.mem_cons_self).run.andThen fun _ => ?_
    refine (keeps_checkStmts fun r hr => hparts _ (by simp [Stmt.parts, hr])).andThen fun _ => ?_
    exact .of_same (fun _ => rfl) (fun _ => rfl) fun _ => rfl
  | returnNothing span =>
    rw [checkStmt]
    exact .strayReturn span
  | returnValue span e =>
    rw [checkStmt]
    exact (hexpr e List.mem_cons_self).andThen fun _ => .strayReturn span
  | breakLoop span =>
    rw [checkStmt]
    exact .pure trivial
  | print span es =>
    rw [checkStmt]
    refine (Keeps.inferAll fun e he => hexpr e (by simp [Stmt.parts, he])).andThen fun _ => ?_
    exact .pure trivial

theorem keeps_checkHeader {h : Header} (hparts : ∀ inner ∈ h.parts, KeepsOut s inner) :
    Keeps s (checkHeader h) fun _ => True := by
  cases h with
  | items span x e =>
    rw [checkHeader]
    exact (hparts (.clause span x e) List.mem_cons_self).run
  | range span x a b =>
    -- the clause binds the variable before the walk comes to the last bound
    have hclause := (hparts (.clause span x a) List.mem_cons_self).run
    have hlast := (hparts (.expr b) (by simp [Header.parts])).infer b rfl
    intro c hc
    obtain ⟨hbound, -⟩ := hclause c hc
    rw [checkHeader]
    exact hlast.andThen (fun _ => .compareTypes span (by simp) _ _) _ hbound
  | condition span e =>
    rw [checkHeader]
    exact (hparts (.expr e) List.mem_cons_self).run

theorem keeps_checkDeclaration {d : Declaration} (hvalue : Keeps s (infer d.value) s.Misses) :
    Keeps s (checkDeclaration d) fun _ => True := by
  obtain ⟨span, x, annotation, v⟩ := d
  rw [checkDeclaration]
  refine .get fun c hc => ?_
  refine Keeps.ite (.report span (by rintro t ⟨⟩)) ?_ c hc
  refine .andThen (.of_same (fun _ => rfl) (fun _ => rfl) fun _ => rfl) fun _ => ?_
  refine hvalue.bind fun type htype => ?_
  refine .andThen (.of_same (fun _ => rfl) (fun _ => rfl) fun _ => rfl) fun _ => ?_
  exact (Keeps.compareTypes span (by simp) _ _).andThen fun _ => .define span x .declared htype

/-- Every part of a program keeps the types out that no annotation writes. -/
theorem keepsOut (hs : s.IsUnwritten) (part : Part) (hpart : part.Determined s) :
    KeepsOut s part := by
  induction part using Part.parts_induction with
  | h part ih =>
    have hparts : ∀ inner ∈ part.parts, KeepsOut s inner :=
      fun inner hmem => ih inner hmem (hpart.of_mem hmem)
    cases part with
    | expr e => exact keepsOut_expr (keeps_infer hs (hpart e (.refl _)) hparts)
    | stmt r => exact keepsOut_of_run (keeps_checkStmt hparts) (by simp)
    | clause span x e =>
      have he := (hparts (.expr e) List.mem_cons_self).infer e rfl
      exact keepsOut_of_run (he.bind fun _ htype => .defineLoopVariable span x htype) (by simp)
    | header h => exact keepsOut_of_run (keeps_checkHeader hparts) (by simp)
    | declaration d =>
      have hvalue := (hparts (.expr d.value) List.mem_cons_self).infer _ rfl
      exact keepsOut_of_run (keeps_checkDeclaration hvalue) (by simp)

/-- So does taking up the parts of a part. -/
theorem Lacks.enter (h : Lacks s c) (hs : s.IsUnwritten) {part : Part}
    (hpart : part.Determined s) : Lacks s (part.enter c) := by
  unfold Part.enter
  split
  · next span params result body =>
    have hparams : ∀ p ∈ params, s.Lacks (paramType p) :=
      fun p hp => lacks_paramType hs fun hundefined => (hpart _ (.refl _) hundefined).1 p hp
    have hentered : Lacks s (after enterFunction c) := h.congr rfl rfl rfl
    exact (Keeps.defineParams hparams _ hentered).1.congr rfl rfl rfl
  · exact h.congr rfl rfl rfl
  · exact h.congr rfl rfl rfl
  · exact h

end Checker

/-! ## Runs -/

namespace Program

/-- The states of the walk through a program: before and after each part that is taken up, and the
last one. -/
inductive PassesThrough (p : Program) : Checker → Prop where
  | before {q : Point} : p.Reaches q → PassesThrough p q.state
  | after {q : Point} : p.Reaches q → PassesThrough p (Checker.after q.part.run q.state)
  | last : PassesThrough p (Checker.initial.check p)

/-- All function literals of a program say what they take and return. -/
def Determined (p : Program) : Prop := ∀ e, p.Holds e → e.Determined

/-- In the run through a program the type is in no type of an expression, in no type of a symbol
that is not poisoned, and in no type of a field of a tuple. -/
structure KeepsOut (p : Program) (s : Ty) : Prop where
  exprs : ∀ q, p.Reaches q → ∀ e, q.part = .expr e →
    ∀ t, Checker.answer (Checker.infer e) q.state = some t → s.Lacks t
  symbols : ∀ c, p.PassesThrough c → ∀ slot symbol, (slot, symbol) ∈ c.symbols.bindings →
    symbol.isPoisoned = false → s.Lacks symbol.type
  fields : ∀ c, p.PassesThrough c → ∀ slot fields, (slot, fields) ∈ c.tuples.tuples →
    ∀ field ∈ fields, s.Lacks field.2

variable {p : Program} {s : Ty}

theorem Reaches.determined {q : Point} (hq : p.Reaches q) (hp : s = .undefined → p.Determined) :
    q.part.Determined s :=
  fun e he hundefined => hp hundefined e (hq.within he)

theorem lacks_of_reaches (hs : s.IsUnwritten) (hp : s = .undefined → p.Determined) {q : Point}
    (hq : p.Reaches q) : q.state.Lacks s := by
  induction hq with
  | start hmem =>
    refine pointsOf_keeps ?_ (Checker.lacks_initial s) hmem
    intro part hpart c hc
    obtain ⟨d, hd, rfl⟩ := List.mem_map.mp hpart
    have hdetermined : (Part.declaration d).Determined s :=
      fun e he hundefined => hp hundefined e ⟨d, hd, he⟩
    exact ((Checker.keepsOut hs _ hdetermined).run c hc).1
  | inner hq hr ih =>
    obtain ⟨-, hr⟩ := mem_inner_iff.mp hr
    have hdetermined := hq.determined hp
    refine pointsOf_keeps ?_ (ih.enter hs hdetermined) hr
    intro part hpart c hc
    exact ((Checker.keepsOut hs part (hdetermined.of_mem hpart)).run c hc).1

theorem lacks_check (hs : s.IsUnwritten) (hp : s = .undefined → p.Determined) :
    (Checker.initial.check p).Lacks s := by
  have hkeeps : ∀ ds : List Declaration, (∀ d ∈ ds, d ∈ p.declarations) →
      Checker.Keeps s (Checker.checkDeclarations ds) fun _ => True := by
    intro ds hds
    induction ds with
    | nil => exact .pure trivial
    | cons d rest ih =>
      obtain ⟨hd, hrest⟩ := List.forall_mem_cons.mp hds
      have hdetermined : (Part.declaration d).Determined s :=
        fun e he hundefined => hp hundefined e ⟨d, hd, he⟩
      exact (Checker.keepsOut hs _ hdetermined).run.andThen fun _ => ih hrest
  rw [Checker.check_eq_after]
  exact (hkeeps p.declarations (fun _ => id) _ (Checker.lacks_initial s)).1

theorem PassesThrough.lacks (hs : s.IsUnwritten) (hp : s = .undefined → p.Determined) {c : Checker}
    (hc : p.PassesThrough c) : c.Lacks s := by
  cases hc with
  | before hq => exact lacks_of_reaches hs hp hq
  | after hq =>
    exact ((Checker.keepsOut hs _ (hq.determined hp)).run _ (lacks_of_reaches hs hp hq)).1
  | last => exact lacks_check hs hp

/-- What no annotation writes is in no type of a run. -/
theorem keepsOut (hs : s.IsUnwritten) (hp : s = .undefined → p.Determined) : p.KeepsOut s where
  exprs := by
    intro q hq e he
    have hkeeps := (Checker.keepsOut hs _ (hq.determined hp)).infer e he
    exact (hkeeps _ (lacks_of_reaches hs hp hq)).2
  symbols := by
    intro c hc slot symbol hmem hpoisoned
    obtain ⟨type, hheld, htype⟩ := (hc.lacks hs hp).symbols slot symbol hmem
    rw [Symbol.isPoisoned, hheld] at hpoisoned
    rw [Symbol.type, hheld]
    cases type with
    | none => cases hpoisoned
    | some t => exact htype t rfl
  fields := fun c hc => (hc.lacks hs hp).tuples

end Program

/-- A type that cannot be called and has no function type without a result in it is no function
type, and is not named like one. -/
theorem Ty.name_ne_of_lacks {t : Ty} (ht : (Ty.function []).Lacks t) (hcall : t.signature? = none) :
    t.name ≠ "FunctionType" := by
  cases t with
  | function signature =>
    have hnil : signature = [] := by simpa [signature?] using hcall
    exact absurd (congrArg Ty.function hnil) (lacks_iff.mp ht).1
  | primitive p => cases p <;> simp [name]
  | _ => simp [name]

/-- In every run of the checker, no type that is inferred or stored has a function type without a
result in it, at any depth, so that what is reported not to be callable is never a function type. If
all parameters of a program have annotations and the last return directly in each block that is a
function body has a value, then `undefined` is in no type either, other than the type that a
poisoned symbol is shown with. -/
theorem inferred_types_wellFormed (p : Program) :
    p.KeepsOut (.function []) ∧
    (∀ c, p.PassesThrough c → ∀ slot symbol, (slot, symbol) ∈ c.symbols.bindings →
      (Ty.function []).Lacks symbol.type) ∧
    (∀ t : Ty, (TypeFault.notCallable t).message =
      "Value of type " ++ t.name ++ " can't be called") ∧
    (∀ e ∈ (Checker.initial.check p).errors, ∀ t, e.fault = .notCallable t →
      t.name ≠ "FunctionType") ∧
    (p.Determined → p.KeepsOut .undefined) := by
  have hs : (Ty.function []).IsUnwritten := Or.inl rfl
  have hp : Ty.function [] = .undefined → p.Determined := by rintro ⟨⟩
  have hkeeps := Program.keepsOut hs hp
  refine ⟨hkeeps, ?_, fun t => rfl, ?_, ?_⟩
  · intro c hc slot symbol hmem
    obtain ⟨type, hheld, htype⟩ := (hc.lacks hs hp).symbols slot symbol hmem
    rw [Symbol.type, hheld]
    cases type with
    | none => exact Ty.lacks_undefined (by simp)
    | some t => exact htype t rfl
  · intro e he t ht
    obtain ⟨hlacks, hcall⟩ := (Program.lacks_check hs hp).callees e he t ht
    exact Ty.name_ne_of_lacks hlacks hcall
  · exact fun hdetermined => Program.keepsOut (Or.inr rfl) fun _ => hdetermined

/-- The program `f is func(n : integer) do return; return n end; x is f(f)`. -/
def twoReturnsProgram : Program :=
  ⟨.origin, [⟨.origin, "f", none, .function .origin
      [⟨.origin, "n", some (.primitive .origin .integer)⟩] none
      (.block .origin [.returnNothing .origin, .returnValue .origin (.var .origin "n")])⟩,
    ⟨.origin, "x", none, .call .origin (.var .origin "f") [.var .origin "f"]⟩]⟩

theorem Part.Determined.of_parts {s : Ty} {part : Part}
    (hself : ∀ e, part = .expr e → e.Determined)
    (hparts : ∀ inner ∈ part.parts, inner.Determined s) : part.Determined s := by
  intro e he hundefined
  cases he with
  | refl => exact hself e rfl
  | step hmem he => exact hparts _ hmem e he hundefined

theorem Part.determined_var (s : Ty) (span : Span) (x : String) :
    (Part.expr (.var span x)).Determined s := by
  refine .of_parts ?_ (by simp [parts, Expr.parts])
  rintro e ⟨⟩
  trivial

theorem determined_twoReturnsProgram : twoReturnsProgram.Determined := by
  suffices h : ∀ d ∈ twoReturnsProgram.declarations, (Part.declaration d).Determined .undefined by
    rintro e ⟨d, hd, hwithin⟩
    exact h d hd e hwithin rfl
  intro d hd
  refine .of_parts (by simp) fun value hvalue => ?_
  obtain rfl := List.mem_singleton.mp hvalue
  rcases List.mem_pair.mp hd with rfl | rfl
  · refine .of_parts ?_ fun inner hinner => ?_
    · rintro e ⟨⟩
      exact ⟨by simp, [.returnNothing .origin], _, _, [], rfl, by simp⟩
    · obtain rfl := List.mem_singleton.mp hinner
      exact Part.determined_var _ _ _
  · refine .of_parts ?_ fun inner hinner => ?_
    · rintro e ⟨⟩
      trivial
    · rcases List.mem_pair.mp hinner with rfl | rfl <;> exact Part.determined_var _ _ _

/-- The last return decides, and the symbol whose value cannot be given a type is poisoned. -/
theorem inferred_types_wellFormed_twoReturnsProgram :
    twoReturnsProgram.Determined ∧
    (Checker.initial.check twoReturnsProgram).symbols.bindings.map
        (fun b => (b.1.name, b.2.type?)) =
      [("x", none), ("f", some (.function [.integer, .integer])), ("n", some .integer)] ∧
    twoReturnsProgram.KeepsOut .undefined :=
  ⟨determined_twoReturnsProgram, by rfl,
    (inferred_types_wellFormed twoReturnsProgram).2.2.2.2 determined_twoReturnsProgram⟩

end ExprCheck
