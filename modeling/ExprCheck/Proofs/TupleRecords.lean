import Mathlib
import ExprCheck.Proofs.DeadScopes
import ExprCheck.Proofs.Parts

/-!
# What the tuple table records

A tuple literal is recorded under the innermost declaration, in the innermost scope, whatever part
of the declared value it is. Two facts follow. An expression leaves the table alone but for the slot
of the innermost declaration, and that slot as well if it holds no tuple literal outside function
literals. And where the literal that is looked at last is also the value, the slot describes the
type of the value.
-/

namespace ExprCheck

namespace Expr

/-- A tuple literal stands in the expression, outside function literals. -/
inductive HoldsTuple : Expr → Prop where
  | tuple (span : Span) (es : List Element) : HoldsTuple (.tuple span es)
  | part {e part : Expr} : part ∈ e.parts → HoldsTuple part → HoldsTuple e

/-- The last tuple literal that stands in the expression, outside function literals, is its value.
An index expression counts as its index, whose type it has. -/
inductive YieldsTuple : Expr → Prop where
  | tuple {es : List Element} (span : Span)
    (unnumbered : ∀ e ∈ es, ∀ n : Nat, e.name ≠ some (toString n)) : YieldsTuple (.tuple span es)
  | thenBranch {t e : Expr} (span : Span) (p : Expr) (ht : YieldsTuple t) (he : ¬ HoldsTuple e) :
    YieldsTuple (.conditional span p t e)
  | elseBranch {e : Expr} (span : Span) (p t : Expr) (he : YieldsTuple e) :
    YieldsTuple (.conditional span p t e)
  | index {i : Expr} (span : Span) (t : Expr) (hi : YieldsTuple i) : YieldsTuple (.index span t i)

end Expr

namespace Rule

theorem conditional_type {p t e : Option Ty} {u : Ty} (h : (conditional p t e).type? = some u) :
    t = some u ∧ e = some u := by
  unfold conditional at h
  split at h
  · split at h
    · next htype =>
      rw [htype] at h ⊢
      exact ⟨h, h⟩
    · cases h
  · cases h

theorem index_type {target i : Option Ty} {u : Ty} (h : (index target i).type? = some u) :
    i = some u := by
  unfold index at h
  split at h
  · split at h
    · split at h
      · exact h
      · cases h
    · split at h
      · exact h
      · cases h
    · cases h
  · cases h

end Rule

namespace Checker

/-! ## Slots that are left alone -/

/-- Outside the innermost scope, no tuple is recorded in scopes entered before. -/
def RecordsHere (c d : Checker) : Prop :=
  ∀ slot, c.scopes.Allocated slot.scope → slot.scope ≠ c.scopes.current →
    d.tuples.fields? slot = c.tuples.fields? slot

theorem recordsHere_of_same {c d : Checker} (h : d.tuples = c.tuples) : RecordsHere c d := by
  intro slot _ _
  rw [h]

theorem RecordsHere.trans {c d e : Checker} (h₁ : RecordsHere c d) (hk : Kept c d)
    (h₂ : RecordsHere d e) : RecordsHere c e := by
  intro slot hslot hne
  have hne' : slot.scope ≠ d.scopes.current := by
    rw [hk.current]
    exact hne
  rw [h₂ slot (hk.allocated hslot) hne', h₁ slot hslot hne]

theorem tuples_define (c : Checker) (span : Span) (x : String) (symbol : Symbol) :
    (after (define span x symbol) c).tuples = c.tuples := by
  cases hx : c.symbols.contains (c.slot x) with
  | true =>
    rw [after_define_taken c span symbol hx]
    rfl
  | false =>
    obtain ⟨t, ht, -⟩ := after_define_free c span symbol hx
    rw [ht]

theorem tuples_defineParams (params : List Param) (c : Checker) :
    (after (defineParams params) c).tuples = c.tuples :=
  defineParams_along (R := fun c d => d.tuples = c.tuples) (fun _ => rfl)
    (fun _ _ _ h₁ h₂ => h₂.trans h₁) tuples_define params c

@[simp] theorem tuples_settle (span : Span) (v : Verdict) (c : Checker) :
    (after (settle span v) c).tuples = c.tuples := by
  cases v <;> rfl

@[simp] theorem tuples_settleField (span : Span) (target : Expr) (type : Option Ty) (x : String)
    (c : Checker) : (after (settleField span target type x) c).tuples = c.tuples := by
  rw [settleField, after_get, tuples_settle]

theorem tuples_compareTypes (span : Span) (fault : Ty → Ty → TypeFault) (a b : Option Ty)
    (c : Checker) : (after (compareTypes span fault a b) c).tuples = c.tuples := by
  unfold compareTypes
  split
  · split <;> rfl
  · rfl

theorem tuples_inferVar (span : Span) (x : String) (c : Checker) :
    (after (inferVar span x) c).tuples = c.tuples := by
  rw [inferVar, after_get]
  split <;> rfl

/-- What is done in a scope that was entered first leaves the slots of all other scopes alone. -/
theorem fields?_of_entered {c d e : Checker} {scope : Scope}
    (ht : ScopeStack.Enters scope c.scopes d.scopes) (hd : d.tuples = c.tuples)
    (he : RecordsHere d e) {slot : Slot} (hslot : c.scopes.Allocated slot.scope) :
    e.tuples.fields? slot = c.tuples.fields? slot := by
  have hne : slot.scope ≠ d.scopes.current := by
    rw [ScopeStack.current, ht.active]
    rintro rfl
    exact ht.new hslot
  rw [he slot ((ht.allocated _).mpr (Or.inl hslot)) hne, hd]

theorem fields?_of_body {c d e : Checker} (hc : c.Valid) {params : List Param}
    (hd : d = after (defineParams params) (after enterFunction c))
    (he : Valid { d with depth := d.depth + 1 } → RecordsHere { d with depth := d.depth + 1 } e)
    {slot : Slot} (hslot : c.scopes.Allocated slot.scope) :
    e.tuples.fields? slot = c.tuples.fields? slot := by
  have hin := ScopeStack.enters_pushFunction c.scopes
  have hparams : Local (after enterFunction c) d := hd ▸ local_defineParams params _
  have htuples : RecordsHere (after enterFunction c) d := by
    rw [hd]
    exact recordsHere_of_same (tuples_defineParams params _)
  have hbody : RecordsHere d e := he ((hparams.valid (hc.enter hin)).congr rfl rfl)
  exact fields?_of_entered (d := after enterFunction c) hin rfl
    (htuples.trans hparams.toKept hbody) hslot

theorem regimen_recordsHere :
    Regimen (fun c d => c.Valid → Confined c d ∧ RecordsHere c d)
      (fun c d => c.Valid → Local c d ∧ RecordsHere c d) where
  refl := fun c _ => ⟨Confined.refl c, recordsHere_of_same rfl⟩
  trans := by
    intro c d e h₁ h₂ hc
    obtain ⟨hd, hrd⟩ := h₁ hc
    obtain ⟨he, hre⟩ := h₂ (hd.toLocal.valid hc)
    exact ⟨hd.trans he, hrd.trans hd.toKept hre⟩
  stmtTrans := by
    intro c d e h₁ h₂ hc
    obtain ⟨hd, hrd⟩ := h₁ hc
    obtain ⟨he, hre⟩ := h₂ (hd.valid hc)
    exact ⟨hd.trans he, hrd.trans hd.toKept hre⟩
  weaken := fun c d h hc => ⟨(h hc).1.toLocal, (h hc).2⟩
  report := fun c span fault _ _ => ⟨confined_report c span fault, recordsHere_of_same rfl⟩
  stray := fun c span _ _ => ⟨(confined_report c span _).toLocal, recordsHere_of_same rfl⟩
  define := fun c span x symbol _ =>
    ⟨local_define c span x symbol, recordsHere_of_same (tuples_define c span x symbol)⟩
  record := by
    intro c o fields ho hc
    refine ⟨regimen_discipline.record c o fields ho hc, ?_⟩
    intro slot _ hne
    rw [TupleTable.fields?_record, if_neg]
    rintro rfl
    exact hne rfl
  function := by
    intro c params d e hd he hc
    refine ⟨regimen_discipline.function c params d e hd (fun hv => (he hv).1) hc, ?_⟩
    intro slot hslot _
    exact fields?_of_body hc hd (fun hv => (he hv).2) hslot
  loop := by
    intro c d h hc
    refine ⟨regimen_discipline.loop c d (fun hv => (h hv).1) hc, ?_⟩
    have hin := ScopeStack.enters_pushLoop c.scopes
    intro slot hslot _
    exact fields?_of_entered (d := after enterLoop c) hin rfl (h (hc.enter hin)).2 hslot
  owner := by
    intro c d x h hc
    refine ⟨regimen_discipline.owner c d x (fun hv => (h hv).1) hc, ?_⟩
    exact (h (hc.congr rfl rfl)).2

/-- A function literal leaves the slots of all scopes but its own alone. -/
theorem fields?_function {c : Checker} (hc : c.Valid) (span : Span) (params : List Param)
    (result : Option TypeExpr) (body : Body) {slot : Slot}
    (hslot : c.scopes.Allocated slot.scope) :
    (after (infer (.function span params result body)) c).tuples.fields? slot =
      c.tuples.fields? slot := by
  simp only [infer, after_bind, after_modify, after_leaveScope, tuples_settle]
  exact fields?_of_body hc rfl (fun hv => (inferBody_along regimen_recordsHere body _ hv).2) hslot

/-- So does a loop. -/
theorem fields?_loop {c : Checker} (hc : c.Valid) (span : Span) (h : Header) (b : List Stmt)
    {slot : Slot} (hslot : c.scopes.Allocated slot.scope) :
    (after (checkStmt (.loop span h b)) c).tuples.fields? slot = c.tuples.fields? slot := by
  have hin := ScopeStack.enters_pushLoop c.scopes
  obtain ⟨hheader, hrh⟩ := checkHeader_along regimen_recordsHere h (after enterLoop c) (hc.enter hin)
  obtain ⟨-, hrb⟩ := checkStmts_along regimen_recordsHere b _ (hheader.valid (hc.enter hin))
  simp only [checkStmt, after_bind, after_leaveScope]
  exact fields?_of_entered (d := after enterLoop c) hin rfl (hrh.trans hheader.toKept hrb) hslot

/-! ## Expressions and the slot of the innermost declaration -/

/-- Whether inferring the expression may write to the slot. -/
def MayRecord (c : Checker) (e : Expr) (slot : Slot) : Prop :=
  e.HoldsTuple ∧ ∃ o, c.owner = some o ∧ slot = c.slot o

theorem MayRecord.of_part {c d : Checker} (hk : Kept c d) {e part : Expr} (hpart : part ∈ e.parts)
    {slot : Slot} (h : d.MayRecord part slot) : c.MayRecord e slot := by
  obtain ⟨hholds, o, ho, hslot⟩ := h
  refine ⟨.part hpart hholds, o, ?_, ?_⟩
  · rw [← hk.owner]
    exact ho
  · rw [hslot, hk.slot]

theorem fields?_recordTuple {c : Checker} {slot : Slot} (fields : List (String × Option Ty))
    (h : ∀ o, c.owner = some o → slot ≠ c.slot o) :
    (after (recordTuple fields) c).tuples.fields? slot = c.tuples.fields? slot := by
  unfold recordTuple
  split
  · rfl
  · rw [after_get]
    split
    · next o ho =>
      show (c.tuples.record (c.slot o) _).fields? slot = _
      rw [TupleTable.fields?_record, if_neg (h o ho)]
    · rfl

/-- Judging an expression records something only if the expression is a tuple literal. -/
theorem tuples_judge {e : Expr} (he : ∀ span es, e ≠ .tuple span es) (types : List (Option Ty))
    (c : Checker) : (after (judge e types) c).tuples = c.tuples := by
  unfold judge
  split <;> first | exact absurd rfl (he _ _) | simp

theorem fields?_judge {c : Checker} {e : Expr} (types : List (Option Ty)) {slot : Slot}
    (h : ¬ c.MayRecord e slot) :
    (after (judge e types) c).tuples.fields? slot = c.tuples.fields? slot := by
  cases e with
  | tuple s es => exact fields?_recordTuple _ fun o ho hslot => h ⟨.tuple s es, o, ho, hslot⟩
  | _ => rw [tuples_judge (by simp)]

theorem fields?_inferAll {c : Checker} (hc : c.Valid) {slot : Slot} {es : List Expr}
    (hes : ∀ e ∈ es, ∀ d, Valid d → Kept c d →
      (after (infer e) d).tuples.fields? slot = d.tuples.fields? slot) :
    (after (inferAll es) c).tuples.fields? slot = c.tuples.fields? slot := by
  suffices hgen : ∀ d, d.Valid → Kept c d →
      (after (inferAll es) d).tuples.fields? slot = d.tuples.fields? slot from
    hgen c hc (Kept.refl c)
  induction es with
  | nil => exact fun _ _ _ => rfl
  | cons e rest ih =>
    intro d hd hk
    have he := confined_infer hd e
    simp only [inferAll, after_bind, after_pure]
    rw [ih (fun e' hmem => hes e' (List.mem_cons_of_mem _ hmem)) _ (he.toLocal.valid hd)
      (hk.trans he.toKept), hes e List.mem_cons_self d hd hk]

/-- Inferring an expression changes at most the slot of the innermost declaration, and that one only
if the expression holds a tuple literal. -/
theorem fields?_infer (e : Expr) {c : Checker} (hc : c.Valid) {slot : Slot}
    (hslot : c.scopes.Allocated slot.scope) (h : ¬ c.MayRecord e slot) :
    (after (infer e) c).tuples.fields? slot = c.tuples.fields? slot := by
  induction e using Expr.parts_induction generalizing c with
  | h e ih =>
    by_cases he : e.isCompound = true
    · have hparts : (after (inferAll e.parts) c).tuples.fields? slot = c.tuples.fields? slot := by
        refine fields?_inferAll hc fun part hpart d hd hk => ?_
        exact ih part hpart hd (hk.allocated hslot) fun hmay => h (hmay.of_part hk hpart)
      have hk := (confined_inferAll hc e.parts).toKept
      rw [infer_eq_judge he, after_bind, fields?_judge _ ?_, hparts]
      rintro ⟨hholds, o, ho, rfl⟩
      exact h ⟨hholds, o, hk.owner ▸ ho, hk.slot o⟩
    · cases e with
      | literal s v => rfl
      | var s x =>
        rw [infer]
        exact congrArg (·.fields? slot) (tuples_inferVar s x c)
      | function s params result body => exact fields?_function hc s params result body hslot
      | _ => exact absurd rfl he

/-! ## Values that are tuple literals -/

/-- The fields are those of a tuple with elements of the given types: every field has the type of an
element, and the field with the number `n` that of the `n`-th element. -/
structure Describes (fields : List TupleField) (ts : List Ty) : Prop where
  named : ∀ {x t}, fields.lookup x = some t → t ∈ ts
  numbered : ∀ {n : Nat} {t}, fields.lookup (toString n) = some t → 0 < n ∧ ts[n - 1]? = some t

theorem mem_of_lookup_zip {names : List String} {ts : List Ty} {x : String} {t : Ty}
    (h : (names.zip ts).lookup x = some t) : t ∈ ts := by
  obtain ⟨before, later, hsplit, -⟩ := List.lookup_eq_some_iff.mp h
  have hmem : (x, t) ∈ names.zip ts := by
    rw [hsplit]
    simp
  exact (List.of_mem_zip hmem).2

/-- Elements without a name are found under their places, as long as no other element is named by a
number. -/
theorem lookup_zip_fieldNames {es : List Element} {place n : Nat} {ts : List Ty} {t : Ty}
    (hes : ∀ e ∈ es, ∀ n : Nat, e.name ≠ some (toString n))
    (h : ((fieldNames place es).zip ts).lookup (toString n) = some t) :
    place < n ∧ ts[n - 1 - place]? = some t := by
  induction es generalizing place ts with
  | nil => simp [fieldNames] at h
  | cons e rest ih =>
    cases ts with
    | nil => simp at h
    | cons u us =>
      rw [fieldNames, List.zip_cons_cons, List.lookup_cons] at h
      by_cases hname : toString n = e.fieldName place
      · obtain rfl : u = t := by simpa [hname] using h
        have hn : n = place + 1 := by
          cases hx : e.name with
          | none =>
            rw [Element.fieldName, hx] at hname
            exact Nat.repr_injective hname
          | some y =>
            rw [Element.fieldName, hx] at hname
            exact absurd (hx.trans (congrArg some hname.symm)) (hes e List.mem_cons_self n)
        subst hn
        simp
      · rw [beq_eq_false_iff_ne.mpr hname] at h
        obtain ⟨hlt, hget⟩ := ih (fun e' hmem => hes e' (List.mem_cons_of_mem _ hmem)) h
        refine ⟨by omega, ?_⟩
        have hsub : n - 1 - place = n - 1 - (place + 1) + 1 := by omega
        rw [hsub, List.getElem?_cons_succ]
        exact hget

theorem describes_zip {es : List Element} (ts : List Ty)
    (hes : ∀ e ∈ es, ∀ n : Nat, e.name ≠ some (toString n)) :
    Describes ((fieldNames 0 es).zip ts) ts where
  named := mem_of_lookup_zip
  numbered := lookup_zip_fieldNames hes

/-- The slot of the innermost declaration describes the given type. -/
def RecordsType (o : String) (c : Checker) (t : Ty) : Prop :=
  ∃ ts fields, t = .tuple ts ∧ c.tuples.fields? (c.slot o) = some fields ∧ Describes fields ts

/-- A tuple literal whose elements all have a type is recorded under the innermost declaration, each
type under the name of its element. -/
theorem fields?_of_answer_recordTuple {c : Checker} {o : String} (ho : c.owner = some o)
    {es : List Element} {types : List (Option Ty)} (hlen : types.length = es.length) {t : Ty}
    (h : answer (recordTuple ((fieldNames 0 es).zip types)) c = some t) :
    ∃ ts, t = .tuple ts ∧
      (after (recordTuple ((fieldNames 0 es).zip types)) c).tuples.fields? (c.slot o) =
        some ((fieldNames 0 es).zip ts) := by
  have hlen' : (fieldNames 0 es).length = types.length := by rw [length_fieldNames, hlen]
  have hsnd : ((fieldNames 0 es).zip types).map Prod.snd = types :=
    List.map_snd_zip (Nat.le_of_eq hlen'.symm)
  have hfst : ((fieldNames 0 es).zip types).map Prod.fst = fieldNames 0 es :=
    List.map_fst_zip (Nat.le_of_eq hlen')
  revert h
  unfold recordTuple
  rw [hsnd, hfst]
  cases Rule.all? types with
  | none => exact fun h => absurd h (by simp)
  | some ts =>
    simp only [answer_get, after_get, ho]
    intro h
    refine ⟨ts, (Option.some.inj h).symm, ?_⟩
    exact (TupleTable.fields?_record _ _ _ _).trans (if_pos rfl)

/-- The fields that a declared tuple literal is recorded with. -/
theorem fields?_infer_tuple {c : Checker} (hc : c.Valid) {o : String} (ho : c.owner = some o)
    {s : Span} {es : List Element} {t : Ty} (h : answer (infer (.tuple s es)) c = some t) :
    ∃ ts, t = .tuple ts ∧
      (after (infer (.tuple s es)) c).tuples.fields? (c.slot o) =
        some ((fieldNames 0 es).zip ts) := by
  have hlen := length_answer_inferAll (Expr.tuple s es).parts c
  have hk := (confined_inferAll hc (Expr.tuple s es).parts).toKept
  rw [infer_eq_judge rfl, answer_bind] at h
  rw [infer_eq_judge rfl, after_bind, ← hk.slot]
  refine fields?_of_answer_recordTuple (hk.owner.trans ho) ?_ h
  rw [hlen, Expr.parts, List.length_map]

theorem RecordsType.congr {o : String} {c d : Checker} {t : Ty} (h : RecordsType o c t)
    (hslot : d.slot o = c.slot o)
    (hfields : d.tuples.fields? (c.slot o) = c.tuples.fields? (c.slot o)) : RecordsType o d t := by
  obtain ⟨ts, fields, ht, hf, hdescribes⟩ := h
  refine ⟨ts, fields, ht, ?_, hdescribes⟩
  rw [hslot, hfields, hf]

theorem RecordsType.settle {o : String} {c : Checker} {t : Ty} (h : RecordsType o c t) (span : Span)
    (v : Verdict) : RecordsType o (after (settle span v) c) t := by
  refine h.congr ?_ (by rw [tuples_settle])
  cases v <;> rfl

/-- If the last tuple literal in a declared value is the value, it is recorded with the type of the
value. -/
theorem recordsType_infer {e : Expr} (he : e.YieldsTuple) {c : Checker} (hc : c.Valid) {o : String}
    (ho : c.owner = some o) {t : Ty} (h : answer (infer e) c = some t) :
    RecordsType o (after (infer e) c) t := by
  induction he generalizing c t with
  | @tuple es s hes =>
    obtain ⟨ts, ht, hfields⟩ := fields?_infer_tuple hc ho h
    refine ⟨ts, (fieldNames 0 es).zip ts, ht, ?_, describes_zip ts hes⟩
    rw [(confined_infer hc (.tuple s es)).toKept.slot]
    exact hfields
  | @thenBranch thenExpr elseExpr s p _ helse ih =>
    have hp := confined_infer hc p
    have hvp := hp.toLocal.valid hc
    have ht := confined_infer hvp thenExpr
    have hvt := ht.toLocal.valid hvp
    have hk := (confined_infer hvt elseExpr).toKept
    simp only [infer, answer_bind, answer_settle] at h
    obtain ⟨hthen, -⟩ := Rule.conditional_type h
    have hrecords := ih hvp (hp.owner.trans ho) hthen
    simp only [infer, after_bind]
    refine (hrecords.congr (hk.slot o) ?_).settle _ _
    exact fields?_infer elseExpr hvt hvt.current_allocated fun hmay => helse hmay.1
  | @elseBranch elseExpr s p thenExpr _ ih =>
    have hp := confined_infer hc p
    have hvp := hp.toLocal.valid hc
    have ht := confined_infer hvp thenExpr
    simp only [infer, answer_bind, answer_settle] at h
    obtain ⟨-, helse⟩ := Rule.conditional_type h
    simp only [infer, after_bind]
    exact (ih (ht.toLocal.valid hvp) (ht.owner.trans (hp.owner.trans ho)) helse).settle _ _
  | @index i s target _ ih =>
    have ht := confined_infer hc target
    simp only [infer, answer_bind, answer_settle] at h
    simp only [infer, after_bind]
    exact (ih (ht.toLocal.valid hc) (ht.owner.trans ho) (Rule.index_type h)).settle _ _

end Checker

end ExprCheck
