import Mathlib
import ExprCheck.Grammar.Program
import ExprCheck.Proofs.Parts

/-!
# One fault, one report

An expression with a part that has no type is passed over in silence, since the reason was reported
with the part. Calls are the one exception: what is called and how many arguments it takes is looked
at before the types of the arguments are, so a call can be reported on top of a fault in an
argument.
-/

namespace ExprCheck

/-- A call whose callee has a type, but not that of a function with as many parameters as there are
arguments. -/
def Expr.Misapplied : Expr → List (Option Ty) → Prop
  | call _ _ args, some f :: _ =>
    ∀ params result, f.signature? = some (params, result) → params.length ≠ args.length
  | _, _ => False

/-! ## Rules and missing types -/

/-- What a verdict adds to the errors. -/
def Verdict.errors (span : Span) : Verdict → List TypeError
  | .fault f => [⟨f, span⟩]
  | _ => []

namespace Rule

theorem all?_eq_none_iff {ts : List (Option Ty)} : all? ts = none ↔ none ∈ ts := by
  induction ts with
  | nil => simp [all?]
  | cons t ts ih =>
    cases t with
    | none => simp [all?]
    | some t => simp [all?, ih]

theorem allEntries?_pairUp : ∀ {ts : List (Option Ty)}, Even ts.length → none ∈ ts →
    allEntries? (pairUp ts) = none
  | [], _, h => absurd h (by simp)
  | [_], h, _ => absurd h (by simp)
  | none :: _ :: _, _, _ => rfl
  | some _ :: none :: _, _, _ => rfl
  | some k :: some v :: rest, hlen, h => by
    have hrest : Even rest.length := by
      have h2 : rest.length + 2 = (some k :: some v :: rest).length := rfl
      rw [← h2, Nat.even_add] at hlen
      exact hlen.mpr even_two
    have hmem : none ∈ rest := by simpa using h
    simp [pairUp, allEntries?, allEntries?_pairUp hrest hmem]

theorem binary_of_missing {op : Operator} {l r : Option Ty} (h : none ∈ [l, r]) :
    binary op l r = .silent := by
  cases l <;> cases r <;> simp_all [binary]

theorem conditional_of_missing {p t e : Option Ty} (h : none ∈ [p, t, e]) :
    conditional p t e = .silent := by
  cases p <;> cases t <;> cases e <;> simp_all [conditional]

theorem index_of_missing {target i : Option Ty} (h : none ∈ [target, i]) :
    index target i = .silent := by
  cases target <;> cases i <;> simp_all [index]

theorem array_of_missing {ts : List (Option Ty)} (h : none ∈ ts) : array ts = .silent := by
  rw [array, all?_eq_none_iff.mpr h]

theorem map_of_missing {ts : List (Option Ty)} (hlen : Even ts.length) (h : none ∈ ts) :
    map (pairUp ts) = .silent := by
  rw [map, allEntries?_pairUp hlen h]

/-- The callee of a call, and the number of arguments it takes, are looked at even when arguments
have no type. -/
theorem call_of_missing {callee : Option Ty} {args : List (Option Ty)}
    (h : none ∈ callee :: args) :
    (∃ f, callee = some f ∧ f.signature? = none ∧ call callee args = .fault (.notCallable f)) ∨
    (∃ f params result, callee = some f ∧ f.signature? = some (params, result) ∧
      params.length ≠ args.length ∧
      call callee args = .fault (.arity params.length args.length)) ∨
    ((∀ f, callee = some f → ∃ params result, f.signature? = some (params, result) ∧
      params.length = args.length) ∧ call callee args = .silent) := by
  cases callee with
  | none => exact Or.inr (Or.inr ⟨by simp, rfl⟩)
  | some f =>
    have hargs : none ∈ args := by simpa using h
    cases hf : f.signature? with
    | none => exact Or.inl ⟨f, rfl, hf, by simp [call, hf]⟩
    | some signature =>
      obtain ⟨params, result⟩ := signature
      by_cases hlen : params.length = args.length
      · refine Or.inr (Or.inr ⟨?_, ?_⟩)
        · rintro _ ⟨⟩
          exact ⟨params, result, hf, hlen⟩
        · simp [call, hf, hlen, all?_eq_none_iff.mpr hargs]
      · exact Or.inr (Or.inl ⟨f, params, result, rfl, hf, hlen, by simp [call, hf, hlen]⟩)

end Rule

namespace Checker

/-! ## What a judgement reports -/

theorem errors_settle (span : Span) (v : Verdict) (c : Checker) :
    (after (settle span v) c).errors = c.errors ++ v.errors span := by
  cases v with
  | type t => exact (List.append_nil _).symm
  | silent => exact (List.append_nil _).symm
  | fault f => rfl

/-- What a judgement of an expression with parts of the given types does to the errors and to the
answer: at most one report, and none beside a missing type unless the expression is misapplied. -/
def Suppresses (e : Expr) (types : List (Option Ty)) (m : CheckM (Option Ty)) : Prop :=
  ∀ d, ∃ own, (after m d).errors = d.errors ++ own ∧ own.length ≤ 1 ∧
    (none ∈ types → answer m d = none ∧ (own ≠ [] ↔ e.Misapplied types))

/-- A verdict that is silent about missing types suppresses reports. -/
theorem suppresses_settle {e : Expr} {types : List (Option Ty)} (span : Span) {v : Verdict}
    (h : none ∈ types → v = .silent ∧ ¬ e.Misapplied types) :
    Suppresses e types (settle span v) := by
  intro d
  refine ⟨v.errors span, errors_settle span v d, ?_, ?_⟩
  · cases v <;> simp [Verdict.errors]
  · intro hmem
    obtain ⟨rfl, hmis⟩ := h hmem
    exact ⟨rfl, by simp [Verdict.errors, hmis]⟩

theorem suppresses_recordTuple {s : Span} {es : List Element} {types : List (Option Ty)}
    (hlen : types.length = es.length) :
    Suppresses (.tuple s es) types (recordTuple ((fieldNames 0 es).zip types)) := by
  have hsnd : ((fieldNames 0 es).zip types).map Prod.snd = types :=
    List.map_snd_zip (by rw [length_fieldNames, hlen])
  intro d
  unfold recordTuple
  rw [hsnd]
  cases hall : Rule.all? types with
  | none =>
    refine ⟨[], (List.append_nil _).symm, by simp, fun _ => ⟨rfl, ?_⟩⟩
    simp [Expr.Misapplied]
  | some ts =>
    have hmem : none ∉ types := by
      intro h
      rw [Rule.all?_eq_none_iff.mpr h] at hall
      cases hall
    refine ⟨[], ?_, by simp, fun h => absurd h hmem⟩
    rw [List.append_nil]
    simp only [after_get]
    split <;> rfl

theorem suppresses_settleField {e : Expr} (s : Span) (t : Expr) (target : Option Ty) (x : String)
    (he : ¬ e.Misapplied [target]) : Suppresses e [target] (settleField s t target x) := by
  intro d
  have hsilent : none ∈ [target] →
      Rule.field (d.knownField t x) target = .silent ∧ ¬ e.Misapplied [target] := by
    intro h
    obtain rfl : none = target := by simpa using h
    exact ⟨rfl, he⟩
  exact suppresses_settle s hsilent d

theorem suppresses_call {s : Span} {f : Expr} {es : List Expr} {callee : Option Ty}
    {types : List (Option Ty)} (hlen : types.length = es.length) :
    Suppresses (.call s f es) (callee :: types) (settle s (Rule.call callee types)) := by
  intro d
  refine ⟨_, errors_settle s _ d, by cases Rule.call callee types <;> simp [Verdict.errors], ?_⟩
  intro hmem
  rw [answer_settle]
  rcases Rule.call_of_missing hmem with ⟨g, rfl, hg, hv⟩ | ⟨g, params, result, rfl, hg, hne, hv⟩ |
    ⟨hg, hv⟩
  · have hmis : (Expr.call s f es).Misapplied (some g :: types) := by
      intro params result h
      rw [hg] at h
      cases h
    rw [hv]
    exact ⟨rfl, fun _ => hmis, fun _ => by simp [Verdict.errors]⟩
  · have hmis : (Expr.call s f es).Misapplied (some g :: types) := by
      intro params' result' h
      rw [hg] at h
      cases h
      rw [← hlen]
      exact hne
    rw [hv]
    exact ⟨rfl, fun _ => hmis, fun _ => by simp [Verdict.errors]⟩
  · rw [hv]
    refine ⟨rfl, fun h => absurd rfl h, ?_⟩
    intro hmis
    cases callee with
    | none => exact hmis.elim
    | some g =>
      obtain ⟨params, result, hsig, heq⟩ := hg g rfl
      exact absurd (heq.trans hlen) (hmis params result hsig)

/-- Every judgement suppresses reports about missing types. -/
theorem suppresses_judge {e : Expr} (he : e.isCompound = true) {types : List (Option Ty)}
    (hlen : types.length = e.parts.length) : Suppresses e types (judge e types) := by
  cases e with
  | literal _ _ | var _ _ | function _ _ _ _ => exact absurd he (by simp [Expr.isCompound])
  | binary s op l r =>
    obtain ⟨left, right, rfl⟩ := List.length_eq_two.mp hlen
    exact suppresses_settle l.span fun h => ⟨Rule.binary_of_missing h, id⟩
  | conditional s p t e =>
    obtain ⟨predicate, thenType, elseType, rfl⟩ := List.length_eq_three.mp hlen
    exact suppresses_settle t.span fun h => ⟨Rule.conditional_of_missing h, id⟩
  | array s es => exact suppresses_settle s fun h => ⟨Rule.array_of_missing h, id⟩
  | map s es =>
    have heven : Even types.length := by
      rw [hlen, Expr.parts, List.length_flatMap]
      simp
    exact suppresses_settle s fun h => ⟨Rule.map_of_missing heven h, id⟩
  | tuple s es => exact suppresses_recordTuple (by simpa [Expr.parts] using hlen)
  | call s f es =>
    obtain ⟨callee, args, rfl⟩ := List.exists_cons_of_length_eq_add_one hlen
    exact suppresses_call (by simpa [Expr.parts] using hlen)
  | index s t i =>
    obtain ⟨target, type, rfl⟩ := List.length_eq_two.mp hlen
    exact suppresses_settle s fun h => ⟨Rule.index_of_missing h, id⟩
  | field s t x =>
    obtain ⟨target, rfl⟩ := List.length_eq_one_iff.mp hlen
    exact suppresses_settleField s t target x id
  | ordinal s t n =>
    obtain ⟨target, rfl⟩ := List.length_eq_one_iff.mp hlen
    exact suppresses_settleField s t target _ id

/-- From every state on: the errors that inferring a compound expression adds are those that its
parts add, one after the other, and at most one more. If some part has no type, the expression has
none, and there is one more error only for a misapplied call. -/
theorem infer_suppresses (c : Checker) (e : Expr) (he : e.isCompound = true) :
    ∃ own, (after (infer e) c).errors = (after (inferAll e.parts) c).errors ++ own ∧
      own.length ≤ 1 ∧
      (none ∈ answer (inferAll e.parts) c → answer (infer e) c = none ∧
        (own ≠ [] ↔ e.Misapplied (answer (inferAll e.parts) c))) := by
  have hjudge := suppresses_judge he (length_answer_inferAll e.parts c)
  rw [infer_eq_judge he, after_bind, answer_bind]
  exact hjudge _

/-- A map whose only entry has a key without a type. -/
def unkeyedMap : Expr :=
  .map .origin [⟨.origin, .var .origin "k", .literal .origin (.integer 1)⟩]

theorem infer_suppresses_unkeyedMap :
    unkeyedMap.isCompound = true ∧ none ∈ answer (inferAll unkeyedMap.parts) initial ∧
      answer (infer unkeyedMap) initial = none ∧
      (after (infer unkeyedMap) initial).errors = (after (inferAll unkeyedMap.parts) initial).errors := by
  have hmem : none ∈ answer (inferAll unkeyedMap.parts) initial := by decide
  obtain ⟨own, herrors, -, hnone⟩ := infer_suppresses initial unkeyedMap rfl
  obtain ⟨hanswer, hown⟩ := hnone hmem
  have hnil : own = [] := by
    by_contra hne
    exact hown.mp hne
  refine ⟨rfl, hmem, hanswer, ?_⟩
  rw [herrors, hnil, List.append_nil]

/-- The value that the text `x is 1(missing)` declares. -/
def literalCall : Expr :=
  .call ⟨5, 15, ⟨1, 6⟩⟩ (.literal ⟨5, 6, ⟨1, 6⟩⟩ (.integer 1)) [.var ⟨7, 14, ⟨1, 8⟩⟩ "missing"]

/-- A call is reported on top of the fault in its argument. -/
theorem infer_literalCall :
    literalCall.isCompound = true ∧ none ∈ answer (inferAll literalCall.parts) initial ∧
      (after (infer literalCall) initial).errors =
        (after (inferAll literalCall.parts) initial).errors ++
          [⟨.notCallable .integer, ⟨5, 15, ⟨1, 6⟩⟩⟩] ∧
      (Program.ofText "x is 1(missing)".toList).toOption.map (fun p => (initial.check p).errors) =
        some (after (infer literalCall) initial).errors := by
  refine ⟨rfl, by decide, by decide, by decide +kernel⟩

end Checker

end ExprCheck
