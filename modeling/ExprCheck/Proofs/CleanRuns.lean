import Mathlib
import ExprCheck.Proofs.Discipline
import ExprCheck.Proofs.Typing

/-!
# Runs without a report

Since errors are only ever appended, a run of the checker without a report is one all of whose parts
are without a report. `Yields` says that a step ends without a report and what it answers, and can
be taken apart along the steps of a run. For the rules, it says when a rule accepts types that are
all known.
-/

namespace ExprCheck

/-! ## Rules on known types -/

/-- The operator tables list the accepted operand types. -/
theorem Promotion.lookup_table_iff {f : Family} {p q r : Primitive} :
    (Promotion.table f).lookup (p, q) = some r ↔ Combines f p q r := by
  constructor
  · intro h
    cases f <;> cases p <;> cases q <;> cases h <;> constructor <;> decide
  · intro h
    cases h with
    | sum_integer => rfl
    | connective => rfl
    | sum_real h | sum_rational h | sum_complex h | quotient_real h | quotient_rational h
    | quotient_complex h | comparison h =>
      revert h
      cases p <;> cases q <;> decide

theorem Promotion.result?_eq_some_iff {f : Family} {a b t : Ty} :
    Promotion.result? f a b = some t ↔
      ∃ p q r, a = .primitive p ∧ b = .primitive q ∧ t = .primitive r ∧ Combines f p q r := by
  constructor
  · intro h
    unfold Promotion.result? at h
    split at h
    · next p q =>
      obtain ⟨r, hr, rfl⟩ := Option.map_eq_some_iff.mp h
      exact ⟨p, q, r, rfl, rfl, rfl, lookup_table_iff.mp hr⟩
    · exact absurd h (by simp)
  · rintro ⟨p, q, r, rfl, rfl, rfl, h⟩
    simp [Promotion.result?, lookup_table_iff.mpr h]

theorem Ty.signature?_eq_some_iff {f : Ty} {params : List Ty} {result : Ty} :
    f.signature? = some (params, result) ↔ f = .arrow params result := by
  constructor
  · intro h
    unfold Ty.signature? at h
    split at h
    · next signature =>
      obtain ⟨r, hr, he⟩ := Option.map_eq_some_iff.mp h
      obtain ⟨rfl, rfl⟩ := Prod.mk.inj he
      rw [Ty.arrow, List.dropLast_append_getLast? r hr]
    · exact absurd h (by simp)
  · rintro rfl
    simp [Ty.signature?, Ty.arrow]

namespace Rule

theorem all?_map_some (ts : List Ty) : all? (ts.map some) = some ts := by
  induction ts with
  | nil => rfl
  | cons t ts ih => simp [all?, ih]

theorem allEntries?_map_some (ts : List (Ty × Ty)) :
    allEntries? (ts.map fun t => (some t.1, some t.2)) = some ts := by
  induction ts with
  | nil => rfl
  | cons t ts ih => simp [allEntries?, ih]

/-- Comparing with the first element is comparing with one element throughout. -/
theorem all_eq_first_iff {α : Type} [DecidableEq α] (first : α) (rest : List α) (P : α → Prop) :
    (∃ t, first :: rest ≠ [] ∧ (∀ x ∈ first :: rest, x = t) ∧ P t) ↔
      rest.all (· = first) ∧ P first := by
  constructor
  · rintro ⟨t, -, hx, ht⟩
    obtain rfl := hx first (by simp)
    exact ⟨by simpa using fun x hr => hx x (by simp [hr]), ht⟩
  · rintro ⟨hx, ht⟩
    exact ⟨first, by simp, by simpa using hx, ht⟩

end Rule

namespace Checker

variable {α β : Type}

/-! ## Runs without a report -/

/-- A step that does not take errors back. -/
class Grows (m : CheckM α) : Prop where
  grows : ∀ c, c.errors <+: (after m c).errors

/-- Errors are only appended. -/
theorem regimen_grows :
    Regimen (fun c d => c.errors <+: d.errors) (fun c d => c.errors <+: d.errors) where
  refl := fun c => List.prefix_refl _
  trans := fun c d e h₁ h₂ => h₁.trans h₂
  stmtTrans := fun c d e h₁ h₂ => h₁.trans h₂
  weaken := fun c d h => h
  report := fun c span fault _ => (confined_report c span fault).errors
  stray := fun c span _ => (confined_report c span _).errors
  define := fun c span name symbol => (local_define c span name symbol).errors
  record := fun c owner fields _ => List.prefix_refl _
  function := by
    intro c params d e hd he
    have hparams := (local_defineParams params (after enterFunction c)).errors
    rw [← hd] at hparams
    exact hparams.trans he
  loop := fun c d h => h
  owner := fun c d x h => h

instance (a : α) : Grows (pure a : CheckM α) := ⟨fun _ => List.prefix_refl _⟩

instance (m : CheckM α) (f : α → CheckM β) [hm : Grows m] [hf : ∀ a, Grows (f a)] :
    Grows (m >>= f) :=
  ⟨fun c => (hm.grows c).trans ((hf _).grows _)⟩

instance (span : Span) (fault : TypeFault) : Grows (report span fault) :=
  ⟨fun c => (confined_report c span fault).errors⟩

instance (owner : Option String) : Grows (setOwner owner) := ⟨fun _ => List.prefix_refl _⟩

instance : Grows enterFunction := ⟨fun _ => List.prefix_refl _⟩


instance : Grows leaveScope := ⟨fun _ => List.prefix_refl _⟩

instance (f : Checker → Nat) : Grows (modify fun c => { c with depth := f c } : CheckM Unit) :=
  ⟨fun _ => List.prefix_refl _⟩

instance (span : Span) (name : String) (symbol : Symbol) : Grows (define span name symbol) :=
  ⟨fun c => (local_define c span name symbol).errors⟩

instance (params : List Param) : Grows (defineParams params) :=
  ⟨fun c => (local_defineParams params c).errors⟩

instance (span : Span) (fault : Ty → Ty → TypeFault) (a b : Option Ty) :
    Grows (compareTypes span fault a b) where
  grows := by
    intro c
    unfold compareTypes
    split
    · split
      · exact List.prefix_refl _
      · exact (confined_report c span _).errors
    · exact List.prefix_refl _

instance (span : Span) (v : Verdict) : Grows (settle span v) where
  grows := by
    intro c
    cases v with
    | type t => exact List.prefix_refl _
    | silent => exact List.prefix_refl _
    | fault f => exact (confined_report c span f).errors

instance (fields : List (String × Option Ty)) : Grows (recordTuple fields) :=
  ⟨regimen_grows.recordTuple fields⟩

instance (span : Span) (name : Option String) (type : Option Ty) :
    Grows (defineLoopVariable span name type) :=
  ⟨regimen_grows.defineLoopVariable span name type⟩

instance (span : Span) : Grows (do if (← get).depth = 0 then report span .strayReturn) :=
  ⟨regimen_grows.strayReturn span⟩

instance (e : Expr) : Grows (infer e) := ⟨infer_along regimen_grows e⟩

instance (es : List Expr) : Grows (inferAll es) := ⟨inferAll_along regimen_grows es⟩

instance (es : List Entry) : Grows (inferEntries es) := ⟨inferEntries_along regimen_grows es⟩

instance (n : Nat) (es : List Element) : Grows (inferElements n es) :=
  ⟨inferElements_along regimen_grows n es⟩

instance (b : Body) : Grows (inferBody b) := ⟨inferBody_along regimen_grows b⟩

instance (type : Option Ty) (stmts : List Stmt) : Grows (inferBlock type stmts) :=
  ⟨inferBlock_along regimen_grows type stmts⟩

instance (s : Stmt) : Grows (checkStmt s) := ⟨checkStmt_along regimen_grows s⟩

instance (stmts : List Stmt) : Grows (checkStmts stmts) := ⟨checkStmts_along regimen_grows stmts⟩

instance (h : Header) : Grows (checkHeader h) := ⟨checkHeader_along regimen_grows h⟩

instance (d : Declaration) : Grows (checkDeclaration d) :=
  ⟨checkDeclaration_along regimen_grows d⟩

instance (ds : List Declaration) : Grows (checkDeclarations ds) :=
  ⟨checkDeclarations_along regimen_grows ds⟩

/-- A run that reports nothing. -/
def Clean (m : CheckM α) (c : Checker) : Prop := (after m c).errors = c.errors

/-- A run that reports nothing, with its answer. -/
def Yields (m : CheckM α) (c : Checker) (a : α) : Prop := answer m c = a ∧ Clean m c

theorem clean_iff_yields {m : CheckM α} {c : Checker} : Clean m c ↔ ∃ a, Yields m c a :=
  ⟨fun h => ⟨_, rfl, h⟩, fun ⟨_, h⟩ => h.2⟩

theorem clean_pure (a : α) (c : Checker) : Clean (pure a) c := rfl

/-- A run reports nothing if and only if no part of it does. -/
theorem clean_bind (m : CheckM α) (f : α → CheckM β) (c : Checker) [hm : Grows m]
    [hf : ∀ a, Grows (f a)] :
    Clean (m >>= f) c ↔ Clean m c ∧ Clean (f (answer m c)) (after m c) := by
  have h₁ := hm.grows c
  have h₂ := (hf (answer m c)).grows (after m c)
  unfold Clean
  rw [after_bind]
  constructor
  · intro h
    rw [h] at h₂
    have h₃ : (after m c).errors = c.errors := h₂.eq_of_length_le h₁.length_le
    exact ⟨h₃, h.trans h₃.symm⟩
  · rintro ⟨h₃, h₄⟩
    exact h₄.trans h₃

theorem yields_pure (a b : α) (c : Checker) : Yields (pure a) c b ↔ b = a := by
  constructor
  · rintro ⟨h, -⟩
    exact h.symm
  · rintro rfl
    exact ⟨rfl, clean_pure _ _⟩

theorem yields_bind (m : CheckM α) (f : α → CheckM β) (c : Checker) (b : β) [Grows m]
    [∀ a, Grows (f a)] :
    Yields (m >>= f) c b ↔ ∃ a, Yields m c a ∧ Yields (f a) (after m c) b := by
  unfold Yields
  rw [clean_bind, answer_bind]
  constructor
  · rintro ⟨hb, hm, hf⟩
    exact ⟨_, ⟨rfl, hm⟩, hb, hf⟩
  · rintro ⟨_, ⟨rfl, hm⟩, hb, hf⟩
    exact ⟨hb, hm, hf⟩

theorem yields_get_bind {f : Checker → CheckM β} {c : Checker} {b : β} :
    Yields (get >>= f) c b ↔ Yields (f c) c b := Iff.rfl

/-- Once the answers of the first part are known, the second part is about these. -/
theorem yields_bind_of {γ : Type} {m : CheckM α} {f : α → CheckM β} {c : Checker} {b : β}
    [Grows m] [∀ a, Grows (f a)] {g : γ → α} {P : γ → Prop}
    (h : ∀ a, Yields m c a ↔ ∃ x, a = g x ∧ P x) :
    Yields (m >>= f) c b ↔ ∃ x, P x ∧ Yields (f (g x)) (after m c) b := by
  rw [yields_bind]
  constructor
  · rintro ⟨a, ha, hb⟩
    obtain ⟨x, rfl, hx⟩ := (h a).mp ha
    exact ⟨x, hx, hb⟩
  · rintro ⟨x, hx, hb⟩
    exact ⟨g x, (h _).mpr ⟨x, rfl, hx⟩, hb⟩

/-- A step without an answer is only a condition. -/
theorem yields_bind_unit (m : CheckM Unit) (f : Unit → CheckM β) (c : Checker) (b : β) [Grows m]
    [∀ a, Grows (f a)] :
    Yields (m >>= f) c b ↔ Clean m c ∧ Yields (f ()) (after m c) b := by
  unfold Yields
  rw [clean_bind, answer_bind]
  exact and_left_comm

theorem clean_report (span : Span) (fault : TypeFault) (c : Checker) :
    ¬ Clean (report span fault) c := by
  unfold Clean
  simp

theorem clean_compareTypes (span : Span) (fault : Ty → Ty → TypeFault) (a b : Ty) (c : Checker) :
    Clean (compareTypes span fault (some a) (some b)) c ↔ a = b := by
  by_cases hab : a = b
  · simp [compareTypes, hab, clean_pure]
  · simp [compareTypes, hab, clean_report]

theorem clean_compareTypes_map (span : Span) (fault : Ty → Ty → TypeFault) (t : Ty)
    (typeExpr : Option TypeExpr) (c : Checker) :
    Clean (compareTypes span fault (some t) (typeExpr.map Ty.ofTypeExpr)) c ↔
      Writes typeExpr t := by
  cases typeExpr with
  | none => simp [compareTypes, clean_pure, Writes]
  | some a => simp [clean_compareTypes, Writes, eq_comm]

theorem yields_settle (span : Span) (v : Verdict) (c : Checker) (o : Option Ty) :
    Yields (settle span v) c o ↔ (∃ t, v = .type t ∧ o = some t) ∨ (v = .silent ∧ o = none) := by
  cases v with
  | type t =>
    simp only [settle, yields_pure]
    simp
  | silent =>
    simp only [settle, yields_pure]
    simp
  | fault f =>
    simp only [settle, yields_bind]
    constructor
    · rintro ⟨_, ⟨-, h⟩, -⟩
      exact absurd h (clean_report span f c)
    · rintro (⟨t, h, -⟩ | ⟨h, -⟩)
      · exact absurd h (by simp)
      · exact absurd h (by simp)

section Settling

variable (span : Span) (c : Checker) (o : Option Ty)

theorem yields_binary (op : Operator) (a b : Ty) :
    Yields (settle span (Rule.binary op (some a) (some b))) c o ↔
      ∃ p q r, a = .primitive p ∧ b = .primitive q ∧ o = some (.primitive r) ∧
        Combines op.family p q r := by
  rw [yields_settle]
  constructor
  · intro h
    simp only [Rule.binary] at h
    split at h
    · next t ht =>
      obtain ⟨p, q, r, ha, hb, rfl, hc⟩ := Promotion.result?_eq_some_iff.mp ht
      exact ⟨p, q, r, ha, hb, by simpa using h, hc⟩
    · exact absurd h (by simp)
  · rintro ⟨p, q, r, rfl, rfl, rfl, hc⟩
    have ht := Promotion.result?_eq_some_iff.mpr ⟨p, q, r, rfl, rfl, rfl, hc⟩
    exact Or.inl ⟨.primitive r, by simp [Rule.binary, ht], rfl⟩

theorem yields_conditional (p t e : Ty) :
    Yields (settle span (Rule.conditional (some p) (some t) (some e))) c o ↔
      t = e ∧ o = some t := by
  rw [yields_settle]
  by_cases h : t = e
  · simp [Rule.conditional, h]
  · simp [Rule.conditional, h]

theorem yields_function (params : List Ty) (result : Option TypeExpr) (t : Ty) :
    Yields (settle span (Rule.function params (result.map Ty.ofTypeExpr) (some t))) c o ↔
      Writes result t ∧ o = some (.arrow params t) := by
  rw [yields_settle]
  cases result with
  | none => simp [Rule.function, Writes]
  | some a =>
    by_cases h : Ty.ofTypeExpr a = t
    · simp [Rule.function, Writes, h]
    · simp [Rule.function, Writes, h]

theorem yields_array (ts : List Ty) :
    Yields (settle span (Rule.array (ts.map some))) c o ↔
      ∃ t, ts ≠ [] ∧ (∀ x ∈ ts, x = t) ∧ o = some (.array t) := by
  rw [yields_settle, Rule.array, Rule.all?_map_some]
  cases ts with
  | nil => simp
  | cons first rest =>
    rw [Rule.all_eq_first_iff first rest fun t => o = some (.array t)]
    by_cases h : rest.all (· = first)
    · simp [h]
    · simp [h]

theorem yields_map (ts : List (Ty × Ty)) :
    Yields (settle span (Rule.map (ts.map fun t => (some t.1, some t.2)))) c o ↔
      ∃ t, ts ≠ [] ∧ (∀ x ∈ ts, x = t) ∧ o = some (.map t.1 t.2) := by
  rw [yields_settle, Rule.map, Rule.allEntries?_map_some]
  cases ts with
  | nil => simp
  | cons first rest =>
    rw [Rule.all_eq_first_iff first rest fun t => o = some (.map t.1 t.2)]
    by_cases h : rest.all (· = first)
    · simp [h]
    · simp [h]

theorem yields_call (f : Ty) (ts : List Ty) :
    Yields (settle span (Rule.call (some f) (ts.map some))) c o ↔
      ∃ t, o = some t ∧ f = .arrow ts t := by
  rw [yields_settle]
  constructor
  · intro h
    simp only [Rule.call, Rule.all?_map_some] at h
    split at h
    · exact absurd h (by simp)
    · next params result hf =>
      split at h
      · exact absurd h (by simp)
      · split at h
        · next hp => exact ⟨result, by simpa using h, hp ▸ Ty.signature?_eq_some_iff.mp hf⟩
        · exact absurd h (by simp)
  · rintro ⟨t, rfl, rfl⟩
    have hf := Ty.signature?_eq_some_iff.mpr (rfl : Ty.arrow ts t = .arrow ts t)
    exact Or.inl ⟨t, by simp [Rule.call, Rule.all?_map_some, hf], rfl⟩

theorem yields_index (a i : Ty) :
    Yields (settle span (Rule.index (some a) (some i))) c o ↔
      (a = .array i ∨ ∃ v, a = .map i v) ∧ o = some i := by
  rw [yields_settle]
  simp only [Rule.index]
  split
  · next t =>
    by_cases h : i = t
    · simp [h]
    · simp [h, Ne.symm h]
  · next k v =>
    by_cases h : i = k
    · simp [h]
    · simp [h, Ne.symm h]
  · next harray hmap =>
    have h₁ : a ≠ .array i := harray i
    have h₂ : ∀ v, a ≠ .map i v := hmap i
    simp [h₁, h₂]

end Settling

end Checker

end ExprCheck
