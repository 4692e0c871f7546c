import Mathlib
import ExprCheck.Proofs.CleanRuns

/-!
# The checker decides the type system

A run of the checker that reports nothing is a derivation. The two sides are compared state by
state: a state of the checker models an environment when the tables, read along the open scopes,
hold the names and types of its frames and nothing else. From such a state an expression is inferred
without a report exactly if it has a type, which is then the answer; and a statement is checked
without a report exactly if it is well typed, and the state afterwards models the environment that
it leaves behind.
-/

namespace ExprCheck

namespace Checker

variable {α β : Type}

/-! ## States that model an environment -/

/-- The names of a scope and their types are those of a frame. -/
def Holds (t : SymbolTable) (scope : Scope) (frame : Frame) : Prop :=
  ∀ x, (t.get? ⟨scope, x⟩).map Symbol.type? = (frame.lookup x).map some

/-- The open scopes hold what the frames of an environment hold. -/
structure Models (c : Checker) (Γ : Env) : Prop where
  valid : c.Valid
  frames : List.Forall₂ (Holds c.symbols) c.scopes.active Γ

theorem models_initial : Models initial [[]] :=
  ⟨valid_initial, .cons (fun _ => rfl) .nil⟩

/-- What a name stands for is found in the frames. -/
theorem map_lookup_of_holds {t : SymbolTable} {active : List Scope} {Γ : Env}
    (h : List.Forall₂ (Holds t) active Γ) (x : String) :
    (t.lookup x active).map (·.2.type?) = (Γ.typeOf x).map some := by
  induction h with
  | nil => rfl
  | cons hscope _ ih =>
    rw [SymbolTable.lookup_cons, Env.typeOf, Option.map_or, Option.map_or, ih, ← hscope x]
    simp [Function.comp_def]

theorem Models.congr {c d : Checker} {Γ : Env} (h : Models c Γ) (hs : d.scopes = c.scopes)
    (ht : d.symbols = c.symbols) : Models d Γ :=
  ⟨h.valid.congr hs ht, by rw [hs, ht]; exact h.frames⟩

/-- What is confined does not touch the names of a scope entered before. -/
theorem Confined.get?_eq {c d : Checker} (h : Confined c d) {slot : Slot}
    (hs : c.scopes.Allocated slot.scope) : d.symbols.get? slot = c.symbols.get? slot := by
  cases hc : c.symbols.get? slot with
  | some symbol => exact h.symbols slot symbol hc
  | none =>
    rw [← SymbolTable.contains_eq_false]
    cases hd : d.symbols.contains slot with
    | false => rfl
    | true =>
      obtain ⟨hnew, -⟩ := h.binds slot (SymbolTable.contains_eq_false.mpr hc) hd
      exact absurd hs hnew

/-- What is confined leaves the environment alone. -/
theorem Models.confined {c d : Checker} {Γ : Env} (h : Models c Γ) (hd : Confined c d) :
    Models d Γ := by
  refine ⟨hd.toLocal.valid h.valid, ?_⟩
  rw [hd.active]
  have hall := List.forall₂_and_left _ _ |>.mpr ⟨h.valid.active, h.frames⟩
  refine hall.imp fun scope frame ⟨hs, hf⟩ x => ?_
  have hx : c.scopes.Allocated (Slot.mk scope x).scope := hs
  rw [hd.get?_eq hx]
  exact hf x

/-- A scope that is entered is an empty frame. -/
theorem Models.enter {c : Checker} {Γ : Env} (h : Models c Γ) {scope : Scope} {t : ScopeStack}
    (ht : ScopeStack.Enters scope c.scopes t) : Models { c with scopes := t } ([] :: Γ) := by
  refine ⟨h.valid.enter ht, ?_⟩
  rw [ht.active]
  refine .cons (fun x => ?_) h.frames
  have hfree : c.symbols.get? ⟨scope, x⟩ = none := by
    rw [← SymbolTable.contains_eq_false]
    by_contra hne
    exact ht.new (h.valid.slots ⟨scope, x⟩ (by simpa using hne))
  simp [hfree]

/-- An environment that is modelled has a frame for the innermost scope. -/
theorem Models.exists_frame {c : Checker} {Γ : Env} (h : Models c Γ) :
    ∃ rest frame outer, c.scopes.active = c.scopes.current :: rest ∧ Γ = frame :: outer ∧
      Holds c.symbols c.scopes.current frame ∧ List.Forall₂ (Holds c.symbols) rest outer := by
  obtain ⟨scope, rest, hs⟩ := List.exists_cons_of_ne_nil h.valid.nonempty
  have hcur : c.scopes.current = scope := by
    unfold ScopeStack.current
    rw [hs]
    rfl
  have hf := h.frames
  rw [hs] at hf
  obtain ⟨frame, outer, hframe, houter, rfl⟩ := List.forall₂_cons_left_iff.mp hf
  exact ⟨rest, frame, outer, by rw [hs, hcur], rfl, hcur ▸ hframe, houter⟩

/-- A name is free in the innermost frame if its slot is. -/
theorem Models.free_iff {c : Checker} {Γ : Env} (h : Models c Γ) (x : String) :
    Γ.Free x ↔ c.symbols.contains (c.slot x) = false := by
  obtain ⟨rest, frame, outer, -, rfl, hframe, -⟩ := h.exists_frame
  have hx := hframe x
  rw [SymbolTable.contains_eq_false, Env.Free]
  unfold Checker.slot
  constructor
  · intro hfree
    rw [hfree] at hx
    simpa using hx
  · intro hnone
    rw [hnone] at hx
    simpa using hx.symm

/-- Binding a free name binds it in the innermost frame. -/
theorem Models.define {c : Checker} {Γ : Env} (h : Models c Γ) (span : Span) {x : String}
    (kind : SymbolKind) (t : Ty) (hx : Γ.Free x) :
    Models (after (Checker.define span x ⟨kind, some t⟩) c) (Γ.bind x t) := by
  have hfree := (h.free_iff x).mp hx
  refine ⟨(local_define c span x _).valid h.valid, ?_⟩
  obtain ⟨table, htable, hget⟩ := after_define_free c span ⟨kind, some t⟩ hfree
  obtain ⟨rest, frame, outer, hactive, rfl, hframe, houter⟩ := h.exists_frame
  rw [htable]
  show List.Forall₂ (Holds table) c.scopes.active (((x, t) :: frame) :: outer)
  have hnodup := h.valid.nodup
  rw [hactive] at hnodup ⊢
  refine .cons (fun y => ?_) ?_
  · rw [hget, List.lookup_cons]
    by_cases hy : y = x
    · subst hy
      simp [Checker.slot]
    · have hne : (⟨c.scopes.current, y⟩ : Slot) ≠ c.slot x := by
        simpa [Checker.slot] using hy
      have hb : (y == x) = false := by simpa using hy
      rw [if_neg hne, hb]
      exact hframe y
  · have hnot : ∀ scope ∈ rest, scope ≠ c.scopes.current :=
      fun scope hs he => (List.nodup_cons.mp hnodup).1 (he ▸ hs)
    have hall := List.forall₂_and_left _ _ |>.mpr ⟨hnot, houter⟩
    refine hall.imp fun scope frame ⟨hs, hf⟩ y => ?_
    have hne : (⟨scope, y⟩ : Slot) ≠ c.slot x := by
      simp [Checker.slot, hs]
    rw [hget, if_neg hne]
    exact hf y

theorem clean_define {c : Checker} {Γ : Env} (h : Models c Γ) (span : Span) (x : String)
    (symbol : Symbol) : Clean (Checker.define span x symbol) c ↔ Γ.Free x := by
  rw [h.free_iff]
  cases hx : c.symbols.contains (c.slot x) with
  | false => simp [Clean, errors_define_free c span symbol hx]
  | true => simp [Clean, after_define_taken c span symbol hx]

/-- Parameters are bound without a report if their names are new and distinct. -/
theorem clean_defineParams (params : List Param) {c : Checker} {frame : Frame} {Γ : Env}
    (h : Models c (frame :: Γ)) :
    (Clean (defineParams params) c ↔
      (params.map Param.name).Nodup ∧ ∀ p ∈ params, frame.lookup p.name = none) ∧
    (Clean (defineParams params) c →
      Models (after (defineParams params) c) ((paramFrame params ++ frame) :: Γ)) := by
  induction params generalizing c frame with
  | nil => exact ⟨by simp [defineParams, clean_pure], fun _ => h⟩
  | cons p rest ih =>
    rw [defineParams, clean_bind, clean_define h]
    by_cases hp : Env.Free (frame :: Γ) p.name
    · have hm : Models _ (((p.name, paramType p) :: frame) :: Γ) :=
        h.define p.span .parameter (paramType p) hp
      obtain ⟨hiff, hframe⟩ := ih hm
      have hfree : frame.lookup p.name = none := hp
      constructor
      · rw [hiff]
        simp only [hp, true_and, List.map_cons, List.nodup_cons, List.forall_mem_cons, hfree]
        have hlookup : ∀ q : Param, ((p.name, paramType p) :: frame).lookup q.name = none ↔
            q.name ≠ p.name ∧ frame.lookup q.name = none := by
          intro q
          rw [List.lookup_cons]
          by_cases hq : q.name = p.name
          · simp [hq]
          · have hb : (q.name == p.name) = false := by simpa using hq
            simp [hb, hq]
        simp only [hlookup, List.mem_map, not_exists, not_and]
        constructor
        · rintro ⟨hn, hq⟩
          exact ⟨⟨fun q hm => (hq q hm).1, hn⟩, fun q hm => (hq q hm).2⟩
        · rintro ⟨⟨hq, hn⟩, hq'⟩
          exact ⟨hn, fun q hm => ⟨hq q hm, hq' q hm⟩⟩
      · rintro ⟨-, hrest⟩
        have hm' := hframe hrest
        rw [after_bind]
        simpa [paramFrame] using hm'
    · constructor
      · constructor
        · rintro ⟨hp', -⟩
          exact absurd hp' hp
        · rintro ⟨-, hq⟩
          exact absurd (hq p (by simp)) hp
      · rintro ⟨hp', -⟩
        exact absurd hp' hp

/-- A step without an answer is free of reports exactly if the judgment `R` about the environment
behind it can be derived, and then ends in a state that models this environment. -/
structure Realizes (m : CheckM Unit) (c : Checker) (R : Env → Prop) : Prop where
  sound : Clean m c → ∃ Γ, R Γ
  complete : ∀ Γ, R Γ → Clean m c ∧ Models (after m c) Γ

theorem Realizes.congr {m : CheckM Unit} {c : Checker} {R S : Env → Prop} (h : Realizes m c R)
    (hrs : ∀ Γ, R Γ ↔ S Γ) : Realizes m c S :=
  funext (fun Γ => propext (hrs Γ)) ▸ h

/-- A step that leaves the environment alone, under a condition. -/
theorem Realizes.of_iff {m : CheckM Unit} {c : Checker} {Γ : Env} {P : Prop}
    (h : Clean m c ↔ P) (hm : Clean m c → Models (after m c) Γ) :
    Realizes m c (fun Γ' => P ∧ Γ' = Γ) where
  sound := fun hc => ⟨Γ, h.mp hc, rfl⟩
  complete := by
    rintro Γ' ⟨hp, rfl⟩
    exact ⟨h.mpr hp, hm (h.mpr hp)⟩

/-- One step behind another. -/
theorem Realizes.seq {m m' : CheckM Unit} {c : Checker} {R : Env → Prop} {S : Env → Env → Prop}
    [Grows m] [Grows m'] (h : Realizes m c R)
    (h' : ∀ Γ, R Γ → Models (after m c) Γ → Realizes m' (after m c) (S Γ)) :
    Realizes (m >>= fun _ => m') c (fun Γ' => ∃ Γ, R Γ ∧ S Γ Γ') where
  sound := by
    intro hc
    obtain ⟨hm, hm'⟩ := (clean_bind m _ c).mp hc
    obtain ⟨Γ, hr⟩ := h.sound hm
    obtain ⟨Γ', hs⟩ := (h' Γ hr (h.complete Γ hr).2).sound hm'
    exact ⟨Γ', Γ, hr, hs⟩
  complete := by
    rintro Γ' ⟨Γ, hr, hs⟩
    obtain ⟨hm, hmodels⟩ := h.complete Γ hr
    obtain ⟨hm', hmodels'⟩ := (h' Γ hr hmodels).complete Γ' hs
    exact ⟨(clean_bind m _ c).mpr ⟨hm, hm'⟩, hmodels'⟩

/-- A step behind one whose answers are known. -/
theorem Realizes.bind_of {γ : Type} {m : CheckM α} {f : α → CheckM Unit} {c : Checker} [Grows m]
    [∀ a, Grows (f a)] {g : γ → α} {P : γ → Prop} {R : γ → Env → Prop}
    (h : ∀ a, Yields m c a ↔ ∃ x, a = g x ∧ P x)
    (hf : ∀ x, P x → Realizes (f (g x)) (after m c) (R x)) :
    Realizes (m >>= f) c (fun Γ => ∃ x, P x ∧ R x Γ) where
  sound := by
    intro hc
    obtain ⟨b, hb⟩ := clean_iff_yields.mp hc
    obtain ⟨x, hx, hb⟩ := (yields_bind_of h).mp hb
    obtain ⟨Γ, hr⟩ := (hf x hx).sound hb.2
    exact ⟨Γ, x, hx, hr⟩
  complete := by
    rintro Γ ⟨x, hx, hr⟩
    obtain ⟨hanswer, hclean⟩ := (h _).mpr ⟨x, rfl, hx⟩
    obtain ⟨hf', hmodels⟩ := (hf x hx).complete Γ hr
    rw [clean_bind, after_bind, hanswer]
    exact ⟨⟨hclean, hf'⟩, hmodels⟩

theorem realizes_compareTypes {c : Checker} {Γ : Env} (h : Models c Γ) (span : Span)
    (fault : Ty → Ty → TypeFault) (a b : Ty) :
    Realizes (compareTypes span fault (some a) (some b)) c (fun Γ' => a = b ∧ Γ' = Γ) := by
  refine .of_iff (clean_compareTypes span fault a b c) fun hc => ?_
  obtain rfl := (clean_compareTypes span fault a b c).mp hc
  simpa [compareTypes] using h

theorem realizes_pure {c : Checker} {Γ : Env} (h : Models c Γ) :
    Realizes (pure ()) c (fun Γ' => Γ' = Γ) :=
  (Realizes.of_iff (iff_true_intro (clean_pure () c)) fun _ => h).congr (by simp)

theorem Models.settle {c : Checker} {Γ : Env} (h : Models c Γ) (span : Span) (v : Verdict) :
    Models (after (Checker.settle span v) c) Γ := by
  cases v with
  | type t => exact h
  | silent => exact h
  | fault f => exact h.confined (confined_report c span f)

/-- Inside a function literal, a return is in its place. -/
theorem realizes_strayReturn {c : Checker} {Γ : Env} (h : Models c Γ) (hd : 0 < c.depth)
    (span : Span) :
    Realizes (do if (← get).depth = 0 then report span .strayReturn) c (fun Γ' => Γ' = Γ) := by
  have hafter : after (do if (← get).depth = 0 then report span .strayReturn) c = c := by
    rw [after_get, if_neg (Nat.pos_iff_ne_zero.mp hd)]
    rfl
  have hclean : Clean (do if (← get).depth = 0 then report span .strayReturn) c := by
    rw [Clean, hafter]
  have hm : Models (after (do if (← get).depth = 0 then report span .strayReturn) c) Γ := by
    rw [hafter]
    exact h
  exact (Realizes.of_iff (iff_true_intro hclean) fun _ => hm).congr (by simp)

/-- A loop variable is the first name of its scope. -/
theorem realizes_defineLoopVariable {c : Checker} {Γ : Env} (h : Models c ([] :: Γ)) (span : Span)
    (x : Option String) (t : Ty) :
    Realizes (defineLoopVariable span x (some t)) c (fun Γ' => Γ' = Env.bind? ([] :: Γ) x t) := by
  cases x with
  | none => exact realizes_pure h
  | some x =>
    have hfree : Env.Free ([] :: Γ) x := rfl
    have hclean := (clean_define h span x ⟨.loopVariable, .of (some t)⟩).mpr hfree
    have hp := Realizes.of_iff (iff_true_intro hclean) fun _ => h.define span .loopVariable t hfree
    exact hp.congr (by simp [Env.bind?])

/-! ## Judgments along lists -/

theorem haveTypes_iff {Γ : Env} {es : List Expr} {ts : List Ty} :
    HaveTypes Γ es ts ↔ List.Forall₂ (HasType Γ) es ts := by
  constructor
  · intro h
    induction es generalizing ts with
    | nil =>
      cases h
      exact .nil
    | cons e es ih =>
      cases h with
      | cons he hes => exact .cons he (ih hes)
  · intro h
    induction h with
    | nil => exact .nil
    | cons he _ ih => exact .cons he ih

/-- Things related to equal things are all related to one. -/
theorem exists_forall₂_const_iff {R : α → β → Prop} {xs : List α} {b : β} :
    (∃ ys, List.Forall₂ R xs ys ∧ ys ≠ [] ∧ ∀ y ∈ ys, y = b) ↔ xs ≠ [] ∧ ∀ x ∈ xs, R x b := by
  constructor
  · rintro ⟨ys, h, hne, hall⟩
    refine ⟨fun hx => ?_, ?_⟩
    · subst hx
      cases h
      exact hne rfl
    · clear hne
      induction h with
      | nil => simp
      | @cons x y xs ys hxy _ ih =>
        obtain rfl : y = b := hall y (by simp)
        intro z hz
        rcases List.mem_cons.mp hz with rfl | hz
        · exact hxy
        · exact ih (fun y hy => hall y (by simp [hy])) z hz
  · rintro ⟨hne, hall⟩
    refine ⟨xs.map fun _ => b, ?_, by simpa using hne, by simp⟩
    rw [List.forall₂_map_right_iff, List.forall₂_same]
    exact hall

/-- What a block returns, statement by statement: `type` is what the returns so far say. -/
inductive Ends : Env → Option Ty → List Stmt → Option Ty → Prop where
  | nil {Γ type} : Ends Γ type [] type
  | ret {Γ type r t rest o} : ReturnHasType Γ r t → Ends Γ (some t) rest o →
    Ends Γ type (r :: rest) o
  | step {Γ Γ' type s rest o} : ¬ s.IsReturn → StmtOk Γ s Γ' → Ends Γ' type rest o →
    Ends Γ type (s :: rest) o

theorem ends_of_noReturn {Γ Γ' : Env} {type : Option Ty} {stmts : List Stmt}
    (h : StmtsOk Γ stmts Γ') (hn : ∀ x ∈ stmts, ¬ x.IsReturn) : Ends Γ type stmts type := by
  induction stmts generalizing Γ with
  | nil => exact .nil
  | cons s rest ih =>
    cases h with
    | cons hs hrest => exact .step (hn s (by simp)) hs (ih hrest fun x hx => hn x (by simp [hx]))

theorem isReturn_of_hasType {Γ : Env} {r : Stmt} {t : Ty} (h : ReturnHasType Γ r t) :
    r.IsReturn := by
  cases h with
  | nothing => trivial
  | value _ => trivial

theorem stmtOk_return_iff {Γ Γ' : Env} {r : Stmt} (hr : r.IsReturn) :
    StmtOk Γ r Γ' ↔ (∃ t, ReturnHasType Γ r t) ∧ Γ' = Γ := by
  constructor
  · intro h
    cases h with
    | ret h => exact ⟨⟨_, h⟩, rfl⟩
    | declaration | assign | call | ifThen | ifElse | loop | breakLoop | print => exact hr.elim
  · rintro ⟨⟨t, ht⟩, rfl⟩
    exact .ret ht

theorem ends_of_lastReturn {Γ Γ₁ Γ₂ : Env} {type : Option Ty} {earlier later : List Stmt}
    {last : Stmt} {t : Ty} (he : StmtsOk Γ earlier Γ₁) (hr : ReturnHasType Γ₁ last t)
    (hl : StmtsOk Γ₁ later Γ₂) (hn : ∀ x ∈ later, ¬ x.IsReturn) :
    Ends Γ type (earlier ++ last :: later) (some t) := by
  induction earlier generalizing Γ type with
  | nil =>
    cases he
    exact .ret hr (ends_of_noReturn hl hn)
  | cons s rest ih =>
    cases he with
    | cons hs hrest =>
      by_cases hret : s.IsReturn
      · obtain ⟨⟨u, hu⟩, rfl⟩ := (stmtOk_return_iff hret).mp hs
        exact .ret hu (ih hrest)
      · exact .step hret hs (ih hrest)

/-- A block returns what its last direct return says, or what was said before it. -/
theorem Ends.split {Γ : Env} {type o : Option Ty} {stmts : List Stmt} (h : Ends Γ type stmts o) :
    (o = type ∧ (∀ x ∈ stmts, ¬ x.IsReturn) ∧ ∃ Γ', StmtsOk Γ stmts Γ') ∨
    ∃ earlier last later Γ₁ Γ₂ t, stmts = earlier ++ last :: later ∧ o = some t ∧
      StmtsOk Γ earlier Γ₁ ∧ ReturnHasType Γ₁ last t ∧ StmtsOk Γ₁ later Γ₂ ∧
      ∀ x ∈ later, ¬ x.IsReturn := by
  induction h with
  | nil => exact Or.inl ⟨rfl, by simp, _, .nil⟩
  | @ret Γ type r t rest o hr _ ih =>
    rcases ih with ⟨rfl, hn, Γ', hrest⟩ | ⟨earlier, last, later, Γ₁, Γ₂, u, rfl, rfl, he, hl⟩
    · exact Or.inr ⟨[], r, rest, _, Γ', t, rfl, rfl, .nil, hr, hrest, hn⟩
    · exact Or.inr ⟨r :: earlier, last, later, Γ₁, Γ₂, u, rfl, rfl, .cons (.ret hr) he, hl⟩
  | @step Γ Γ' type s rest o hs hok _ ih =>
    rcases ih with ⟨rfl, hn, Γ'', hrest⟩ | ⟨earlier, last, later, Γ₁, Γ₂, u, rfl, rfl, he, hl⟩
    · exact Or.inl ⟨rfl, by simpa using ⟨hs, hn⟩, Γ'', .cons hok hrest⟩
    · exact Or.inr ⟨s :: earlier, last, later, Γ₁, Γ₂, u, rfl, rfl, .cons hok he, hl⟩

theorem ends_undefined_iff {Γ : Env} {span : Span} {stmts : List Stmt} {o : Option Ty} :
    Ends Γ (some .undefined) stmts o ↔ ∃ t, o = some t ∧ BodyHasType Γ (.block span stmts) t := by
  constructor
  · intro h
    rcases h.split with
      ⟨rfl, hn, Γ', hs⟩ | ⟨earlier, last, later, Γ₁, Γ₂, t, rfl, rfl, he, hr, hl, hn⟩
    · exact ⟨_, rfl, .noReturn hs hn⟩
    · exact ⟨t, rfl, .lastReturn he hr hl hn⟩
  · rintro ⟨t, rfl, h⟩
    cases h with
    | noReturn hs hn => exact ends_of_noReturn hs hn
    | lastReturn he hr hl hn => exact ends_of_lastReturn he hr hl hn

/-! ## Expressions and statements -/

theorem yields_inferVar {c : Checker} {Γ : Env} (h : Models c Γ) (span : Span) (x : String)
    (o : Option Ty) :
    Yields (inferVar span x) c o ↔ ∃ t, o = some t ∧ Γ.typeOf x = some t := by
  have hx := map_lookup_of_holds h.frames x
  unfold inferVar
  rw [yields_get_bind]
  cases hl : c.symbols.lookup x c.scopes.active with
  | none =>
    have hnone : Γ.typeOf x = none := by simpa [hl] using hx.symm
    simp only [hnone, yields_bind]
    constructor
    · rintro ⟨_, ⟨-, hc⟩, -⟩
      exact absurd hc (clean_report span _ c)
    · rintro ⟨t, -, ht⟩
      exact absurd ht (by simp)
  | some entry =>
    simp only [hl, Option.map_some] at hx
    rw [yields_pure]
    cases hΓ : Γ.typeOf x with
    | none => simp [hΓ] at hx
    | some t =>
      have ht : entry.2.type? = some t := by simpa [hΓ] using hx
      simp [ht]

/-- The names of the fields of a tuple literal, from the given place on. -/
def fieldNames (place : Nat) : List Element → List String
  | [] => []
  | e :: rest => e.fieldName place :: fieldNames (place + 1) rest

theorem length_fieldNames (place : Nat) (es : List Element) :
    (fieldNames place es).length = es.length := by
  induction es generalizing place with
  | nil => rfl
  | cons e rest ih => simp [fieldNames, ih]

theorem yields_recordTuple {fields : List (String × Option Ty)} {ts : List Ty}
    (h : fields.map Prod.snd = ts.map some) (c : Checker) (o : Option Ty) :
    Yields (recordTuple fields) c o ↔ o = some (.tuple ts) := by
  have hall : Rule.all? (fields.map Prod.snd) = some ts := by rw [h, Rule.all?_map_some]
  unfold recordTuple Yields Clean
  rw [hall]
  simp only [after_get, answer_get]
  split
  · simp only [after_bind, answer_bind, after_set, after_pure, answer_pure, and_true]
    exact eq_comm
  · simp only [after_pure, answer_pure, and_true]
    exact eq_comm

/-- The key and the value of a map entry have types. -/
def EntryHasTypes (Γ : Env) (e : Entry) (t : Ty × Ty) : Prop :=
  HasType Γ e.key t.1 ∧ HasType Γ e.value t.2

theorem Models.infer {c : Checker} {Γ : Env} (h : Models c Γ) (e : Expr) :
    Models (after (Checker.infer e) c) Γ :=
  h.confined (confined_infer h.valid e)

theorem Models.inferAll {c : Checker} {Γ : Env} (h : Models c Γ) (es : List Expr) :
    Models (after (Checker.inferAll es) c) Γ :=
  h.confined (confined_inferAll h.valid es)

theorem yields_inferDeclared {c : Checker} {Γ : Env} (h : Models c Γ) (d : Declaration)
    (hv : ∀ {c : Checker}, Models c Γ → ∀ o,
      Yields (Checker.infer d.value) c o ↔ ∃ t, o = some t ∧ HasType Γ d.value t) (o : Option Ty) :
    Yields (inferDeclared d) c o ↔
      ∃ t, o = some t ∧ HasType Γ d.value t ∧ Writes d.typeExpr t := by
  have hm : Models (after (setOwner (some d.name)) c) Γ := h.congr rfl rfl
  show Yields (do
    setOwner (some d.name)
    let type ← Checker.infer d.value
    setOwner c.owner
    compareTypes d.span .declaredType type (d.typeExpr.map Ty.ofTypeExpr)
    return type) c o ↔ _
  rw [yields_bind_unit, yields_bind_of (hv hm)]
  simp only [yields_bind_unit, clean_compareTypes_map, yields_pure]
  constructor
  · rintro ⟨-, t, ht, -, hw, rfl⟩
    exact ⟨t, rfl, ht, hw⟩
  · rintro ⟨t, rfl, ht, hw⟩
    exact ⟨rfl, t, ht, rfl, hw, rfl⟩

/-- A statement that is no return says nothing about what the block returns. -/
theorem yields_inferBlock_step {c : Checker} {Γ : Env} {s : Stmt} {rest : List Stmt}
    {type o : Option Ty} (hs : ¬ s.IsReturn) (hok : Realizes (checkStmt s) c (StmtOk Γ s))
    (hrest : ∀ Γ', Models (after (checkStmt s) c) Γ' →
      (Yields (inferBlock type rest) (after (checkStmt s) c) o ↔ Ends Γ' type rest o)) :
    Yields (do checkStmt s; inferBlock type rest) c o ↔ Ends Γ type (s :: rest) o := by
  rw [yields_bind_unit]
  constructor
  · rintro ⟨hc, hy⟩
    obtain ⟨Γ', h⟩ := hok.sound hc
    exact .step hs h ((hrest Γ' (hok.complete Γ' h).2).mp hy)
  · intro h
    cases h with
    | ret hr _ => exact absurd (isReturn_of_hasType hr) hs
    | step _ h he =>
      obtain ⟨hc, hm⟩ := hok.complete _ h
      exact ⟨hc, (hrest _ hm).mpr he⟩

theorem realizes_loop {c : Checker} {Γ : Env} (hm : Models c Γ) (span : Span) (h : Header)
    (b : List Stmt) (hh : Realizes (checkHeader h) (after enterLoop c) (HeaderOk ([] :: Γ) h))
    (hb : ∀ Γ', Models (after (checkHeader h) (after enterLoop c)) Γ' →
      Realizes (checkStmts b) (after (checkHeader h) (after enterLoop c)) (StmtsOk Γ' b)) :
    Realizes (checkStmt (.loop span h b)) c (StmtOk Γ (.loop span h b)) := by
  have hin := hh.seq fun Γ' _ hm' => hb Γ' hm'
  have hclean : Clean (checkStmt (.loop span h b)) c ↔
      Clean (do checkHeader h; checkStmts b) (after enterLoop c) := by
    rw [checkStmt]
    exact Iff.rfl
  have hiff : Clean (checkStmt (.loop span h b)) c ↔
      ∃ Γ₂ Γ₁, HeaderOk ([] :: Γ) h Γ₁ ∧ StmtsOk Γ₁ b Γ₂ := by
    rw [hclean]
    exact ⟨hin.sound, fun ⟨Γ₂, hok⟩ => (hin.complete Γ₂ hok).1⟩
  refine (Realizes.of_iff hiff fun _ => hm.confined (confined_loop hm.valid span h b)).congr ?_
  intro Γ'
  constructor
  · rintro ⟨⟨Γ₂, Γ₁, hh, hb⟩, rfl⟩
    exact .loop hh hb
  · intro hok
    cases hok with
    | loop hh hb => exact ⟨⟨_, _, hh, hb⟩, rfl⟩
    | ret hr => exact absurd (isReturn_of_hasType hr) id

theorem realizes_declaration {c : Checker} {Γ : Env} (hm : Models c Γ) (d : Declaration)
    (hv : ∀ {c : Checker}, Models c Γ → ∀ o,
      Yields (Checker.infer d.value) c o ↔ ∃ t, o = some t ∧ HasType Γ d.value t) :
    Realizes (checkDeclaration d) c (DeclarationOk Γ d) := by
  have hinfer := yields_inferDeclared hm d hv
  cases hx : c.symbols.contains (c.slot d.name) with
  | true =>
    have hnot : ¬ Γ.Free d.name := by
      rw [hm.free_iff, hx]
      simp
    refine ⟨fun hc => ?_, fun Γ' hok => ?_⟩
    · rw [Clean, after_checkDeclaration_bound d c hx] at hc
      exact absurd hc (clean_report _ _ _)
    · cases hok with
      | intro hfree _ _ => exact absurd hfree hnot
  | false =>
    have hfree : Γ.Free d.name := (hm.free_iff _).mpr hx
    have hafter := after_checkDeclaration_unbound d c hx
    have hm' : Models (after (inferDeclared d) c) Γ :=
      hm.confined (confined_inferDeclared hm.valid d)
    have hclean : Clean (checkDeclaration d) c ↔ Clean (inferDeclared d) c := by
      rw [Clean, hafter, errors_define_free _ _ _ (free_after_inferDeclared hm.valid d hx)]
      exact Iff.rfl
    refine ⟨fun hc => ?_, fun Γ' hok => ?_⟩
    · obtain ⟨o, ho⟩ := clean_iff_yields.mp (hclean.mp hc)
      obtain ⟨t, -, ht, hw⟩ := (hinfer o).mp ho
      exact ⟨_, .intro hfree ht hw⟩
    · cases hok with
      | @intro _ _ t _ ht hw =>
        obtain ⟨hanswer, hc⟩ := (hinfer _).mpr ⟨t, rfl, ht, hw⟩
        refine ⟨hclean.mpr hc, ?_⟩
        rw [hafter, hanswer]
        exact hm'.define d.span .declared t hfree

mutual

/-- An expression is inferred without a report exactly if it has a type. -/
theorem infer_iff : (e : Expr) → e.FieldFree → ∀ {c : Checker} {Γ : Env}, Models c Γ →
    ∀ o, Yields (infer e) c o ↔ ∃ t, o = some t ∧ HasType Γ e t
  | .literal s v, _, c, Γ, hm, o => by
    rw [infer, yields_pure]
    constructor
    · rintro rfl
      exact ⟨_, rfl, .literal⟩
    · rintro ⟨t, rfl, ht⟩
      cases ht
      rfl
  | .var s x, _, c, Γ, hm, o => by
    rw [infer, yields_inferVar hm]
    constructor
    · rintro ⟨t, rfl, ht⟩
      exact ⟨t, rfl, .var ht⟩
    · rintro ⟨t, rfl, ht⟩
      cases ht with
      | var h => exact ⟨t, rfl, h⟩
  | .binary s op l r, hf, c, Γ, hm, o => by
    rw [Expr.FieldFree] at hf
    rw [infer]
    simp only [yields_bind_of (infer_iff l hf.1 hm), yields_bind_of (infer_iff r hf.2 (hm.infer l)),
      yields_binary]
    constructor
    · rintro ⟨_, hl, _, hr, p, q, t, rfl, rfl, rfl, ht⟩
      exact ⟨_, rfl, .binary hl hr ht⟩
    · rintro ⟨_, rfl, h⟩
      cases h with
      | binary hl hr ht => exact ⟨_, hl, _, hr, _, _, _, rfl, rfl, rfl, ht⟩
  | .conditional s p t e, hf, c, Γ, hm, o => by
    rw [Expr.FieldFree] at hf
    rw [infer]
    simp only [yields_bind_of (infer_iff p hf.1 hm),
      yields_bind_of (infer_iff t hf.2.1 (hm.infer p)),
      yields_bind_of (infer_iff e hf.2.2 ((hm.infer p).infer t)), yields_conditional]
    constructor
    · rintro ⟨_, hp, a, ht, _, he, rfl, rfl⟩
      exact ⟨a, rfl, .conditional hp ht he⟩
    · rintro ⟨_, rfl, h⟩
      cases h with
      | conditional hp ht he => exact ⟨_, hp, _, ht, _, he, rfl, rfl⟩
  | .function s params result body, hf, c, Γ, hm, o => by
    rw [Expr.FieldFree] at hf
    have hin : Models (after enterFunction c) ([] :: Γ) :=
      hm.enter (ScopeStack.enters_pushFunction c.scopes)
    obtain ⟨hiff, hparams⟩ := clean_defineParams params hin
    rw [infer, yields_bind_unit, yields_bind_unit]
    by_cases hc : Clean (defineParams params) (after enterFunction c)
    · have hm' : Models { after (defineParams params) (after enterFunction c) with
          depth := (after (defineParams params) (after enterFunction c)).depth + 1 }
          (paramFrame params :: Γ) := (List.append_nil _ ▸ hparams hc).congr rfl rfl
      simp only [yields_bind_unit, after_modify,
        yields_bind_of (inferBody_iff body hf hm' (Nat.succ_pos _)), yields_function]
      constructor
      · rintro ⟨-, -, -, t, ht, -, -, hw, rfl⟩
        exact ⟨_, rfl, .function (hiff.mp hc).1 ht hw⟩
      · rintro ⟨_, rfl, h⟩
        cases h with
        | function _ ht hw => exact ⟨rfl, hc, rfl, _, ht, rfl, rfl, hw, rfl⟩
    · constructor
      · rintro ⟨-, hc', -⟩
        exact absurd hc' hc
      · rintro ⟨_, rfl, h⟩
        cases h with
        | function hn _ _ => exact absurd (hiff.mpr ⟨hn, by simp⟩) hc
  | .array s es, hf, c, Γ, hm, o => by
    rw [Expr.FieldFree] at hf
    rw [infer]
    simp only [yields_bind_of (inferAll_iff es hf hm), yields_array, haveTypes_iff]
    constructor
    · rintro ⟨ts, hes, t, hne, hall, rfl⟩
      obtain ⟨hne, hes⟩ := exists_forall₂_const_iff.mp ⟨ts, hes, hne, hall⟩
      exact ⟨_, rfl, .array hne hes⟩
    · rintro ⟨_, rfl, h⟩
      cases h with
      | @array _ _ _ t hne hes =>
        obtain ⟨ts, hts, hne, hall⟩ := exists_forall₂_const_iff.mpr ⟨hne, hes⟩
        exact ⟨ts, hts, t, hne, hall, rfl⟩
  | .map s es, hf, c, Γ, hm, o => by
    rw [Expr.FieldFree] at hf
    rw [infer]
    simp only [yields_bind_of (inferEntries_iff es hf hm), yields_map]
    constructor
    · rintro ⟨ts, hes, t, hne, hall, rfl⟩
      obtain ⟨hne, hes⟩ := exists_forall₂_const_iff.mp ⟨ts, hes, hne, hall⟩
      exact ⟨_, rfl, .map hne (fun e he => (hes e he).1) fun e he => (hes e he).2⟩
    · rintro ⟨_, rfl, h⟩
      cases h with
      | @map _ _ _ k v hne hk hv =>
        have hes : ∀ e ∈ es, EntryHasTypes Γ e (k, v) := fun e he => ⟨hk e he, hv e he⟩
        obtain ⟨ts, hts, hne, hall⟩ := exists_forall₂_const_iff.mpr ⟨hne, hes⟩
        exact ⟨ts, hts, (k, v), hne, hall, rfl⟩
  | .tuple s es, hf, c, Γ, hm, o => by
    rw [Expr.FieldFree] at hf
    rw [infer, yields_bind_of (inferElements_iff 0 es hf hm)]
    have hfields : ∀ ts, HaveTypes Γ (es.map Element.value) ts →
        ((fieldNames 0 es).zip (ts.map some)).map Prod.snd = ts.map some := by
      intro ts hts
      have hlen := (haveTypes_iff.mp hts).length_eq
      refine List.map_snd_zip ?_
      rw [length_fieldNames]
      simpa using hlen.ge
    constructor
    · rintro ⟨ts, hts, h⟩
      rw [yields_recordTuple (hfields ts hts)] at h
      exact ⟨_, h, .tuple hts⟩
    · rintro ⟨_, rfl, h⟩
      cases h with
      | tuple hts => exact ⟨_, hts, (yields_recordTuple (hfields _ hts) _ _).mpr rfl⟩
  | .call s f es, hf, c, Γ, hm, o => by
    rw [Expr.FieldFree] at hf
    rw [infer]
    simp only [yields_bind_of (infer_iff f hf.1 hm),
      yields_bind_of (inferAll_iff es hf.2 (hm.infer f)), yields_call]
    constructor
    · rintro ⟨_, hf, ts, hes, t, rfl, rfl⟩
      exact ⟨t, rfl, .call hf hes⟩
    · rintro ⟨_, rfl, h⟩
      cases h with
      | call hf hes => exact ⟨_, hf, _, hes, _, rfl, rfl⟩
  | .index s t i, hf, c, Γ, hm, o => by
    rw [Expr.FieldFree] at hf
    rw [infer]
    simp only [yields_bind_of (infer_iff t hf.1 hm), yields_bind_of (infer_iff i hf.2 (hm.infer t)),
      yields_index]
    constructor
    · rintro ⟨_, ht, a, hi, rfl | ⟨v, rfl⟩, rfl⟩
      · exact ⟨a, rfl, .arrayIndex ht hi⟩
      · exact ⟨a, rfl, .mapIndex ht hi⟩
    · rintro ⟨_, rfl, h⟩
      cases h with
      | arrayIndex ht hi => exact ⟨_, ht, _, hi, Or.inl rfl, rfl⟩
      | mapIndex ht hi => exact ⟨_, ht, _, hi, Or.inr ⟨_, rfl⟩, rfl⟩
  | .field _ _ _, hf, _, _, _, _ => by
    rw [Expr.FieldFree] at hf
    exact hf.elim
  | .ordinal _ _ _, hf, _, _, _, _ => by
    rw [Expr.FieldFree] at hf
    exact hf.elim

theorem inferAll_iff : (es : List Expr) → exprsFieldFree es → ∀ {c : Checker} {Γ : Env},
    Models c Γ → ∀ os, Yields (inferAll es) c os ↔ ∃ ts, os = ts.map some ∧ HaveTypes Γ es ts
  | [], _, c, Γ, hm, os => by
    rw [inferAll, yields_pure]
    constructor
    · rintro rfl
      exact ⟨[], rfl, .nil⟩
    · rintro ⟨ts, rfl, h⟩
      cases h
      rfl
  | e :: rest, hf, c, Γ, hm, os => by
    rw [exprsFieldFree] at hf
    rw [inferAll]
    simp only [yields_bind_of (infer_iff e hf.1 hm),
      yields_bind_of (inferAll_iff rest hf.2 (hm.infer e)), yields_pure]
    constructor
    · rintro ⟨t, ht, ts, hts, rfl⟩
      exact ⟨t :: ts, rfl, .cons ht hts⟩
    · rintro ⟨_, rfl, h⟩
      cases h with
      | cons ht hts => exact ⟨_, ht, _, hts, rfl⟩

theorem inferEntries_iff : (es : List Entry) → entriesFieldFree es → ∀ {c : Checker} {Γ : Env},
    Models c Γ → ∀ os, Yields (inferEntries es) c os ↔
      ∃ ts : List (Ty × Ty), os = ts.map (fun t => (some t.1, some t.2)) ∧
        List.Forall₂ (EntryHasTypes Γ) es ts
  | [], _, c, Γ, hm, os => by
    rw [inferEntries, yields_pure]
    constructor
    · rintro rfl
      exact ⟨[], rfl, .nil⟩
    · rintro ⟨ts, rfl, h⟩
      cases h
      rfl
  | ⟨s, k, v⟩ :: rest, hf, c, Γ, hm, os => by
    rw [entriesFieldFree] at hf
    rw [inferEntries]
    simp only [yields_bind_of (infer_iff k hf.1 hm),
      yields_bind_of (infer_iff v hf.2.1 (hm.infer k)),
      yields_bind_of (inferEntries_iff rest hf.2.2 ((hm.infer k).infer v)), yields_pure]
    constructor
    · rintro ⟨a, ha, b, hb, ts, hts, rfl⟩
      exact ⟨(a, b) :: ts, rfl, .cons ⟨ha, hb⟩ hts⟩
    · rintro ⟨_, rfl, h⟩
      cases h with
      | cons hab hts => exact ⟨_, hab.1, _, hab.2, _, hts, rfl⟩

theorem inferElements_iff : (place : Nat) → (es : List Element) → elementsFieldFree es →
    ∀ {c : Checker} {Γ : Env}, Models c Γ → ∀ fields, Yields (inferElements place es) c fields ↔
      ∃ ts, fields = (fieldNames place es).zip (ts.map some) ∧
        HaveTypes Γ (es.map Element.value) ts
  | _, [], _, c, Γ, hm, fields => by
    rw [inferElements, yields_pure]
    constructor
    · rintro rfl
      exact ⟨[], rfl, .nil⟩
    · rintro ⟨ts, rfl, h⟩
      cases h
      rfl
  | place, ⟨s, x, v⟩ :: rest, hf, c, Γ, hm, fields => by
    rw [elementsFieldFree] at hf
    rw [inferElements]
    simp only [yields_bind_of (infer_iff v hf.1 hm),
      yields_bind_of (inferElements_iff (place + 1) rest hf.2 (hm.infer v)), yields_pure]
    constructor
    · rintro ⟨t, ht, ts, hts, rfl⟩
      exact ⟨t :: ts, rfl, .cons ht hts⟩
    · rintro ⟨_, rfl, h⟩
      cases h with
      | cons ht hts => exact ⟨_, ht, _, hts, rfl⟩

theorem inferBody_iff : (b : Body) → b.FieldFree → ∀ {c : Checker} {Γ : Env}, Models c Γ →
    0 < c.depth → ∀ o, Yields (inferBody b) c o ↔ ∃ t, o = some t ∧ BodyHasType Γ b t
  | .expr s e, hf, c, Γ, hm, _, o => by
    rw [Body.FieldFree] at hf
    rw [inferBody, infer_iff e hf hm]
    constructor
    · rintro ⟨t, rfl, ht⟩
      exact ⟨t, rfl, .expr ht⟩
    · rintro ⟨t, rfl, h⟩
      cases h with
      | expr ht => exact ⟨t, rfl, ht⟩
  | .block s stmts, hf, c, Γ, hm, hd, o => by
    rw [Body.FieldFree] at hf
    rw [inferBody, inferBlock_iff stmts hf hm hd, ends_undefined_iff]

theorem inferBlock_iff : (stmts : List Stmt) → stmtsFieldFree stmts →
    ∀ {c : Checker} {Γ : Env}, Models c Γ → 0 < c.depth →
      ∀ type o, Yields (inferBlock type stmts) c o ↔ Ends Γ type stmts o
  | [], _, c, Γ, hm, _, type, o => by
    rw [inferBlock, yields_pure]
    constructor
    · rintro rfl
      exact .nil
    · intro h
      cases h
      rfl
  | .returnNothing s :: rest, hf, c, Γ, hm, hd, type, o => by
    rw [stmtsFieldFree] at hf
    rw [inferBlock, inferBlock_iff rest hf.2 hm hd]
    constructor
    · exact .ret .nothing
    · intro h
      cases h with
      | ret hr he =>
        cases hr
        exact he
      | step hs _ _ => exact absurd trivial hs
  | .returnValue s e :: rest, hf, c, Γ, hm, hd, type, o => by
    rw [stmtsFieldFree, Stmt.FieldFree] at hf
    have hd' : 0 < (after (infer e) c).depth := (confined_infer hm.valid e).depth ▸ hd
    rw [inferBlock]
    simp only [yields_bind_of (infer_iff e hf.1 hm), inferBlock_iff rest hf.2 (hm.infer e) hd']
    constructor
    · rintro ⟨t, ht, he⟩
      exact .ret (.value ht) he
    · intro h
      cases h with
      | ret hr he =>
        cases hr with
        | value ht => exact ⟨_, ht, he⟩
      | step hs _ _ => exact absurd trivial hs
  | .declaration _ _ :: rest, hf, c, Γ, hm, hd, type, o
  | .assign _ _ _ :: rest, hf, c, Γ, hm, hd, type, o
  | .call _ _ _ :: rest, hf, c, Γ, hm, hd, type, o
  | .ifThen _ _ _ :: rest, hf, c, Γ, hm, hd, type, o
  | .ifElse _ _ _ _ :: rest, hf, c, Γ, hm, hd, type, o
  | .loop _ _ _ :: rest, hf, c, Γ, hm, hd, type, o
  | .breakLoop _ :: rest, hf, c, Γ, hm, hd, type, o
  | .print _ _ :: rest, hf, c, Γ, hm, hd, type, o => by
    rw [stmtsFieldFree] at hf
    simp only [inferBlock]
    refine yields_inferBlock_step id (checkStmt_realizes _ hf.1 hm hd) fun Γ' hm' => ?_
    refine inferBlock_iff rest hf.2 hm' ?_ type o
    rw [(local_checkStmt hm.valid _).depth]
    exact hd

/-- A statement is checked without a report exactly if it is well typed. -/
theorem checkStmt_realizes : (s : Stmt) → s.FieldFree → ∀ {c : Checker} {Γ : Env}, Models c Γ →
    0 < c.depth → Realizes (checkStmt s) c (StmtOk Γ s)
  | .declaration s d, hf, c, Γ, hm, _ => by
    rw [Stmt.FieldFree] at hf
    rw [checkStmt]
    refine (checkDeclaration_realizes d hf hm).congr fun Γ' => ⟨.declaration, fun h => ?_⟩
    cases h with
    | declaration h => exact h
    | ret hr => exact absurd (isReturn_of_hasType hr) id
  | .assign s t v, hf, c, Γ, hm, _ => by
    rw [Stmt.FieldFree] at hf
    rw [checkStmt]
    refine Realizes.congr (.bind_of (infer_iff t hf.1 hm) fun a _ =>
      .bind_of (infer_iff v hf.2 (hm.infer t)) fun b _ =>
        realizes_compareTypes ((hm.infer t).infer v) s .assignment b a) fun Γ' => ?_
    constructor
    · rintro ⟨a, ht, b, hv, rfl, rfl⟩
      exact .assign ht hv
    · intro h
      cases h with
      | assign ht hv => exact ⟨_, ht, _, hv, rfl, rfl⟩
      | ret hr => exact absurd (isReturn_of_hasType hr) id
  | .call s f es, hf, c, Γ, hm, _ => by
    rw [Stmt.FieldFree] at hf
    rw [checkStmt]
    have hm' := (hm.infer f).inferAll es
    refine Realizes.congr (.bind_of (infer_iff f hf.1 hm) fun a _ =>
      .bind_of (inferAll_iff es hf.2 (hm.infer f)) fun ts _ =>
        .bind_of (fun o => yields_call s _ o a ts) fun _ _ =>
          realizes_pure (hm'.settle s _)) fun Γ' => ?_
    constructor
    · rintro ⟨_, hf, ts, hes, t, rfl, rfl⟩
      exact .call hf hes
    · intro h
      cases h with
      | call hf hes => exact ⟨_, hf, _, hes, _, rfl, rfl⟩
      | ret hr => exact absurd (isReturn_of_hasType hr) id
  | .ifThen s e t, hf, c, Γ, hm, hd => by
    rw [Stmt.FieldFree] at hf
    rw [checkStmt]
    have hd' : 0 < (after (infer e) c).depth := (confined_infer hm.valid e).depth ▸ hd
    refine Realizes.congr (.bind_of (infer_iff e hf.1 hm) fun _ _ =>
      checkStmts_realizes t hf.2 (hm.infer e) hd') fun Γ' => ?_
    constructor
    · rintro ⟨_, he, ht⟩
      exact .ifThen he ht
    · intro h
      cases h with
      | ifThen he ht => exact ⟨_, he, ht⟩
      | ret hr => exact absurd (isReturn_of_hasType hr) id
  | .ifElse s e t f, hf, c, Γ, hm, hd => by
    rw [Stmt.FieldFree] at hf
    rw [checkStmt]
    have hm' := hm.infer e
    have hd' : 0 < (after (infer e) c).depth := (confined_infer hm.valid e).depth ▸ hd
    have hd'' : 0 < (after (checkStmts t) (after (infer e) c)).depth :=
      (local_checkStmts hm'.valid t).depth ▸ hd'
    refine Realizes.congr (.bind_of (infer_iff e hf.1 hm) fun _ _ =>
      (checkStmts_realizes t hf.2.1 hm' hd').seq fun Γ₁ _ hm₁ =>
        checkStmts_realizes f hf.2.2 hm₁ hd'') fun Γ' => ?_
    constructor
    · rintro ⟨_, he, Γ₁, ht, hf⟩
      exact .ifElse he ht hf
    · intro h
      cases h with
      | ifElse he ht hf => exact ⟨_, he, _, ht, hf⟩
      | ret hr => exact absurd (isReturn_of_hasType hr) id
  | .loop s h b, hf, c, Γ, hm, hd => by
    rw [Stmt.FieldFree] at hf
    have hin : Models (after enterLoop c) ([] :: Γ) :=
      hm.enter (ScopeStack.enters_pushLoop c.scopes)
    have hd' : 0 < (after (checkHeader h) (after enterLoop c)).depth :=
      (local_checkHeader hin.valid h).depth ▸ hd
    exact realizes_loop hm s h b (checkHeader_realizes h hf.1 hin) fun Γ' hm' =>
      checkStmts_realizes b hf.2 hm' hd'
  | .returnNothing s, _, c, Γ, hm, hd => by
    rw [checkStmt]
    have hr : (Stmt.returnNothing s).IsReturn := trivial
    refine (realizes_strayReturn hm hd s).congr fun Γ' => ?_
    rw [stmtOk_return_iff hr]
    exact ⟨fun h => ⟨⟨_, .nothing⟩, h⟩, And.right⟩
  | .returnValue s e, hf, c, Γ, hm, hd => by
    rw [Stmt.FieldFree] at hf
    rw [checkStmt]
    have hd' : 0 < (after (infer e) c).depth := (confined_infer hm.valid e).depth ▸ hd
    refine Realizes.congr (.bind_of (infer_iff e hf hm) fun _ _ =>
      realizes_strayReturn (hm.infer e) hd' s) fun Γ' => ?_
    have hr : (Stmt.returnValue s e).IsReturn := trivial
    rw [stmtOk_return_iff hr]
    constructor
    · rintro ⟨t, ht, rfl⟩
      exact ⟨⟨t, .value ht⟩, rfl⟩
    · rintro ⟨⟨t, hr⟩, rfl⟩
      cases hr with
      | value ht => exact ⟨t, ht, rfl⟩
  | .breakLoop s, _, c, Γ, hm, _ => by
    rw [checkStmt]
    refine (realizes_pure hm).congr fun Γ' => ⟨fun h => h ▸ .breakLoop, fun h => ?_⟩
    cases h with
    | breakLoop => rfl
    | ret hr => exact absurd (isReturn_of_hasType hr) id
  | .print s es, hf, c, Γ, hm, _ => by
    rw [Stmt.FieldFree] at hf
    rw [checkStmt]
    refine Realizes.congr (.bind_of (inferAll_iff es hf hm) fun _ _ =>
      realizes_pure (hm.inferAll es)) fun Γ' => ?_
    constructor
    · rintro ⟨ts, hts, rfl⟩
      exact .print hts
    · intro h
      cases h with
      | print hts => exact ⟨_, hts, rfl⟩
      | ret hr => exact absurd (isReturn_of_hasType hr) id

theorem checkStmts_realizes : (stmts : List Stmt) → stmtsFieldFree stmts →
    ∀ {c : Checker} {Γ : Env}, Models c Γ → 0 < c.depth →
      Realizes (checkStmts stmts) c (StmtsOk Γ stmts)
  | [], _, c, Γ, hm, _ => by
    rw [checkStmts]
    refine (realizes_pure hm).congr fun Γ' => ⟨fun h => h ▸ .nil, fun h => ?_⟩
    cases h
    rfl
  | s :: rest, hf, c, Γ, hm, hd => by
    rw [stmtsFieldFree] at hf
    rw [checkStmts]
    have hd' : 0 < (after (checkStmt s) c).depth := (local_checkStmt hm.valid s).depth ▸ hd
    refine Realizes.congr ((checkStmt_realizes s hf.1 hm hd).seq fun Γ₁ _ hm₁ =>
      checkStmts_realizes rest hf.2 hm₁ hd') fun Γ' => ?_
    constructor
    · rintro ⟨Γ₁, hs, hrest⟩
      exact .cons hs hrest
    · intro h
      cases h with
      | cons hs hrest => exact ⟨_, hs, hrest⟩

/-- The header of a loop that has just been entered. -/
theorem checkHeader_realizes : (h : Header) → h.FieldFree → ∀ {c : Checker} {Γ : Env},
    Models c ([] :: Γ) → Realizes (checkHeader h) c (HeaderOk ([] :: Γ) h)
  | .items s x e, hf, c, Γ, hm => by
    rw [Header.FieldFree] at hf
    rw [checkHeader]
    refine Realizes.congr (.bind_of (infer_iff e hf hm) fun t _ =>
      realizes_defineLoopVariable (hm.infer e) s x t) fun Γ' => ?_
    constructor
    · rintro ⟨t, ht, rfl⟩
      exact .items ht
    · intro h
      cases h with
      | items ht => exact ⟨_, ht, rfl⟩
  | .range s x a b, hf, c, Γ, hm => by
    rw [Header.FieldFree] at hf
    rw [checkHeader]
    refine Realizes.congr (.bind_of (infer_iff a hf.1 hm) fun t _ =>
      (realizes_defineLoopVariable (hm.infer a) s x t).seq fun Γ₁ _ hm₁ =>
        .bind_of (infer_iff b hf.2 hm₁) fun u _ =>
          realizes_compareTypes (hm₁.infer b) s .loopBounds t u) fun Γ' => ?_
    constructor
    · rintro ⟨t, ha, _, rfl, u, hb, rfl, rfl⟩
      exact .range ha hb
    · intro h
      cases h with
      | range ha hb => exact ⟨_, ha, _, rfl, _, hb, rfl, rfl⟩
  | .condition s e, hf, c, Γ, hm => by
    rw [Header.FieldFree] at hf
    rw [checkHeader]
    refine Realizes.congr (.bind_of (infer_iff e hf hm) fun _ _ =>
      realizes_pure (hm.infer e)) fun Γ' => ?_
    constructor
    · rintro ⟨t, ht, rfl⟩
      exact .condition ht
    · intro h
      cases h with
      | condition ht => exact ⟨_, ht, rfl⟩

theorem checkDeclaration_realizes : (d : Declaration) → d.FieldFree → ∀ {c : Checker} {Γ : Env},
    Models c Γ → Realizes (checkDeclaration d) c (DeclarationOk Γ d)
  | ⟨s, x, typeExpr, v⟩, hf, _, _, hm => by
    rw [Declaration.FieldFree] at hf
    exact realizes_declaration hm _ (infer_iff v hf)

end

theorem checkDeclarations_realizes (ds : List Declaration) (hf : ∀ d ∈ ds, d.FieldFree)
    {c : Checker} {Γ : Env} (hm : Models c Γ) :
    Realizes (checkDeclarations ds) c (DeclarationsOk Γ ds) := by
  induction ds generalizing c Γ with
  | nil =>
    refine (realizes_pure hm).congr fun Γ' => ⟨fun h => h ▸ .nil, fun h => ?_⟩
    cases h
    rfl
  | cons d rest ih =>
    rw [checkDeclarations]
    have hrest : ∀ d ∈ rest, d.FieldFree := fun d hd => hf d (List.mem_cons_of_mem _ hd)
    refine Realizes.congr ((checkDeclaration_realizes d (hf d List.mem_cons_self) hm).seq
      fun Γ₁ _ hm₁ => ih hrest hm₁) fun Γ' => ?_
    constructor
    · rintro ⟨Γ₁, hd, hrest⟩
      exact .cons hd hrest
    · intro h
      cases h with
      | cons hd hrest => exact ⟨_, hd, hrest⟩

/-! ## The checker and the type system -/

/-- The checker reports nothing about a program without field accesses exactly if the program is
well typed. -/
theorem check_errors_eq_nil_iff (p : Program) (hp : p.FieldFree) :
    (initial.check p).errors = [] ↔ p.WellTyped := by
  have h := checkDeclarations_realizes p.declarations hp models_initial
  exact ⟨h.sound, fun ⟨Γ, hok⟩ => (h.complete Γ hok).1⟩

/-- A program with a function that loops over a range and returns a sum, and a call of it. -/
def loopingSum : Program :=
  let loop : Stmt := .loop .origin
    (.range .origin (some "i") (.literal .origin (.integer 1)) (.var .origin "x"))
    [.declaration .origin ⟨.origin, "x", none, .array .origin [.var .origin "i"]⟩,
      .print .origin [.index .origin (.var .origin "x") (.var .origin "i")]]
  let result : Stmt := .returnValue .origin
    (.binary .origin .add (.var .origin "x") (.literal .origin (.integer 1)))
  ⟨.origin,
    [⟨.origin, "f", none, .function .origin
        [⟨.origin, "x", some (.primitive .origin .integer)⟩] (some (.primitive .origin .integer))
        (.block .origin [loop, result])⟩,
      ⟨.origin, "y", some (.primitive .origin .integer),
        .call .origin (.var .origin "f") [.literal .origin (.integer 2)]⟩]⟩

theorem check_errors_eq_nil_iff_loopingSum :
    loopingSum.FieldFree ∧ (initial.check loopingSum).errors = [] ∧ loopingSum.WellTyped := by
  have hf : loopingSum.FieldFree := by
    simp [Program.FieldFree, loopingSum, Declaration.FieldFree, Expr.FieldFree, Body.FieldFree,
      stmtsFieldFree, Stmt.FieldFree, Header.FieldFree, exprsFieldFree]
  have he : (initial.check loopingSum).errors = [] := by decide +kernel
  exact ⟨hf, he, (check_errors_eq_nil_iff loopingSum hf).mp he⟩

end Checker

end ExprCheck
