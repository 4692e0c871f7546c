import Mathlib
import ExprCheck.Proofs.Commuting
import ExprCheck.Proofs.TupleFields

/-!
# Tuples of the main scope

A tuple literal that is the value of a top-level declaration is recorded under the declared name,
after all tuples inside of it. From then on the name is taken in the main scope. Another declaration
of it there is refused before its value is looked at, and a declaration of it in a function or loop
belongs to another scope. So no tuple is recorded under that name in the main scope any more, and in
the main scope its fields have the types of the elements of the literal for the rest of the run.

The invariant is `Settled`. It holds after the declaration, each part of the walk keeps it, and so
does taking up the parts of a part.
-/

namespace ExprCheck

/-- The parts that the walk can take up in the main scope. All others belong to a function literal
or a loop. -/
def Part.isOutermost : Part → Bool
  | expr _ | declaration _ => true
  | stmt _ | clause _ _ _ | header _ => false

/-- The points of a walk through some declarations that starts in a given state. -/
inductive Visits (c : Checker) (ds : List Declaration) : Point → Prop where
  | start {q : Point} : q ∈ pointsOf [] c (ds.map .declaration) → Visits c ds q
  | inner {q r : Point} : Visits c ds q → r ∈ q.inner → Visits c ds r

/-- The states of such a walk: the first one, and those before and after each part. -/
def Passes (c : Checker) (ds : List Declaration) (state : Checker) : Prop :=
  state = c ∨ ∃ q, Visits c ds q ∧ (state = q.state ∨ state = Checker.after q.part.run q.state)

theorem mem_pointsOf_append {before later : List Declaration} {c : Checker} {q : Point}
    (h : q ∈ pointsOf [] (Checker.after (Checker.checkDeclarations before) c)
      (later.map .declaration)) :
    q ∈ pointsOf [] c ((before ++ later).map .declaration) := by
  induction before generalizing c with
  | nil => exact h
  | cons d rest ih =>
    rw [Checker.checkDeclarations, Checker.after_bind] at h
    exact List.mem_cons_of_mem _ (ih h)

/-- The points of the walk through the last declarations of a program are points of the program. -/
theorem Program.reaches_of_visits {p : Program} {before later : List Declaration}
    (hp : p.declarations = before ++ later) {q : Point}
    (h : Visits (Checker.after (Checker.checkDeclarations before) .initial) later q) :
    p.Reaches q := by
  induction h with
  | start hq =>
    refine .start ?_
    rw [hp]
    exact mem_pointsOf_append hq
  | inner _ hr ih => exact .inner ih hr

/-- What holds of the steps of a walk holds of the parts it takes up. -/
theorem Part.run_along {E S : Checker → Checker → Prop} (h : Checker.Regimen E S) (part : Part) :
    Checker.Along S part.run := by
  cases part with
  | expr e => exact h.lift (h.bind (Checker.infer_along h e) fun _ => h.pure _)
  | stmt s => exact Checker.checkStmt_along h s
  | clause span x e =>
    exact h.stmtBind (h.lift (Checker.infer_along h e)) fun type =>
      h.defineLoopVariable span x type
  | header hd => exact Checker.checkHeader_along h hd
  | declaration d => exact Checker.checkDeclaration_along h d

/-- A scope that is entered is not the main one. -/
theorem ScopeStack.Enters.current_ne_main {scope : Scope} {s t : ScopeStack}
    (h : ScopeStack.Enters scope s t) : t.current ≠ .main := by
  intro hmain
  have hscope : scope = .main := by
    rw [← hmain, ScopeStack.current, h.active]
    rfl
  exact h.new (hscope ▸ trivial)

namespace Checker

/-- In the main scope, the name has the given tuple type and is recorded with the given fields, and
no tuple will be recorded there on its behalf. -/
structure Settled (x : String) (ts : List Ty) (fields : List TupleField) (c : Checker) : Prop
    extends Valid c where
  entry : c.entry ⟨.main, x⟩ = (some ⟨.declared, .tuple ts, false⟩, some fields)
  owner : c.scopes.current = .main → c.owner ≠ some x

theorem allocated_main (c : Checker) : c.scopes.Allocated .main := trivial

namespace Settled

variable {x : String} {ts : List Ty} {fields : List TupleField} {c : Checker}

theorem symbol (h : Settled x ts fields c) :
    c.symbols.get? ⟨.main, x⟩ = some ⟨.declared, .tuple ts, false⟩ :=
  congrArg Prod.fst h.entry

theorem recorded (h : Settled x ts fields c) : c.tuples.fields? ⟨.main, x⟩ = some fields :=
  congrArg Prod.snd h.entry

/-! ## Taking up a part -/

theorem entry_run (h : Settled x ts fields c) {part : Part}
    (hpart : c.scopes.current = .main → part.isOutermost = true) :
    (after part.run c).entry ⟨.main, x⟩ = c.entry ⟨.main, x⟩ := by
  by_cases hmain : c.scopes.current = .main
  · have hslot : ∀ y, (⟨.main, x⟩ : Slot) = c.slot y → y = x := fun y hy =>
      (congrArg Slot.name hy).symm
    cases part with
    | expr e =>
      refine entry_infer h.toValid e (allocated_main c) fun o ho hs => ?_
      exact h.owner hmain (ho.trans (congrArg some (hslot o hs)))
    | declaration d =>
      cases hbound : c.symbols.contains (c.slot d.name) with
      | true =>
        show (after (checkDeclaration d) c).entry _ = _
        rw [after_checkDeclaration_bound d c hbound]
        rfl
      | false =>
        refine entry_checkDeclaration h.toValid d (allocated_main c) fun hs => ?_
        rw [← hs, SymbolTable.contains, h.symbol] at hbound
        cases hbound
    | stmt s => exact absurd (hpart hmain) (by simp [Part.isOutermost])
    | clause span y e => exact absurd (hpart hmain) (by simp [Part.isOutermost])
    | header hd => exact absurd (hpart hmain) (by simp [Part.isOutermost])
  · -- in another scope nothing is recorded in the main one
    obtain ⟨hlocal, hrecords⟩ := Part.run_along regimen_recordsHere part c h.toValid
    have hsymbol := hlocal.symbols _ _ h.symbol
    have hfields := hrecords ⟨.main, x⟩ (allocated_main c) (Ne.symm hmain)
    rw [Checker.entry, hsymbol, hfields, ← h.symbol]
    rfl

theorem run (h : Settled x ts fields c) {part : Part}
    (hpart : c.scopes.current = .main → part.isOutermost = true) :
    Settled x ts fields (after part.run c) := by
  have hlocal : Local c (after part.run c) := Part.run_along regimen_discipline part c h.toValid
  refine ⟨hlocal.valid h.toValid, (h.entry_run hpart).trans h.entry, ?_⟩
  rw [hlocal.toKept.current, hlocal.owner]
  exact h.owner

/-! ## Taking up the parts of a part -/

/-- Inside a scope that has just been entered, it does not matter whose value is looked at. -/
theorem enterScope (h : Settled x ts fields c) {scope : Scope} {t : ScopeStack}
    (ht : ScopeStack.Enters scope c.scopes t) : Settled x ts fields { c with scopes := t } where
  toValid := h.toValid.enter ht
  entry := h.entry
  owner := fun hmain => absurd hmain ht.current_ne_main

theorem defineParams (h : Settled x ts fields c) (params : List Param) :
    Settled x ts fields (after (defineParams params) c) := by
  have hlocal := local_defineParams params c
  refine ⟨hlocal.valid h.toValid, ?_, ?_⟩
  · rw [Checker.entry, hlocal.symbols _ _ h.symbol, tuples_defineParams, h.recorded]
  · rw [hlocal.toKept.current, hlocal.owner]
    exact h.owner

theorem enter (h : Settled x ts fields c) {part : Part} (hskip : part.isSkipped c = false) :
    Settled x ts fields (part.enter c) := by
  unfold Part.enter
  split
  · next params _ _ =>
    have hparams := (h.enterScope (ScopeStack.enters_pushFunction c.scopes)).defineParams params
    exact ⟨hparams.toValid.congr rfl rfl, hparams.entry, hparams.owner⟩
  · exact h.enterScope (ScopeStack.enters_pushLoop c.scopes)
  · next d =>
    refine ⟨h.toValid.congr rfl rfl, h.entry, ?_⟩
    intro hmain howner
    obtain rfl : d.name = x := Option.some.inj howner
    have hbound : c.symbols.contains (c.slot d.name) = true := by
      have hslot : c.slot d.name = ⟨.main, d.name⟩ := by
        rw [slot, show c.scopes.current = .main from hmain]
      rw [hslot, SymbolTable.contains, h.symbol]
      rfl
    exact absurd hbound (by simpa [Part.isSkipped] using hskip)
  · exact h

end Settled

/-- Where the walk stays in the main scope, it takes up no statements. -/
theorem isOutermost_of_mem_parts {c : Checker} {part inner : Part}
    (hpart : c.scopes.current = .main → part.isOutermost = true) (hinner : inner ∈ part.parts)
    (hmain : (part.enter c).scopes.current = .main) : inner.isOutermost = true := by
  cases part with
  | expr e =>
    cases e with
    | function span params result body =>
      have hcurrent := (local_defineParams params (after enterFunction c)).toKept.current
      exact absurd (hcurrent.symm.trans hmain)
        (ScopeStack.enters_pushFunction c.scopes).current_ne_main
    | _ =>
      obtain ⟨e', -, rfl⟩ := List.mem_map.mp hinner
      rfl
  | stmt s =>
    cases s with
    | loop span hd b => exact absurd hmain (ScopeStack.enters_pushLoop c.scopes).current_ne_main
    | _ => exact absurd (hpart hmain) (by simp [Part.isOutermost])
  | clause span y e => exact absurd (hpart hmain) (by simp [Part.isOutermost])
  | header hd => exact absurd (hpart hmain) (by simp [Part.isOutermost])
  | declaration d =>
    obtain rfl := List.mem_singleton.mp hinner
    rfl

/-! ## Whole runs -/

/-- All points of a walk that starts in a settled state are settled. -/
theorem Settled.visits {x : String} {ts : List Ty} {fields : List TupleField} {c : Checker}
    (h : Settled x ts fields c) {ds : List Declaration} {q : Point} (hq : Visits c ds q) :
    Settled x ts fields q.state ∧
      (q.state.scopes.current = .main → q.part.isOutermost = true) := by
  induction hq with
  | start hmem =>
    have houtermost : ∀ part ∈ ds.map Part.declaration, part.isOutermost = true := by
      intro part hpart
      obtain ⟨d, -, rfl⟩ := List.mem_map.mp hpart
      rfl
    refine ⟨pointsOf_keeps (fun part hpart d hd => ?_) h hmem, fun _ => ?_⟩
    · exact hd.run fun _ => houtermost part hpart
    · exact houtermost _ (part_mem_of_mem_pointsOf hmem).1
  | @inner q r _ hr ih =>
    obtain ⟨hsettled, hpart⟩ := ih
    obtain ⟨hskip, hr⟩ := mem_inner_iff.mp hr
    -- the parts of a part are taken up in one scope
    have hkeeps := pointsOf_keeps (I := fun d => Settled x ts fields d ∧
      d.scopes.current = (q.part.enter q.state).scopes.current)
      (fun part hmem d hd => ?_) ⟨hsettled.enter hskip, rfl⟩ hr
    · refine ⟨hkeeps.1, fun hmain => ?_⟩
      exact isOutermost_of_mem_parts hpart (part_mem_of_mem_pointsOf hr).1
        (hkeeps.2.symm.trans hmain)
    · have hlocal := Part.run_along regimen_discipline part d hd.1.toValid
      refine ⟨hd.1.run fun hmain => ?_, hlocal.toKept.current.trans hd.2⟩
      exact isOutermost_of_mem_parts hpart hmem (hd.2.symm.trans hmain)

theorem Settled.passes {x : String} {ts : List Ty} {fields : List TupleField} {c : Checker}
    (h : Settled x ts fields c) {ds : List Declaration} {state : Checker}
    (hstate : Passes c ds state) : Settled x ts fields state := by
  rcases hstate with rfl | ⟨q, hq, rfl | rfl⟩
  · exact h
  · exact (h.visits hq).1
  · exact (h.visits hq).1.run (h.visits hq).2

/-! ## The declaration of a tuple -/

/-- Declarations of other names leave a name of the main scope free. -/
theorem contains_of_forall_ne {ds : List Declaration} {x : String} {c : Checker} (hc : Resting c)
    (hfree : c.symbols.contains ⟨.main, x⟩ = false) (hds : ∀ d ∈ ds, d.name ≠ x) :
    (after (checkDeclarations ds) c).symbols.contains ⟨.main, x⟩ = false := by
  induction ds generalizing c with
  | nil => exact hfree
  | cons d rest ih =>
    rw [checkDeclarations, after_bind]
    refine ih (.declaration d hc) ?_ fun d' hmem => hds d' (List.mem_cons_of_mem _ hmem)
    have hne : (⟨.main, x⟩ : Slot) ≠ c.slot d.name := fun hs =>
      hds d List.mem_cons_self (congrArg Slot.name hs).symm
    have hentry := entry_checkDeclaration hc.placed.toValid d (allocated_main c) hne
    rw [SymbolTable.contains, show SymbolTable.get? _ _ = _ from congrArg Prod.fst hentry]
    exact hfree

/-- The literal is recorded last of all tuples in it, and its name is bound to its type. -/
theorem settled_checkDeclaration {c : Checker} (hc : Resting c) {d : Declaration} {span : Span}
    {es : List Element} (hvalue : d.value = .tuple span es)
    (hfree : c.symbols.contains ⟨.main, d.name⟩ = false) {ts : List Ty}
    (htype : answer (infer d.value) { c with owner := some d.name } = some (.tuple ts)) :
    Settled d.name ts ((fieldNames 0 es).zip ts) (after (checkDeclaration d) c) := by
  have hslot := hc.slot d.name
  rw [← hslot] at hfree
  have howned : Valid { c with owner := some d.name } := hc.placed.toValid.congr rfl rfl
  have hi := confined_inferDeclared hc.placed.toValid d
  have htuples : (after (inferDeclared d) c).tuples.fields? ⟨.main, d.name⟩ =
      some ((fieldNames 0 es).zip ts) := by
    rw [hvalue] at htype
    obtain ⟨ts', hts, hfields⟩ := fields?_infer_tuple howned rfl htype
    cases hts
    rw [inferDeclared, after_get]
    simp only [after_bind, after_setOwner, after_pure, tuples_compareTypes, hvalue]
    rw [← hslot]
    exact hfields
  obtain ⟨t, ht, hget⟩ := after_define_free _ d.span ⟨.declared, .of (answer (inferDeclared d) c)⟩
    (free_after_inferDeclared hc.placed.toValid d hfree)
  have hlocal := local_checkDeclaration hc.placed.toValid d
  refine ⟨hlocal.valid hc.placed.toValid, ?_, fun _ => ?_⟩
  · rw [after_checkDeclaration_unbound d c hfree, ht, Checker.entry, htuples]
    show (t.get? ⟨.main, d.name⟩, _) = _
    rw [hget, hi.toKept.slot, hslot, if_pos rfl]
    exact congrArg (fun type => (some (Symbol.mk .declared (.of type)), _)) htype
  · rw [hlocal.owner, hc.owner]
    simp

/-! ## Access to the fields -/

theorem Settled.infer_field {x : String} {ts : List Ty} {fields : List TupleField} {c : Checker}
    (h : Settled x ts fields c) (hmain : c.scopes.current = .main) (span span' : Span) (f : String) :
    answer (infer (.field span (.var span' x) f)) c = fields.lookup f ∧
      after (infer (.field span (.var span' x) f)) c = c := by
  have hslot : c.slot x = ⟨.main, x⟩ := by rw [slot, hmain]
  have hx := lookup_of_current h.toValid (hslot ▸ h.symbol)
  obtain ⟨hanswer, hafter⟩ := infer_field_of_tuple hx rfl span span' f
  refine ⟨?_, hafter⟩
  rw [hanswer, hslot, TupleTable.field?, h.recorded]
  rfl

/-- Let a program declare a name at the top level for the first time, with a tuple literal as its
value. If the literal has a type, then at all later moments of the walk through the program at which
the main scope is the innermost one, a field of the name has the type of the first element of the
literal that has the name of the field, or no type if there is none, and asking for it changes
nothing, in particular reports nothing. An element without a name has the number of its place as its
name. -/
theorem field_of_declaredTuple (before later : List Declaration) (d : Declaration) (span : Span)
    (es : List Element) (ts : List Ty) (hvalue : d.value = .tuple span es)
    (hnew : ∀ d' ∈ before, d'.name ≠ d.name) (c : Checker)
    (hc : c = after (checkDeclarations before) initial)
    (htype : answer (infer d.value) { c with owner := some d.name } = some (.tuple ts))
    (state : Checker) (hstate : Passes (after (checkDeclaration d) c) later state)
    (hmain : state.scopes.current = .main) (span₁ span₂ : Span) :
    (∀ f, answer (infer (.field span₁ (.var span₂ d.name) f)) state =
        ((fieldNames 0 es).zip ts).lookup f ∧
      after (infer (.field span₁ (.var span₂ d.name) f)) state = state) ∧
    (∀ n, answer (infer (.ordinal span₁ (.var span₂ d.name) n)) state =
        ((fieldNames 0 es).zip ts).lookup (toString n) ∧
      after (infer (.ordinal span₁ (.var span₂ d.name) n)) state = state) := by
  subst hc
  have hbefore := resting_checkDeclarations .initial before
  have hfree := contains_of_forall_ne .initial rfl hnew
  have hsettled := (settled_checkDeclaration hbefore hvalue hfree htype).passes hstate
  refine ⟨hsettled.infer_field hmain span₁ span₂, fun n => ?_⟩
  -- an access by number is an access by the number's text
  have hfield := hsettled.infer_field hmain span₁ span₂ (toString n)
  simp only [infer] at hfield ⊢
  exact hfield

/-- The declaration `t is (a is (true, 1), 2, s)`. -/
def nestedTuple : Declaration :=
  ⟨.origin, "t", none, .tuple .origin
    [⟨.origin, some "a", .tuple .origin [⟨.origin, none, .literal .origin (.boolean true)⟩,
      ⟨.origin, none, .literal .origin (.integer 1)⟩]⟩,
      ⟨.origin, none, .literal .origin (.integer 2)⟩, ⟨.origin, none, .var .origin "s"⟩]⟩

/-- What follows it: `t is true; f is func() do t is (true, false) end; u is ("w", t.2)`. -/
def afterNestedTuple : List Declaration :=
  [⟨.origin, "t", none, .literal .origin (.boolean true)⟩,
    ⟨.origin, "f", none, .function .origin [] none (.block .origin [.declaration .origin
      ⟨.origin, "t", none, .tuple .origin [⟨.origin, none, .literal .origin (.boolean true)⟩,
        ⟨.origin, none, .literal .origin (.boolean false)⟩]⟩])⟩,
    ⟨.origin, "u", none, .tuple .origin [⟨.origin, none, .literal .origin (.string "w")⟩,
      ⟨.origin, none, .ordinal .origin (.var .origin "t") 2⟩]⟩]

/-- What comes before it: `s is "v"`. -/
def beforeNestedTuple : List Declaration :=
  [⟨.origin, "s", none, .literal .origin (.string "v")⟩]

/-- Inside the value of `u`, the fields of `t` are those of the first declaration of `t`. -/
theorem field_of_declaredTuple_nestedTuple :
    ∃ q, Program.Reaches ⟨.origin, (beforeNestedTuple ++ [nestedTuple]) ++ afterNestedTuple⟩ q ∧
      q.enclosing = ["u"] ∧ q.state.scopes.current = .main ∧
      answer (infer (.field .origin (.var .origin "t") "a")) q.state =
        some (.tuple [.boolean, .integer]) ∧
      answer (infer (.ordinal .origin (.var .origin "t") 1)) q.state = none ∧
      answer (infer (.ordinal .origin (.var .origin "t") 2)) q.state = some .integer ∧
      answer (infer (.ordinal .origin (.var .origin "t") 3)) q.state = some .string := by
  have hlast : (lastPoint? 2 (pointsOf []
      (after (checkDeclarations (beforeNestedTuple ++ [nestedTuple])) initial)
      (afterNestedTuple.map .declaration))).map
      (fun q => (q.enclosing, q.state.scopes.current)) = some (["u"], .main) := by
    decide +kernel
  obtain ⟨q, hq, hview⟩ := Option.map_eq_some_iff.mp hlast
  obtain ⟨henclosing, hmain⟩ := Prod.mk.inj hview
  have hvisits : Visits (after (checkDeclarations (beforeNestedTuple ++ [nestedTuple])) initial)
      afterNestedTuple q := of_lastPoint? (fun _ _ => .inner) (fun _ => .start) hq
  have hnew : ∀ d ∈ beforeNestedTuple, d.name ≠ nestedTuple.name := by
    intro d hd
    obtain rfl := List.mem_singleton.mp hd
    decide
  have htype : answer (infer nestedTuple.value)
      { after (checkDeclarations beforeNestedTuple) initial with owner := some nestedTuple.name } =
      some (.tuple [.tuple [.boolean, .integer], .integer, .string]) := by
    decide +kernel
  obtain ⟨hfield, hordinal⟩ := field_of_declaredTuple beforeNestedTuple afterNestedTuple nestedTuple
    _ _ _ rfl hnew _ rfl htype q.state (Or.inr ⟨q, hvisits, Or.inl rfl⟩) hmain .origin .origin
  exact ⟨q, Program.reaches_of_visits rfl hvisits, henclosing, hmain, (hfield "a").1,
    (hordinal 1).1, (hordinal 2).1, (hordinal 3).1⟩

/-- The names of the fields of a tuple literal if elements without a name were numbered among
themselves. -/
def countedNames (count : Nat) : List Element → List String
  | [] => []
  | e :: rest =>
    match e.name with
    | some x => x :: countedNames count rest
    | none => toString (count + 1) :: countedNames (count + 1) rest

/-- The elements of `(a is 1, true)`. -/
def mixedElements : List Element :=
  [⟨.origin, some "a", .literal .origin (.integer 1)⟩,
    ⟨.origin, none, .literal .origin (.boolean true)⟩]

/-- Elements without a name are not numbered among themselves: after `t is (a is 1, true)` there is
no `t.1`. -/
theorem ordinal_countedNames_mismatch :
    answer (infer (.tuple .origin mixedElements)) { initial with owner := some "t" } =
      some (.tuple [.integer, .boolean]) ∧
    ((countedNames 0 mixedElements).zip [Ty.integer, .boolean]).lookup (toString 1) =
      some .boolean ∧
    answer (infer (.ordinal .origin (.var .origin "t") 1))
      (after (checkDeclaration ⟨.origin, "t", none, .tuple .origin mixedElements⟩) initial) =
        none := by
  decide +kernel

end Checker

end ExprCheck
