import Mathlib
import ExprCheck.Grammar.Program
import ExprCheck.Proofs.Points
import ExprCheck.Proofs.TupleRecords

/-!
# Fields of tuples

The type of `x.name` comes from the tuple table and the type of `x` from the symbol table. The two
agree as long as the tuple that is recorded under `x` is the value of `x`. A tuple literal that is
only an argument in the value of `x` is recorded just as well, so that a condition on the
declarations of `x` is needed. Inside the value of `x` there is no telling what `x` is recorded
with: a parameter may have the name `x` too.

The invariant is `Faithful x`: in every open scope, a tuple recorded under `x` belongs to a symbol
of `x`, and describes its type if that is a tuple type. While a value of `x` is inferred it does not
hold; the proof for a declaration of `x` steps over that phase as a whole.
-/

namespace ExprCheck

/-- Either no tuple literal stands in the declared value, outside function literals, or the last one
is the value. -/
def Declaration.KeepsFields (d : Declaration) : Prop := d.value.HoldsTuple → d.value.YieldsTuple

/-- All declarations of a name in a part keep its fields. -/
def Part.KeepsFields (x : String) (part : Part) : Prop :=
  ∀ d, (Part.declaration d).Within part → d.name = x → d.KeepsFields

theorem Part.KeepsFields.of_mem {x : String} {part inner : Part} (h : part.KeepsFields x)
    (hmem : inner ∈ part.parts) : inner.KeepsFields x :=
  fun d hd => h d (.step hmem hd)

namespace Checker

/-- In open scopes, what the tuple table holds for a name fits what the symbol table holds. -/
structure Faithful (x : String) (c : Checker) : Prop extends Placed c where
  owner : c.owner ≠ some x
  fits : ∀ scope ∈ c.scopes.active, ∀ fields, c.tuples.fields? ⟨scope, x⟩ = some fields →
    ∃ symbol, c.symbols.get? ⟨scope, x⟩ = some symbol ∧
      ∀ ts, symbol.type? = some (.tuple ts) → Describes fields ts

theorem faithful_initial (x : String) : Faithful x initial where
  toPlaced := placed_initial
  owner := by simp [initial]
  fits := fun _ _ _ h => absurd h (by simp [initial, TupleTable.fields?, TupleTable.empty])

namespace Faithful

variable {x : String} {c : Checker}

/-! ## Steps that keep the invariant whatever they are about -/

theorem congr (h : Faithful x c) {d : Checker} (hs : d.scopes = c.scopes)
    (ht : d.symbols = c.symbols) (hu : d.tuples = c.tuples) (ho : d.owner ≠ some x) :
    Faithful x d where
  toPlaced := h.toPlaced.congr hs ht hu
  owner := ho
  fits := by
    rw [hs, ht, hu]
    exact h.fits

theorem report (h : Faithful x c) (span : Span) (fault : TypeFault) :
    Faithful x (after (report span fault) c) :=
  h.congr rfl rfl rfl h.owner

theorem settle (h : Faithful x c) (span : Span) (v : Verdict) :
    Faithful x (after (settle span v) c) := by
  cases v with
  | type t => exact h
  | silent => exact h
  | fault f => exact h.report span f

theorem compareTypes (h : Faithful x c) (span : Span) (fault : Ty → Ty → TypeFault)
    (a b : Option Ty) : Faithful x (after (compareTypes span fault a b) c) := by
  unfold Checker.compareTypes
  split
  · split
    · exact h
    · exact h.report span _
  · exact h

theorem strayReturn (h : Faithful x c) (span : Span) :
    Faithful x (after (do if (← get).depth = 0 then Checker.report span .strayReturn) c) := by
  rw [after_get]
  split
  · exact h.report span _
  · exact h

/-- A confined step that leaves the tuples of the name alone keeps the invariant. -/
theorem of_confined (h : Faithful x c) {d : Checker} (hd : Confined c d) (hp : d.Placed)
    (hfields : ∀ scope, c.scopes.Allocated scope →
      d.tuples.fields? ⟨scope, x⟩ = c.tuples.fields? ⟨scope, x⟩) : Faithful x d where
  toPlaced := hp
  owner := by
    rw [hd.owner]
    exact h.owner
  fits := by
    intro scope hactive fields hf
    rw [hd.active] at hactive
    have hscope := h.active scope hactive
    rw [hfields scope hscope] at hf
    rw [hd.get?_eq hscope]
    exact h.fits scope hactive fields hf

theorem infer (h : Faithful x c) (e : Expr) : Faithful x (after (infer e) c) := by
  refine h.of_confined (confined_infer h.toValid e) (infer_along regimen_placed e c h.toPlaced) ?_
  intro scope hscope
  refine fields?_infer e h.toValid hscope ?_
  rintro ⟨-, o, ho, hslot⟩
  have hx : x = o := congrArg Slot.name hslot
  exact h.owner (hx ▸ ho)

theorem inferAll (h : Faithful x c) (es : List Expr) : Faithful x (after (inferAll es) c) := by
  induction es generalizing c with
  | nil => exact h
  | cons e rest ih =>
    simp only [Checker.inferAll, after_bind, after_pure]
    exact ih (h.infer e)

theorem loop (h : Faithful x c) (span : Span) (hd : Header) (b : List Stmt) :
    Faithful x (after (checkStmt (.loop span hd b)) c) :=
  h.of_confined (confined_loop h.toValid span hd b)
    (checkStmt_along regimen_placed (.loop span hd b) c h.toPlaced)
    fun _ hscope => fields?_loop h.toValid span hd b hscope

/-- A scope that is entered holds no tuples yet. -/
theorem enter (h : Faithful x c) {scope : Scope} {t : ScopeStack}
    (ht : ScopeStack.Enters scope c.scopes t) : Faithful x { c with scopes := t } where
  toPlaced := h.toPlaced.enter ht
  owner := h.owner
  fits := by
    intro other hother fields hf
    rw [ht.active] at hother
    rcases List.mem_cons.mp hother with rfl | hother
    · have hallocated := h.tuples ⟨other, x⟩ (by simp [hf])
      exact absurd hallocated ht.new
    · exact h.fits other hother fields hf

/-- A name that is bound had no tuple in the innermost scope, since it was free there. -/
theorem define (h : Faithful x c) (span : Span) (y : String) (symbol : Symbol) :
    Faithful x (after (define span y symbol) c) := by
  refine ⟨h.toPlaced.define span y symbol, ?_, ?_⟩
  · rw [(local_define c span y symbol).owner]
    exact h.owner
  · intro scope hactive fields hf
    rw [(local_define c span y symbol).active] at hactive
    rw [tuples_define] at hf
    obtain ⟨old, hold, hdescribes⟩ := h.fits scope hactive fields hf
    exact ⟨old, (local_define c span y symbol).symbols _ _ hold, hdescribes⟩

theorem defineParams (h : Faithful x c) (params : List Param) :
    Faithful x (after (defineParams params) c) :=
  defineParams_along (R := fun c d => Faithful x c → Faithful x d) (fun _ => id)
    (fun _ _ _ h₁ h₂ => h₂ ∘ h₁) (fun _ span y symbol h => h.define span y symbol) params c h

theorem defineLoopVariable (h : Faithful x c) (span : Span) (y : Option String) (type : Option Ty) :
    Faithful x (after (defineLoopVariable span y type) c) := by
  cases y with
  | none => exact h
  | some y => exact h.define span y _

/-! ## Declarations -/

/-- The value of another name is inferred like any expression. -/
theorem inferDeclared (h : Faithful x c) {d : Declaration} (hd : d.name ≠ x) :
    Faithful x (after (inferDeclared d) c) := by
  have howner : Faithful x { c with owner := some d.name } :=
    h.congr rfl rfl rfl fun heq => hd (Option.some.inj heq)
  have hvalue := (howner.infer d.value).congr (d := { after (Checker.infer d.value)
    { c with owner := some d.name } with owner := c.owner }) rfl rfl rfl h.owner
  rw [Checker.inferDeclared, after_get]
  exact hvalue.compareTypes _ _ _ _

/-- After the value of the name has been inferred, the tuples of outer scopes are as they were, and
what is recorded in the innermost scope describes the type of the value. -/
theorem fields?_inferDeclared (h : Faithful x c) {d : Declaration} (hname : d.name = x)
    (hkeeps : d.KeepsFields) (hfree : c.symbols.contains (c.slot x) = false) :
    (∀ scope, c.scopes.Allocated scope → scope ≠ c.scopes.current →
      (after (Checker.inferDeclared d) c).tuples.fields? ⟨scope, x⟩ =
        c.tuples.fields? ⟨scope, x⟩) ∧
    ∀ fields, (after (Checker.inferDeclared d) c).tuples.fields? (c.slot x) = some fields →
      ∀ ts, answer (Checker.inferDeclared d) c = some (.tuple ts) → Describes fields ts := by
  have hv : Valid { c with owner := some d.name } := h.toValid.congr rfl rfl
  have htuples : (after (Checker.inferDeclared d) c).tuples =
      (after (Checker.infer d.value) { c with owner := some d.name }).tuples := by
    rw [Checker.inferDeclared, after_get]
    exact tuples_compareTypes _ _ _ _ _
  have hnone : c.tuples.fields? (c.slot x) = none := by
    by_contra hsome
    obtain ⟨fields, hf⟩ := Option.ne_none_iff_exists'.mp hsome
    obtain ⟨symbol, hsymbol, -⟩ := h.fits _ h.current_mem fields hf
    cases (SymbolTable.contains_eq_false.mp hfree).symm.trans hsymbol
  rw [htuples]
  constructor
  · intro scope hscope hne
    refine fields?_infer d.value hv hscope ?_
    rintro ⟨-, o, -, hslot⟩
    exact hne (congrArg Slot.scope hslot)
  · intro fields hf ts hts
    by_cases hholds : d.value.HoldsTuple
    · have hk := (confined_infer hv d.value).toKept
      obtain ⟨ts', fields', hts', hf', hdescribes⟩ :=
        recordsType_infer (hkeeps hholds) hv (congrArg some hname) hts
      rw [hk.slot] at hf'
      cases hts'
      cases hf.symm.trans hf'
      exact hdescribes
    · have hsame : (after (Checker.infer d.value) { c with owner := some d.name }).tuples.fields?
          (c.slot x) = c.tuples.fields? (c.slot x) :=
        fields?_infer d.value hv h.current_allocated fun hmay => hholds hmay.1
      rw [hsame] at hf
      exact absurd (hf.symm.trans hnone) (by simp)

/-- A declaration of the name itself binds it to the type that its tuple is recorded with. -/
theorem declared (h : Faithful x c) {d : Declaration} (hname : d.name = x) (hkeeps : d.KeepsFields)
    (hfree : c.symbols.contains (c.slot x) = false) :
    Faithful x (after
      (Checker.define d.span d.name ⟨.declared, .of (answer (Checker.inferDeclared d) c)⟩)
      (after (Checker.inferDeclared d) c)) := by
  subst hname
  have hi := confined_inferDeclared h.toValid d
  have hp : (after (Checker.inferDeclared d) c).Placed :=
    regimen_placed.inferDeclared d (infer_along regimen_placed d.value) c h.toPlaced
  obtain ⟨houter, hinner⟩ := h.fields?_inferDeclared rfl hkeeps hfree
  obtain ⟨t, ht, hget⟩ := after_define_free _ d.span
    ⟨.declared, .of (answer (Checker.inferDeclared d) c)⟩
    (free_after_inferDeclared h.toValid d hfree)
  refine ⟨hp.define _ _ _, ?_, ?_⟩
  · rw [ht]
    exact fun heq => h.owner (hi.owner ▸ heq)
  · rw [ht]
    intro scope hactive fields hf
    have hactive' : scope ∈ c.scopes.active := hi.active ▸ hactive
    by_cases hscope : scope = c.scopes.current
    · subst hscope
      refine ⟨⟨.declared, .of (answer (Checker.inferDeclared d) c)⟩, ?_, fun ts hts => ?_⟩
      · exact (hget _).trans (if_pos (hi.toKept.slot d.name).symm)
      · rw [Symbol.type?_mk] at hts
        exact hinner fields hf ts hts
    · have hf' : c.tuples.fields? ⟨scope, d.name⟩ = some fields :=
        (houter scope (h.active scope hactive') hscope).symm.trans hf
      obtain ⟨symbol, hsymbol, hdescribes⟩ := h.fits scope hactive' fields hf'
      refine ⟨symbol, ?_, hdescribes⟩
      have hne : (⟨scope, d.name⟩ : Slot) ≠ (after (Checker.inferDeclared d) c).slot d.name := by
        rw [hi.toKept.slot]
        exact fun heq => hscope (congrArg Slot.scope heq)
      exact (hget _).trans ((if_neg hne).trans (hi.symbols _ _ hsymbol))

theorem declaration (h : Faithful x c) {d : Declaration} (hd : d.name = x → d.KeepsFields) :
    Faithful x (after (checkDeclaration d) c) := by
  cases hfree : c.symbols.contains (c.slot d.name) with
  | true =>
    rw [after_checkDeclaration_bound d c hfree]
    exact h.report _ _
  | false =>
    rw [after_checkDeclaration_unbound d c hfree]
    by_cases hname : d.name = x
    · exact h.declared hname (hd hname) (hname ▸ hfree)
    · exact (h.inferDeclared hname).define _ _ _

/-! ## Statements and other parts -/

mutual

theorem stmt {x : String} : (s : Stmt) → (Part.stmt s).KeepsFields x → ∀ {c : Checker},
    Faithful x c → Faithful x (after (checkStmt s) c)
  | .declaration span d, hs, c, h => by
    have hd : (Part.declaration d).KeepsFields x := hs.of_mem List.mem_cons_self
    exact h.declaration (hd d (.refl _))
  | .assign span t v, _, c, h => ((h.infer t).infer v).compareTypes _ _ _ _
  | .call span f es, _, c, h => ((h.infer f).inferAll es).settle _ _
  | .ifThen span e t, hs, c, h => by
    simp only [checkStmt, after_bind]
    exact stmts t (fun s hmem => hs.of_mem (by simp [Part.parts, Stmt.parts, hmem])) (h.infer e)
  | .ifElse span e t u, hs, c, h => by
    have ht := stmts t (fun s hmem => hs.of_mem (by simp [Part.parts, Stmt.parts, hmem]))
      (h.infer e)
    simp only [checkStmt, after_bind]
    exact stmts u (fun s hmem => hs.of_mem (by simp [Part.parts, Stmt.parts, hmem])) ht
  | .loop span hd b, _, c, h => h.loop span hd b
  | .returnNothing span, _, c, h => h.strayReturn span
  | .returnValue span e, _, c, h => (h.infer e).strayReturn span
  | .breakLoop span, _, c, h => h
  | .print span es, _, c, h => h.inferAll es

theorem stmts {x : String} : (stmts : List Stmt) → (∀ s ∈ stmts, (Part.stmt s).KeepsFields x) →
    ∀ {c : Checker}, Faithful x c → Faithful x (after (checkStmts stmts) c)
  | [], _, c, h => h
  | s :: rest, hs, c, h => by
    simp only [checkStmts, after_bind]
    exact stmts rest (fun s' hmem => hs s' (List.mem_cons_of_mem _ hmem))
      (stmt s (hs s List.mem_cons_self) h)

end

theorem header (h : Faithful x c) (hd : Header) : Faithful x (after (checkHeader hd) c) := by
  cases hd with
  | items span y e => exact (h.infer e).defineLoopVariable _ _ _
  | range span y a b => exact (((h.infer a).defineLoopVariable _ _ _).infer b).compareTypes _ _ _ _
  | condition span e => exact h.infer e

/-- Every part of a program leads from faithful states to faithful states. -/
theorem run (h : Faithful x c) {part : Part} (hpart : part.KeepsFields x) :
    Faithful x (after part.run c) := by
  cases part with
  | expr e => exact h.infer e
  | stmt s => exact stmt s hpart h
  | clause span y e => exact (h.infer e).defineLoopVariable _ _ _
  | header hd => exact h.header hd
  | declaration d => exact h.declaration (hpart d (.refl _))

/-- So does taking up the parts of a part, unless it is a declaration of the name. -/
theorem entered (h : Faithful x c) {part : Part} (hx : x ∉ part.declares) :
    Faithful x (part.enter c) := by
  unfold Part.enter
  split
  · have henter := h.enter (ScopeStack.enters_pushFunction c.scopes)
    exact (henter.defineParams _).congr rfl rfl rfl (henter.defineParams _).owner
  · exact h.enter (ScopeStack.enters_pushLoop c.scopes)
  · refine h.congr rfl rfl rfl fun heq => hx ?_
    simpa [Part.declares] using (Option.some.inj heq).symm
  · exact h

end Faithful

/-- All points that are not inside a value of the name are faithful. -/
theorem faithful_of_reaches {p : Program} {x : String}
    (hp : ∀ d, p.Declares d → d.name = x → d.KeepsFields) {q : Point} (hq : p.Reaches q)
    (hx : x ∉ q.enclosing) : Faithful x q.state := by
  induction hq with
  | start hmem =>
    refine pointsOf_keeps ?_ (faithful_initial x) hmem
    intro part hpart c hc
    obtain ⟨d, hd, rfl⟩ := List.mem_map.mp hpart
    exact hc.run fun d' hd' => hp d' ⟨d, hd, hd'⟩
  | @inner q r hq hr ih =>
    obtain ⟨-, hr⟩ := mem_inner_iff.mp hr
    obtain ⟨-, henclosing⟩ := part_mem_of_mem_pointsOf hr
    rw [henclosing, List.mem_append, not_or] at hx
    refine pointsOf_keeps ?_ ((ih hx.2).entered hx.1) hr
    intro part hpart c hc
    exact hc.run fun d hd => hp d (hq.declares (.step hpart hd))

/-! ## Field access -/

theorem lookup_of_current {c : Checker} (hc : c.Valid) {x : String} {symbol : Symbol}
    (h : c.symbols.get? (c.slot x) = some symbol) :
    c.symbols.lookup x c.scopes.active = some (c.scopes.current, symbol) := by
  obtain ⟨scope, rest, hactive⟩ := List.exists_cons_of_ne_nil hc.nonempty
  have hcurrent : c.scopes.current = scope := by rw [ScopeStack.current, hactive, List.headD_cons]
  rw [slot, hcurrent] at h
  rw [hactive, SymbolTable.lookup_cons, h, hcurrent]
  rfl

/-- A field access on a variable of tuple type answers what the tuple table says, and does nothing
else. -/
theorem infer_field_of_tuple {c : Checker} {x : String} {scope : Scope} {symbol : Symbol}
    {ts : List Ty} (hx : c.symbols.lookup x c.scopes.active = some (scope, symbol))
    (hts : symbol.type? = some (.tuple ts)) (span span' : Span) (y : String) :
    answer (infer (.field span (.var span' x) y)) c = c.tuples.field? (c.slot x) y ∧
      after (infer (.field span (.var span' x) y)) c = c := by
  have htarget : answer (infer (.var span' x)) c = some (.tuple ts) := by
    rw [infer, inferVar, answer_get, hx]
    exact hts
  have hstate : after (infer (.var span' x)) c = c := by
    rw [infer, inferVar, after_get, hx]
    rfl
  rw [infer, answer_bind, after_bind, htarget, hstate, settleField, answer_get, after_get, knownField]
  cases c.tuples.field? (c.slot x) y <;> exact ⟨rfl, rfl⟩

theorem field?_of_answer {c : Checker} {x y : String} {scope : Scope} {symbol : Symbol}
    {ts : List Ty} {t : Ty} {span span' : Span}
    (hx : c.symbols.lookup x c.scopes.active = some (scope, symbol))
    (hts : symbol.type? = some (.tuple ts))
    (ht : answer (infer (.field span (.var span' x) y)) c = some t) :
    c.tuples.field? (c.slot x) y = some t :=
  (infer_field_of_tuple hx hts span span' y).1.symm.trans ht

/-- The tuple that a known field was found in describes the type of the variable. -/
theorem Faithful.describes {x : String} {c : Checker} (h : Faithful x c) {scope : Scope}
    {symbol : Symbol} {ts : List Ty} {y : String} {t : Ty}
    (hx : c.symbols.lookup x c.scopes.active = some (scope, symbol))
    (hts : symbol.type? = some (.tuple ts)) (ht : c.tuples.field? (c.slot x) y = some t) :
    ∃ fields, Describes fields ts ∧ fields.lookup y = some t := by
  obtain ⟨fields, hfields, hlookup⟩ := Option.bind_eq_some_iff.mp ht
  obtain ⟨symbol', hsymbol', hdescribes⟩ := h.fits _ h.current_mem fields hfields
  have hsame := hx.symm.trans (lookup_of_current h.toValid hsymbol')
  cases hsame
  exact ⟨fields, hdescribes ts hts, hlookup⟩

/-- Wherever the walk through a program stands, before or after the part it takes up there, but not
inside a value of `x`: if all declarations of `x` keep its fields and `x` has a tuple type, then a
field of `x` that has a type has the type of an element of the tuple, and the field with the number
`n` that of the `n`-th element. -/
theorem field_type_of_keepsFields (p : Program) (x : String)
    (hp : ∀ d, p.Declares d → d.name = x → d.KeepsFields) (q : Point) (hq : p.Reaches q)
    (hout : x ∉ q.enclosing) (c : Checker) (hc : c = q.state ∨ c = after q.part.run q.state)
    (scope : Scope) (symbol : Symbol) (ts : List Ty)
    (hx : c.symbols.lookup x c.scopes.active = some (scope, symbol))
    (hts : symbol.type? = some (.tuple ts)) (span span' : Span) :
    (∀ y t, answer (infer (.field span (.var span' x) y)) c = some t → t ∈ ts) ∧
    (∀ n t, answer (infer (.ordinal span (.var span' x) n)) c = some t →
      0 < n ∧ ts[n - 1]? = some t) := by
  have hstart := faithful_of_reaches hp hq hout
  have hfaithful : Faithful x c := by
    rcases hc with rfl | rfl
    · exact hstart
    · exact hstart.run fun d hd => hp d (hq.declares hd)
  constructor
  · intro y t ht
    obtain ⟨fields, hdescribes, hlookup⟩ := hfaithful.describes hx hts (field?_of_answer hx hts ht)
    exact hdescribes.named hlookup
  · -- an access by number is an access by the number's text
    intro n t ht
    have hfield : answer (infer (.field span (.var span' x) (toString n))) c = some t := by
      simp only [infer] at ht ⊢
      exact ht
    obtain ⟨fields, hdescribes, hlookup⟩ :=
      hfaithful.describes hx hts (field?_of_answer hx hts hfield)
    exact hdescribes.numbered hlookup

/-- A name with a letter in it is not a number. -/
theorem ne_toString_of_mem {x : String} {letter : Char} (hmem : letter ∈ x.toList)
    (hletter : letter.isDigit = false) (n : Nat) : x ≠ toString n := by
  rintro rfl
  rw [Nat.toString_eq_repr, Nat.toList_repr] at hmem
  have hdigit := Nat.isDigit_of_mem_toDigits (by omega) (by omega) hmem
  rw [hletter] at hdigit
  cases hdigit

/-- The program `t is (a is 1, true); u is t.2`. -/
def pairProgram : Program :=
  ⟨.origin, [⟨.origin, "t", none, .tuple .origin [⟨.origin, some "a", .literal .origin (.integer 1)⟩,
      ⟨.origin, none, .literal .origin (.boolean true)⟩]⟩,
    ⟨.origin, "u", none, .ordinal .origin (.var .origin "t") 2⟩]⟩

theorem keepsFields_pairProgram (d : Declaration) (hd : pairProgram.Declares d)
    (hname : d.name = "t") : d.KeepsFields := by
  obtain ⟨outer, houter, hwithin⟩ := hd
  -- neither of the two values has declarations in it
  have hd : d = outer := by
    rcases List.mem_pair.mp houter with rfl | rfl
    all_goals
      cases hwithin with
      | refl => rfl
      | step hvalue h =>
        obtain rfl := List.mem_singleton.mp hvalue
        cases h with
        | step hpart h =>
          simp only [Part.parts, Expr.parts, List.map_cons, List.map_nil, List.mem_cons,
            List.not_mem_nil, or_false] at hpart
          rcases hpart with rfl | rfl
          all_goals
            cases h with
            | step hnone _ => cases hnone
  subst hd
  rcases List.mem_pair.mp houter with rfl | rfl
  · intro _
    refine .tuple _ ?_
    intro e he n hn
    rcases List.mem_pair.mp he with rfl | rfl
    · have hletter : 'a' ∈ "a".toList := by decide
      exact ne_toString_of_mem hletter rfl n (Option.some.inj hn)
    · cases hn
  · exact absurd hname (by decide)

theorem field_type_of_keepsFields_pairProgram :
    ∃ q, pairProgram.Reaches q ∧ "t" ∉ q.enclosing ∧
      q.state.symbols.lookup "t" q.state.scopes.active =
        some (.main, ⟨.declared, .tuple [.integer, .boolean], false⟩) ∧
      answer (infer (.ordinal .origin (.var .origin "t") 2)) q.state = some .boolean ∧
      0 < 2 ∧ [Ty.integer, .boolean][2 - 1]? = some .boolean := by
  have hlast : (pairProgram.lastPoint? 1).map (fun q => (q.enclosing,
      q.state.symbols.lookup "t" q.state.scopes.active,
      answer (infer (.ordinal .origin (.var .origin "t") 2)) q.state)) =
      some (["u"], some (.main, ⟨.declared, .tuple [.integer, .boolean], false⟩), some .boolean) := by
    decide +kernel
  obtain ⟨q, hq, hview⟩ := Option.map_eq_some_iff.mp hlast
  simp only [Prod.mk.injEq] at hview
  obtain ⟨henclosing, hlookup, hanswer⟩ := hview
  have hreaches := Program.reaches_lastPoint? hq
  have hout : "t" ∉ q.enclosing := by simp [henclosing]
  have hfields := field_type_of_keepsFields pairProgram "t" keepsFields_pairProgram q hreaches hout
    q.state (Or.inl rfl) .main _ _ hlookup rfl .origin .origin
  exact ⟨q, hreaches, hout, hlookup, hanswer, hfields.2 2 .boolean hanswer⟩

/-- What is known about a name, and the type of its first field. -/
def firstField (x : String) (c : Checker) : Option (Scope × Symbol) × Option Ty :=
  (c.symbols.lookup x c.scopes.active, answer (infer (.ordinal .origin (.var .origin x) 1)) c)

/-- A tuple that is an argument in the value of `t` is recorded as if it were `t`. -/
def argumentText : List Char :=
  "f is func(p: (integer, string)) => (true, false)\nt is f((1, \"a\"))".toList

/-- Inside the value of `x`, a printed tuple is recorded as if it were the parameter `x`. -/
def parameterText : List Char :=
  "x is func(x: (integer, integer)) do\n  print((true, false))\n  y is x.1\nend".toList

/-- A point that is found by running the parser and the walk is reached in the program read. -/
theorem reaches_of_ofText {α : Type} {text : List Char} {n : Nat} {f : Point → α} {a : α}
    (h : (Program.ofText text).toOption.bind (fun p => (p.lastPoint? n).map f) = some a) :
    ∃ p q, Program.ofText text = .ok p ∧ p.Reaches q ∧ f q = a := by
  cases htext : Program.ofText text with
  | error e => simp [htext, Except.toOption] at h
  | ok p =>
    rw [htext] at h
    obtain ⟨q, hq, hview⟩ := Option.map_eq_some_iff.mp h
    exact ⟨p, q, rfl, Program.reaches_lastPoint? hq, hview⟩

/-- In general, a field need not have the type of an element. -/
theorem firstField_mismatch :
    (∃ p q, Program.ofText argumentText = .ok p ∧ p.Reaches q ∧ "t" ∉ q.enclosing ∧
      firstField "t" (after q.part.run q.state) =
        (some (.main, ⟨.declared, .tuple [.boolean, .boolean], false⟩), some .integer)) ∧
    ∃ p q, Program.ofText parameterText = .ok p ∧ p.Reaches q ∧
      firstField "x" q.state =
        (some (.function 0, ⟨.parameter, .tuple [.integer, .integer], false⟩), some .boolean) := by
  have hargument : (Program.ofText argumentText).toOption.bind (fun p => (p.lastPoint? 0).map
      fun q => (q.enclosing, firstField "t" (after q.part.run q.state))) =
      some ([], some (.main, ⟨.declared, .tuple [.boolean, .boolean], false⟩), some .integer) := by
    decide +kernel
  have hparameter : (Program.ofText parameterText).toOption.bind (fun p => (p.lastPoint? 2).map
      fun q => firstField "x" q.state) =
      some (some (.function 0, ⟨.parameter, .tuple [.integer, .integer], false⟩),
        some .boolean) := by
    decide +kernel
  obtain ⟨p, q, htext, hq, hview⟩ := reaches_of_ofText hargument
  obtain ⟨henclosing, hfirst⟩ := Prod.mk.inj hview
  refine ⟨⟨p, q, htext, hq, ?_, hfirst⟩, reaches_of_ofText hparameter⟩
  simp [henclosing]

end Checker

end ExprCheck
