import Mathlib
import ExprCheck.Proofs.TopLevelTuples

/-!
# Redeclarations

A top-level declaration of a name that was declared before is refused with one error, and nothing
else comes of it: a program is checked as if such declarations were not there. The names declared so
far are the ones bound in the main scope, because values bind names only in scopes that they open.
So the walk through the program and the walk through the program without them can be compared
declaration by declaration. They differ in their errors only, which nothing in the walk depends on.
-/

namespace ExprCheck

/-- The declarations whose names are not among those seen before them. -/
def firstDeclarations : List String → List Declaration → List Declaration
  | _, [] => []
  | seen, d :: rest =>
    if d.name ∈ seen then firstDeclarations seen rest
    else d :: firstDeclarations (d.name :: seen) rest

/-- The program without the declarations whose name was declared before. -/
def Program.withoutRedeclarations (p : Program) : Program :=
  { p with declarations := firstDeclarations [] p.declarations }

/-- What is reported about some declarations, if `reports` is what is reported about those whose
names are not among the ones seen before them: one error for each of the others, in its place. -/
def withRedeclared : List String → List Declaration → List (List TypeError) →
    List (List TypeError)
  | _, [], _ => []
  | seen, d :: rest, reports =>
    if d.name ∈ seen then
      [⟨.redeclared d.name, d.span⟩] :: withRedeclared seen rest reports
    else reports.headD [] :: withRedeclared (d.name :: seen) rest reports.tail

namespace Checker

variable {α β : Type} {c d : Checker}

/-- The errors that are reported about each of some declarations. -/
def reports : Checker → List Declaration → List (List TypeError)
  | _, [] => []
  | c, d :: rest =>
    (after (checkDeclaration d) c).errors.drop c.errors.length ::
      reports (after (checkDeclaration d) c) rest

theorem errors_checkDeclarations (c : Checker) (ds : List Declaration) :
    (after (checkDeclarations ds) c).errors = c.errors ++ (reports c ds).flatten := by
  induction ds generalizing c with
  | nil => simp [checkDeclarations, reports]
  | cons d rest ih =>
    obtain ⟨new, hnew⟩ := checkDeclaration_along regimen_grows d c
    rw [checkDeclarations, after_bind, ih, reports, List.flatten_cons, ← hnew, List.drop_left,
      List.append_assoc]

/-! ## Runs that differ in their errors -/

/-- Nothing in the walk depends on the errors. -/
theorem sound_sameButErrors {E : List TypeError → List TypeError → Prop}
    (hE : ∀ es es', E es es' → ∀ e, E (es ++ [e]) (es' ++ [e])) :
    (sameProgram (SameButErrors E)).Sound := by
  have hstepwise : (sameProgram (SameButErrors E)).Stepwise :=
    Comparison.stepwise_ofErrors (fun _ _ hlost _ => hlost) fun es es' hes _ _ _ => hE es es' hes _
  refine hstepwise.sound (fun _ => rfl) (fun _ => rfl) fun c d h span a b => ?_
  exact ⟨by rw [h.same]; rfl, hE _ _ h.errors _⟩

/-- The states differ at most in their errors. -/
def Alike (c d : Checker) : Prop := d = { c with errors := d.errors }

theorem Alike.symbols (h : Alike c d) : d.symbols = c.symbols := by rw [h]

theorem Alike.scopes (h : Alike c d) : d.scopes = c.scopes := by rw [h]

theorem Alike.slot (h : Alike c d) (x : String) : d.slot x = c.slot x := by
  rw [Checker.slot, h.scopes, Checker.slot]

/-- A part of the walk that is in step whenever states differ in their errors reports the same in
both runs. -/
theorem Alike.run {m : CheckM α} (h : Alike c d)
    (hm : ∀ R, (sameProgram R).Sound → Lockstep R m) :
    Alike (after m c) (after m d) ∧ ∃ new, (after m c).errors = c.errors ++ new ∧
      (after m d).errors = d.errors ++ new := by
  have hsound : (sameProgram (SameButErrors fun es es' =>
      ∃ new, es = c.errors ++ new ∧ es' = d.errors ++ new)).Sound := by
    refine sound_sameButErrors ?_
    rintro _ _ ⟨new, rfl, rfl⟩ e
    exact ⟨new ++ [e], by simp, by simp⟩
  obtain ⟨-, hsame, herrors⟩ := hm _ hsound c d ⟨h, [], by simp, by simp⟩
  exact ⟨hsame, herrors⟩

section Lockstep

variable {R : Checker → Checker → Prop}

theorem checkDeclaration_lockstep (h : (sameProgram R).Sound) (d : Declaration) :
    Lockstep R (checkDeclaration d) := by
  have hfollows := checkDeclaration_follows h false d (Or.inr trivial) fun _ _ => trivial
  rw [show (sameProgram R).edit = .same from rfl, Declaration.edit_same] at hfollows
  exact hfollows.lockstep

theorem defineParams_lockstep (h : (sameProgram R).Sound) (params : List Param) :
    Lockstep R (defineParams params) := by
  have hall : false = true ∨ ∀ x, (sameProgram R).Sees x := Or.inr fun _ => trivial
  have hfollows := h.follows_defineParams hall params
  rw [show (sameProgram R).edit = .same from rfl, Param.map_edit_same] at hfollows
  exact hfollows.lockstep

theorem run_lockstep (h : (sameProgram R).Sound) (part : Part) : Lockstep R part.run := by
  have hall : ∀ x, (sameProgram R).Sees x := fun _ => trivial
  have hin : false = true ∨ ∀ x, (sameProgram R).Sees x := Or.inr hall
  cases part with
  | expr e =>
    intro c d hcd
    exact ⟨rfl, (infer_lockstep h e c d hcd).2⟩
  | stmt s =>
    have hfollows := checkStmt_follows h false hin s fun x _ => hall x
    rw [show (sameProgram R).edit = .same from rfl, Stmt.edit_same] at hfollows
    exact hfollows.lockstep
  | clause span x e =>
    intro c d hcd
    obtain ⟨hanswer, hafter⟩ := infer_lockstep h e c d hcd
    have hfollows := h.follows_defineLoopVariable hin span x (answer (infer e) c)
    refine ⟨rfl, ?_⟩
    simp only [Part.run, after_bind, hanswer]
    exact (hfollows.lockstep _ _ hafter).2
  | header hd =>
    have hfollows := checkHeader_follows h false hin hd fun x _ => hall x
    rw [show (sameProgram R).edit = .same from rfl, Header.edit_same] at hfollows
    exact hfollows.lockstep
  | declaration d => exact checkDeclaration_lockstep h d

end Lockstep

/-! ## Names of a scope -/

/-- A declaration makes its name one of the innermost scope, and no other one. -/
theorem contains_checkDeclaration (hc : c.Valid) (d : Declaration) (x : String) :
    (after (checkDeclaration d) c).symbols.contains (c.slot x) = true ↔
      c.symbols.contains (c.slot x) = true ∨ x = d.name := by
  by_cases hx : x = d.name
  · subst hx
    have hbound : (after (checkDeclaration d) c).symbols.contains (c.slot d.name) = true := by
      cases hbound : c.symbols.contains (c.slot d.name) with
      | true =>
        rw [after_checkDeclaration_bound d c hbound]
        exact hbound
      | false =>
        obtain ⟨t, ht, hget⟩ := after_define_free _ d.span
          ⟨.declared, .of (answer (inferDeclared d) c)⟩ (free_after_inferDeclared hc d hbound)
        rw [after_checkDeclaration_unbound d c hbound, ht]
        refine SymbolTable.contains_eq_true.mpr ⟨⟨.declared, .of (answer (inferDeclared d) c)⟩, ?_⟩
        rw [hget, (confined_inferDeclared hc d).toKept.slot, if_pos rfl]
    simp [hbound]
  · have hne : c.slot x ≠ c.slot d.name := fun hs => hx (congrArg Slot.name hs)
    have hentry := entry_checkDeclaration hc d hc.current_allocated hne
    rw [SymbolTable.contains, show SymbolTable.get? _ _ = _ from congrArg Prod.fst hentry]
    simp [hx, SymbolTable.contains]
    rfl

/-- The names bound in the innermost scope are the given ones. -/
def Knows (c : Checker) (seen : List String) : Prop :=
  ∀ x, c.symbols.contains (c.slot x) = true ↔ x ∈ seen

theorem knows_initial : Knows initial [] := by
  intro x
  simp [initial, SymbolTable.empty, SymbolTable.contains, SymbolTable.get?]

theorem Knows.declaration {seen : List String} (h : Knows c seen) (hc : c.Valid)
    (d : Declaration) : Knows (after (checkDeclaration d) c) (d.name :: seen) := by
  intro x
  rw [(local_checkDeclaration hc d).toKept.slot, contains_checkDeclaration hc d x, h x,
    List.mem_cons, or_comm]

/-- A name that was declared before is refused, and this is all. -/
theorem Knows.after_redeclaration {seen : List String} (h : Knows c seen) {d : Declaration}
    (hd : d.name ∈ seen) :
    after (checkDeclaration d) c = after (report d.span (.redeclared d.name)) c :=
  after_checkDeclaration_bound d c ((h d.name).mpr hd)

/-! ## The two walks -/

/-- From states that differ in their errors only, declarations are checked as if those of names
declared before were not there, except that each of these is reported. -/
theorem alike_firstDeclarations {seen : List String} (hknows : Knows c seen) (hc : Resting c)
    (halike : Alike c d) (ds : List Declaration) :
    Alike (after (checkDeclarations ds) c)
      (after (checkDeclarations (firstDeclarations seen ds)) d) ∧
    reports c ds = withRedeclared seen ds (reports d (firstDeclarations seen ds)) := by
  induction ds generalizing c d seen with
  | nil => exact ⟨halike, rfl⟩
  | cons x rest ih =>
    rw [firstDeclarations, withRedeclared, reports, checkDeclarations, after_bind]
    have hafter : Resting (after (checkDeclaration x) c) := .declaration x hc
    by_cases hx : x.name ∈ seen
    · have hreport := hknows.after_redeclaration hx
      have hsame : Alike (after (checkDeclaration x) c) d := by
        rw [hreport]
        exact halike
      have hknows' : Knows (after (checkDeclaration x) c) seen := by
        rw [hreport]
        exact hknows
      obtain ⟨hstate, hreports⟩ := ih hknows' hafter hsame
      rw [if_pos hx, if_pos hx, ← hreports]
      refine ⟨hstate, ?_⟩
      have herrors : (after (checkDeclaration x) c).errors =
          c.errors ++ [⟨.redeclared x.name, x.span⟩] := by rw [hreport, after_report]
      rw [herrors, List.drop_left]
    · obtain ⟨hsame, new, hnew, hnew'⟩ :=
        halike.run fun _ hR => checkDeclaration_lockstep hR x
      obtain ⟨hstate, hreports⟩ := ih (hknows.declaration hc.placed.toValid x) hafter hsame
      rw [if_neg hx, if_neg hx, reports, List.headD_cons, List.tail_cons, ← hreports]
      refine ⟨hstate, ?_⟩
      rw [hnew, hnew', List.drop_left, List.drop_left]

end Checker

/-! ## Points of the two walks -/

/-- The points are the same up to the errors found before them. -/
structure Point.Alike (q r : Point) : Prop where
  enclosing : r.enclosing = q.enclosing
  part : r.part = q.part
  state : q.state.Alike r.state

open Checker

theorem Part.isSkipped_of_alike {c d : Checker} (h : Checker.Alike c d) (part : Part) :
    part.isSkipped d = part.isSkipped c := by
  cases part with
  | declaration x => rw [isSkipped, isSkipped, h.symbols, h.slot]
  | _ => rfl

theorem Part.enter_alike {c d : Checker} (h : Checker.Alike c d) (part : Part) :
    Checker.Alike (part.enter c) (part.enter d) := by
  have henterFunction : Checker.Alike (after enterFunction c) (after enterFunction d) := by
    rw [h]
    rfl
  cases part with
  | expr e =>
    cases e with
    | function span params result body =>
      have hparams := (henterFunction.run fun _ hR => defineParams_lockstep hR params).1
      simp only [enter]
      rw [hparams]
      rfl
    | _ => exact h
  | stmt s =>
    cases s with
    | loop span header body =>
      simp only [enter]
      rw [h]
      rfl
    | _ => exact h
  | clause _ _ _ | header _ => exact h
  | declaration x =>
    simp only [enter]
    rw [h]
    rfl

theorem exists_alike_of_mem_pointsOf {enclosing : List String} {c d : Checker} {parts : List Part}
    (h : Checker.Alike c d) {q : Point} (hq : q ∈ pointsOf enclosing c parts) :
    ∃ r ∈ pointsOf enclosing d parts, q.Alike r := by
  induction parts generalizing c d with
  | nil => simp [pointsOf] at hq
  | cons part rest ih =>
    rw [pointsOf, List.mem_cons] at hq
    rcases hq with rfl | hq
    · exact ⟨_, List.mem_cons_self, rfl, rfl, h⟩
    · have hafter := (h.run fun _ hR => run_lockstep hR part).1
      obtain ⟨r, hr, hqr⟩ := ih hafter hq
      exact ⟨r, List.mem_cons_of_mem _ hr, hqr⟩

theorem Point.Alike.inner {q r q' : Point} (h : q.Alike r) (hq' : q' ∈ q.inner) :
    ∃ r' ∈ r.inner, q'.Alike r' := by
  obtain ⟨hskip, hq'⟩ := mem_inner_iff.mp hq'
  obtain ⟨r', hr', halike⟩ := exists_alike_of_mem_pointsOf (q.part.enter_alike h.state) hq'
  refine ⟨r', mem_inner_iff.mpr ⟨?_, ?_⟩, halike⟩
  · rw [h.part, Part.isSkipped_of_alike h.state, hskip]
  · rw [h.part, h.enclosing]
    exact hr'

/-- The point is a top-level declaration of a name that was declared before, or that is among the
ones seen before all declarations, and the walk does not look into it. -/
structure Point.IsRefused (q : Point) (seen : List String) (ds : List Declaration) : Prop where
  enclosing : q.enclosing = []
  part : ∃ before d later, ds = before ++ d :: later ∧ q.part = .declaration d ∧
    (d.name ∈ seen ∨ d.name ∈ before.map Declaration.name)
  inner : q.inner = []

theorem Point.IsRefused.cons {q : Point} {seen seen' : List String} {d : Declaration}
    {ds : List Declaration} (h : q.IsRefused seen' ds) (hseen : seen' ⊆ d.name :: seen) :
    q.IsRefused seen (d :: ds) := by
  obtain ⟨henclosing, ⟨before, x, later, rfl, hpart, hx⟩, hinner⟩ := h
  refine ⟨henclosing, ⟨d :: before, x, later, rfl, hpart, ?_⟩, hinner⟩
  rw [List.map_cons, List.mem_cons]
  rcases hx with hx | hx
  · rcases List.mem_cons.mp (hseen hx) with hname | hx
    · exact Or.inr (Or.inl hname)
    · exact Or.inl hx
  · exact Or.inr (Or.inr hx)

/-- Each declaration is refused, or taken up in both walks. -/
theorem isRefused_or_exists_alike {seen : List String} {c d : Checker} (hknows : Knows c seen)
    (hc : Resting c) (halike : Checker.Alike c d) {ds : List Declaration} {q : Point}
    (hq : q ∈ pointsOf [] c (ds.map .declaration)) :
    q.IsRefused seen ds ∨
      ∃ r ∈ pointsOf [] d ((firstDeclarations seen ds).map .declaration), q.Alike r := by
  induction ds generalizing c d seen with
  | nil => simp [pointsOf] at hq
  | cons x rest ih =>
    have hafter : Resting (after (checkDeclaration x) c) := .declaration x hc
    rw [List.map_cons, pointsOf, List.mem_cons] at hq
    rw [firstDeclarations]
    by_cases hx : x.name ∈ seen
    · rw [if_pos hx]
      have hreport := hknows.after_redeclaration hx
      rcases hq with rfl | hq
      · left
        refine ⟨rfl, ⟨[], x, rest, rfl, rfl, Or.inl hx⟩, ?_⟩
        have hskip : (Part.declaration x).isSkipped c = true := (hknows x.name).mpr hx
        rw [Point.inner, if_pos hskip]
      · have hsame : Checker.Alike (after (checkDeclaration x) c) d := by
          rw [hreport]
          exact halike
        have hknows' : Knows (after (checkDeclaration x) c) seen := by
          rw [hreport]
          exact hknows
        exact (ih hknows' hafter hsame hq).imp_left (·.cons (List.subset_cons_self _ _))
    · rw [if_neg hx]
      rcases hq with rfl | hq
      · exact Or.inr ⟨_, List.mem_cons_self, rfl, rfl, halike⟩
      · have hsame := (halike.run fun _ hR => checkDeclaration_lockstep hR x).1
        have hknows' := hknows.declaration hc.placed.toValid x
        rcases ih hknows' hafter hsame hq with hrefused | ⟨r, hr, hqr⟩
        · exact Or.inl (hrefused.cons (List.Subset.refl _))
        · exact Or.inr ⟨r, List.mem_cons_of_mem _ hr, hqr⟩

/-- A program is checked as if the top-level declarations of names that were declared before were not
there: the tables and the scope numbers come out the same. One error is reported for each of these
declarations, between those about the declarations around it. The walk looks into none of them, and
comes to the same points otherwise. -/
theorem check_withoutRedeclarations (p : Program) :
    (initial.check p).symbols = (initial.check p.withoutRedeclarations).symbols ∧
    (initial.check p).tuples = (initial.check p.withoutRedeclarations).tuples ∧
    (initial.check p).scopes = (initial.check p.withoutRedeclarations).scopes ∧
    (initial.check p).errors = (reports initial p.declarations).flatten ∧
    (initial.check p.withoutRedeclarations).errors =
      (reports initial p.withoutRedeclarations.declarations).flatten ∧
    reports initial p.declarations = withRedeclared [] p.declarations
      (reports initial p.withoutRedeclarations.declarations) ∧
    (∀ x, (TypeFault.redeclared x).message = "Variable " ++ x ++ " is already declared.") ∧
    ∀ q, p.Reaches q → q.IsRefused [] p.declarations ∨
      ∃ r, p.withoutRedeclarations.Reaches r ∧ q.Alike r := by
  have hinitial : Checker.Alike initial initial := rfl
  obtain ⟨halike, hreports⟩ :=
    alike_firstDeclarations knows_initial .initial hinitial p.declarations
  have hsame : Checker.Alike (initial.check p) (initial.check p.withoutRedeclarations) := halike
  have herrors : ∀ p : Program, (initial.check p).errors =
      (reports initial p.declarations).flatten := by
    intro p
    rw [check_eq_after, errors_checkDeclarations]
    rfl
  refine ⟨hsame.symbols.symm, by rw [hsame], hsame.scopes.symm, herrors p, herrors _, hreports,
    fun _ => rfl, fun q hq => ?_⟩
  induction hq with
  | start hq =>
    refine (isRefused_or_exists_alike knows_initial .initial hinitial hq).imp_right ?_
    rintro ⟨r, hr, hqr⟩
    exact ⟨r, .start hr, hqr⟩
  | inner _ hr ih =>
    rcases ih with hrefused | ⟨r, hreached, hqr⟩
    · rw [hrefused.inner] at hr
      simp at hr
    · obtain ⟨r', hr', halike'⟩ := hqr.inner hr
      exact Or.inr ⟨r', .inner hreached hr', halike'⟩

/-- The program `f is func(a) => a; f is func() do for i in f loop end end; y is missing; f is (f,);
y is 2`, where each declaration covers a place of its own. The second one would open scopes, and the
fourth one would record a tuple. -/
def refusals : Program :=
  let place (n : Nat) : Span := ⟨n, n + 1, ⟨1, n + 1⟩⟩
  ⟨.origin,
    [⟨place 0, "f", none,
      .function .origin [⟨.origin, "a", none⟩] none (.expr .origin (.var .origin "a"))⟩,
     ⟨place 1, "f", none, .function .origin [] none (.block .origin
      [.loop .origin (.items .origin (some "i") (.var .origin "f")) []])⟩,
     ⟨place 2, "y", none, .var .origin "missing"⟩,
     ⟨place 3, "f", none, .tuple .origin [⟨.origin, none, .var .origin "f"⟩]⟩,
     ⟨place 4, "y", none, .literal .origin (.integer 2)⟩]⟩

theorem check_withoutRedeclarations_refusals :
    reports initial refusals.withoutRedeclarations.declarations =
      [[], [⟨.unbound "missing", .origin⟩]] ∧
    (initial.check refusals).errors =
      [⟨.redeclared "f", ⟨1, 2, ⟨1, 2⟩⟩⟩, ⟨.unbound "missing", .origin⟩,
        ⟨.redeclared "f", ⟨3, 4, ⟨1, 4⟩⟩⟩, ⟨.redeclared "y", ⟨4, 5, ⟨1, 5⟩⟩⟩] ∧
    ∃ q, refusals.Reaches q ∧ (q.IsRefused [] refusals.declarations ∨
      ∃ r, refusals.withoutRedeclarations.Reaches r ∧ q.Alike r) := by
  obtain ⟨-, -, -, herrors, -, hreports, -, hpoints⟩ := check_withoutRedeclarations refusals
  have hfirst : reports initial refusals.withoutRedeclarations.declarations =
      [[], [⟨.unbound "missing", .origin⟩]] := by decide +kernel
  refine ⟨hfirst, ?_, ?_⟩
  · rw [herrors, hreports, hfirst]
    decide +kernel
  · have hlast : (refusals.lastPoint? 0).isSome = true := by decide +kernel
    obtain ⟨q, hq⟩ := Option.isSome_iff_exists.mp hlast
    have hreaches := Program.reaches_lastPoint? hq
    exact ⟨q, hreaches, hpoints q hreaches⟩

end ExprCheck
