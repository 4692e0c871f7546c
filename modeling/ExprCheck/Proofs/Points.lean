import Mathlib
import ExprCheck.Proofs.Parts

/-!
# The points of a walk

The walk takes up a program part by part, and a part by its own parts. A point of the walk is a part
that is about to be taken up, together with the state at that moment and with the declarations in
whose values it stands. The points of a program are found from above: its declarations are points,
and each point leads to the points of its parts, in the states that the walk gives them.
-/

namespace ExprCheck

/-- A part of a program that the walk takes up in one go. A clause is the `x in e` of a loop. -/
inductive Part where
  | expr (e : Expr)
  | stmt (s : Stmt)
  | clause (span : Span) (name : Option String) (items : Expr)
  | header (h : Header)
  | declaration (d : Declaration)

/-- The part that a statement of a function body is taken up as. A return has no effect of its own
there. -/
def Stmt.inBlock : Stmt → List Part
  | .returnNothing _ => []
  | .returnValue _ e => [.expr e]
  | s => [.stmt s]

def Body.parts : Body → List Part
  | .expr _ e => [.expr e]
  | .block _ stmts => stmts.flatMap Stmt.inBlock

def Header.parts : Header → List Part
  | .items s x e => [.clause s x e]
  | .range s x a b => [.clause s x a, .expr b]
  | .condition _ e => [.expr e]

def Stmt.parts : Stmt → List Part
  | .declaration _ d => [.declaration d]
  | .assign _ t v => [.expr t, .expr v]
  | .call _ f es => .expr f :: es.map .expr
  | .ifThen _ c t => .expr c :: t.map .stmt
  | .ifElse _ c t e => .expr c :: (t ++ e).map .stmt
  | .loop _ h b => .header h :: b.map .stmt
  | .returnNothing _ | .breakLoop _ => []
  | .returnValue _ e => [.expr e]
  | .print _ es => es.map .expr

namespace Part

/-- The parts that a part is taken up by, in order. Unlike `Expr.parts` they include those of a
function literal. -/
def parts : Part → List Part
  | expr (.function _ _ _ b) => b.parts
  | expr e => e.parts.map .expr
  | stmt s => s.parts
  | clause _ _ e => [.expr e]
  | header h => h.parts
  | declaration d => [.expr d.value]

/-- The first part lies somewhere in the second. -/
inductive Within : Part → Part → Prop where
  | refl (part : Part) : Within part part
  | step {inner outer part : Part} : part ∈ outer.parts → Within inner part → Within inner outer

/-- What the walk does with a part. -/
def run : Part → CheckM Unit
  | expr e => do
    let _ ← Checker.infer e
  | stmt s => Checker.checkStmt s
  | clause s x e => do
    let type ← Checker.infer e
    Checker.defineLoopVariable s x type
  | header h => Checker.checkHeader h
  | declaration d => Checker.checkDeclaration d

/-- The state in which the first part of a part is taken up. -/
def enter : Part → Checker → Checker
  | expr (.function _ params _ _), c =>
    let d := Checker.after (Checker.defineParams params) (Checker.after Checker.enterFunction c)
    { d with depth := d.depth + 1 }
  | stmt (.loop _ _ _), c => Checker.after Checker.enterLoop c
  | declaration d, c => { c with owner := some d.name }
  | _, c => c

/-- The name whose value the parts of a part belong to. -/
def declares : Part → List String
  | declaration d => [d.name]
  | _ => []

/-- Whether the walk passes over a part: the value of a name that is bound already is not looked
at. -/
def isSkipped : Part → Checker → Bool
  | declaration d, c => c.symbols.contains (c.slot d.name)
  | _, _ => false

end Part

/-- A point of the walk. -/
structure Point where
  /-- The names of the declarations in whose values the walk stands, the innermost first. -/
  enclosing : List String
  /-- What is taken up next. -/
  part : Part
  /-- The state at that moment. -/
  state : Checker

/-- The points of parts that are taken up one after the other. -/
def pointsOf (enclosing : List String) : Checker → List Part → List Point
  | _, [] => []
  | c, part :: rest => ⟨enclosing, part, c⟩ :: pointsOf enclosing (Checker.after part.run c) rest

/-- The points that a point leads to. -/
def Point.inner (q : Point) : List Point :=
  if q.part.isSkipped q.state then []
  else pointsOf (q.part.declares ++ q.enclosing) (q.part.enter q.state) q.part.parts

namespace Program

/-- The points of the walk through a program. -/
inductive Reaches (p : Program) : Point → Prop where
  | start {q : Point} : q ∈ pointsOf [] .initial (p.declarations.map .declaration) → Reaches p q
  | inner {q r : Point} : Reaches p q → r ∈ q.inner → Reaches p r

/-- A declaration stands somewhere in a program. -/
def Declares (p : Program) (d : Declaration) : Prop :=
  ∃ outer ∈ p.declarations, (Part.declaration d).Within (.declaration outer)

end Program

/-! ## Points and parts -/

theorem part_mem_of_mem_pointsOf {enclosing : List String} {c : Checker} {parts : List Part}
    {q : Point} (h : q ∈ pointsOf enclosing c parts) : q.part ∈ parts ∧ q.enclosing = enclosing := by
  induction parts generalizing c with
  | nil => simp [pointsOf] at h
  | cons part rest ih =>
    rw [pointsOf, List.mem_cons] at h
    rcases h with rfl | h
    · exact ⟨List.mem_cons_self, rfl⟩
    · obtain ⟨hmem, henclosing⟩ := ih h
      exact ⟨List.mem_cons_of_mem _ hmem, henclosing⟩

theorem mem_inner_iff {q r : Point} :
    r ∈ q.inner ↔ q.part.isSkipped q.state = false ∧
      r ∈ pointsOf (q.part.declares ++ q.enclosing) (q.part.enter q.state) q.part.parts := by
  unfold Point.inner
  cases hskip : q.part.isSkipped q.state <;> simp

/-- All that lies in a point the walk comes to lies in the program. -/
theorem Program.Reaches.within {p : Program} {q : Point} (h : p.Reaches q) {part : Part}
    (hpart : part.Within q.part) : ∃ outer ∈ p.declarations, part.Within (.declaration outer) := by
  induction h with
  | start hq =>
    obtain ⟨hmem, -⟩ := part_mem_of_mem_pointsOf hq
    obtain ⟨outer, houter, hstart⟩ := List.mem_map.mp hmem
    exact ⟨outer, houter, hstart ▸ hpart⟩
  | inner _ hr ih =>
    obtain ⟨-, hr⟩ := mem_inner_iff.mp hr
    exact ih (.step (part_mem_of_mem_pointsOf hr).1 hpart)

theorem Program.Reaches.declares {p : Program} {q : Point} (h : p.Reaches q) {d : Declaration}
    (hd : (Part.declaration d).Within q.part) : p.Declares d := h.within hd

/-- The last point that is found by going down the given number of levels, at the last point of each
level. -/
def lastPoint? : Nat → List Point → Option Point
  | 0, qs => qs.getLast?
  | levels + 1, qs => qs.getLast?.bind fun q => lastPoint? levels q.inner

/-- Going down leads only to points that come from the given ones. -/
theorem of_lastPoint? {P : Point → Prop} (hinner : ∀ q r, P q → r ∈ q.inner → P r) {levels : Nat}
    {qs : List Point} {q : Point} (hqs : ∀ r ∈ qs, P r) (h : lastPoint? levels qs = some q) : P q := by
  induction levels generalizing qs with
  | zero => exact hqs q (List.mem_of_getLast? h)
  | succ levels ih =>
    obtain ⟨last, hlast, hq⟩ := Option.bind_eq_some_iff.mp h
    exact ih (fun r hr => hinner last r (hqs last (List.mem_of_getLast? hlast)) hr) hq

/-- The last point of a program at a level. Its declarations are at level 0. -/
def Program.lastPoint? (p : Program) (levels : Nat) : Option Point :=
  ExprCheck.lastPoint? levels (pointsOf [] .initial (p.declarations.map .declaration))

theorem Program.reaches_lastPoint? {p : Program} {levels : Nat} {q : Point}
    (h : p.lastPoint? levels = some q) : p.Reaches q :=
  of_lastPoint? (fun _ _ => .inner) (fun _ => .start) h

/-! ## Properties of states along the walk -/

/-- What every part of a list keeps holds at all their points. -/
theorem pointsOf_keeps {I : Checker → Prop} {enclosing : List String} {parts : List Part}
    (hparts : ∀ part ∈ parts, ∀ c, I c → I (Checker.after part.run c)) {c : Checker} (hc : I c)
    {q : Point} (h : q ∈ pointsOf enclosing c parts) : I q.state := by
  induction parts generalizing c with
  | nil => simp [pointsOf] at h
  | cons part rest ih =>
    rw [pointsOf, List.mem_cons] at h
    rcases h with rfl | h
    · exact hc
    · have hnext : I (Checker.after part.run c) := hparts part List.mem_cons_self c hc
      exact ih (fun other hmem => hparts other (List.mem_cons_of_mem _ hmem)) hnext h

end ExprCheck
