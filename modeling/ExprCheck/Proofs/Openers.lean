import Mathlib
import ExprCheck.Proofs.NodeSpans
import ExprCheck.Proofs.Points

/-!
# The parts of a program that open scopes

Function literals and loops open scopes. `openers` lists those of a part from left to right. It
leaves out what stands in the value of a declaration whose name is bound already, and for that it is
told the names bound so far in the scope that the part stands in. These are known from the text
alone: `declared` lists the names that a part binds there.

`openers_eq` says that the openers of a part are the part itself, if it opens a scope, and those of
the parts it is taken up by. All that is proved about openers rests on it and on `parts_induction`.
In a program that was read from a text, openers begin one behind the other.
-/

namespace ExprCheck

/-! ## Names -/

/-- The name that a loop header binds, if any. -/
def Header.declared : Header → List String
  | .items _ x _ | .range _ x _ _ => x.toList
  | .condition _ _ => []

mutual

/-- The names that a statement binds in the scope it stands in: a branch of a choice opens no scope
of its own. -/
@[simp] def Stmt.declared : Stmt → List String
  | .declaration _ d => [d.name]
  | .ifThen _ _ t => declaredIn t
  | .ifElse _ _ t e => declaredIn t ++ declaredIn e
  | .assign _ _ _ | .call _ _ _ | .loop _ _ _ | .returnNothing _ | .returnValue _ _
  | .breakLoop _ | .print _ _ => []

/-- The names that statements bind in the scope they stand in. -/
@[simp] def declaredIn : List Stmt → List String
  | [] => []
  | s :: rest => s.declared ++ declaredIn rest

end

/-- The names that a function body binds in the scope of its function. -/
def Body.declared : Body → List String
  | .expr _ _ => []
  | .block _ stmts => declaredIn stmts

/-! ## Openers -/

mutual

/-- The function literals and loops of an expression, from left to right. -/
@[simp] def Expr.openers : Expr → List Part
  | .literal _ _ | .var _ _ => []
  | .binary _ _ l r => l.openers ++ r.openers
  | .conditional _ p t e => p.openers ++ (t.openers ++ e.openers)
  | .function s params result body =>
    .expr (.function s params result body) :: body.openers (params.map Param.name)
  | .array _ es => exprsOpeners es
  | .map _ es => entriesOpeners es
  | .tuple _ es => elementsOpeners es
  | .call _ f es => f.openers ++ exprsOpeners es
  | .index _ t i => t.openers ++ i.openers
  | .field _ t _ | .ordinal _ t _ => t.openers

/-- The function literals and loops of some expressions. -/
@[simp] def exprsOpeners : List Expr → List Part
  | [] => []
  | e :: rest => e.openers ++ exprsOpeners rest

/-- The function literals and loops of some entries of a map. -/
@[simp] def entriesOpeners : List Entry → List Part
  | [] => []
  | ⟨_, k, v⟩ :: rest => k.openers ++ (v.openers ++ entriesOpeners rest)

/-- The function literals and loops of some elements of a tuple. -/
@[simp] def elementsOpeners : List Element → List Part
  | [] => []
  | ⟨_, _, v⟩ :: rest => v.openers ++ elementsOpeners rest

/-- The function literals and loops of a function body, where the function binds the given names
before it. -/
@[simp] def Body.openers (bound : List String) : Body → List Part
  | .expr _ e => e.openers
  | .block _ stmts => stmtsOpeners bound stmts

/-- The function literals and loops of a statement, in a scope that binds the given names
already. -/
@[simp] def Stmt.openers (bound : List String) : Stmt → List Part
  | .declaration _ d => d.openers bound
  | .assign _ t v => t.openers ++ v.openers
  | .call _ f es => f.openers ++ exprsOpeners es
  | .ifThen _ c t => c.openers ++ stmtsOpeners bound t
  | .ifElse _ c t e =>
    c.openers ++ (stmtsOpeners bound t ++ stmtsOpeners (bound ++ declaredIn t) e)
  | .loop s h b => .stmt (.loop s h b) :: (h.openers ++ stmtsOpeners h.declared b)
  | .returnNothing _ | .breakLoop _ => []
  | .returnValue _ e => e.openers
  | .print _ es => exprsOpeners es

/-- The function literals and loops of some statements. -/
@[simp] def stmtsOpeners (bound : List String) : List Stmt → List Part
  | [] => []
  | s :: rest => s.openers bound ++ stmtsOpeners (bound ++ s.declared) rest

/-- The function literals and loops of the header of a loop. -/
@[simp] def Header.openers : Header → List Part
  | .items _ _ e | .condition _ e => e.openers
  | .range _ _ a b => a.openers ++ b.openers

/-- The function literals and loops of a declaration: none if its name is bound already. -/
@[simp] def Declaration.openers (bound : List String) : Declaration → List Part
  | ⟨_, x, _, v⟩ => if x ∈ bound then [] else v.openers

end

namespace Part

/-- The names that a part binds in the scope it stands in. -/
def declared : Part → List String
  | expr _ => []
  | stmt s => s.declared
  | clause _ x _ => x.toList
  | header h => h.declared
  | declaration d => [d.name]

/-- The function literals and loops of a part, in a scope that binds the given names already. -/
def openers (bound : List String) : Part → List Part
  | expr e | clause _ _ e => e.openers
  | stmt s => s.openers bound
  | header h => h.openers
  | declaration d => d.openers bound

def isFunction : Part → Bool
  | expr (.function _ _ _ _) => true
  | _ => false

def isLoop : Part → Bool
  | stmt (.loop _ _ _) => true
  | _ => false

/-- Whether a part opens a scope. -/
def opens (part : Part) : Bool := part.isFunction || part.isLoop

/-- The names bound in the innermost scope when the first part of a part is taken up. -/
def boundInside (bound : List String) : Part → List String
  | expr (.function _ params _ _) => params.map Param.name
  | stmt (.loop _ _ _) => []
  | _ => bound

/-- The names bound in the scope that a part opens: the parameters of a function or the variable of
a loop, and the names declared in the body. -/
def binds : Part → List String
  | expr (.function _ params _ b) => params.map Param.name ++ b.declared
  | stmt (.loop _ h b) => h.declared ++ declaredIn b
  | _ => []

/-- Whether a part is a declaration of a name that is bound already. -/
def isRefused (bound : List String) : Part → Bool
  | declaration d => d.name ∈ bound
  | _ => false

/-- The names that a part binds once its own parts are done. -/
def adds : Part → List String
  | clause _ x _ => x.toList
  | declaration d => [d.name]
  | expr _ | stmt _ | header _ => []

/-- The part itself, if it opens a scope. -/
def self (part : Part) : List Part := if part.opens then [part] else []

end Part

/-- The openers of parts that are taken up one after the other. -/
def partsOpeners (bound : List String) : List Part → List Part
  | [] => []
  | part :: rest => part.openers bound ++ partsOpeners (bound ++ part.declared) rest

/-- The openers of a program. -/
def Program.openers (p : Program) : List Part :=
  partsOpeners [] (p.declarations.map .declaration)

/-! ## A part and its parts -/

/-- The names that the first parts declare are bound in the second ones. -/
theorem partsOpeners_append (bound : List String) (ps qs : List Part) :
    partsOpeners bound (ps ++ qs) =
      partsOpeners bound ps ++ partsOpeners (bound ++ ps.flatMap Part.declared) qs := by
  induction ps generalizing bound with
  | nil => simp [partsOpeners]
  | cons p ps ih => simp [partsOpeners, ih]

theorem partsOpeners_exprs (bound : List String) (es : List Expr) :
    partsOpeners bound (es.map .expr) = exprsOpeners es := by
  induction es with
  | nil => rfl
  | cons e es ih => simp [partsOpeners, Part.openers, Part.declared, ih]

theorem exprsOpeners_entries (es : List Entry) :
    exprsOpeners (es.flatMap fun e => [e.key, e.value]) = entriesOpeners es := by
  induction es with
  | nil => rfl
  | cons e es ih =>
    obtain ⟨s, k, v⟩ := e
    simpa using ih

theorem exprsOpeners_elements (es : List Element) :
    exprsOpeners (es.map Element.value) = elementsOpeners es := by
  induction es with
  | nil => rfl
  | cons e es ih =>
    obtain ⟨s, x, v⟩ := e
    simpa using ih

theorem partsOpeners_stmts (bound : List String) (ss : List Stmt) :
    partsOpeners bound (ss.map .stmt) = stmtsOpeners bound ss := by
  induction ss generalizing bound with
  | nil => rfl
  | cons s ss ih => simp [partsOpeners, Part.openers, Part.declared, ih]

theorem flatMap_declared_stmts (ss : List Stmt) :
    (ss.map Part.stmt).flatMap Part.declared = declaredIn ss := by
  induction ss with
  | nil => rfl
  | cons s ss ih => simp [Part.declared, ih]

/-- A return in a function body is taken up as its value, and that makes no difference here. -/
theorem partsOpeners_inBlock (bound : List String) (s : Stmt) :
    partsOpeners bound s.inBlock = s.openers bound := by
  cases s <;> simp [Stmt.inBlock, partsOpeners, Part.openers]

theorem flatMap_declared_inBlock (s : Stmt) : s.inBlock.flatMap Part.declared = s.declared := by
  cases s <;> simp [Stmt.inBlock, Part.declared]

theorem partsOpeners_block (bound : List String) (ss : List Stmt) :
    partsOpeners bound (ss.flatMap Stmt.inBlock) = stmtsOpeners bound ss := by
  induction ss generalizing bound with
  | nil => rfl
  | cons s ss ih =>
    rw [List.flatMap_cons, partsOpeners_append, partsOpeners_inBlock, flatMap_declared_inBlock, ih,
      stmtsOpeners]

theorem Body.partsOpeners_parts (bound : List String) (b : Body) :
    partsOpeners bound b.parts = b.openers bound := by
  cases b with
  | expr s e => simp [parts, partsOpeners, Part.openers]
  | block s ss => exact partsOpeners_block bound ss

theorem Body.flatMap_declared_parts (b : Body) : b.parts.flatMap Part.declared = b.declared := by
  cases b with
  | expr s e => rfl
  | block s ss =>
    show (ss.flatMap Stmt.inBlock).flatMap Part.declared = declaredIn ss
    induction ss with
    | nil => rfl
    | cons s ss ih =>
      rw [List.flatMap_cons, List.flatMap_append, flatMap_declared_inBlock, ih, declaredIn]

/-- An expression that is no function literal opens nothing itself and binds nothing for its parts.
-/
theorem Expr.openers_eq {e : Expr} (he : (Part.expr e).isFunction = false) :
    e.openers = exprsOpeners e.parts := by
  cases e with
  | function s params result b => exact absurd he (by simp [Part.isFunction])
  | map s es => simp [parts, exprsOpeners_entries]
  | tuple s es => simp [parts, exprsOpeners_elements]
  | literal _ _ | var _ _ | binary _ _ _ _ | conditional _ _ _ _ | array _ _ | call _ _ _
  | index _ _ _ | field _ _ _ | ordinal _ _ _ => simp [parts]

namespace Part

/-- Scopes are opened by function literals and by loops. -/
theorem exists_of_opens {part : Part} (h : part.opens = true) :
    (∃ s params result b, part = expr (.function s params result b)) ∨
      ∃ s hd b, part = stmt (.loop s hd b) := by
  cases part with
  | expr e =>
    cases e with
    | function s params result b => exact Or.inl ⟨s, params, result, b, rfl⟩
    | _ => simp [opens, isFunction, isLoop] at h
  | stmt s =>
    cases s with
    | loop s hd b => exact Or.inr ⟨s, hd, b, rfl⟩
    | _ => simp [opens, isFunction, isLoop] at h
  | clause _ _ _ | header _ | declaration _ => simp [opens, isFunction, isLoop] at h

theorem parts_expr {e : Expr} (he : (expr e).isFunction = false) :
    (expr e).parts = e.parts.map .expr := by
  cases e with
  | function s params result b => exact absurd he (by simp [isFunction])
  | _ => rfl

/-- Only the parts of an opener are taken up in another scope. -/
theorem boundInside_of_not_opens {part : Part} (h : part.opens = false)
    (bound : List String) : part.boundInside bound = bound := by
  obtain ⟨hfunction, hloop⟩ := Bool.or_eq_false_iff.mp h
  cases part with
  | expr e => cases e <;> simp [isFunction] at hfunction <;> rfl
  | stmt s => cases s <;> simp [isLoop] at hloop <;> rfl
  | clause _ _ _ | header _ | declaration _ => rfl

theorem openers_stmt (bound : List String) (s : Stmt) :
    s.openers bound = (stmt s).self ++ partsOpeners ((stmt s).boundInside bound) s.parts := by
  cases s with
  | ifElse s c t e =>
    rw [Stmt.parts, List.map_append, partsOpeners, partsOpeners_append, partsOpeners_stmts,
      partsOpeners_stmts, flatMap_declared_stmts]
    simp [self, opens, isFunction, isLoop, boundInside, openers, declared]
  | _ =>
    simp [self, opens, isFunction, isLoop, boundInside, Stmt.parts, partsOpeners, openers, declared,
      partsOpeners_stmts, partsOpeners_exprs]

/-- The openers of a part that is not refused: itself and those of its parts. -/
theorem openers_eq {bound : List String} {part : Part} (h : part.isRefused bound = false) :
    part.openers bound = part.self ++ partsOpeners (part.boundInside bound) part.parts := by
  cases part with
  | expr e =>
    cases he : (expr e).isFunction with
    | true =>
      cases e with
      | function s params result b =>
        simp [openers, self, opens, isFunction, boundInside, parts, Body.partsOpeners_parts]
      | _ => simp [isFunction] at he
    | false =>
      have hopens : (expr e).opens = false := by simp [opens, he, isLoop]
      rw [openers, Expr.openers_eq he, parts_expr he, boundInside_of_not_opens hopens,
        partsOpeners_exprs, self, hopens]
      rfl
  | stmt s => exact openers_stmt bound s
  | clause s x e => simp [openers, self, opens, isFunction, isLoop, boundInside, parts, partsOpeners]
  | header hd =>
    cases hd <;>
      simp [openers, self, opens, isFunction, isLoop, boundInside, parts, Header.parts, partsOpeners]
  | declaration d =>
    obtain ⟨s, x, t, v⟩ := d
    have hfree : x ∉ bound := by simpa [isRefused] using h
    simp [openers, self, opens, isFunction, isLoop, boundInside, parts, partsOpeners, hfree]

theorem openers_of_isRefused {bound : List String} {part : Part} (h : part.isRefused bound = true) :
    part.openers bound = [] := by
  cases part with
  | declaration d =>
    obtain ⟨s, x, t, v⟩ := d
    have hbound : x ∈ bound := by simpa [isRefused] using h
    simp [openers, hbound]
  | expr _ | stmt _ | clause _ _ _ | header _ => simp [isRefused] at h

/-- The names of the scope that a part opens: those bound before its parts are taken up, and those
that its parts bind. -/
theorem binds_eq {part : Part} (h : part.opens = true) (bound : List String) :
    part.binds = part.boundInside bound ++ part.parts.flatMap declared := by
  obtain ⟨s, params, result, b, rfl⟩ | ⟨s, hd, b, rfl⟩ := exists_of_opens h
  · rw [binds, boundInside, parts, Body.flatMap_declared_parts]
  · rw [binds, boundInside, parts, Stmt.parts, List.flatMap_cons, flatMap_declared_stmts]
    rfl

theorem declared_of_opens {part : Part} (h : part.opens = true) : part.declared = [] := by
  obtain ⟨s, params, result, b, rfl⟩ | ⟨s, hd, b, rfl⟩ := exists_of_opens h <;> rfl

theorem isRefused_of_opens {part : Part} (h : part.opens = true) (bound : List String) :
    part.isRefused bound = false := by
  obtain ⟨s, params, result, b, rfl⟩ | ⟨s, hd, b, rfl⟩ := exists_of_opens h <;> rfl

theorem flatMap_declared_exprs (es : List Expr) : (es.map expr).flatMap declared = [] := by
  simp [declared]

/-- A part that opens no scope binds what its parts bind, and maybe a name of its own. -/
theorem declared_eq {part : Part} (h : part.opens = false) :
    part.declared = part.parts.flatMap declared ++ part.adds := by
  obtain ⟨hfunction, hloop⟩ := Bool.or_eq_false_iff.mp h
  cases part with
  | expr e =>
    rw [parts_expr hfunction, flatMap_declared_exprs]
    rfl
  | stmt s =>
    cases s with
    | loop s hd b => simp [isLoop] at hloop
    | ifThen s c t =>
      rw [parts, Stmt.parts, List.flatMap_cons, flatMap_declared_stmts]
      simp [declared, adds]
    | ifElse s c t e =>
      rw [parts, Stmt.parts, List.flatMap_cons, List.map_append, List.flatMap_append,
        flatMap_declared_stmts, flatMap_declared_stmts]
      simp [declared, adds]
    | _ => simp [declared, adds, parts, Stmt.parts]
  | header hd => cases hd <;> simp [declared, adds, parts, Header.parts, Header.declared]
  | clause _ _ _ | declaration _ => simp [declared, adds, parts]

/-! ## Induction along the parts -/

theorem sizeOf_inBlock {s : Stmt} {part : Part} (h : part ∈ s.inBlock) :
    sizeOf part ≤ sizeOf (stmt s) := by
  cases s with
  | returnNothing s => simp [Stmt.inBlock] at h
  | returnValue s e =>
    obtain rfl := List.mem_singleton.mp h
    simp only [expr.sizeOf_spec, stmt.sizeOf_spec, Stmt.returnValue.sizeOf_spec]
    omega
  | _ =>
    obtain rfl := List.mem_singleton.mp h
    exact Nat.le_refl _

theorem sizeOf_body_parts {b : Body} {part : Part} (h : part ∈ b.parts) :
    sizeOf part ≤ sizeOf b := by
  cases b with
  | expr s e =>
    obtain rfl := List.mem_singleton.mp h
    simp only [expr.sizeOf_spec, Body.expr.sizeOf_spec]
    omega
  | block s ss =>
    obtain ⟨s', hs', hpart⟩ := List.mem_flatMap.mp h
    have hlt := List.sizeOf_lt_of_mem hs'
    have hle := sizeOf_inBlock hpart
    simp only [stmt.sizeOf_spec] at hle
    simp only [Body.block.sizeOf_spec]
    omega

theorem sizeOf_mem_exprs {es : List Expr} {part : Part} (h : part ∈ es.map expr) :
    sizeOf part ≤ sizeOf es := by
  obtain ⟨e, he, rfl⟩ := List.mem_map.mp h
  have hlt := List.sizeOf_lt_of_mem he
  simp only [expr.sizeOf_spec]
  omega

theorem sizeOf_mem_stmts {ss : List Stmt} {part : Part} (h : part ∈ ss.map stmt) :
    sizeOf part ≤ sizeOf ss := by
  obtain ⟨s, hs, rfl⟩ := List.mem_map.mp h
  have hlt := List.sizeOf_lt_of_mem hs
  simp only [stmt.sizeOf_spec]
  omega

theorem sizeOf_stmt_parts {s : Stmt} {part : Part} (h : part ∈ s.parts) :
    sizeOf part < sizeOf (stmt s) := by
  cases s with
  | declaration s d =>
    obtain rfl := List.mem_singleton.mp h
    simp only [declaration.sizeOf_spec, stmt.sizeOf_spec, Stmt.declaration.sizeOf_spec]
    omega
  | assign s t v =>
    simp only [Stmt.parts, List.mem_cons, List.not_mem_nil, or_false] at h
    rcases h with rfl | rfl <;>
      simp only [expr.sizeOf_spec, stmt.sizeOf_spec, Stmt.assign.sizeOf_spec] <;> omega
  | call s f es =>
    simp only [stmt.sizeOf_spec, Stmt.call.sizeOf_spec]
    rcases List.mem_cons.mp h with rfl | h
    · simp only [expr.sizeOf_spec]
      omega
    · have hle := sizeOf_mem_exprs h
      omega
  | ifThen s c t =>
    simp only [stmt.sizeOf_spec, Stmt.ifThen.sizeOf_spec]
    rcases List.mem_cons.mp h with rfl | h
    · simp only [expr.sizeOf_spec]
      omega
    · have hle := sizeOf_mem_stmts h
      omega
  | ifElse s c t e =>
    simp only [stmt.sizeOf_spec, Stmt.ifElse.sizeOf_spec]
    rcases List.mem_cons.mp h with rfl | h
    · simp only [expr.sizeOf_spec]
      omega
    · rw [List.map_append] at h
      rcases List.mem_append.mp h with h | h
      · have hle := sizeOf_mem_stmts h
        omega
      · have hle := sizeOf_mem_stmts h
        omega
  | loop s hd b =>
    simp only [stmt.sizeOf_spec, Stmt.loop.sizeOf_spec]
    rcases List.mem_cons.mp h with rfl | h
    · simp only [header.sizeOf_spec]
      omega
    · have hle := sizeOf_mem_stmts h
      omega
  | returnNothing s => simp [Stmt.parts] at h
  | breakLoop s => simp [Stmt.parts] at h
  | returnValue s e =>
    obtain rfl := List.mem_singleton.mp h
    simp only [expr.sizeOf_spec, stmt.sizeOf_spec, Stmt.returnValue.sizeOf_spec]
    omega
  | print s es =>
    have hle := sizeOf_mem_exprs h
    simp only [stmt.sizeOf_spec, Stmt.print.sizeOf_spec]
    omega

/-- The parts of a part are smaller, so there is induction along them. -/
theorem sizeOf_parts {part inner : Part} (h : inner ∈ part.parts) : sizeOf inner < sizeOf part := by
  cases part with
  | expr e =>
    cases he : (expr e).isFunction with
    | true =>
      cases e with
      | function s params result b =>
        have hle := sizeOf_body_parts h
        simp only [expr.sizeOf_spec, Expr.function.sizeOf_spec]
        omega
      | _ => simp [isFunction] at he
    | false =>
      rw [parts_expr he] at h
      obtain ⟨e', he', rfl⟩ := List.mem_map.mp h
      have hlt := Expr.sizeOf_parts he'
      simp only [expr.sizeOf_spec]
      omega
  | stmt s => exact sizeOf_stmt_parts h
  | clause s x e =>
    obtain ⟨start, stop, position⟩ := s
    obtain rfl := List.mem_singleton.mp h
    simp only [expr.sizeOf_spec, clause.sizeOf_spec, Span.mk.sizeOf_spec]
    omega
  | header hd =>
    cases hd with
    | items s x e =>
      obtain rfl := List.mem_singleton.mp h
      simp only [clause.sizeOf_spec, header.sizeOf_spec, Header.items.sizeOf_spec]
      omega
    | range s x a b =>
      simp only [parts, Header.parts, List.mem_cons, List.not_mem_nil, or_false] at h
      rcases h with rfl | rfl <;>
        simp only [clause.sizeOf_spec, expr.sizeOf_spec, header.sizeOf_spec,
          Header.range.sizeOf_spec] <;> omega
    | condition s e =>
      obtain rfl := List.mem_singleton.mp h
      simp only [expr.sizeOf_spec, header.sizeOf_spec, Header.condition.sizeOf_spec]
      omega
  | declaration d =>
    obtain ⟨s, x, t, v⟩ := d
    obtain rfl := List.mem_singleton.mp h
    simp only [expr.sizeOf_spec, declaration.sizeOf_spec, Declaration.mk.sizeOf_spec]
    omega

/-- What holds of every part whose parts have it holds of all. -/
theorem parts_induction {P : Part → Prop} (h : ∀ part, (∀ inner ∈ part.parts, P inner) → P part)
    (part : Part) : P part :=
  h part fun inner _ => parts_induction h inner
termination_by sizeOf part
decreasing_by exact sizeOf_parts ‹_›

/-! ## Openers in a text -/

/-- The text that a part covers. -/
def span : Part → Span
  | expr e => e.span
  | stmt s => s.span
  | clause s _ _ => s
  | header h => h.span
  | declaration d => d.span

/-- A part as a node. A clause has no node of its own. -/
def node : Part → Node
  | expr e | clause _ _ e => e.node
  | stmt s => s.node
  | header h => h.node
  | declaration d => d.node

theorem allOf_entries (es : List Entry) :
    (Node.allOf ((es.flatMap fun e => [e.key, e.value]).map Expr.node)).Sublist
      (Node.allOf (entryNodes es)) := by
  induction es with
  | nil => exact .refl _
  | cons e es ih =>
    obtain ⟨s, k, v⟩ := e
    simp only [List.flatMap_cons, List.map_append, List.map_cons, List.map_nil, Node.allOf_append,
      Node.allOf, entryNodes, Node.all, List.append_nil]
    exact .cons _ (.append (.refl _) ih)

theorem allOf_elements (es : List Element) :
    (Node.allOf ((es.map Element.value).map Expr.node)).Sublist (Node.allOf (elementNodes es)) := by
  induction es with
  | nil => exact .refl _
  | cons e es ih =>
    obtain ⟨s, x, v⟩ := e
    simp only [List.map_cons, Node.allOf, elementNodes, Node.all, List.append_nil]
    exact .cons _ (.append (.refl _) ih)

theorem allOf_inBlock (s : Stmt) : (Node.allOf (s.inBlock.map node)).Sublist s.node.all := by
  cases s with
  | returnNothing s => simp [Stmt.inBlock]
  | returnValue s e => simp [Stmt.inBlock, node]
  | _ =>
    simp only [Stmt.inBlock, List.map_cons, List.map_nil, Node.allOf, List.append_nil, node]
    exact .refl _

theorem allOf_body (b : Body) : (Node.allOf (b.parts.map node)).Sublist b.node.all := by
  cases b with
  | expr s e => simp [Body.parts, node]
  | block s ss =>
    rw [Node.all_eq]
    refine .cons _ ?_
    show (Node.allOf ((ss.flatMap Stmt.inBlock).map node)).Sublist (Node.allOf (stmtNodes ss))
    induction ss with
    | nil => exact .refl _
    | cons s' ss ih =>
      rw [List.flatMap_cons, List.map_append, Node.allOf_append, stmtNodes, Node.allOf]
      exact (allOf_inBlock s').append ih

theorem map_node_exprs (es : List Expr) : es.map (node ∘ expr) = exprNodes es := by
  rw [exprNodes_eq_map]
  rfl

theorem map_node_stmts (ss : List Stmt) : ss.map (node ∘ stmt) = stmtNodes ss := by
  rw [stmtNodes_eq_map]
  rfl

theorem allOf_expr_parts {e : Expr} (he : (expr e).isFunction = false) :
    (Node.allOf (e.parts.map Expr.node)).Sublist (Node.allOf e.node.inner) := by
  cases e with
  | function s params result b => simp [isFunction] at he
  | map s es => exact allOf_entries es
  | tuple s es => exact allOf_elements es
  | array s es => simp [Expr.parts, exprNodes_eq_map]
  | call s f es => simp [Expr.parts, exprNodes_eq_map]
  | _ => simp [Expr.parts]

theorem allOf_stmt_parts (s : Stmt) :
    (Node.allOf (s.parts.map node)).Sublist (Node.allOf s.node.inner) := by
  cases s <;> simp [Stmt.parts, map_node_exprs, map_node_stmts, node]

/-- The nodes of a part and of its parts are found in the same order among all nodes. -/
theorem self_parts_sublist (part : Part) :
    (part.self.map node ++ Node.allOf (part.parts.map node)).Sublist part.node.all := by
  cases part with
  | expr e =>
    cases he : (expr e).isFunction with
    | true =>
      cases e with
      | function s params result b =>
        have hbody := allOf_body b
        simp only [self, opens, isFunction, Bool.true_or, if_true, List.map_cons, List.map_nil, node,
          parts, Node.all_eq (Expr.node _)]
        refine .cons_cons _ ?_
        simp only [Expr.node, Node.inner_mk, Node.allOf_append, Node.allOf, List.append_nil]
        exact (hbody.trans (List.sublist_append_right _ _)).trans (List.sublist_append_right _ _)
      | _ => simp [isFunction] at he
    | false =>
      have hself : (expr e).self = [] := by simp [self, opens, he, isLoop]
      rw [hself, parts_expr he, List.map_map, Node.all_eq]
      exact .cons _ (allOf_expr_parts he)
  | stmt s =>
    rw [Node.all_eq]
    cases hs : (stmt s).isLoop with
    | true =>
      have hself : (stmt s).self = [stmt s] := by simp [self, opens, hs]
      rw [hself]
      exact .cons_cons _ (allOf_stmt_parts s)
    | false =>
      have hself : (stmt s).self = [] := by simp [self, opens, hs, isFunction]
      rw [hself]
      exact .cons _ (allOf_stmt_parts s)
  | clause s x e => simp [self, opens, isFunction, isLoop, parts, node]
  | header hd => cases hd <;> simp [self, opens, isFunction, isLoop, parts, Header.parts, node]
  | declaration d =>
    obtain ⟨s, x, t, v⟩ := d
    simp only [self, opens, isFunction, isLoop, parts, node, Declaration.node, Node.all_eq (Node.mk _ _ _),
      Node.inner_mk, Node.allOf_append]
    exact .cons _ (List.sublist_append_right _ _)

end Part

theorem exists_of_mem_partsOpeners {bound : List String} {parts : List Part} {opener : Part}
    (h : opener ∈ partsOpeners bound parts) :
    ∃ part ∈ parts, ∃ bound', opener ∈ part.openers bound' := by
  induction parts generalizing bound with
  | nil => cases h
  | cons part rest ih =>
    rcases List.mem_append.mp h with h | h
    · exact ⟨part, List.mem_cons_self, bound, h⟩
    · obtain ⟨part', hpart', hopener⟩ := ih h
      exact ⟨part', List.mem_cons_of_mem _ hpart', hopener⟩

theorem partsOpeners_sublist {parts : List Part}
    (h : ∀ part ∈ parts, ∀ bound, ((part.openers bound).map Part.node).Sublist part.node.all)
    (bound : List String) :
    ((partsOpeners bound parts).map Part.node).Sublist (Node.allOf (parts.map Part.node)) := by
  induction parts generalizing bound with
  | nil => exact .refl _
  | cons part rest ih =>
    rw [partsOpeners, List.map_append, List.map_cons, Node.allOf]
    exact (h part List.mem_cons_self bound).append
      (ih (fun q hq => h q (List.mem_cons_of_mem _ hq)) _)

namespace Part

/-- Openers are found in the same order among all nodes of a part. -/
theorem openers_sublist (part : Part) (bound : List String) :
    ((part.openers bound).map node).Sublist part.node.all := by
  induction part using parts_induction generalizing bound with
  | h part ih =>
    cases hrefused : part.isRefused bound with
    | true =>
      rw [openers_of_isRefused hrefused]
      exact List.nil_sublist _
    | false =>
      rw [openers_eq hrefused, List.map_append]
      exact ((List.Sublist.refl _).append (partsOpeners_sublist ih _)).trans
        (self_parts_sublist part)

theorem opens_of_mem_openers {part opener : Part} {bound : List String}
    (h : opener ∈ part.openers bound) : opener.opens = true := by
  induction part using parts_induction generalizing bound with
  | h part ih =>
    cases hrefused : part.isRefused bound with
    | true =>
      rw [openers_of_isRefused hrefused] at h
      cases h
    | false =>
      rw [openers_eq hrefused] at h
      rcases List.mem_append.mp h with hself | hparts
      · unfold self at hself
        split at hself
        · next hopens =>
          obtain rfl := List.mem_singleton.mp hself
          exact hopens
        · cases hself
      · obtain ⟨part', hpart', bound', hopener⟩ := exists_of_mem_partsOpeners hparts
        exact ih part' hpart' hopener

theorem opens_node {part : Part} (h : part.opens = true) :
    part.node.Opens ∧ part.node.span = part.span := by
  obtain ⟨s, params, result, b, rfl⟩ | ⟨s, hd, b, rfl⟩ := exists_of_opens h
  · refine ⟨Or.inl ⟨rfl, ?_⟩, rfl⟩
    simp [node]
  · exact ⟨Or.inr ⟨rfl, hd.node, stmtNodes b, rfl, Header.sort_node hd⟩, rfl⟩

end Part

/-- In a program that was read from a text, the openers begin one behind the other. -/
theorem Program.openers_ascending {text : List Char} {p : Program}
    (h : Program.ofText text = .ok p) :
    p.openers.Pairwise fun a b => a.span.start < b.span.start := by
  obtain ⟨ts, hlaidOut⟩ := laidOut_of_ofText h
  obtain ⟨b, hlaid⟩ := hlaidOut.laid
  have hnodes : (p.declarations.map Part.declaration).map Part.node = p.nodes := by
    rw [List.map_map]
    rfl
  have hsublist : (p.openers.map Part.node).Sublist (Node.allOf p.nodes) := by
    rw [← hnodes]
    exact partsOpeners_sublist (fun part _ => part.openers_sublist) []
  have hascending := (Node.opens_ascending hlaid.orderly hlaid.startsBare hlaid.ordered).sublist
    hsublist
  refine (List.pairwise_map.mp hascending).imp_of_mem fun ha hb hlt => ?_
  obtain ⟨_, _, _, ha⟩ := exists_of_mem_partsOpeners ha
  obtain ⟨_, _, _, hb⟩ := exists_of_mem_partsOpeners hb
  obtain ⟨ha, hspan⟩ := Part.opens_node (Part.opens_of_mem_openers ha)
  obtain ⟨hb, hspan'⟩ := Part.opens_node (Part.opens_of_mem_openers hb)
  rw [← hspan, ← hspan']
  exact hlt ha hb

end ExprCheck
