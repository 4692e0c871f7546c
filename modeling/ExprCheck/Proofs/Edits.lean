import Mathlib
import ExprCheck.Ty

/-!
# Edits that keep the shape of a program

Two versions of a program that are read or checked alike differ in where their nodes stand, or in
annotations that one of them leaves out. An `Edit` says what becomes of these: of the text that a
node covers, of the annotation of a declaration and of the annotation of a result. Everything else
of a tree stays. Moving a program within a file and forgetting its layout are edits, and so is
striking annotations out.

A tree is `bare` once it is forgotten which text each of its nodes covers. Two trees are the same up
to spans if their bare trees are equal.
-/

namespace ExprCheck

/-! ## Annotations -/

mutual

@[simp]
def TypeExpr.move (f : Span → Span) : TypeExpr → TypeExpr
  | .primitive s p => .primitive (f s) p
  | .func s params result => .func (f s) (moveTypes f params) (result.move f)
  | .array s element => .array (f s) (element.move f)
  | .map s key value => .map (f s) (key.move f) (value.move f)
  | .tuple s fields => .tuple (f s) (moveTypes f fields)

@[simp]
def moveTypes (f : Span → Span) : List TypeExpr → List TypeExpr
  | [] => []
  | t :: ts => t.move f :: moveTypes f ts

end

/-- Moving is a mutual recursion over types and lists of types; on a list it is a map. -/
theorem moveTypes_eq_map (f : Span → Span) (ts : List TypeExpr) :
    moveTypes f ts = ts.map (TypeExpr.move f) := by
  induction ts with
  | nil => rfl
  | cons t ts ih => rw [moveTypes, ih, List.map_cons]

mutual

/-- An annotation writes the same type wherever it stands. -/
theorem Ty.ofTypeExpr_move (f : Span → Span) :
    (t : TypeExpr) → Ty.ofTypeExpr (t.move f) = Ty.ofTypeExpr t
  | .primitive _ _ => by simp only [TypeExpr.move, Ty.ofTypeExpr]
  | .func _ params result => by
    simp only [TypeExpr.move, Ty.ofTypeExpr, Ty.ofTypeExprs_moveTypes f params,
      Ty.ofTypeExpr_move f result]
  | .array _ element => by
    simp only [TypeExpr.move, Ty.ofTypeExpr, Ty.ofTypeExpr_move f element]
  | .map _ key value => by
    simp only [TypeExpr.move, Ty.ofTypeExpr, Ty.ofTypeExpr_move f key, Ty.ofTypeExpr_move f value]
  | .tuple _ fields => by
    simp only [TypeExpr.move, Ty.ofTypeExpr, Ty.ofTypeExprs_moveTypes f fields]

theorem Ty.ofTypeExprs_moveTypes (f : Span → Span) :
    (ts : List TypeExpr) → Ty.ofTypeExprs (moveTypes f ts) = Ty.ofTypeExprs ts
  | [] => by simp only [moveTypes]
  | t :: ts => by
    simp only [moveTypes, Ty.ofTypeExprs, Ty.ofTypeExpr_move f t, Ty.ofTypeExprs_moveTypes f ts]

end

/-- The same of an annotation that may be missing. -/
theorem Ty.map_ofTypeExpr_move (f : Span → Span) (t : Option TypeExpr) :
    (t.map (TypeExpr.move f)).map Ty.ofTypeExpr = t.map Ty.ofTypeExpr := by
  cases t with
  | none => rfl
  | some t => exact congrArg some (Ty.ofTypeExpr_move f t)

/-! ## Edits -/

/-- What becomes of the parts of a tree that its shape does not depend on. -/
structure Edit where
  /-- The text that a node covers. -/
  span : Span → Span
  /-- The annotation of a declaration. -/
  declared : Option TypeExpr → Option TypeExpr
  /-- The annotation of the result of a function literal. -/
  result : Option TypeExpr → Option TypeExpr

namespace Edit

/-- Nothing is changed. -/
def same : Edit := ⟨id, id, id⟩

@[simp] theorem same_span (s : Span) : same.span s = s := rfl

@[simp] theorem same_declared (t : Option TypeExpr) : same.declared t = t := rfl

@[simp] theorem same_result (t : Option TypeExpr) : same.result t = t := rfl

/-- Every node is moved, annotations too. -/
def moving (f : Span → Span) : Edit :=
  ⟨f, Option.map (TypeExpr.move f), Option.map (TypeExpr.move f)⟩

@[simp] theorem moving_span (f : Span → Span) (s : Span) : (moving f).span s = f s := rfl

@[simp] theorem moving_declared (f : Span → Span) (t : Option TypeExpr) :
    (moving f).declared t = t.map (TypeExpr.move f) := rfl

@[simp] theorem moving_result (f : Span → Span) (t : Option TypeExpr) :
    (moving f).result t = t.map (TypeExpr.move f) := rfl

end Edit

def Param.edit (r : Edit) (p : Param) : Param :=
  ⟨r.span p.span, p.name, p.typeExpr.map (TypeExpr.move r.span)⟩

mutual

@[simp]
def Expr.edit (r : Edit) : Expr → Expr
  | .literal s v => .literal (r.span s) v
  | .var s x => .var (r.span s) x
  | .binary s op left right => .binary (r.span s) op (left.edit r) (right.edit r)
  | .conditional s p t e => .conditional (r.span s) (p.edit r) (t.edit r) (e.edit r)
  | .function s ps result b =>
    .function (r.span s) (ps.map (Param.edit r)) (r.result result) (b.edit r)
  | .array s es => .array (r.span s) (editExprs r es)
  | .map s es => .map (r.span s) (editEntries r es)
  | .tuple s es => .tuple (r.span s) (editElements r es)
  | .call s f es => .call (r.span s) (f.edit r) (editExprs r es)
  | .index s t i => .index (r.span s) (t.edit r) (i.edit r)
  | .field s t x => .field (r.span s) (t.edit r) x
  | .ordinal s t n => .ordinal (r.span s) (t.edit r) n

@[simp]
def editExprs (r : Edit) : List Expr → List Expr
  | [] => []
  | e :: es => e.edit r :: editExprs r es

@[simp]
def Entry.edit (r : Edit) : Entry → Entry
  | ⟨s, k, v⟩ => ⟨r.span s, k.edit r, v.edit r⟩

@[simp]
def editEntries (r : Edit) : List Entry → List Entry
  | [] => []
  | e :: es => e.edit r :: editEntries r es

@[simp]
def Element.edit (r : Edit) : Element → Element
  | ⟨s, x, e⟩ => ⟨r.span s, x, e.edit r⟩

@[simp]
def editElements (r : Edit) : List Element → List Element
  | [] => []
  | e :: es => e.edit r :: editElements r es

@[simp]
def Body.edit (r : Edit) : Body → Body
  | .expr s e => .expr (r.span s) (e.edit r)
  | .block s ss => .block (r.span s) (editStmts r ss)

@[simp]
def Stmt.edit (r : Edit) : Stmt → Stmt
  | .declaration s d => .declaration (r.span s) (d.edit r)
  | .assign s t e => .assign (r.span s) (t.edit r) (e.edit r)
  | .call s f es => .call (r.span s) (f.edit r) (editExprs r es)
  | .ifThen s c ss => .ifThen (r.span s) (c.edit r) (editStmts r ss)
  | .ifElse s c ss rs => .ifElse (r.span s) (c.edit r) (editStmts r ss) (editStmts r rs)
  | .loop s h ss => .loop (r.span s) (h.edit r) (editStmts r ss)
  | .returnNothing s => .returnNothing (r.span s)
  | .returnValue s e => .returnValue (r.span s) (e.edit r)
  | .breakLoop s => .breakLoop (r.span s)
  | .print s es => .print (r.span s) (editExprs r es)

@[simp]
def editStmts (r : Edit) : List Stmt → List Stmt
  | [] => []
  | s :: ss => s.edit r :: editStmts r ss

@[simp]
def Header.edit (r : Edit) : Header → Header
  | .items s x e => .items (r.span s) x (e.edit r)
  | .range s x a b => .range (r.span s) x (a.edit r) (b.edit r)
  | .condition s c => .condition (r.span s) (c.edit r)

@[simp]
def Declaration.edit (r : Edit) : Declaration → Declaration
  | ⟨s, x, t, e⟩ => ⟨r.span s, x, r.declared t, e.edit r⟩

end

def Program.edit (r : Edit) (p : Program) : Program :=
  ⟨r.span p.span, p.declarations.map (Declaration.edit r)⟩

theorem editExprs_eq_map (r : Edit) (es : List Expr) : editExprs r es = es.map (Expr.edit r) := by
  induction es with
  | nil => rfl
  | cons e es ih => rw [editExprs, ih, List.map_cons]

theorem editEntries_eq_map (r : Edit) (es : List Entry) :
    editEntries r es = es.map (Entry.edit r) := by
  induction es with
  | nil => rfl
  | cons e es ih => rw [editEntries, ih, List.map_cons]

theorem editElements_eq_map (r : Edit) (es : List Element) :
    editElements r es = es.map (Element.edit r) := by
  induction es with
  | nil => rfl
  | cons e es ih => rw [editElements, ih, List.map_cons]

/-- What an edited expression covers depends only on what the expression covers. -/
@[simp]
theorem Expr.span_edit (r : Edit) (e : Expr) : (e.edit r).span = r.span e.span := by
  cases e <;> simp only [Expr.edit, Expr.span]

/-- Putting an expression in parentheses commutes with editing it. -/
theorem Expr.edit_withSpan (r : Edit) (s : Span) (e : Expr) :
    (e.withSpan s).edit r = (e.edit r).withSpan (r.span s) := by
  cases e <;> simp only [Expr.withSpan, Expr.edit]

@[simp]
theorem Body.span_edit (r : Edit) (b : Body) : (b.edit r).span = r.span b.span := by
  cases b <;> simp only [Body.edit, Body.span]

@[simp]
theorem Declaration.span_edit (r : Edit) (d : Declaration) : (d.edit r).span = r.span d.span := by
  obtain ⟨s, x, t, e⟩ := d
  simp only [Declaration.edit]

/-! ## Trees without spans -/

/-- Everything is moved to the origin. -/
def toOrigin : Span → Span := fun _ => Span.origin

/-- It is forgotten which text the nodes cover. -/
def Edit.forget : Edit := .moving toOrigin

abbrev TypeExpr.bare : TypeExpr → TypeExpr := TypeExpr.move toOrigin

abbrev Param.bare : Param → Param := Param.edit .forget

abbrev Expr.bare : Expr → Expr := Expr.edit .forget

abbrev Entry.bare : Entry → Entry := Entry.edit .forget

abbrev Element.bare : Element → Element := Element.edit .forget

abbrev Body.bare : Body → Body := Body.edit .forget

abbrev Stmt.bare : Stmt → Stmt := Stmt.edit .forget

abbrev Header.bare : Header → Header := Header.edit .forget

abbrev Declaration.bare : Declaration → Declaration := Declaration.edit .forget

/-- The program with no node covering any text: what of it does not depend on layout. -/
abbrev Program.bare : Program → Program := Program.edit .forget

/-- A bare tree is simplified to bare parts: `forget` and `moving` do not show in what is left. -/
@[simp] theorem Edit.forget_span (s : Span) : forget.span s = Span.origin := rfl

@[simp] theorem Edit.forget_declared (t : Option TypeExpr) :
    forget.declared t = t.map TypeExpr.bare := rfl

@[simp] theorem Edit.forget_result (t : Option TypeExpr) :
    forget.result t = t.map TypeExpr.bare := rfl

/-- A bare parameter keeps its name and the shape of its annotation. -/
theorem Param.bare_mk (s : Span) (x : String) (t : Option TypeExpr) :
    Param.bare ⟨s, x, t⟩ = ⟨Span.origin, x, t.map TypeExpr.bare⟩ := rfl

/-- Parentheses change what an expression covers and nothing else. -/
@[simp]
theorem bare_withSpan (s : Span) (e : Expr) : (e.withSpan s).bare = e.bare := by
  cases e <;> simp only [Expr.withSpan, Expr.edit, Edit.forget_span]

/-! ## The edit that changes nothing -/

mutual

/-- An annotation whose parts are all moved to where they stand is the same annotation. -/
theorem TypeExpr.move_id : (t : TypeExpr) → t.move id = t
  | .primitive _ _ => by simp only [TypeExpr.move, id]
  | .func _ params result => by
    simp only [TypeExpr.move, id, moveTypes_id params, TypeExpr.move_id result]
  | .array _ element => by simp only [TypeExpr.move, id, TypeExpr.move_id element]
  | .map _ key value => by
    simp only [TypeExpr.move, id, TypeExpr.move_id key, TypeExpr.move_id value]
  | .tuple _ fields => by simp only [TypeExpr.move, id, moveTypes_id fields]

theorem moveTypes_id : (ts : List TypeExpr) → moveTypes id ts = ts
  | [] => by simp only [moveTypes]
  | t :: ts => by simp only [moveTypes, TypeExpr.move_id t, moveTypes_id ts]

end

theorem TypeExpr.map_move_id (t : Option TypeExpr) : t.map (TypeExpr.move id) = t := by
  cases t with
  | none => rfl
  | some t => exact congrArg some t.move_id

/-- A move that moves nothing is the edit that changes nothing. -/
theorem Edit.moving_id : Edit.moving id = .same := by
  rw [Edit.moving, funext TypeExpr.map_move_id]
  rfl

theorem Param.edit_same (p : Param) : p.edit .same = p := by
  simp only [Param.edit, Edit.same, id, TypeExpr.map_move_id]

/-- The parameters of a function literal, all at once. -/
theorem Param.map_edit_same (ps : List Param) : ps.map (Param.edit .same) = ps := by
  rw [funext Param.edit_same]
  exact List.map_id' ps

mutual

/-- An edit that keeps every span and every annotation keeps the tree. -/
theorem Expr.edit_same : (e : Expr) → e.edit .same = e
  | .literal _ _ | .var _ _ => by simp only [Expr.edit, Edit.same_span]
  | .binary _ _ l r => by
    simp only [Expr.edit, Expr.edit_same l, Expr.edit_same r, Edit.same_span]
  | .conditional _ p t e => by
    simp only [Expr.edit, Expr.edit_same p, Expr.edit_same t, Expr.edit_same e, Edit.same_span]
  | .function _ ps r b => by
    simp only [Expr.edit, Param.map_edit_same, Body.edit_same b, Edit.same_span, Edit.same_result]
  | .array _ es => by simp only [Expr.edit, editExprs_same es, Edit.same_span]
  | .map _ es => by simp only [Expr.edit, editEntries_same es, Edit.same_span]
  | .tuple _ es => by simp only [Expr.edit, editElements_same es, Edit.same_span]
  | .call _ f es => by simp only [Expr.edit, Expr.edit_same f, editExprs_same es, Edit.same_span]
  | .index _ t i => by simp only [Expr.edit, Expr.edit_same t, Expr.edit_same i, Edit.same_span]
  | .field _ t _ | .ordinal _ t _ => by
    simp only [Expr.edit, Expr.edit_same t, Edit.same_span]

theorem editExprs_same : (es : List Expr) → editExprs .same es = es
  | [] => by simp only [editExprs]
  | e :: es => by simp only [editExprs, Expr.edit_same e, editExprs_same es]

theorem Entry.edit_same : (e : Entry) → e.edit .same = e
  | ⟨_, k, v⟩ => by simp only [Entry.edit, Expr.edit_same k, Expr.edit_same v, Edit.same_span]

theorem editEntries_same : (es : List Entry) → editEntries .same es = es
  | [] => by simp only [editEntries]
  | e :: es => by simp only [editEntries, Entry.edit_same e, editEntries_same es]

theorem Element.edit_same : (e : Element) → e.edit .same = e
  | ⟨_, _, v⟩ => by simp only [Element.edit, Expr.edit_same v, Edit.same_span]

theorem editElements_same : (es : List Element) → editElements .same es = es
  | [] => by simp only [editElements]
  | e :: es => by simp only [editElements, Element.edit_same e, editElements_same es]

theorem Body.edit_same : (b : Body) → b.edit .same = b
  | .expr _ e => by simp only [Body.edit, Expr.edit_same e, Edit.same_span]
  | .block _ ss => by simp only [Body.edit, editStmts_same ss, Edit.same_span]

theorem Stmt.edit_same : (s : Stmt) → s.edit .same = s
  | .declaration _ d => by simp only [Stmt.edit, Declaration.edit_same d, Edit.same_span]
  | .assign _ t e => by simp only [Stmt.edit, Expr.edit_same t, Expr.edit_same e, Edit.same_span]
  | .call _ f es => by simp only [Stmt.edit, Expr.edit_same f, editExprs_same es, Edit.same_span]
  | .ifThen _ c ss => by simp only [Stmt.edit, Expr.edit_same c, editStmts_same ss, Edit.same_span]
  | .ifElse _ c ss rs => by
    simp only [Stmt.edit, Expr.edit_same c, editStmts_same ss, editStmts_same rs, Edit.same_span]
  | .loop _ h ss => by simp only [Stmt.edit, Header.edit_same h, editStmts_same ss, Edit.same_span]
  | .returnNothing _ | .breakLoop _ => by simp only [Stmt.edit, Edit.same_span]
  | .returnValue _ e => by simp only [Stmt.edit, Expr.edit_same e, Edit.same_span]
  | .print _ es => by simp only [Stmt.edit, editExprs_same es, Edit.same_span]

theorem editStmts_same : (ss : List Stmt) → editStmts .same ss = ss
  | [] => by simp only [editStmts]
  | s :: ss => by simp only [editStmts, Stmt.edit_same s, editStmts_same ss]

theorem Header.edit_same : (h : Header) → h.edit .same = h
  | .items _ _ e => by simp only [Header.edit, Expr.edit_same e, Edit.same_span]
  | .range _ _ a b => by simp only [Header.edit, Expr.edit_same a, Expr.edit_same b, Edit.same_span]
  | .condition _ c => by simp only [Header.edit, Expr.edit_same c, Edit.same_span]

theorem Declaration.edit_same : (d : Declaration) → d.edit .same = d
  | ⟨_, _, _, e⟩ => by
    simp only [Declaration.edit, Expr.edit_same e, Edit.same_span, Edit.same_declared]

end

/-- The declarations of a program, all at once. -/
theorem Declaration.map_edit_same (ds : List Declaration) :
    ds.map (Declaration.edit .same) = ds := by
  rw [funext Declaration.edit_same]
  exact List.map_id ds

end ExprCheck
