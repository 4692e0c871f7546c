/-!
# Scopes

A program has one main scope, one scope for each function literal and one for each loop. Scopes of
one sort are numbered in the order in which they are entered, and a number is never used twice.

The numbers have no bound here. Where they are kept in 32 bits, scopes are told apart in the same
way as long as fewer than `2 ^ 32` function literals and fewer than `2 ^ 32` loops are entered.
-/

namespace ExprCheck

/-- A scope. -/
inductive Scope where
  /-- The scope of the top-level declarations. -/
  | main
  /-- The scope of the function literal entered as number `n`. -/
  | function (n : Nat)
  /-- The scope of the loop entered as number `n`. -/
  | loop (n : Nat)
deriving DecidableEq, Repr

namespace Scope

/-- How a scope is shown. -/
def render : Scope → String
  | main => "main"
  | function n => s!"function{n}"
  | loop n => s!"loop{n}"

/-- The sort of a scope and its number, in the order in which scopes are listed. -/
def rank : Scope → Nat × Nat
  | main => (0, 0)
  | function n => (1, n)
  | loop n => (2, n)

/-- Listing order: the main scope, then functions, then loops, each by number. -/
def order (a b : Scope) : Ordering :=
  (compare a.rank.1 b.rank.1).then (compare a.rank.2 b.rank.2)

end Scope

/-- The scopes that are open at a point of the program, and the numbers used so far. The two
counters agree with counters of 32 bits until one of them reaches `2 ^ 32`. -/
structure ScopeStack where
  /-- The open scopes, the innermost first. -/
  active : List Scope
  /-- The number for the next function literal. -/
  nextFunction : Nat
  /-- The number for the next loop. -/
  nextLoop : Nat
deriving DecidableEq, Repr

namespace ScopeStack

/-- Only the main scope is open. -/
def initial : ScopeStack := ⟨[.main], 0, 0⟩

instance : Inhabited ScopeStack := ⟨initial⟩

/-- The innermost open scope. -/
def current (s : ScopeStack) : Scope := s.active.headD .main

/-- Enter the scope of a function literal. -/
def pushFunction (s : ScopeStack) : ScopeStack :=
  { s with active := .function s.nextFunction :: s.active, nextFunction := s.nextFunction + 1 }

/-- Enter the scope of a loop. -/
def pushLoop (s : ScopeStack) : ScopeStack :=
  { s with active := .loop s.nextLoop :: s.active, nextLoop := s.nextLoop + 1 }

/-- The scope that `pop` leaves, if any: the outermost scope is never left. -/
def popped? (s : ScopeStack) : Option Scope :=
  match s.active with
  | inner :: _ :: _ => some inner
  | _ => none

/-- Leave the innermost scope. -/
def pop (s : ScopeStack) : ScopeStack :=
  match s.active with
  | _ :: outer :: rest => { s with active := outer :: rest }
  | _ => s

end ScopeStack

end ExprCheck
