import Mathlib
import ExprCheck.Session
import ExprCheck.Proofs.Patterns
import ExprCheck.Proofs.Scopes
import ExprCheck.Proofs.TypeText

/-!
# The listing of a symbol table

The listing of a symbol table and what the table says about each slot determine each other.

A table holds one symbol at most in a slot, so the order of slots, which is total, leaves its bindings
only one order to be listed in. And each line of a listing can be read back: a scope and a name end at
the first colon, the text of a type shows where it ends, a kind ends at a parenthesis and the mark of a
poisoned symbol at the end of the line.
-/

namespace ExprCheck

/-! ## The order of slots -/

/-- Listing order of scopes: the main scope, functions by number, loops by number. -/
@[mk_iff]
inductive Scope.Precedes : Scope → Scope → Prop where
  | mainFunction (n : Nat) : Precedes .main (.function n)
  | mainLoop (n : Nat) : Precedes .main (.loop n)
  | functions {m n : Nat} (h : m < n) : Precedes (.function m) (.function n)
  | functionLoop (m n : Nat) : Precedes (.function m) (.loop n)
  | loops {m n : Nat} (h : m < n) : Precedes (.loop m) (.loop n)

/-- Listing order of slots: by scope, in one scope by name. -/
def Slot.Precedes (a b : Slot) : Prop :=
  a.scope.Precedes b.scope ∨ a.scope = b.scope ∧ a.name < b.name

namespace Scope

theorem order_eq_lt {a b : Scope} : a.order b = .lt ↔ a.Precedes b := by
  rw [order, Ordering.then_eq_lt, compare_lt_iff_lt, compare_eq_iff_eq, compare_lt_iff_lt]
  cases a <;> cases b <;> simp [rank, precedes_iff]

theorem order_eq_eq {a b : Scope} : a.order b = .eq ↔ a = b := by
  rw [order, Ordering.then_eq_eq, compare_eq_iff_eq, compare_eq_iff_eq]
  cases a <;> cases b <;> simp [rank]

end Scope

namespace Slot

instance : Std.TransCmp order := inferInstanceAs (Std.TransCmp
  (compareLex (compareLex (compareOn fun s : Slot => s.scope.rank.1)
    (compareOn fun s => s.scope.rank.2)) (compareOn name)))

theorem order_eq_lt {a b : Slot} : a.order b = .lt ↔ a.Precedes b := by
  rw [order, Ordering.then_eq_lt, Scope.order_eq_lt, Scope.order_eq_eq, compare_lt_iff_lt, Precedes]

theorem order_eq_eq {a b : Slot} : a.order b = .eq ↔ a = b := by
  rw [order, Ordering.then_eq_eq, Scope.order_eq_eq, compare_eq_iff_eq, Slot.mk.injEq]

theorem Precedes.asymm {a b : Slot} (h : a.Precedes b) : ¬ b.Precedes a := by
  rw [← order_eq_lt] at h ⊢
  rw [Std.OrientedCmp.gt_of_lt h]
  decide

end Slot

namespace SymbolTable

/-! ## Bindings -/

/-- The table arises from the empty one by putting symbols into free slots. -/
inductive Built : SymbolTable → Prop where
  | empty : Built .empty
  | define {t t' : SymbolTable} {slot : Slot} {symbol : Symbol} (ht : Built t)
      (h : t.define? slot symbol = some t') : Built t'

/-- No slot holds two symbols. -/
def Distinct (t : SymbolTable) : Prop := (t.bindings.map Prod.fst).Nodup

theorem contains_eq_false_iff_notMem {t : SymbolTable} {slot : Slot} :
    t.contains slot = false ↔ slot ∉ t.bindings.map Prod.fst := by
  rw [contains_eq_false, get?, List.lookup_eq_none_iff]
  simp only [bne_iff_ne, List.mem_map, not_exists, not_and]
  exact forall₂_congr fun _ _ => ne_comm

/-- These are the tables that can arise. -/
theorem built_iff_distinct {t : SymbolTable} : t.Built ↔ t.Distinct := by
  constructor
  · intro h
    induction h with
    | empty => exact List.nodup_nil
    | @define t t' slot symbol _ hdef ih =>
      unfold define? at hdef
      split at hdef
      · cases hdef
      · next hfree =>
        obtain rfl := Option.some.inj hdef
        have hnew := contains_eq_false_iff_notMem.mp (Bool.eq_false_iff.mpr hfree)
        exact List.nodup_cons.mpr ⟨hnew, ih⟩
  · obtain ⟨bindings⟩ := t
    intro h
    induction bindings with
    | nil => exact .empty
    | cons b older ih =>
      obtain ⟨hfree, holder⟩ := List.nodup_cons.mp h
      have hnew : contains ⟨older⟩ b.1 = false := contains_eq_false_iff_notMem.mpr hfree
      have hdef : define? ⟨older⟩ b.1 b.2 = some ⟨b :: older⟩ := by
        rw [define?, if_neg (Bool.eq_false_iff.mp hnew)]
      exact .define (ih holder) hdef

section Entries

variable {t t' : SymbolTable}

theorem get?_eq_some_iff (ht : t.Distinct) {slot : Slot} {symbol : Symbol} :
    t.get? slot = some symbol ↔ (slot, symbol) ∈ t.bindings := by
  rw [get?, List.lookup_eq_some_iff]
  constructor
  · rintro ⟨newer, older, hsplit, -⟩
    simp [hsplit]
  · intro hmem
    obtain ⟨newer, older, hsplit⟩ := List.append_of_mem hmem
    refine ⟨newer, older, hsplit, fun b hb => ?_⟩
    rw [Distinct, hsplit, List.map_append, List.nodup_append] at ht
    simpa using (ht.2.2 b.1 (List.mem_map_of_mem hb) slot (by simp)).symm

theorem perm_entries (t : SymbolTable) : t.entries.Perm t.bindings := List.mergeSort_perm _ _

theorem pairwise_entries (ht : t.Distinct) :
    t.entries.Pairwise fun a b => a.1.Precedes b.1 := by
  have hsorted : t.entries.Pairwise fun a b => (a.1.order b.1).isLE = true := by
    refine List.pairwise_mergeSort (fun a b c => Std.TransCmp.isLE_trans) (fun a b => ?_) _
    have hturn : (a.1.order b.1).isGE = (b.1.order a.1).isLE := Std.OrientedCmp.isGE_eq_isLE
    rw [← hturn]
    cases a.1.order b.1 <;> rfl
  have hslots : t.entries.Pairwise fun a b => a.1 ≠ b.1 :=
    List.pairwise_map.mp ((t.perm_entries.map Prod.fst).nodup_iff.mpr ht)
  refine (hsorted.and hslots).imp fun ⟨hle, hne⟩ => Slot.order_eq_lt.mp ?_
  exact (Ordering.isLE_iff_eq_lt_or_eq_eq.mp hle).resolve_right fun h => hne (Slot.order_eq_eq.mp h)

/-- The bindings of a table can be listed in one order only. -/
theorem entries_eq_of_perm (ht : t.Distinct) (h : t'.bindings.Perm t.bindings) :
    t'.entries = t.entries := by
  have ht' : t'.Distinct := (h.map Prod.fst).nodup_iff.mpr ht
  exact List.Perm.eq_of_pairwise (fun a b _ _ hab hba => absurd hba hab.asymm) (pairwise_entries ht')
    (pairwise_entries ht) ((t'.perm_entries.trans h).trans t.perm_entries.symm)

theorem entries_eq_iff (ht : t.Distinct) (ht' : t'.Distinct) :
    t.entries = t'.entries ↔ ∀ slot, t.get? slot = t'.get? slot := by
  constructor
  · intro h slot
    refine Option.ext fun symbol => ?_
    rw [get?_eq_some_iff ht, get?_eq_some_iff ht', ← t.perm_entries.mem_iff, h,
      t'.perm_entries.mem_iff]
  · intro h
    refine entries_eq_of_perm ht' ((List.perm_ext_iff_of_nodup ht.of_map ht'.of_map).mpr ?_)
    rintro ⟨slot, symbol⟩
    rw [← get?_eq_some_iff ht, ← get?_eq_some_iff ht', h]

/-- Every binding is listed, and only once. -/
theorem count_entries (ht : t.Distinct) (slot : Slot) (symbol : Symbol) :
    t.entries.count (slot, symbol) = if t.get? slot = some symbol then 1 else 0 := by
  rw [t.perm_entries.count_eq]
  split
  · next h => exact List.count_eq_one_of_mem ht.of_map ((get?_eq_some_iff ht).mp h)
  · next h => exact List.count_eq_zero.mpr fun hmem => h ((get?_eq_some_iff ht).mpr hmem)

end Entries

end SymbolTable

/-! ## Reading a line back -/

/-- A text that ends at the first occurrence of a character is known from what begins with it. -/
theorem append_stop_inj {stop : Char} {v w u u' : List Char} (hv : stop ∉ v) (hw : stop ∉ w)
    (h : v ++ stop :: u = w ++ stop :: u') : v = w ∧ u = u' := by
  induction v generalizing w with
  | nil =>
    cases w with
    | nil => exact ⟨rfl, (List.cons.inj h).2⟩
    | cons d w => exact absurd (List.cons.inj h).1 (List.ne_of_not_mem_cons hw)
  | cons c v ih =>
    cases w with
    | nil => exact absurd (List.cons.inj h).1.symm (List.ne_of_not_mem_cons hv)
    | cons d w =>
      obtain ⟨rfl, hrest⟩ := List.cons.inj h
      obtain ⟨rfl, hu⟩ := ih (List.not_mem_of_not_mem_cons hv) (List.not_mem_of_not_mem_cons hw) hrest
      exact ⟨rfl, hu⟩

namespace Scope

theorem toList_render_function (n : Nat) :
    (function n).render.toList = "function".toList ++ n.repr.toList :=
  String.toList_append

theorem toList_render_loop (n : Nat) : (loop n).render.toList = "loop".toList ++ n.repr.toList :=
  String.toList_append

theorem colon_notMem_render (scope : Scope) : ':' ∉ scope.render.toList := by
  have hnumber : ∀ n : Nat, ':' ∉ n.repr.toList := by
    intro n hmem
    rw [Nat.toList_repr] at hmem
    exact absurd (Nat.isDigit_of_mem_toDigits (by decide) (by decide) hmem) (by decide)
  cases scope with
  | main => decide
  | function n =>
    rw [toList_render_function, List.mem_append, not_or]
    exact ⟨by decide, hnumber n⟩
  | loop n =>
    rw [toList_render_loop, List.mem_append, not_or]
    exact ⟨by decide, hnumber n⟩

theorem render_injective : Function.Injective render := by
  have hnumber : ∀ {w : List Char} {m n : Nat}, w ++ m.repr.toList = w ++ n.repr.toList → m = n :=
    fun h => Nat.repr_injective (String.toList_injective (List.append_cancel_left h))
  intro a b h
  have htext := congrArg String.toList h
  cases a with
  | main =>
    cases b with
    | main => rfl
    | function n =>
      rw [toList_render_function] at htext
      simp [render] at htext
    | loop n =>
      rw [toList_render_loop] at htext
      simp [render] at htext
  | function m =>
    rw [toList_render_function] at htext
    cases b with
    | main => simp [render] at htext
    | function n => rw [hnumber (htext.trans (toList_render_function n))]
    | loop n => simp [toList_render_loop] at htext
  | loop m =>
    rw [toList_render_loop] at htext
    cases b with
    | main => simp [render] at htext
    | function n => simp [toList_render_function] at htext
    | loop n => rw [hnumber (htext.trans (toList_render_loop n))]

end Scope

namespace SymbolKind

theorem render_injective : Function.Injective render := by
  intro k l h
  cases k <;> cases l <;> simp [render] at h ⊢

theorem close_notMem_render (k : SymbolKind) : ')' ∉ k.render.toList := by
  cases k <;> decide

end SymbolKind

namespace Symbol

/-- What a listing tells about a symbol. -/
def facts (s : Symbol) : SymbolKind × Ty × Bool := (s.kind, s.type, s.isPoisoned)

/-- The kind, the type and the mark can be any, and they are all there is to a symbol. -/
theorem facts_bijective : Function.Bijective facts := by
  constructor
  · rintro ⟨kind, type, poisoned⟩ ⟨kind', type', poisoned'⟩ h
    cases h
    rfl
  · rintro ⟨kind, type, poisoned⟩
    exact ⟨⟨kind, type, poisoned⟩, rfl⟩

/-- What stands at the end of the line of a symbol. -/
def mark (s : Symbol) : String := if s.isPoisoned then " [undetermined]" else ""

theorem newline_notMem_mark (s : Symbol) : '\n' ∉ s.mark.toList := by
  unfold mark
  split <;> decide

theorem isPoisoned_eq_of_mark {s s' : Symbol} (h : s.mark = s'.mark) :
    s.isPoisoned = s'.isPoisoned := by
  unfold mark at h
  cases hp : s.isPoisoned <;> cases hp' : s'.isPoisoned <;> simp [hp, hp'] at h ⊢

end Symbol

namespace SymbolTable

theorem toList_line_renderEntry (slot : Slot) (symbol : Symbol) :
    (Session.line (renderEntry slot symbol)).toList =
      slot.scope.render.toList ++ ':' :: ':' :: (slot.name.toList ++ ':' :: ' ' ::
        (symbol.type.render.toList ++ ' ' :: '(' :: (symbol.kind.render.toList ++ ')' ::
          (symbol.mark.toList ++ ['\n'])))) := by
  simp only [Session.line, renderEntry, String.toList_append, List.append_assoc]
  rfl

/-- A line begins with a slot and what is known of its symbol, and shows where it ends. -/
theorem line_append_inj {a b : Slot} {s s' : Symbol} (ha : ':' ∉ a.name.toList)
    (hb : ':' ∉ b.name.toList) {u u' : List Char}
    (h : (Session.line (renderEntry a s)).toList ++ u =
      (Session.line (renderEntry b s')).toList ++ u') : (a = b ∧ s = s') ∧ u = u' := by
  simp only [toList_line_renderEntry, List.append_assoc, List.cons_append, List.nil_append] at h
  obtain ⟨hscope, h⟩ := append_stop_inj a.scope.colon_notMem_render b.scope.colon_notMem_render h
  obtain ⟨hname, h⟩ := append_stop_inj ha hb (List.cons.inj h).2
  obtain ⟨htype, h⟩ := s.type.separates _ _ _ (List.cons.inj h).2
  simp only [List.cons.injEq, true_and] at h
  obtain ⟨hkind, h⟩ := append_stop_inj s.kind.close_notMem_render s'.kind.close_notMem_render h
  obtain ⟨hmark, hu⟩ := append_stop_inj s.newline_notMem_mark s'.newline_notMem_mark h
  refine ⟨⟨?_, Symbol.facts_bijective.1 ?_⟩, hu⟩
  · rw [Slot.mk.injEq]
    exact ⟨Scope.render_injective (String.toList_injective hscope), String.toList_injective hname⟩
  · rw [Symbol.facts, Symbol.facts, SymbolKind.render_injective (String.toList_injective hkind),
      htype, Symbol.isPoisoned_eq_of_mark (String.toList_injective hmark)]

section Listing

variable {t t' : SymbolTable}

theorem toList_symbolListing (t : SymbolTable) : (Session.symbolListing t).toList =
    t.entries.flatMap fun e => (Session.line (renderEntry e.1 e.2)).toList := by
  simp only [Session.symbolListing, listing, String.toList_join, List.flatMap_map]

/-- The lines can be read back one after the other. -/
theorem eq_of_flatMap_line {es es' : List (Slot × Symbol)} (hes : ∀ e ∈ es, ':' ∉ e.1.name.toList)
    (hes' : ∀ e ∈ es', ':' ∉ e.1.name.toList)
    (h : es.flatMap (fun e => (Session.line (renderEntry e.1 e.2)).toList) =
      es'.flatMap fun e => (Session.line (renderEntry e.1 e.2)).toList) : es = es' := by
  have hne : ∀ (e : Slot × Symbol) (u : List Char),
      (Session.line (renderEntry e.1 e.2)).toList ++ u ≠ [] := by
    simp [Session.line]
  induction es generalizing es' with
  | nil =>
    cases es' with
    | nil => rfl
    | cons e' es' => exact absurd h.symm (hne e' _)
  | cons e es ih =>
    cases es' with
    | nil => exact absurd h (hne e _)
    | cons e' es' =>
      obtain ⟨he, hes⟩ := List.forall_mem_cons.mp hes
      obtain ⟨he', hes'⟩ := List.forall_mem_cons.mp hes'
      obtain ⟨⟨hslot, hsymbol⟩, hrest⟩ := line_append_inj he he' h
      rw [Prod.ext hslot hsymbol, ih hes hes' hrest]

/-- The names in the table are identifiers. -/
def NamesIdentifiers (t : SymbolTable) : Prop :=
  ∀ slot, t.contains slot = true → slot.name.toList ∈ Pattern.ofClass .identifier

theorem NamesIdentifiers.colon_notMem (hn : t.NamesIdentifiers) (ht : t.Distinct) :
    ∀ e ∈ t.entries, ':' ∉ e.1.name.toList := by
  intro e he hmem
  have hget := (get?_eq_some_iff ht).mpr (t.perm_entries.mem_iff.mp he)
  obtain ⟨c, r, hname, hc, hr⟩ :=
    Pattern.mem_identifier.mp (hn e.1 (contains_eq_true.mpr ⟨_, hget⟩))
  rw [hname] at hmem
  rcases List.mem_cons.mp hmem with rfl | hmem
  · exact absurd hc (by decide)
  · exact absurd (hr ':' hmem) (by decide)

theorem symbolListing_congr (h : t.entries = t'.entries) :
    Session.symbolListing t = Session.symbolListing t' := by
  rw [Session.symbolListing, Session.symbolListing, listing, listing, h]

theorem symbolListing_eq_iff_entries (ht : t.Distinct) (ht' : t'.Distinct)
    (hn : t.NamesIdentifiers) (hn' : t'.NamesIdentifiers) :
    Session.symbolListing t = Session.symbolListing t' ↔ t.entries = t'.entries := by
  refine ⟨fun h => ?_, symbolListing_congr⟩
  have htext := congrArg String.toList h
  rw [toList_symbolListing, toList_symbolListing] at htext
  exact eq_of_flatMap_line (hn.colon_notMem ht) (hn'.colon_notMem ht') htext

end Listing

/-- The listing of a table is canonical and complete: two tables have the same listing exactly when
they tell the same about every slot. It does not depend on the order of the bindings, and it has every
binding once, in strictly increasing order. -/
theorem symbolListing_canonical (t t' : SymbolTable) (ht : t.Built) (ht' : t'.Built)
    (hn : t.NamesIdentifiers) (hn' : t'.NamesIdentifiers) :
    (Session.symbolListing t = Session.symbolListing t' ↔
      ∀ slot, (t.get? slot).map Symbol.facts = (t'.get? slot).map Symbol.facts) ∧
    (∀ bindings, bindings.Perm t.bindings →
      entries ⟨bindings⟩ = t.entries ∧
        Session.symbolListing ⟨bindings⟩ = Session.symbolListing t) ∧
    t.entries.Pairwise (fun a b => a.1.Precedes b.1) ∧
    ∀ slot symbol,
      t.entries.count (slot, symbol) = if t.get? slot = some symbol then 1 else 0 := by
  rw [built_iff_distinct] at ht ht'
  refine ⟨?_, ?_, pairwise_entries ht, count_entries ht⟩
  · rw [symbolListing_eq_iff_entries ht ht' hn hn',
      entries_eq_iff ht ht']
    exact forall_congr' fun slot => (Option.map_injective Symbol.facts_bijective.1).eq_iff.symm
  · intro bindings hperm
    have hentries : entries ⟨bindings⟩ = t.entries := entries_eq_of_perm ht hperm
    exact ⟨hentries, symbolListing_congr hentries⟩

/-- Symbols of several scopes, not in listing order; for the second parameter the given type is
held. -/
def scattered (held : HeldType) : SymbolTable :=
  ⟨[(⟨.loop 0, "i"⟩, ⟨.loopVariable, .integer, false⟩),
    (⟨.function 10, "x"⟩, ⟨.parameter, .tuple [], false⟩),
    (⟨.main, "f"⟩, ⟨.declared, .arrow [.tuple [.integer, .arrow [] .string]] .real, false⟩),
    (⟨.function 2, "x"⟩, ⟨.parameter, held⟩)]⟩

theorem built_scattered (held : HeldType) : (scattered held).Built :=
  built_iff_distinct.mpr (by simp [Distinct, scattered])

theorem namesIdentifiers_scattered (held : HeldType) : (scattered held).NamesIdentifiers := by
  have hletter : ∀ c : Char, Lexer.isWordStart c = true → [c] ∈ Pattern.ofClass .identifier :=
    fun c hc => Pattern.mem_identifier.mpr ⟨c, [], rfl, hc, by simp⟩
  intro slot hslot
  obtain ⟨symbol, hget⟩ := contains_eq_true.mp hslot
  have hmem := (get?_eq_some_iff (built_iff_distinct.mp (built_scattered held))).mp hget
  simp only [scattered, List.mem_cons, Prod.mk.injEq, List.not_mem_nil, or_false] at hmem
  rcases hmem with ⟨rfl, -⟩ | ⟨rfl, -⟩ | ⟨rfl, -⟩ | ⟨rfl, -⟩ <;> exact hletter _ (by decide)

/-- A poisoned parameter is listed otherwise than one without an annotation, and otherwise than a
poisoned one for which another type is held. -/
theorem symbolListing_canonical_scattered :
    (∀ held, (scattered held).Built ∧ (scattered held).NamesIdentifiers) ∧
      Session.symbolListing (scattered ⟨.undefined, true⟩) ≠
        Session.symbolListing (scattered ⟨.undefined, false⟩) ∧
      Session.symbolListing (scattered ⟨.undefined, true⟩) ≠
        Session.symbolListing (scattered ⟨.integer, true⟩) ∧
      Session.symbolListing ⟨(scattered ⟨.integer, true⟩).bindings.reverse⟩ =
        Session.symbolListing (scattered ⟨.integer, true⟩) := by
  have hcanonical : ∀ held held' : HeldType, _ := fun held held' =>
    symbolListing_canonical (scattered held) (scattered held') (built_scattered _)
      (built_scattered _) (namesIdentifiers_scattered _) (namesIdentifiers_scattered _)
  refine ⟨fun held => ⟨built_scattered _, namesIdentifiers_scattered _⟩, fun h => ?_, fun h => ?_, ?_⟩
  · exact absurd ((hcanonical _ _).1.mp h ⟨.function 2, "x"⟩) (by decide)
  · exact absurd ((hcanonical _ _).1.mp h ⟨.function 2, "x"⟩) (by decide)
  · exact ((hcanonical _ ⟨.integer, true⟩).2.1 _ (List.reverse_perm _)).2

end SymbolTable

end ExprCheck
