import Mathlib
import ExprCheck.Grammar.Program
import ExprCheck.Proofs.ConstantReaders
import ExprCheck.Proofs.LongestPieces
import ExprCheck.Proofs.TokenView

/-!
# The readers accept only what the grammar derives

A reader is sound for a nonterminal if, whenever it succeeds, the tokens that it has taken off the
stream are derived from the nonterminal, with the result as their tree. Readers are followed step by
step: each step takes tokens off the front of what the stream shows, and the tokens of all steps
together are those of the reader. The streams are `Lexed`, as those of texts are: a token whose text
does not suit its kind writes nothing.

Operators need more than this. A reader of an expression stops only in front of a token that is no
operator of its layer or of one above it, and it is this fact about the operand on the right that
makes the operand on the left one of the right layer at the next operator.
-/

namespace ExprCheck

open ReadM

variable {α β : Type} {s s' : Stream} {us : List Scanned}

/-! ## Tokens of a text -/

theorem shows_ofText (text : List Char) : (Stream.ofText text).Shows (Lexer.scan text) := by
  refine ⟨rfl, fun t ht => ?_, [], 0, rfl, rfl, Or.inl rfl⟩
  obtain ⟨w, hw⟩ := Lexer.names_of_mem_scanFrom ht
  exact hw.ne_eof

namespace Stream

/-- The tokens to come from a stream have texts that suit their kinds. -/
structure Lexed (s : Stream) (us : List Scanned) : Prop where
  shows : s.Shows us
  names : ∀ t, .token t ∈ us → ∃ w, t.kind.Names w

theorem lexed_ofText (text : List Char) : (Stream.ofText text).Lexed (Lexer.scan text) :=
  ⟨shows_ofText text, fun _ => Lexer.names_of_mem_scanFrom⟩

namespace Lexed

theorem of_shows (h : s.Lexed us) (hs' : s'.Shows us) : s'.Lexed us := ⟨hs', h.names⟩

/-- What is to come behind a report was to come before. -/
theorem behind {u : Scanned} (h : s.Lexed (u :: us)) (hs' : s'.Shows us) : s'.Lexed us :=
  ⟨hs', fun t ht => h.names t (List.mem_cons_of_mem u ht)⟩

theorem next {t : Token} (h : s.Lexed us) (hnext : Runs next s t s') :
    (∃ rest, us = .token t :: rest ∧ s'.Lexed rest ∧ ∃ w, t.kind.Names w) ∨
      (us = [] ∧ t.kind = .eof) := by
  obtain ⟨-, ⟨rest, rfl, hs'⟩ | ⟨hus, heof, -⟩⟩ := runs_next h.shows hnext
  · exact .inl ⟨rest, rfl, h.behind hs', h.names t List.mem_cons_self⟩
  · exact .inr ⟨hus, heof⟩

end Lexed

end Stream

namespace Grammar

/-! ## Soundness of a reader -/

theorem looks_nameBefore (k : Kind) : Looks (nameBefore k) := by
  refine (looks_checkAt 0 _).bind fun named => ?_
  split
  · exact looks_checkAt 1 k
  · exact looks_pure false

theorem looks_atDeclaration : Looks atDeclaration := by
  refine (looks_nameBefore _).bind fun defined => ?_
  split
  · exact looks_pure true
  · exact looks_nameBefore _

theorem looks_atReturnEnd : Looks atReturnEnd := by
  refine looks_peek.bind fun t => ?_
  split
  all_goals exact looks_pure _

/-- What the reader takes is related to what it gives back. -/
def Sound (m : ReadM α) (D : List Kind → α → Prop) : Prop :=
  ∀ ⦃s us a s'⦄, s.Lexed us → Runs m s a s' →
    ∃ ks rest, Took us ks rest ∧ s'.Lexed rest ∧ D ks a

/-- A sound reader at the beginning of a run. -/
theorem Sound.step {m : ReadM α} {D : List Kind → α → Prop} (hm : Sound m D) {f : α → ReadM β}
    {b : β} (hs : s.Lexed us) (h : Runs (m >>= f) s b s') :
    ∃ a ks rest s₁, Took us ks rest ∧ s₁.Lexed rest ∧ D ks a ∧ Runs (f a) s₁ b s' := by
  obtain ⟨a, s₁, hrun, h'⟩ := runs_bind.mp h
  obtain ⟨ks, rest, htook, hs₁, hd⟩ := hm hs hrun
  exact ⟨a, ks, rest, s₁, htook, hs₁, hd, h'⟩

/-- Looking ahead takes nothing. -/
theorem sound_look {m : ReadM α} (hm : Looks m) : Sound m (fun ks _ => ks = []) :=
  fun _ us _ _ hs h => ⟨[], us, .refl us, hs.of_shows (hm hs.shows h), rfl⟩

theorem not_runs_exhausted {a : α} : ¬ Runs exhausted s a s' := by
  intro h
  unfold exhausted at h
  rw [runs_get_bind] at h
  exact not_runs_fail h

theorem sound_exhausted (D : List Kind → α → Prop) : Sound (exhausted : ReadM α) D :=
  fun _ _ _ _ _ h => absurd h not_runs_exhausted

theorem sound_expect (k : Kind) [Exact k] : Sound (expect k) (fun ks _ => ks = [k]) := by
  intro s us t s' hs h
  obtain ⟨rest, rfl, hk, hs'⟩ := runs_expect hs.shows h
  exact ⟨[k], rest, hk ▸ (Took.refl rest).cons t, hs.behind hs', rfl⟩

/-- A span reaches from where it was opened to the token that was taken last. -/
theorem runs_spanFrom_bind {start : Span} {f : Span → ReadM β} {b : β} :
    Runs (spanFrom start >>= f) s b s' ↔ Runs (f (start.merge s.last)) s b s' := by
  rw [runs_bind]
  constructor
  · rintro ⟨_, _, hspan, h⟩
    obtain ⟨rfl, rfl⟩ := runs_spanFrom.mp hspan
    exact h
  · intro h
    exact ⟨_, s, runs_spanFrom.mpr ⟨rfl, rfl⟩, h⟩

theorem runs_orFail {span : Span} {r : Except ReadFault α} {a : α} :
    Runs (orFail span r) s a s' ↔ r = .ok a ∧ s' = s := by
  cases r with
  | ok b =>
    refine runs_pure.trans ?_
    rw [Except.ok.injEq, eq_comm]
  | error fault =>
    refine ⟨fun h => absurd h not_runs_fail, ?_⟩
    rintro ⟨h, -⟩
    cases h

/-- A token that may be there or not. -/
theorem accept_step {k : Kind} [Exact k] {f : Bool → ReadM β} {b : β} (hs : s.Lexed us)
    (h : Runs (accept k >>= f) s b s') :
    (∃ rest s₁, Took us [k] rest ∧ s₁.Lexed rest ∧ Runs (f true) s₁ b s') ∨
      ∃ s₁, s₁.Lexed us ∧ upcoming? us 0 ≠ some k ∧ Runs (f false) s₁ b s' := by
  obtain ⟨c, s₁, haccept, h'⟩ := runs_bind.mp h
  rcases runs_accept hs.shows haccept with ⟨rfl, t, rest, rfl, hk, hs₁⟩ | ⟨rfl, hs₁, hne⟩
  · exact Or.inl ⟨rest, s₁, hk ▸ (Took.refl rest).cons t, hs.behind hs₁, h'⟩
  · exact Or.inr ⟨s₁, hs.of_shows hs₁, hne, h'⟩

/-- A token that was looked at before. -/
theorem next_step {k : Kind} [hexact : Exact k] {f : Token → ReadM β} {b : β} (hs : s.Lexed us)
    (hk : upcoming? us 0 = some k) (h : Runs (next >>= f) s b s') :
    ∃ t rest s₁, Took us [k] rest ∧ s₁.Lexed rest ∧ Runs (f t) s₁ b s' := by
  obtain ⟨t, s₁, hnext, h'⟩ := runs_bind.mp h
  obtain ⟨rest, rfl, hs₁, -⟩ | ⟨rfl, -⟩ := hs.next hnext
  · obtain rfl := Option.some.inj hk
    exact ⟨t, rest, s₁, (Took.refl rest).cons t, hs₁, h'⟩
  · exact absurd (Option.some.inj hk).symm hexact.ne_eof

/-! ## Lists, names and annotations -/

theorem sound_items {D : List Kind → α → Prop} {item : ReadM α} (hitem : Sound item D)
    (close : Kind) (n : Nat) : Sound (items close item n) (Items D) := by
  induction n with
  | zero => exact sound_exhausted _
  | succ n ih =>
    intro s us xs s' hs h
    simp only [items, Production.items, monadLift_self] at h
    obtain ⟨closed, _, u₁, s₁, t₁, hs₁, rfl, h⟩ := (sound_look (looks_checkAt 0 close)).step hs h
    cases closed with
    | true =>
      obtain ⟨rfl, rfl⟩ := runs_pure.mp h
      exact ⟨_, _, t₁, hs₁, .nil⟩
    | false =>
      obtain ⟨x, ks, u₂, s₂, t₂, hs₂, hx, h⟩ := hitem.step hs₁ h
      rcases accept_step hs₂ h with ⟨u₃, s₃, t₃, hs₃, h⟩ | ⟨s₃, hs₃, -, h⟩
      · obtain ⟨xs, ls, u₄, s₄, t₄, hs₄, hxs, h⟩ := ih.step hs₃ h
        obtain ⟨rfl, rfl⟩ := runs_pure.mp h
        exact ⟨_, _, t₁.append (t₂.append (t₃.append t₄)), hs₄, .more hx hxs⟩
      · obtain ⟨rfl, rfl⟩ := runs_pure.mp h
        exact ⟨_, _, t₁.append t₂, hs₃, .one hx⟩

theorem sound_identifier : Sound identifier (fun ks x => ks = [.text .identifier x]) := by
  intro s us x s' hs h
  unfold identifier at h
  obtain ⟨t, s₁, hnext, h⟩ := runs_bind.mp h
  obtain ⟨rest, rfl, hs₁, -⟩ | ⟨-, heof⟩ := hs.next hnext
  · split at h
    · next name hk =>
      obtain ⟨rfl, rfl⟩ := runs_pure.mp h
      exact ⟨_, rest, (Took.refl rest).cons t, hs₁, by rw [hk]⟩
    · exact absurd h not_runs_fail
  · rw [heof] at h
    exact absurd h not_runs_fail

theorem sound_semicolon : Sound (accept (.punct .semicolon)) (fun ks _ => OptSemicolon ks) := by
  intro s us b s' hs h
  rcases runs_accept hs.shows h with ⟨-, t, rest, rfl, hk, hs'⟩ | ⟨-, hs', -⟩
  · exact ⟨_, rest, hk ▸ (Took.refl rest).cons t, hs.behind hs', .present⟩
  · exact ⟨_, us, .refl us, hs.of_shows hs', .absent⟩

/-! ## Constants and variables -/

theorem sound_atom : Sound atom IsPrimary := by
  intro s us e s' hs h
  unfold atom at h
  obtain ⟨t, s₁, hnext, h⟩ := runs_bind.mp h
  obtain ⟨u₁, rfl, hs₁, w, hw⟩ | ⟨-, heof⟩ := hs.next hnext
  · have t₁ := (Took.refl u₁).cons t
    split at h
    · next x hk =>
      rw [hk] at t₁
      obtain ⟨rfl, rfl⟩ := runs_pure.mp h
      exact ⟨_, _, t₁, hs₁, .var⟩
    · obtain ⟨v, s₂, hread, hpure⟩ := runs_bind.mp h
      obtain ⟨hv, rfl⟩ := runs_orFail.mp hread
      obtain ⟨rfl, rfl⟩ := runs_pure.mp hpure
      exact ⟨_, _, t₁, hs₁, .literal (isLiteral_of_ofKind hw hv)⟩
  · rw [heof] at h
    obtain ⟨v, s₂, hv, -⟩ := runs_bind.mp h
    exact absurd hv not_runs_fail

/-! ## Layers -/

/-- What an expression is whose operators all have at least the given precedence. -/
def IsLayer : Nat → List Kind → Expr → Prop
  | 0 | 1 => IsExpr
  | 2 => IsRelation
  | 3 => IsFactor
  | 4 => IsTerm
  | _ => IsSecondary

/-- An expression of a layer is one of every layer below. -/
theorem IsLayer.mono {m n : Nat} (hmn : m ≤ n) {ks : List Kind} {e : Expr}
    (h : IsLayer n ks e) : IsLayer m ks e := by
  induction hmn with
  | refl => exact h
  | @step n _ ih =>
    apply ih
    match n, h with
    | 0, h => exact h
    | 1, h => exact .relation h
    | 2, h => exact .factor h
    | 3, h => exact .term h
    | 4, h => exact .secondary h
    | n + 5, h => exact h

/-- An operator joins a left operand of its own layer, or of the next one if it is a comparison, to
a right operand of the next layer. -/
theorem isLayer_binary {op : Operator} {span : Span} {ks ls : List Kind} {l r : Expr}
    (hl : IsLayer (if op.isComparison then op.precedence + 1 else op.precedence) ks l)
    (hr : IsLayer (op.precedence + 1) ls r) :
    IsLayer op.precedence (ks ++ op.kind :: ls) (.binary span op l r) := by
  cases op with
  | and | or | xor => exact IsExpr.logical hl (by simp) hr
  | lt | le | gt | ge | eq | ne => exact IsRelation.comparison hl (by simp) hr
  | add | sub => exact IsFactor.sum hl (by simp) hr
  | mul | div => exact IsTerm.product hl (by simp) hr

theorem precedence_eq_two_iff (op : Operator) : op.precedence = 2 ↔ op.isComparison = true := by
  cases op <;> decide

theorem precedence_le (op : Operator) : op.precedence ≤ 4 := by
  cases op <;> decide

theorem ofKind?_eq_some_iff {k : Kind} {op : Operator} :
    Operator.ofKind? k = some op ↔ k = op.kind := by
  constructor
  · intro h
    have hk := List.find?_some h
    exact (of_decide_eq_true hk).symm
  · rintro rfl
    cases op <;> rfl

theorem primitive?_eq_some {k : Kind} {p : Primitive} (h : primitive? k = some p) :
    k = .keyword p.keyword := by
  unfold primitive? at h
  split at h <;> cases h <;> rfl

/-- The next token is no operator that binds so strongly. -/
def Stops (least : Nat) (us : List Scanned) : Prop :=
  ∀ op : Operator, upcoming? us 0 = some op.kind → op.precedence < least

/-- The readers of a level are sound. -/
structure Level.IsSound (l : Level) : Prop where
  /-- An expression ends in front of a token that is no operator of its layer or above. -/
  layer : ∀ least ⦃s us e s'⦄, s.Lexed us → Runs (l.expr least) s e s' →
    ∃ ks rest, Took us ks rest ∧ s'.Lexed rest ∧ IsLayer least ks e ∧ Stops least rest
  typeExpr : Sound l.typeExpr IsType
  stmts : Sound l.stmts IsStmts

theorem Level.IsSound.expr {l : Level} (hl : l.IsSound) : Sound (l.expr 0) IsExpr := by
  intro s us e s' hs h
  obtain ⟨ks, rest, htook, hs', he, -⟩ := hl.layer 0 hs h
  exact ⟨ks, rest, htook, hs', he⟩

section Readers

variable {inner : Level} (hl : inner.IsSound)

include hl

theorem sound_optionalType : Sound (optionalType inner) OptType := by
  intro s us t s' hs h
  simp only [optionalType, Production.optionalType, monadLift_self] at h
  rcases accept_step hs h with ⟨u₁, s₁, t₁, hs₁, h⟩ | ⟨s₁, hs₁, -, h⟩
  · obtain ⟨t, ks, u₂, s₂, t₂, hs₂, ht, h⟩ := hl.typeExpr.step hs₁ h
    obtain ⟨rfl, rfl⟩ := runs_pure.mp h
    exact ⟨_, _, t₁.append t₂, hs₂, .present ht⟩
  · obtain ⟨rfl, rfl⟩ := runs_pure.mp h
    exact ⟨_, _, .refl us, hs₁, .absent⟩

theorem sound_typeExpr : Sound (typeExpr inner) IsType := by
  intro s us t s' hs h
  simp only [typeExpr, Production.typeExpr, monadLift_self] at h
  obtain ⟨first, s₁, hnext, h⟩ := runs_bind.mp h
  obtain ⟨u₁, rfl, hs₁, -⟩ | ⟨-, heof⟩ := hs.next hnext
  · have t₁ := (Took.refl u₁).cons first
    split at h
    · next hk =>
      rw [hk] at t₁
      obtain ⟨_, _, u₂, s₂, t₂, hs₂, rfl, h⟩ := (sound_expect _).step hs₁ h
      obtain ⟨params, ks, u₃, s₃, t₃, hs₃, hparams, h⟩ :=
        (sound_items hl.typeExpr _ _).step hs₂ h
      obtain ⟨_, _, u₄, s₄, t₄, hs₄, rfl, h⟩ := (sound_expect _).step hs₃ h
      obtain ⟨_, _, u₅, s₅, t₅, hs₅, rfl, h⟩ := (sound_expect _).step hs₄ h
      obtain ⟨result, ls, u₆, s₆, t₆, hs₆, hresult, h⟩ := hl.typeExpr.step hs₅ h
      rw [runs_spanFrom_bind] at h
      obtain ⟨rfl, rfl⟩ := runs_pure.mp h
      exact ⟨_, _, t₁.append (t₂.append (t₃.append (t₄.append (t₅.append t₆)))), hs₆,
        .func hparams hresult⟩
    · next hk =>
      rw [hk] at t₁
      obtain ⟨element, ks, u₂, s₂, t₂, hs₂, helement, h⟩ := hl.typeExpr.step hs₁ h
      obtain ⟨_, _, u₃, s₃, t₃, hs₃, rfl, h⟩ := (sound_expect _).step hs₂ h
      rw [runs_spanFrom_bind] at h
      obtain ⟨rfl, rfl⟩ := runs_pure.mp h
      exact ⟨_, _, t₁.append (t₂.append t₃), hs₃, .array helement⟩
    · next hk =>
      rw [hk] at t₁
      obtain ⟨key, ks, u₂, s₂, t₂, hs₂, hkey, h⟩ := hl.typeExpr.step hs₁ h
      obtain ⟨_, _, u₃, s₃, t₃, hs₃, rfl, h⟩ := (sound_expect _).step hs₂ h
      obtain ⟨value, ls, u₄, s₄, t₄, hs₄, hvalue, h⟩ := hl.typeExpr.step hs₃ h
      obtain ⟨_, _, u₅, s₅, t₅, hs₅, rfl, h⟩ := (sound_expect _).step hs₄ h
      rw [runs_spanFrom_bind] at h
      obtain ⟨rfl, rfl⟩ := runs_pure.mp h
      exact ⟨_, _, t₁.append (t₂.append (t₃.append (t₄.append t₅))), hs₅, .map hkey hvalue⟩
    · next hk =>
      rw [hk] at t₁
      obtain ⟨fields, ks, u₂, s₂, t₂, hs₂, hfields, h⟩ :=
        (sound_items hl.typeExpr _ _).step hs₁ h
      obtain ⟨_, _, u₃, s₃, t₃, hs₃, rfl, h⟩ := (sound_expect _).step hs₂ h
      rw [runs_spanFrom_bind] at h
      obtain ⟨rfl, rfl⟩ := runs_pure.mp h
      exact ⟨_, _, t₁.append (t₂.append t₃), hs₃, .tuple hfields⟩
    · split at h
      · next p hp =>
        rw [runs_spanFrom_bind] at h
        obtain ⟨rfl, rfl⟩ := runs_pure.mp h
        refine ⟨_, _, t₁, hs₁, ?_⟩
        rw [primitive?_eq_some hp]
        exact .primitive p
      · exact absurd h not_runs_fail
  · rw [heof] at h
    exact absurd h not_runs_fail

/-! ## Primary expressions -/

theorem sound_arguments :
    Sound (arguments inner)
      (fun ks es => ∃ ls, ks = ls ++ [.punct .rparen] ∧ Items IsExpr ls es) := by
  intro s us es s' hs h
  simp only [arguments, Production.arguments, monadLift_self] at h
  obtain ⟨es, ks, u₁, s₁, t₁, hs₁, hes, h⟩ := (sound_items hl.expr _ _).step hs h
  obtain ⟨_, _, u₂, s₂, t₂, hs₂, rfl, h⟩ := (sound_expect _).step hs₁ h
  obtain ⟨rfl, rfl⟩ := runs_pure.mp h
  exact ⟨_, _, t₁.append t₂, hs₂, ks, rfl, hes⟩

theorem sound_conditional : Sound (conditional inner) IsPrimary := by
  intro s us e s' hs h
  simp only [conditional, Production.conditional, monadLift_self] at h
  obtain ⟨start, _, u₁, s₁, t₁, hs₁, rfl, h⟩ := (sound_expect _).step hs h
  obtain ⟨p, ks, u₂, s₂, t₂, hs₂, hp, h⟩ := hl.expr.step hs₁ h
  obtain ⟨_, _, u₃, s₃, t₃, hs₃, rfl, h⟩ := (sound_expect _).step hs₂ h
  obtain ⟨t, ls, u₄, s₄, t₄, hs₄, ht, h⟩ := hl.expr.step hs₃ h
  obtain ⟨_, _, u₅, s₅, t₅, hs₅, rfl, h⟩ := (sound_expect _).step hs₄ h
  obtain ⟨e, ms, u₆, s₆, t₆, hs₆, he, h⟩ := hl.expr.step hs₅ h
  obtain ⟨_, _, u₇, s₇, t₇, hs₇, rfl, h⟩ := (sound_expect _).step hs₆ h
  rw [runs_spanFrom_bind] at h
  obtain ⟨rfl, rfl⟩ := runs_pure.mp h
  exact ⟨_, _, t₁.append (t₂.append (t₃.append (t₄.append (t₅.append (t₆.append t₇))))), hs₇,
    .conditional hp ht he⟩

theorem sound_param : Sound (param inner) IsParam := by
  intro s us p s' hs h
  simp only [param, Production.param, monadLift_self] at h
  obtain ⟨start, _, u₁, s₁, t₁, hs₁, rfl, h⟩ := (sound_look looks_peek).step hs h
  obtain ⟨name, _, u₂, s₂, t₂, hs₂, rfl, h⟩ := sound_identifier.step hs₁ h
  obtain ⟨t, ks, u₃, s₃, t₃, hs₃, ht, h⟩ := (sound_optionalType hl).step hs₂ h
  rw [runs_spanFrom_bind] at h
  obtain ⟨rfl, rfl⟩ := runs_pure.mp h
  exact ⟨_, _, t₁.append (t₂.append t₃), hs₃, .intro ht⟩

theorem sound_body : Sound (body inner) IsBody := by
  intro s us b s' hs h
  simp only [body, Production.body, monadLift_self] at h
  obtain ⟨start, _, u₁, s₁, t₁, hs₁, rfl, h⟩ := (sound_look looks_peek).step hs h
  rcases accept_step hs₁ h with ⟨u₂, s₂, t₂, hs₂, h⟩ | ⟨s₂, hs₂, -, h⟩
  · obtain ⟨e, ks, u₃, s₃, t₃, hs₃, he, h⟩ := hl.expr.step hs₂ h
    rw [runs_spanFrom_bind] at h
    obtain ⟨rfl, rfl⟩ := runs_pure.mp h
    exact ⟨_, _, t₁.append (t₂.append t₃), hs₃, .expr he⟩
  · rcases accept_step hs₂ h with ⟨u₃, s₃, t₃, hs₃, h⟩ | ⟨s₃, hs₃, -, h⟩
    · obtain ⟨stmts, ks, u₄, s₄, t₄, hs₄, hstmts, h⟩ := hl.stmts.step hs₃ h
      obtain ⟨_, _, u₅, s₅, t₅, hs₅, rfl, h⟩ := (sound_expect _).step hs₄ h
      rw [runs_spanFrom_bind] at h
      obtain ⟨rfl, rfl⟩ := runs_pure.mp h
      exact ⟨_, _, t₁.append (t₃.append (t₄.append t₅)), hs₅, .block hstmts⟩
    · obtain ⟨_, _, -, h⟩ := runs_bind.mp h
      exact absurd h not_runs_fail

theorem sound_function : Sound (function inner) IsPrimary := by
  intro s us e s' hs h
  simp only [function, Production.function, monadLift_self] at h
  obtain ⟨start, _, u₁, s₁, t₁, hs₁, rfl, h⟩ := (sound_expect _).step hs h
  obtain ⟨_, _, u₂, s₂, t₂, hs₂, rfl, h⟩ := (sound_expect _).step hs₁ h
  obtain ⟨params, ks, u₃, s₃, t₃, hs₃, hparams, h⟩ :=
    (sound_items (sound_param hl) _ _).step hs₂ h
  obtain ⟨_, _, u₄, s₄, t₄, hs₄, rfl, h⟩ := (sound_expect _).step hs₃ h
  obtain ⟨result, ls, u₅, s₅, t₅, hs₅, hresult, h⟩ := (sound_optionalType hl).step hs₄ h
  obtain ⟨b, ms, u₆, s₆, t₆, hs₆, hb, h⟩ := (sound_body hl).step hs₅ h
  rw [runs_spanFrom_bind] at h
  obtain ⟨rfl, rfl⟩ := runs_pure.mp h
  have hfunction := fun span => IsPrimary.function (s := span) hparams hresult hb
  exact ⟨_, _, t₁.append (t₂.append (t₃.append (t₄.append (t₅.append t₆)))), hs₆, hfunction _⟩

omit hl in
/-- A literal in brackets stands for what its items stand for, between its brackets. -/
theorem sound_bracketed {D : List Kind → α → Prop} {item : ReadM α} (hitem : Sound item D)
    {opening closing : Punct} {node : Span → List α → Expr} (rounds : Nat)
    (hnode : ∀ span ks xs, Items D ks xs →
      IsPrimary (.punct opening :: (ks ++ [.punct closing])) (node span xs)) :
    Sound (bracketed opening closing node item rounds) IsPrimary := by
  intro s us e s' hs h
  simp only [bracketed, Production.bracketed, monadLift_self] at h
  obtain ⟨start, _, u₁, s₁, t₁, hs₁, rfl, h⟩ := (sound_expect _).step hs h
  obtain ⟨xs, ks, u₂, s₂, t₂, hs₂, hxs, h⟩ := (sound_items hitem _ _).step hs₁ h
  obtain ⟨_, _, u₃, s₃, t₃, hs₃, rfl, h⟩ := (sound_expect _).step hs₂ h
  rw [runs_spanFrom_bind] at h
  obtain ⟨rfl, rfl⟩ := runs_pure.mp h
  exact ⟨_, _, t₁.append (t₂.append t₃), hs₃, hnode _ _ _ hxs⟩

theorem sound_entry : Sound (entry inner) IsEntry := by
  intro s us e s' hs h
  simp only [entry, Production.entry, monadLift_self] at h
  obtain ⟨k, ks, u₁, s₁, t₁, hs₁, hk, h⟩ := hl.expr.step hs h
  obtain ⟨_, _, u₂, s₂, t₂, hs₂, rfl, h⟩ := (sound_expect _).step hs₁ h
  obtain ⟨v, ls, u₃, s₃, t₃, hs₃, hv, h⟩ := hl.expr.step hs₂ h
  obtain ⟨rfl, rfl⟩ := runs_pure.mp h
  exact ⟨_, _, t₁.append (t₂.append t₃), hs₃, .intro hk hv⟩

theorem sound_element : Sound (element inner) IsElement := by
  intro s us e s' hs h
  simp only [element, Production.element, monadLift_self] at h
  obtain ⟨start, _, u₁, s₁, t₁, hs₁, rfl, h⟩ := (sound_look looks_peek).step hs h
  obtain ⟨named, _, u₂, s₂, t₂, hs₂, rfl, h⟩ := (sound_look (looks_nameBefore _)).step hs₁ h
  cases named with
  | true =>
    obtain ⟨name, _, u₃, s₃, t₃, hs₃, rfl, h⟩ := sound_identifier.step hs₂ h
    obtain ⟨_, _, u₄, s₄, t₄, hs₄, rfl, h⟩ := (sound_expect _).step hs₃ h
    obtain ⟨e, ks, u₅, s₅, t₅, hs₅, he, h⟩ := hl.expr.step hs₄ h
    rw [runs_spanFrom_bind] at h
    obtain ⟨rfl, rfl⟩ := runs_pure.mp h
    exact ⟨_, _, t₁.append (t₂.append (t₃.append (t₄.append t₅))), hs₅, .named he⟩
  | false =>
    obtain ⟨e, ks, u₃, s₃, t₃, hs₃, he, h⟩ := hl.expr.step hs₂ h
    rw [runs_spanFrom_bind] at h
    obtain ⟨rfl, rfl⟩ := runs_pure.mp h
    exact ⟨_, _, t₁.append (t₂.append t₃), hs₃, .unnamed he⟩

/-- What follows the first element of a tuple. -/
theorem runs_tupleFrom {start : Span} {first : Element} {e : Expr} (hs : s.Lexed us)
    (h : Runs (tupleFrom inner start first) s e s') :
    ∃ span es ks rest, e = .tuple span (first :: es) ∧ Took us ks rest ∧ s'.Lexed rest ∧
      ((∃ ls, ks = .punct .comma :: (ls ++ [.punct .rparen]) ∧ Items IsElement ls es) ∨
        (ks = [.punct .rparen] ∧ es = [])) := by
  simp only [tupleFrom, Production.tupleFrom, monadLift_self] at h
  rcases accept_step hs h with ⟨u₁, s₁, t₁, hs₁, h⟩ | ⟨s₁, hs₁, -, h⟩
  · obtain ⟨es, ks, u₂, s₂, t₂, hs₂, hes, h⟩ := (sound_items (sound_element hl) _ _).step hs₁ h
    obtain ⟨_, _, u₃, s₃, t₃, hs₃, rfl, h⟩ := (sound_expect _).step hs₂ h
    rw [runs_spanFrom_bind] at h
    obtain ⟨rfl, rfl⟩ := runs_pure.mp h
    exact ⟨_, es, _, u₃, rfl, t₁.append (t₂.append t₃), hs₃, Or.inl ⟨ks, rfl, hes⟩⟩
  · obtain ⟨es, s₂, hpure, h⟩ := runs_bind.mp h
    obtain ⟨rfl, rfl⟩ := runs_pure.mp hpure
    obtain ⟨_, _, u₃, s₃, t₃, hs₃, rfl, h⟩ := (sound_expect _).step hs₁ h
    rw [runs_spanFrom_bind] at h
    obtain ⟨rfl, rfl⟩ := runs_pure.mp h
    exact ⟨_, [], _, u₃, rfl, t₃, hs₃, Or.inr ⟨rfl, rfl⟩⟩

theorem sound_parenthesized : Sound (parenthesized inner) IsPrimary := by
  intro s us e s' hs h
  simp only [parenthesized, Production.parenthesized, monadLift_self] at h
  obtain ⟨start, _, u₁, s₁, t₁, hs₁, rfl, h⟩ := (sound_expect _).step hs h
  obtain ⟨first, ks, u₂, s₂, t₂, hs₂, hfirst, h⟩ := (sound_element hl).step hs₁ h
  cases hfirst with
  | @named sp x ks v hv =>
    obtain ⟨span, es, _, u₃, rfl, t₃, hs₃, ⟨ls, rfl, hes⟩ | ⟨rfl, rfl⟩⟩ := runs_tupleFrom hl hs₂ h
    · exact ⟨_, _, t₁.append (t₂.append t₃), hs₃, .tuple (.named hv) hes⟩
    · exact ⟨_, _, t₁.append (t₂.append t₃), hs₃, .named hv⟩
  | @unnamed sp ks v hv =>
    rcases accept_step hs₂ h with ⟨u₃, s₃, t₃, hs₃, h⟩ | ⟨s₃, hs₃, hnot, h⟩
    · rw [if_pos rfl, runs_spanFrom_bind] at h
      obtain ⟨rfl, rfl⟩ := runs_pure.mp h
      exact ⟨_, _, t₁.append (t₂.append t₃), hs₃, .parenthesized hv⟩
    · obtain ⟨span, es, _, u₄, rfl, t₄, hs₄, ⟨ls, rfl, hes⟩ | ⟨rfl, rfl⟩⟩ := runs_tupleFrom hl hs₃ h
      · exact ⟨_, _, t₁.append (t₂.append t₄), hs₄, .tuple (.unnamed hv) hes⟩
      · -- the closing parenthesis would have been accepted before
        exact absurd (upcoming?_zero_of_took t₄) hnot

theorem sound_primary : Sound (primary inner) IsPrimary := by
  intro s us e s' hs h
  simp only [primary, Production.primary, monadLift_self] at h
  obtain ⟨t, _, u₁, s₁, t₁, hs₁, rfl, h⟩ := (sound_look looks_peek).step hs h
  obtain rfl := t₁.of_nil
  split at h
  · exact sound_conditional hl hs₁ h
  · exact sound_function hl hs₁ h
  · exact sound_bracketed hl.expr _ (fun _ _ _ => .array) hs₁ h
  · exact sound_bracketed (sound_entry hl) _ (fun _ _ _ => .map) hs₁ h
  · exact sound_parenthesized hl hs₁ h
  · exact sound_atom hs₁ h

/-! ## Suffixes and operators -/

omit hl in
/-- Behind the dot stands the name of a field or an ordinal. -/
theorem runs_selector {target e : Expr} {ks₀ : List Kind} (htarget : IsSecondary ks₀ target)
    (hs : s.Lexed us) (h : Runs (selector target) s e s') :
    ∃ k rest, Took us [k] rest ∧ s'.Lexed rest ∧ IsSecondary (ks₀ ++ [.punct .dot, k]) e := by
  unfold selector at h
  obtain ⟨t, s₁, hnext, h⟩ := runs_bind.mp h
  obtain ⟨u₁, rfl, hs₁, w, hw⟩ | ⟨-, heof⟩ := hs.next hnext
  · have t₁ := (Took.refl u₁).cons t
    split at h
    · next x hk =>
      rw [hk] at t₁
      rw [runs_spanFrom_bind] at h
      obtain ⟨rfl, rfl⟩ := runs_pure.mp h
      exact ⟨_, u₁, t₁, hs₁, .field htarget⟩
    · next digits hk =>
      rw [hk] at t₁ hw
      obtain ⟨n, s₂, hread, hspan⟩ := runs_bind.mp h
      obtain ⟨hn, rfl⟩ := runs_orFail.mp hread
      rw [runs_spanFrom_bind] at hspan
      obtain ⟨rfl, rfl⟩ := runs_pure.mp hspan
      obtain ⟨rfl, hmem⟩ := eq_ofList_of_names hw
      rw [String.toList_ofList] at hn
      obtain ⟨rfl, hlt⟩ := Literal.lt_of_readOrdinal hn
      exact ⟨_, u₁, t₁, hs₁, .ordinal htarget (isNumber_of_mem hmem) hlt⟩
    · exact absurd h not_runs_fail
  · rw [heof] at h
    exact absurd h not_runs_fail

/-- Suffixes go on with the expression before them. -/
theorem runs_suffixes {n : Nat} {e e' : Expr} {ks₀ : List Kind} (he : IsSecondary ks₀ e)
    (hs : s.Lexed us) (h : Runs (suffixes inner n e) s e' s') :
    ∃ ks rest, Took us ks rest ∧ s'.Lexed rest ∧ IsSecondary (ks₀ ++ ks) e' := by
  induction n generalizing s us e ks₀ with
  | zero => exact absurd h not_runs_exhausted
  | succ n ih =>
    simp only [suffixes, Production.suffixes, monadLift_self] at h
    rcases accept_step hs h with ⟨u₁, s₁, t₁, hs₁, h⟩ | ⟨s₁, hs₁, -, h⟩
    · obtain ⟨args, _, u₂, s₂, t₂, hs₂, ⟨ls, rfl, hargs⟩, h⟩ := (sound_arguments hl).step hs₁ h
      rw [runs_spanFrom_bind] at h
      obtain ⟨ks, u₃, t₃, hs₃, he'⟩ := ih (.call he hargs) hs₂ h
      exact ⟨_, u₃, t₁.append (t₂.append t₃), hs₃, by simpa using he'⟩
    · rcases accept_step hs₁ h with ⟨u₂, s₂, t₂, hs₂, h⟩ | ⟨s₂, hs₂, -, h⟩
      · obtain ⟨i, ls, u₃, s₃, t₃, hs₃, hi, h⟩ := hl.expr.step hs₂ h
        obtain ⟨_, _, u₄, s₄, t₄, hs₄, rfl, h⟩ := (sound_expect _).step hs₃ h
        rw [runs_spanFrom_bind] at h
        obtain ⟨ks, u₅, t₅, hs₅, he'⟩ := ih (.index he hi) hs₄ h
        exact ⟨_, u₅, t₂.append (t₃.append (t₄.append t₅)), hs₅, by simpa using he'⟩
      · rcases accept_step hs₂ h with ⟨u₃, s₃, t₃, hs₃, h⟩ | ⟨s₃, hs₃, -, h⟩
        · obtain ⟨e₁, s₄, hselect, h⟩ := runs_bind.mp h
          obtain ⟨k, u₄, t₄, hs₄, he₁⟩ := runs_selector he hs₃ hselect
          obtain ⟨ks, u₅, t₅, hs₅, he'⟩ := ih he₁ hs₄ h
          exact ⟨_, u₅, t₃.append (t₄.append t₅), hs₅, by simpa using he'⟩
        · obtain ⟨rfl, rfl⟩ := runs_pure.mp h
          exact ⟨[], us, .refl us, hs₃, by simpa using he⟩

theorem sound_operand : Sound (operand inner) IsSecondary := by
  intro s us e s' hs h
  unfold operand Production.operand at h
  obtain ⟨e₁, ks, u₁, s₁, t₁, hs₁, he₁, h⟩ := (sound_primary hl).step hs h
  obtain ⟨ls, u₂, t₂, hs₂, he⟩ := runs_suffixes hl (.primary he₁) hs₁ h
  exact ⟨_, u₂, t₁.append t₂, hs₂, he⟩

/-- The operators of a chain, taken in from the left. The expression so far is of layer `layer`, the
next operator does not bind more strongly than that, and an expression of the layer of comparisons
is known to hold a comparison. -/
theorem runs_operators {least n layer : Nat} {compared : Bool} {left e : Expr} {ks₀ : List Kind}
    (hlayer : IsLayer layer ks₀ left) (hleast : least ≤ layer)
    (hnext : Stops (layer + 1) us) (hcompared : layer = 2 → compared = true)
    (hs : s.Lexed us) (h : Runs (operators inner least n compared left) s e s') :
    ∃ ks rest, Took us ks rest ∧ s'.Lexed rest ∧ IsLayer least (ks₀ ++ ks) e ∧
      Stops least rest := by
  induction n generalizing s us layer compared left ks₀ with
  | zero => exact absurd h not_runs_exhausted
  | succ n ih =>
    simp only [operators, Production.operators, monadLift_self] at h
    obtain ⟨t, s₁, hpeek, h⟩ := runs_bind.mp h
    obtain ⟨hshow, hkind, -⟩ := runs_peekAt hs.shows hpeek
    have hs₁ := hs.of_shows hshow
    have hdone : ∀ (_ : Stops least us) (_ : Runs (pure left) s₁ e s'), ∃ ks rest,
        Took us ks rest ∧ s'.Lexed rest ∧ IsLayer least (ks₀ ++ ks) e ∧ Stops least rest := by
      intro hstop hpure
      obtain ⟨rfl, rfl⟩ := runs_pure.mp hpure
      exact ⟨[], us, .refl us, hs₁, by simpa using hlayer.mono hleast, hstop⟩
    split at h
    · next hnone =>
      refine hdone (fun op hop => ?_) h
      rw [hkind] at hop
      rw [ofKind?_eq_some_iff.mpr (Option.some.inj hop)] at hnone
      exact absurd hnone (by simp)
    · next op hop =>
      have hk : t.kind = op.kind := ofKind?_eq_some_iff.mp hop
      rw [hk] at hkind
      by_cases hlow : op.precedence < least
      · rw [if_pos hlow] at h
        refine hdone (fun op' hop' => ?_) h
        rw [hkind] at hop'
        rw [hk, Option.some.inj hop', ofKind?_eq_some_iff.mpr rfl] at hop
        rw [Option.some.inj hop]
        exact hlow
      · rw [if_neg hlow] at h
        have hle : op.precedence ≤ layer := Nat.lt_succ_iff.mp (hnext op hkind)
        obtain ⟨u, s₂, htake, h⟩ := runs_bind.mp h
        obtain ⟨u₁, rfl, hs₂, -⟩ | ⟨rfl, -⟩ := hs₁.next htake
        · have t₁ := (Took.refl u₁).cons u
          rw [Option.some.inj hkind] at t₁
          by_cases hchain : (compared && op.isComparison) = true
          · rw [if_pos hchain] at h
            exact absurd h not_runs_fail
          · rw [if_neg hchain] at h
            obtain ⟨right, s₃, hright, h⟩ := runs_bind.mp h
            obtain ⟨ls, u₂, t₂, hs₃, hlayer', hstops⟩ := hl.layer (op.precedence + 1) hs₂ hright
            -- a comparison finds an operand of the next layer, since it is the first one
            have hleft : IsLayer (if op.isComparison then op.precedence + 1 else op.precedence)
                ks₀ left := by
              refine hlayer.mono ?_
              split
              · next hcmp =>
                have htwo := (precedence_eq_two_iff op).mpr hcmp
                have hne : layer ≠ 2 := by
                  intro h2
                  simp [hcompared h2, hcmp] at hchain
                omega
              · exact hle
            have hcompared' : op.precedence = 2 → (compared || op.isComparison) = true := by
              intro htwo
              simp [(precedence_eq_two_iff op).mp htwo]
            obtain ⟨ms, u₃, t₃, hs₄, he, hend⟩ := ih (isLayer_binary hleft hlayer')
              (Nat.le_of_not_lt hlow) hstops hcompared' hs₃ h
            exact ⟨_, u₃, t₁.append (t₂.append t₃), hs₄, by simpa using he, hend⟩
        · have heof : Kind.eof = op.kind := Option.some.inj hkind
          cases op <;> cases heof

theorem layer_expr (least : Nat) {e : Expr} (hs : s.Lexed us)
    (h : Runs (expr inner least) s e s') :
    ∃ ks rest, Took us ks rest ∧ s'.Lexed rest ∧ IsLayer least ks e ∧ Stops least rest := by
  unfold expr Production.expr at h
  obtain ⟨left, ks, u₁, s₁, t₁, hs₁, hleft, h⟩ := (sound_operand hl).step hs h
  have hlayer : IsLayer (least + 5) ks left := hleft
  have hstops : Stops (least + 5 + 1) u₁ := by
    intro op _
    have hle := precedence_le op
    omega
  obtain ⟨ls, u₂, t₂, hs₂, he, hend⟩ :=
    runs_operators hl hlayer (by omega) hstops (by omega) hs₁ h
  exact ⟨_, u₂, t₁.append t₂, hs₂, he, hend⟩

/-! ## Declarations and statements -/

theorem sound_declaration : Sound (declaration inner) IsDeclaration := by
  intro s us d s' hs h
  simp only [declaration, Production.declaration, monadLift_self] at h
  obtain ⟨start, _, u₁, s₁, t₁, hs₁, rfl, h⟩ := (sound_look looks_peek).step hs h
  obtain ⟨name, _, u₂, s₂, t₂, hs₂, rfl, h⟩ := sound_identifier.step hs₁ h
  obtain ⟨t, ks, u₃, s₃, t₃, hs₃, ht, h⟩ := (sound_optionalType hl).step hs₂ h
  obtain ⟨_, _, u₄, s₄, t₄, hs₄, rfl, h⟩ := (sound_expect _).step hs₃ h
  obtain ⟨e, ls, u₅, s₅, t₅, hs₅, he, h⟩ := hl.expr.step hs₄ h
  rw [runs_spanFrom_bind] at h
  obtain ⟨rfl, rfl⟩ := runs_pure.mp h
  exact ⟨_, _, t₁.append (t₂.append (t₃.append (t₄.append t₅))), hs₅, .intro ht he⟩

/-- What follows the variable of a loop. -/
theorem runs_headerTail {start : Span} {x : Option String} {h' : Header} {ks₀ : List Kind}
    (hx : IsBinder ks₀ x) (hs : s.Lexed us)
    (h : Runs (do
      let first ← inner.expr 0
      if ← accept (.punct .range) then
        let last ← inner.expr 0
        return .range (← spanFrom start) x first last
      else
        return .items (← spanFrom start) x first) s h' s') :
    ∃ ks rest, Took us ks rest ∧ s'.Lexed rest ∧ IsHeader (.keyword .forKw :: (ks₀ ++ ks)) h' := by
  obtain ⟨a, ls, u₁, s₁, t₁, hs₁, ha, h⟩ := hl.expr.step hs h
  rcases accept_step hs₁ h with ⟨u₂, s₂, t₂, hs₂, h⟩ | ⟨s₂, hs₂, -, h⟩
  · obtain ⟨b, ms, u₃, s₃, t₃, hs₃, hb, h⟩ := hl.expr.step hs₂ h
    rw [runs_spanFrom_bind] at h
    obtain ⟨rfl, rfl⟩ := runs_pure.mp h
    exact ⟨_, u₃, t₁.append (t₂.append t₃), hs₃, .range hx ha hb⟩
  · rw [if_neg (by simp), runs_spanFrom_bind] at h
    obtain ⟨rfl, rfl⟩ := runs_pure.mp h
    exact ⟨_, u₁, t₁, hs₂, .items hx ha⟩

theorem sound_header : Sound (header inner) IsHeader := by
  intro s us hd s' hs h
  simp only [header, Production.header, monadLift_self] at h
  obtain ⟨start, _, u₁, s₁, t₁, hs₁, rfl, h⟩ := (sound_look looks_peek).step hs h
  rcases accept_step hs₁ h with ⟨u₂, s₂, t₂, hs₂, h⟩ | ⟨s₂, hs₂, -, h⟩
  · obtain ⟨named, _, u₃, s₃, t₃, hs₃, rfl, h⟩ := (sound_look (looks_nameBefore _)).step hs₂ h
    cases named with
    | true =>
      obtain ⟨x, _, u₄, s₄, t₄, hs₄, rfl, h⟩ := sound_identifier.step hs₃ h
      obtain ⟨_, _, u₅, s₅, t₅, hs₅, rfl, h⟩ := (sound_expect _).step hs₄ h
      obtain ⟨ks, u₆, t₆, hs₆, hh⟩ := runs_headerTail hl .present hs₅ h
      exact ⟨_, u₆, t₁.append (t₂.append (t₃.append (t₄.append (t₅.append t₆)))), hs₆, hh⟩
    | false =>
      obtain ⟨ks, u₄, t₄, hs₄, hh⟩ := runs_headerTail hl .absent hs₃ h
      exact ⟨_, u₄, t₁.append (t₂.append (t₃.append t₄)), hs₄, hh⟩
  · obtain ⟨_, _, u₃, s₃, t₃, hs₃, rfl, h⟩ := (sound_expect _).step hs₂ h
    obtain ⟨e, ks, u₄, s₄, t₄, hs₄, he, h⟩ := hl.expr.step hs₃ h
    rw [runs_spanFrom_bind] at h
    obtain ⟨rfl, rfl⟩ := runs_pure.mp h
    exact ⟨_, u₄, t₁.append (t₃.append t₄), hs₄, .condition he⟩

theorem sound_exprStmt (start : Span) : Sound (exprStmt inner start) IsStmt := by
  intro s us st s' hs h
  simp only [exprStmt, Production.exprStmt, monadLift_self] at h
  obtain ⟨t, ks, u₁, s₁, t₁, hs₁, ht, h⟩ := (sound_operand hl).step hs h
  rcases accept_step hs₁ h with ⟨u₂, s₂, t₂, hs₂, h⟩ | ⟨s₂, hs₂, -, h⟩
  · obtain ⟨v, ls, u₃, s₃, t₃, hs₃, hv, h⟩ := hl.expr.step hs₂ h
    rw [runs_spanFrom_bind] at h
    obtain ⟨rfl, rfl⟩ := runs_pure.mp h
    exact ⟨_, u₃, t₁.append (t₂.append t₃), hs₃, .assign ht hv⟩
  · rw [if_neg (by simp)] at h
    split at h
    · next span f es =>
      rw [runs_spanFrom_bind] at h
      obtain ⟨rfl, rfl⟩ := runs_pure.mp h
      exact ⟨_, u₁, t₁, hs₂, .call ht⟩
    · exact absurd h not_runs_fail

theorem sound_loop (start : Span) :
    Sound (do
      let h ← header inner
      let _ ← expect (.keyword .loopKw)
      let stmts ← inner.stmts
      let _ ← expect (.keyword .endKw)
      return .loop (← spanFrom start) h stmts) IsStmt := by
  intro s us st s' hs h
  obtain ⟨hd, ks, u₁, s₁, t₁, hs₁, hhd, h⟩ := (sound_header hl).step hs h
  obtain ⟨_, _, u₂, s₂, t₂, hs₂, rfl, h⟩ := (sound_expect _).step hs₁ h
  obtain ⟨b, ls, u₃, s₃, t₃, hs₃, hb, h⟩ := hl.stmts.step hs₂ h
  obtain ⟨_, _, u₄, s₄, t₄, hs₄, rfl, h⟩ := (sound_expect _).step hs₃ h
  rw [runs_spanFrom_bind] at h
  obtain ⟨rfl, rfl⟩ := runs_pure.mp h
  exact ⟨_, u₄, t₁.append (t₂.append (t₃.append t₄)), hs₄, .loop hhd hb⟩

theorem sound_plainStmt : Sound (plainStmt inner) IsStmt := by
  intro s us st s' hs h
  simp only [plainStmt, Production.plainStmt, monadLift_self] at h
  obtain ⟨t, s₁, hpeek, h⟩ := runs_bind.mp h
  obtain ⟨hshow, hkind, -⟩ := runs_peekAt hs.shows hpeek
  have hs₁ := hs.of_shows hshow
  split at h
  · next hk =>
    rw [hk] at hkind
    obtain ⟨_, u₂, s₂, t₂, hs₂, h⟩ := next_step hs₁ hkind h
    obtain ⟨ended, _, u₃, s₃, t₃, hs₃, rfl, h⟩ := (sound_look looks_atReturnEnd).step hs₂ h
    cases ended with
    | true =>
      rw [if_pos rfl, runs_spanFrom_bind] at h
      obtain ⟨rfl, rfl⟩ := runs_pure.mp h
      exact ⟨_, u₃, t₂.append t₃, hs₃, .returnNothing⟩
    | false =>
      obtain ⟨e, ks, u₄, s₄, t₄, hs₄, he, h⟩ := hl.expr.step hs₃ h
      rw [runs_spanFrom_bind] at h
      obtain ⟨rfl, rfl⟩ := runs_pure.mp h
      exact ⟨_, u₄, t₂.append (t₃.append t₄), hs₄, .returnValue he⟩
  · next hk =>
    rw [hk] at hkind
    obtain ⟨_, u₂, s₂, t₂, hs₂, h⟩ := next_step hs₁ hkind h
    rw [runs_spanFrom_bind] at h
    obtain ⟨rfl, rfl⟩ := runs_pure.mp h
    exact ⟨_, u₂, t₂, hs₂, .breakLoop⟩
  · next hk =>
    rw [hk] at hkind
    obtain ⟨_, u₂, s₂, t₂, hs₂, h⟩ := next_step hs₁ hkind h
    obtain ⟨_, _, u₃, s₃, t₃, hs₃, rfl, h⟩ := (sound_expect _).step hs₂ h
    obtain ⟨es, _, u₄, s₄, t₄, hs₄, ⟨ls, rfl, hes⟩, h⟩ := (sound_arguments hl).step hs₃ h
    rw [runs_spanFrom_bind] at h
    obtain ⟨rfl, rfl⟩ := runs_pure.mp h
    exact ⟨_, u₄, t₂.append (t₃.append t₄), hs₄, .print hes⟩
  · next hk =>
    rw [hk] at hkind
    obtain ⟨_, u₂, s₂, t₂, hs₂, h⟩ := next_step hs₁ hkind h
    obtain ⟨c, ks, u₃, s₃, t₃, hs₃, hc, h⟩ := hl.expr.step hs₂ h
    obtain ⟨_, _, u₄, s₄, t₄, hs₄, rfl, h⟩ := (sound_expect _).step hs₃ h
    obtain ⟨a, ls, u₅, s₅, t₅, hs₅, ha, h⟩ := hl.stmts.step hs₄ h
    rcases accept_step hs₅ h with ⟨u₆, s₆, t₆, hs₆, h⟩ | ⟨s₆, hs₆, -, h⟩
    · obtain ⟨b, ms, u₇, s₇, t₇, hs₇, hb, h⟩ := hl.stmts.step hs₆ h
      obtain ⟨_, _, u₈, s₈, t₈, hs₈, rfl, h⟩ := (sound_expect _).step hs₇ h
      rw [runs_spanFrom_bind] at h
      obtain ⟨rfl, rfl⟩ := runs_pure.mp h
      exact ⟨_, u₈, t₂.append (t₃.append (t₄.append (t₅.append (t₆.append (t₇.append t₈))))), hs₈,
        .ifElse hc ha hb⟩
    · obtain ⟨_, _, u₇, s₇, t₇, hs₇, rfl, h⟩ := (sound_expect _).step hs₆ h
      rw [runs_spanFrom_bind] at h
      obtain ⟨rfl, rfl⟩ := runs_pure.mp h
      exact ⟨_, u₇, t₂.append (t₃.append (t₄.append (t₅.append t₇))), hs₇, .ifThen hc ha⟩
  · exact sound_loop hl t.span hs₁ h
  · exact sound_loop hl t.span hs₁ h
  · exact sound_exprStmt hl t.span hs₁ h

theorem sound_stmt : Sound (stmt inner) IsStmt := by
  intro s us st s' hs h
  simp only [stmt, Production.stmt, monadLift_self] at h
  obtain ⟨declares, _, u₁, s₁, t₁, hs₁, rfl, h⟩ := (sound_look looks_atDeclaration).step hs h
  obtain rfl := t₁.of_nil
  cases declares with
  | true =>
    obtain ⟨d, ks, u₂, s₂, t₂, hs₂, hd, h⟩ := (sound_declaration hl).step hs₁ h
    obtain ⟨rfl, rfl⟩ := runs_pure.mp h
    exact ⟨ks, u₂, t₂, hs₂, .declaration hd⟩
  | false => exact sound_plainStmt hl hs₁ h

theorem sound_stmts (n : Nat) : Sound (stmts inner n) IsStmts := by
  induction n with
  | zero => exact sound_exhausted _
  | succ n ih =>
    intro s us sts s' hs h
    simp only [stmts, Production.stmts, monadLift_self] at h
    obtain ⟨t, _, u₁, s₁, t₁, hs₁, rfl, h⟩ := (sound_look looks_peek).step hs h
    obtain rfl := t₁.of_nil
    have hend : ∀ (_ : Runs (pure []) s₁ sts s'),
        ∃ ks rest, Took us ks rest ∧ s'.Lexed rest ∧ IsStmts ks sts := by
      intro hpure
      obtain ⟨rfl, rfl⟩ := runs_pure.mp hpure
      exact ⟨[], us, t₁, hs₁, .nil⟩
    split at h
    · exact hend h
    · exact hend h
    · exact hend h
    · obtain ⟨st, ks, u₂, s₂, t₂, hs₂, hst, h⟩ := (sound_stmt hl).step hs₁ h
      obtain ⟨_, ls, u₃, s₃, t₃, hs₃, hsemi, h⟩ := sound_semicolon.step hs₂ h
      obtain ⟨rest, ms, u₄, s₄, t₄, hs₄, hrest, h⟩ := ih.step hs₃ h
      obtain ⟨rfl, rfl⟩ := runs_pure.mp h
      exact ⟨_, u₄, t₂.append (t₃.append t₄), hs₄, .cons hst hsemi hrest⟩

end Readers

/-! ## All levels -/

/-- By induction on the levels of nesting: the readers of a level call those of the level below. -/
theorem isSound_level (n : Nat) : (level n).IsSound := by
  induction n with
  | zero =>
    refine ⟨?_, sound_exhausted _, sound_exhausted _⟩
    intro least s us e s' _ h
    exact absurd h not_runs_exhausted
  | succ n ih =>
    exact ⟨fun least _ _ _ _ => layer_expr ih least, sound_typeExpr ih, sound_stmts ih _⟩

/-- Declarations are read to the end of the text. -/
theorem runs_declarations {inner : Level} (hl : inner.IsSound) {n : Nat} {ds : List Declaration}
    (hs : s.Lexed us) (h : Runs (declarations inner n) s ds s') :
    ∃ ks, Took us ks [] ∧ s'.Lexed [] ∧ IsDeclarations ks ds := by
  induction n generalizing s us ds with
  | zero => exact absurd h not_runs_exhausted
  | succ n ih =>
    simp only [declarations, Production.declarations, monadLift_self] at h
    obtain ⟨t, s₁, hpeek, h⟩ := runs_bind.mp h
    obtain ⟨hshow, hkind, -⟩ := runs_peekAt hs.shows hpeek
    have hs₁ := hs.of_shows hshow
    split at h
    · next hk =>
      obtain ⟨rfl, rfl⟩ := runs_pure.mp h
      rw [hk] at hkind
      obtain rfl := hs.shows.eq_nil_of_eof hkind
      exact ⟨[], .refl [], hs₁, .nil⟩
    · obtain ⟨d, ks, u₂, s₂, t₂, hs₂, hd, h⟩ := (sound_declaration hl).step hs₁ h
      obtain ⟨_, ls, u₃, s₃, t₃, hs₃, hsemi, h⟩ := sound_semicolon.step hs₂ h
      obtain ⟨rest, s₄, hrest, h⟩ := runs_bind.mp h
      obtain ⟨rfl, rfl⟩ := runs_pure.mp h
      obtain ⟨ms, t₄, hs₄, hrest⟩ := ih hs₃ hrest
      exact ⟨_, t₂.append (t₃.append t₄), hs₄, .cons hd hsemi hrest⟩

theorem runs_program {p : Program} (hs : s.Lexed us) (h : Runs Program.read s p s') :
    ∃ ks, Took us ks [] ∧ s'.Lexed [] ∧ IsProgram ks p := by
  simp only [Program.read, outermost, Production.program, monadLift_self] at h
  obtain ⟨outer, s₁, houter, h⟩ := runs_bind.mp h
  rw [runs_get_bind] at houter
  obtain ⟨rfl, rfl⟩ := runs_pure.mp houter
  obtain ⟨start, _, u₁, s₂, t₁, hs₂, rfl, h⟩ := (sound_look looks_peek).step hs h
  obtain ⟨ds, s₃, hds, h⟩ := runs_bind.mp h
  obtain ⟨ks, t₂, hs₃, hks⟩ := runs_declarations (isSound_level _) hs₂ hds
  obtain ⟨stop, _, u₂, s₄, t₃, hs₄, rfl, h⟩ := (sound_look looks_peek).step hs₃ h
  obtain ⟨rfl, rfl⟩ := runs_pure.mp h
  obtain rfl := t₃.of_nil
  exact ⟨ks, t₁.append t₂, hs₄, hks⟩

/-! ## Whole texts -/

theorem tokensOf_map_token (eof : Token) (ts : List Token) :
    tokensOf eof (ts.map .token) = .ok (ts ++ [eof]) := by
  induction ts with
  | nil => rfl
  | cons t ts ih =>
    rw [List.map_cons, tokensOf, ih]
    rfl

/-- A program that is read from a text is a syntax tree of its tokens, all of them. -/
theorem isProgram_of_ofText {text : List Char} {p : Program}
    (h : Program.ofText text = .ok p) :
    ∃ ts, tokenize text = .ok (ts ++ [Lexer.eof text]) ∧ IsProgram (ts.map Token.kind) p := by
  obtain ⟨s', hrun⟩ : ∃ s', Runs Program.read (Stream.ofText text) p s' := by
    unfold Program.ofText at h
    split at h
    · next p' s' hread =>
      obtain rfl := Except.ok.inj h
      exact ⟨s', hread⟩
    · cases h
  obtain ⟨ks, ⟨ts, hts, rfl⟩, -, hp⟩ := runs_program (Stream.lexed_ofText text) hrun
  refine ⟨ts, ?_, hp⟩
  rw [List.append_nil] at hts
  rw [tokenize, hts, tokensOf_map_token]

/-- A text with operators of three layers, a tuple with a trailing comma and a block. -/
def layeredText : List Char :=
  "x is 1 + 2 * 3 < 4; f is func(a: (),) do a := (x, b is x,).b return end".toList

theorem isProgram_of_ofText_layeredText :
    ∃ p, Program.ofText layeredText = .ok p ∧ p.declarations.map Declaration.name = ["x", "f"] ∧
      ∃ ts, tokenize layeredText = .ok (ts ++ [Lexer.eof layeredText]) ∧
        IsProgram (ts.map Token.kind) p := by
  have hnames : (Program.ofText layeredText).toOption.map
      (fun p => p.declarations.map Declaration.name) = some ["x", "f"] := by decide +kernel
  cases h : Program.ofText layeredText with
  | error e => simp [h, Except.toOption] at hnames
  | ok p =>
    rw [h] at hnames
    exact ⟨p, rfl, Option.some.inj hnames, isProgram_of_ofText h⟩

end Grammar

end ExprCheck
