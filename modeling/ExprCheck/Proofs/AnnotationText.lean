import Mathlib
import ExprCheck.Proofs.Constants
import ExprCheck.Proofs.GrammarRereading
import ExprCheck.Proofs.Moving

/-!
# The text of an annotation

The text that shows an annotation is made of the tokens that write it, and of nothing else but
blanks behind colons and commas. It ends where it should: only the name of a primitive type could run
on, and then what follows it must not go on with the word. So the text can be put into a declaration
and is read back as the annotation it shows.
-/

namespace ExprCheck

open ReadM

/-! ## Texts that are cut into known tokens -/

namespace Lexer

/-- The text is cut into tokens of the given kinds wherever what follows it is as said. -/
def Scans (w : List Char) (ks : List Kind) (Next : List Char → Prop) : Prop :=
  ∀ (l : Location) (tail : List Char), Next tail →
    Took (scanFrom l 0 (w ++ tail)) ks (scanFrom (l.skip w) 0 tail)

/-- A word does not go on here. -/
def EndsWord (tail : List Char) : Prop := ∀ c, tail.head? = some c → isWordPart c = false

variable {u v : List Char} {ks ls : List Kind} {Next Next' : List Char → Prop}

theorem Scans.append (hu : Scans u ks Next) (hv : Scans v ls Next')
    (h : ∀ tail, Next' tail → Next (v ++ tail)) : Scans (u ++ v) (ks ++ ls) Next' := by
  intro l tail htail
  rw [List.append_assoc, skip_append]
  exact (hu l (v ++ tail) (h tail htail)).append (hv (l.skip u) tail htail)

theorem Scans.mono (h : Scans u ks Next) (hnext : ∀ tail, Next' tail → Next tail) :
    Scans u ks Next' :=
  fun l tail htail => h l tail (hnext tail htail)

theorem scans_nil : Scans [] [] Next := fun _ _ _ => .refl _

/-- A word is one token if nothing goes on with it. -/
theorem scanFrom_word {c : Char} {r tail : List Char} (hc : isWordStart c = true)
    (hr : ∀ d ∈ r, isWordPart d = true) (htail : EndsWord tail) (l : Location) :
    scanFrom l 0 (c :: r ++ tail) =
      .token ⟨Kind.ofWord (String.ofList (c :: r)), .between l (l.skip (c :: r))⟩ ::
        scanFrom (l.skip (c :: r)) 0 tail := by
  have hword : (r ++ tail).takeWhile isWordPart = r := by
    rw [List.takeWhile_append_of_pos hr]
    cases tail with
    | nil => simp
    | cons d tail => simp [htail d rfl]
  have hlead := Pattern.lead_of_isWordStart hc
  have hskip : Misses Pattern.skip (c :: (r ++ tail)) := by
    refine misses_skip (Bool.eq_false_iff.mpr fun hblank => ?_) ?_
    · cases hlead.symm.trans (Pattern.lead_of_isBlank hblank)
    · rintro ⟨rfl, -⟩
      cases hc
  obtain ⟨hlongest, hnames⟩ := fits_word hc (r ++ tail)
  rw [hword] at hlongest hnames
  exact scanFrom_token (firstPiece_of_longest hnames hskip hlongest) l

theorem scans_word {c : Char} {r : List Char} (hc : isWordStart c = true)
    (hr : ∀ d ∈ r, isWordPart d = true) :
    Scans (c :: r) [Kind.ofWord (String.ofList (c :: r))] EndsWord := by
  intro l tail htail
  rw [scanFrom_word hc hr htail]
  exact (Took.refl _).cons _

theorem scans_keyword (kw : Keyword) : Scans kw.text.toList [.keyword kw] EndsWord := by
  have hmem := Pattern.keyword_mem_identifier kw
  obtain ⟨c, r, hword, hc, hr⟩ := Pattern.mem_identifier.mp hmem
  have hkind : Kind.ofWord (String.ofList (c :: r)) = .keyword kw := by
    rw [← hword, String.ofList_toList]
    cases kw <;> decide
  have hscans := scans_word hc hr
  rwa [hkind, ← hword] at hscans

end Lexer

/-! ## Annotations -/

/-- The marks that open and close lists. -/
def Punct.brackets : List Punct := [.lparen, .rparen, .lbracket, .rbracket, .lbrace, .rbrace]

namespace Lexer

variable {u v : List Char} {ks ls : List Kind} {p q : Punct}

theorem endsWord_bracket (hp : p ∈ Punct.brackets) (tail : List Char) :
    EndsWord (p.chars ++ tail) := by
  have hmark : p.chars.head?.any isWordPart = false ∧ p.chars ≠ [] := by
    revert p
    decide
  rintro c hc
  rw [List.head?_append_of_ne_nil _ hmark.2] at hc
  rw [hc] at hmark
  exact hmark.1

/-- A bracket is a token whatever follows it. -/
theorem scans_bracket (hp : p ∈ Punct.brackets) : Scans p.chars [.punct p] fun _ => True := by
  intro l tail _
  simp only [Punct.brackets, List.mem_cons, List.not_mem_nil, or_false] at hp
  rcases hp with rfl | rfl | rfl | rfl | rfl | rfl <;> exact ⟨[⟨_, _⟩], rfl, rfl⟩

theorem Scans.bracketed (h : Scans u ks EndsWord) (hp : p ∈ Punct.brackets)
    (hq : q ∈ Punct.brackets) :
    Scans (p.chars ++ (u ++ q.chars)) (.punct p :: (ks ++ [.punct q])) fun _ => True :=
  (scans_bracket hp).append
    (h.append (scans_bracket hq) fun tail _ => endsWord_bracket hq tail) fun _ _ => trivial

/-- A colon or a comma with a blank behind it. -/
theorem scans_separator (hp : p = .comma ∨ p = .colon) :
    Scans (p.chars ++ [' ']) [.punct p] fun _ => True := by
  intro l tail _
  have hblank : ∀ l' : Location, scanFrom l' 0 (' ' :: tail) = scanFrom (l'.skip [' ']) 0 tail :=
    fun l' => scanFrom_blank rfl l' tail
  have hmark : scanFrom l 0 (p.chars ++ [' '] ++ tail) =
      .token ⟨.punct p, .between l (l.skip p.chars)⟩ ::
        scanFrom (l.skip p.chars) 0 (' ' :: tail) := by
    rcases hp with rfl | rfl <;> rfl
  rw [hmark, hblank, ← skip_append]
  exact (Took.refl _).cons _

theorem Scans.separated {Next : List Char → Prop} (hu : Scans u ks EndsWord) (hv : Scans v ls Next)
    (hp : p = .comma ∨ p = .colon) :
    Scans (u ++ (p.chars ++ [' '] ++ v)) (ks ++ .punct p :: ls) Next := by
  refine hu.append ((scans_separator hp).append hv fun _ _ => trivial) fun tail _ => ?_
  rintro c hc
  rcases hp with rfl | rfl <;> cases hc <;> rfl

end Lexer

namespace TypeExpr

open Lexer

theorem scans_renderList {ts : List TypeExpr}
    (h : ∀ t ∈ ts, Scans t.render.toList t.kinds EndsWord) :
    Scans (renderList ts).toList (commas (ts.map kinds)) EndsWord := by
  induction ts with
  | nil => exact scans_nil
  | cons a rest ih =>
    obtain ⟨ha, hrest⟩ := List.forall_mem_cons.mp h
    cases rest with
    | nil =>
      rw [renderList]
      exact ha
    | cons b rest =>
      rw [renderList, String.toList_append, String.toList_append, List.append_assoc]
      exact ha.separated (ih hrest) (.inl rfl)

/-- The text of an annotation is cut into the tokens that write it. -/
theorem scans_render (t : TypeExpr) : Scans t.render.toList t.kinds EndsWord := by
  cases t with
  | primitive _ p =>
    rw [render, kinds]
    exact scans_keyword p.keyword
  | func _ params result =>
    have hparams := (scans_renderList fun t (_ : t ∈ params) => scans_render t).bracketed
      (p := .lparen) (q := .rparen) (by decide) (by decide)
    have hhead := (scans_keyword .funcKw).append hparams fun tail _ =>
      endsWord_bracket (p := .lparen) (by decide) _
    have hscans := (hhead.mono fun _ _ => trivial).separated (scans_render result) (.inr rfl)
    rw [render, kinds, typesKinds_eq_map]
    simpa [Keyword.text, Punct.chars] using hscans
  | array _ element =>
    have hscans := (scans_render element).bracketed (p := .lbracket) (q := .rbracket)
      (by decide) (by decide)
    rw [render, kinds]
    refine Scans.mono ?_ fun _ _ => trivial
    simpa [Punct.chars] using hscans
  | map _ key value =>
    have hentry := (scans_render key).separated (scans_render value) (.inr rfl)
    have hscans := hentry.bracketed (p := .lbrace) (q := .rbrace) (by decide) (by decide)
    rw [render, kinds]
    refine Scans.mono ?_ fun _ _ => trivial
    simpa [Punct.chars] using hscans
  | tuple _ fields =>
    have hscans := (scans_renderList fun t (_ : t ∈ fields) => scans_render t).bracketed
      (p := .lparen) (q := .rparen) (by decide) (by decide)
    rw [render, kinds, typesKinds_eq_map]
    refine Scans.mono ?_ fun _ _ => trivial
    simpa [Punct.chars] using hscans
termination_by sizeOf t

end TypeExpr

/-! ## Declarations at the end of a text -/

/-- The tokens that declare a name with a type and a value of one token. -/
def annotatedKinds (x : String) (t : TypeExpr) (value : Kind) : List Kind :=
  .text .identifier x :: (.punct .colon :: t.kinds ++ [.keyword .isKw, value])

namespace Grammar

variable {s : Stream} {k : Kind} {x : String} {t : TypeExpr} {v : Literal} {n : Nat}

theorem succeeds_declaration_constant (hv : Literal.ofKind k = .ok v) (hn : t.kinds.length ≤ n)
    (hs : s.Offers (annotatedKinds x t k)) :
    Succeeds (declaration (level (n + 1))) s fun d s' =>
      d.bare = ⟨.origin, x, some t.bare, .literal .origin v⟩ ∧ s'.Shows [] := by
  have hlevel : (level (n + 1)).ReadsBack (fun _ => []) (n + 1) := readsBack_level (n + 1)
  have hannotation : Reads (optionalType (level (n + 1))) (Option.map TypeExpr.bare)
      (some t.bare) (.punct .colon :: t.kinds) (· ≠ .punct .colon) :=
    reads_optionalType hlevel (some t) (by rw [optTypeKinds, List.length_cons]; omega)
  have hrounds : 0 < (level n).rounds := by
    rw [level_rounds]
    exact Nat.succ_pos n
  simp only [declaration, Production.declaration, monadLift_self]
  refine peek_then hs fun start s₁ _ hs₁ => ?_
  refine (succeeds_identifier hs₁).andThen fun s₂ hs₂ => ?_
  refine hannotation.andThen hs₂ (by simp) fun t' s₃ ht' hs₃ => ?_
  refine expect_then hs₃ fun _ s₄ hs₄ => ?_
  obtain ⟨us, hs₄, htook⟩ := hs₄
  obtain ⟨u, us', rfl, rfl, hrest⟩ := htook.of_cons
  obtain rfl := hrest.of_nil
  obtain ⟨s₅, hvalue, hs₅⟩ := exists_runs_expr_constant hrounds hs₄ hv rfl (by decide) 0
  have hexpr : Succeeds ((level (n + 1)).expr 0) s₄ fun e s' =>
      e = .literal u.span v ∧ s'.Shows [] := ⟨_, s₅, hvalue, rfl, hs₅⟩
  refine hexpr.bind fun e s₆ h₆ => ?_
  obtain ⟨he, hs₆⟩ := h₆
  refine spanFrom_then fun _ => succeeds_pure ⟨?_, hs₆⟩
  simp only [he, Declaration.edit, Expr.edit, Edit.forget_span, Edit.forget_declared, ht']

/-- No semicolon is needed where the text ends. -/
theorem succeeds_declarations_constant (hv : Literal.ofKind k = .ok v) (hn : t.kinds.length ≤ n)
    (hs : s.Offers (annotatedKinds x t k)) (m : Nat) :
    Succeeds (declarations (level (n + 1)) (m + 2)) s fun ds s' =>
      ds.map Declaration.bare = [⟨.origin, x, some t.bare, .literal .origin v⟩] ∧
        s'.Offers [] := by
  refine peek_then hs fun u s₁ hu hs₁ => ?_
  rw [hu]
  refine (succeeds_declaration_constant hv hn hs₁).bind fun d s₂ h₂ => ?_
  obtain ⟨hd, hs₂⟩ := h₂
  refine refuse_end_then ⟨[], hs₂, .refl []⟩ fun s₃ hs₃ => ?_
  have hlevel : (level (n + 1)).ReadsBack (fun _ => []) (n + 1) := readsBack_level (n + 1)
  have hnone : ∀ d ∈ ([] : List Declaration), d.WellFormed fun _ => [] := by simp
  have hend := succeeds_declarations hlevel hnone (Nat.succ_pos m) (Nat.zero_le _) hs₃
  refine hend.bind fun ds s₄ h₄ => ?_
  obtain ⟨hds, hs₄⟩ := h₄
  exact succeeds_pure ⟨by rw [List.map_cons, hd, hds, List.map_nil], hs₄⟩

theorem succeeds_program_constant (hv : Literal.ofKind k = .ok v)
    (hs : s.Offers (annotatedKinds x t k)) (hn : t.kinds.length ≤ s.remaining) :
    Succeeds Program.read s fun p _ =>
      p.declarations.map Declaration.bare =
        [⟨.origin, x, some t.bare, .literal .origin v⟩] := by
  unfold Program.read
  refine outermost_then ?_
  refine (succeeds_peek hs).bind fun start s₁ hs₁ => ?_
  rw [level_rounds]
  refine (succeeds_declarations_constant hv hn hs₁.2 s.remaining).bind fun ds s₂ h₂ => ?_
  obtain ⟨hds, hs₂⟩ := h₂
  exact (succeeds_peek hs₂).bind fun stop s₃ _ => succeeds_pure hds

end Grammar

/-! ## Reading an annotation back -/

namespace TypeExpr

open Lexer

/-- A declaration with the annotation. -/
def declarationText (t : TypeExpr) : List Char := ("x: " ++ t.render ++ " is 0").toList

theorem took_declarationText (t : TypeExpr) :
    Took (scan t.declarationText) (annotatedKinds "x" t (.text .integer "0")) [] := by
  have hname : Scans ['x'] [.text .identifier "x"] EndsWord :=
    scans_word (by decide) (by simp)
  have hblank : Scans [' '] [] fun _ => True := fun l tail _ => by
    have hskip : scanFrom l 0 ([' '] ++ tail) = scanFrom (l.skip [' ']) 0 tail :=
      scanFrom_blank rfl l tail
    rw [hskip]
    exact .refl _
  have hvalue : Scans [' ', '0'] [.text .integer "0"] (· = []) := by
    rintro l _ rfl
    exact ⟨[⟨_, _⟩], rfl, rfl⟩
  have hend : ∀ w, EndsWord (' ' :: w) := by
    rintro w c ⟨⟩
    rfl
  have hannotation := hname.separated t.scans_render (p := .colon) (.inr rfl)
  have hrest := hblank.append ((scans_keyword .isKw).append hvalue
    fun tail _ => hend ('0' :: tail)) fun _ _ => trivial
  have hscans := hannotation.append hrest fun tail _ => hend _
  have htook := hscans .start [] rfl
  simpa [declarationText, annotatedKinds, Keyword.text, Punct.chars, scan, scanFrom] using htook

/-- An annotation can be read back from the text that shows it. -/
theorem exists_ofText_declarationText (t : TypeExpr) :
    ∃ p, Program.ofText t.declarationText = .ok p ∧ p.declarations.map Declaration.bare =
      [⟨.origin, "x", some t.bare, .literal .origin (.integer 0)⟩] := by
  have htook := t.took_declarationText
  have hremaining : t.kinds.length ≤ (Stream.ofText t.declarationText).remaining := by
    obtain ⟨ts, hts, hkinds⟩ := htook
    have hlength := congrArg List.length hkinds
    simp only [annotatedKinds, List.length_map, List.length_cons, List.length_append] at hlength
    simp only [Stream.remaining, Stream.ofText, hts, List.length_append, List.length_map]
    omega
  obtain ⟨p, s', hrun, hp⟩ := Grammar.succeeds_program_constant (v := .integer 0) rfl
    ⟨_, shows_ofText _, htook⟩ hremaining
  exact ⟨p, Grammar.ofText_eq_ok_iff.mpr ⟨s', hrun⟩, hp⟩

end TypeExpr

/-- The type that an annotation writes does not depend on where the annotation stands. -/
theorem Ty.ofTypeExpr_bare (t : TypeExpr) : ofTypeExpr t.bare = ofTypeExpr t := by
  rw [ofTypeExpr_move]

/-- A declaration with an annotation as it is shown is read as one declaration with that annotation,
up to the text its nodes cover. So the annotation that was read writes the same type, and annotations
that are shown alike are alike. -/
theorem TypeExpr.read_render (t : TypeExpr) :
    (∃ p d t', Program.ofText ("x: " ++ t.render ++ " is 0").toList = .ok p ∧
      p.declarations = [d] ∧ d.name = "x" ∧ d.typeExpr = some t' ∧
      d.value.bare = .literal .origin (.integer 0) ∧ t'.bare = t.bare ∧
      Ty.ofTypeExpr t' = Ty.ofTypeExpr t) ∧
    ∀ u : TypeExpr, u.render = t.render → u.bare = t.bare ∧ Ty.ofTypeExpr u = Ty.ofTypeExpr t := by
  obtain ⟨p, hread, hp⟩ := t.exists_ofText_declarationText
  refine ⟨?_, ?_⟩
  · obtain ⟨d, hd, hbare⟩ := List.map_eq_singleton_iff.mp hp
    obtain ⟨span, x, annotation, value⟩ := d
    simp only [Declaration.edit, Edit.forget_declared, Declaration.mk.injEq,
      Option.map_eq_some_iff] at hbare
    obtain ⟨-, rfl, ⟨t', rfl, ht'⟩, hvalue⟩ := hbare
    refine ⟨p, _, t', hread, hd, rfl, rfl, hvalue, ht', ?_⟩
    rw [← Ty.ofTypeExpr_bare, ht', Ty.ofTypeExpr_bare]
  · intro u hu
    obtain ⟨p', hread', hp'⟩ := u.exists_ofText_declarationText
    have htext : u.declarationText = t.declarationText := by
      rw [declarationText, hu, declarationText]
    rw [htext, hread] at hread'
    obtain rfl := Except.ok.inj hread'
    have hbare : u.bare = t.bare := by
      simpa using hp'.symm.trans hp
    exact ⟨hbare, by rw [← Ty.ofTypeExpr_bare, hbare, Ty.ofTypeExpr_bare]⟩

/-- A function type without parameters, whose result has an empty tuple type in two places. -/
def nestedType (span : Span) : TypeExpr :=
  .func span [] (.map span (.tuple span []) (.array span
    (.func span [.primitive span .integer, .tuple span []] (.primitive span .boolean))))

theorem TypeExpr.read_render_nestedType :
    (nestedType ⟨3, 49, ⟨1, 4⟩⟩).render = (nestedType .origin).render ∧
      Ty.ofTypeExpr (nestedType ⟨3, 49, ⟨1, 4⟩⟩) =
        Ty.ofTypeExpr (nestedType .origin) := by
  have htext : (nestedType ⟨3, 49, ⟨1, 4⟩⟩).render = (nestedType .origin).render := by
    simp only [nestedType, render, renderList]
  exact ⟨htext, ((nestedType .origin).read_render.2 _ htext).2⟩

end ExprCheck
