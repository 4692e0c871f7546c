import Mathlib
import ExprCheck.Proofs.Numerals

/-!
# Ordinals behind a name

An ordinal behind a dot selects an element of a tuple, another one behind it an element of that
element, and so on. The readers take any number of such selections, wherever a text is cut into the
tokens of the chain.

But a text is cut before it is read, and into the longest tokens. Of ordinals that are written with
only the dots between them, the first two and the dot between them are a real number. So a chain of
two or more is not read if it is written without blanks. A space before each dot is enough.
-/

namespace ExprCheck

open ReadM Pattern

/-- Elements of elements of a variable. -/
def Expr.ordinals (x : String) (ds : List Numeral) : Expr :=
  ds.foldl (fun e d => .ordinal .origin e d.value) (.var .origin x)

/-- The tokens of a dot and a numeral each. -/
def selectionKinds (ds : List Numeral) : List Kind :=
  ds.flatMap fun d => [.punct .dot, .text .integer d.text]

/-- The text of a chain, with a gap before each dot. -/
def chainText (gap : List Char) (x : String) (ds : List Numeral) : List Char :=
  x.toList ++ ds.flatMap fun d => gap ++ '.' :: d.chars

/-! ## Reading chains -/

namespace Grammar

variable {s : Stream} {us : List Scanned} {x : String} {l : Level} {d : Numeral}
  {ds : List Numeral} {ks : List Kind}

theorem exists_runs_primary_name {span : Span}
    (hs : s.Shows (.token ⟨.text .identifier x, span⟩ :: us)) :
    ∃ s', Runs (primary l) s (.var span x) s' ∧ s'.Shows us := by
  obtain ⟨u, s₁, hpeek, hu, hs₁, -⟩ := exists_runs_peekAt (n := 0) hs rfl
  obtain ⟨s₂, hnext, hs₂, -⟩ := exists_runs_next hs₁
  refine ⟨s₂, runs_bind.mpr ⟨u, s₁, hpeek, ?_⟩, hs₂⟩
  rw [hu]
  exact runs_bind.mpr ⟨_, s₂, hnext, runs_pure.mpr ⟨rfl, rfl⟩⟩

theorem succeeds_selector (target : Expr) (hd : d.value ≤ 2 ^ 64 - 1)
    (hs : s.Offers (.text .integer d.text :: ks)) :
    Succeeds (selector target) s fun e s' =>
      e.bare = .ordinal .origin target.bare d.value ∧ s'.Offers ks := by
  obtain ⟨us, hshow, htook⟩ := hs
  obtain ⟨⟨_, span⟩, us', rfl, rfl, hrest⟩ := htook.of_cons
  have hgives := gives_selector target hshow
  rw [Numeral.text, String.toList_ofList, Numeral.readOrdinal_chars, if_pos hd] at hgives
  obtain ⟨s', hrun, hshow'⟩ := hgives
  exact ⟨_, s', hrun, by simp only [Expr.edit, Edit.forget_span], us', hshow', hrest⟩

/-- The suffixes of a chain are read one after the other, up to the end of the text. -/
theorem succeeds_suffixes (hds : ∀ d ∈ ds, d.value ≤ 2 ^ 64 - 1) {n : Nat} (hn : ds.length < n)
    (target : Expr) (hs : s.Offers (selectionKinds ds)) :
    Succeeds (suffixes l n target) s fun e s' =>
      e.bare = ds.foldl (fun e d => .ordinal .origin e d.value) target.bare ∧ s'.Offers [] := by
  induction ds generalizing n target s with
  | nil =>
    obtain ⟨n, rfl⟩ : ∃ m, n = m + 1 := Nat.exists_eq_succ_of_ne_zero (Nat.ne_zero_of_lt hn)
    simp only [suffixes, Production.suffixes, monadLift_self]
    refine refuse_end_then hs fun s₁ hs₁ => ?_
    refine refuse_end_then hs₁ fun s₂ hs₂ => ?_
    exact refuse_end_then hs₂ fun s₃ hs₃ => succeeds_pure ⟨rfl, hs₃⟩
  | cons d ds ih =>
    obtain ⟨n, rfl⟩ : ∃ m, n = m + 1 := Nat.exists_eq_succ_of_ne_zero (Nat.ne_zero_of_lt hn)
    obtain ⟨hd, hds⟩ := List.forall_mem_cons.mp hds
    rw [selectionKinds, List.flatMap_cons, List.cons_append, List.singleton_append] at hs
    simp only [suffixes, Production.suffixes, monadLift_self]
    refine refuse_then hs (by decide) fun s₁ hs₁ => ?_
    refine refuse_then hs₁ (by decide) fun s₂ hs₂ => ?_
    refine accept_then hs₂ fun s₃ hs₃ => ?_
    refine (succeeds_selector target hd hs₃).bind fun e s₄ h₄ => ?_
    obtain ⟨he, hs₄⟩ := h₄
    have hrest := ih hds (Nat.lt_of_succ_lt_succ hn) e hs₄
    rwa [he] at hrest

theorem succeeds_read_ordinals (hds : ∀ d ∈ ds, d.value ≤ 2 ^ 64 - 1)
    (hs : s.Offers (.text .identifier x :: selectionKinds ds)) (hlength : ds.length ≤ s.remaining) :
    Succeeds Expr.read s fun e s' => e.bare = .ordinals x ds ∧ s'.Offers [] := by
  unfold Expr.read
  refine outermost_then ?_
  have hrounds : ds.length < (level s.remaining).rounds := by
    rw [level_rounds]
    omega
  have hoperand : Succeeds (operand (level s.remaining)) s fun e s' =>
      e.bare = .ordinals x ds ∧ s'.Offers [] := by
    obtain ⟨us, hshow, htook⟩ := hs
    obtain ⟨⟨_, span⟩, us', rfl, rfl, hrest⟩ := htook.of_cons
    obtain ⟨s₁, hprimary, hshow₁⟩ := exists_runs_primary_name hshow
    obtain ⟨e, s₂, hsuffixes, he⟩ :=
      succeeds_suffixes hds hrounds (.var span x) ⟨us', hshow₁, hrest⟩
    simp only [Expr.edit, Edit.forget_span] at he
    exact ⟨e, s₂, runs_bind.mpr ⟨_, s₁, hprimary, hsuffixes⟩, he⟩
  refine hoperand.bind fun e s₁ h₁ => ?_
  obtain ⟨he, hs₁⟩ := h₁
  rw [level_rounds, operators]
  refine (succeeds_peek hs₁).bind fun t s₂ h₂ => ?_
  obtain ⟨ht, hs₂⟩ := h₂
  rw [ht]
  exact succeeds_pure ⟨he, hs₂⟩

/-- Behind a name and a dot, a fault in the selection is a fault in the expression. -/
theorem fails_read_of_selector {span span' : Span}
    (hs : s.Shows (.token ⟨.text .identifier x, span⟩ :: .token ⟨.punct .dot, span'⟩ :: us))
    {e : ReadError}
    (h : ∀ s', s'.Shows us → ∃ s'', Fails (selector (.var span x)) s' e s'') :
    ∃ s', Fails Expr.read s e s' := by
  obtain ⟨s₁, hprimary, hs₁⟩ := exists_runs_primary_name (l := level s.remaining) hs
  obtain ⟨s₂, hcall, hs₂⟩ := exists_runs_accept_not (k := .punct .lparen) hs₁ rfl (by simp)
  obtain ⟨s₃, hindex, hs₃⟩ := exists_runs_accept_not (k := .punct .lbracket) hs₂ rfl (by simp)
  obtain ⟨s₄, hdot, hs₄⟩ := exists_runs_accept hs₃ rfl
  obtain ⟨s₅, hfails⟩ := h s₄ hs₄
  refine ⟨s₅, fails_read_of_operand (fails_bind.mpr (.inr ⟨_, s₁, hprimary, ?_⟩))⟩
  rw [level_rounds, suffixes]
  refine fails_bind.mpr (.inr ⟨false, s₂, hcall, ?_⟩)
  refine fails_bind.mpr (.inr ⟨false, s₃, hindex, ?_⟩)
  refine fails_bind.mpr (.inr ⟨true, s₄, hdot, ?_⟩)
  exact fails_bind.mpr (.inl hfails)

end Grammar

/-! ## Cutting chains -/

namespace Lexer

variable {tail : List Char}

theorem digits_chars (d : Numeral) (htail : ∀ c, tail.head? = some c → c.isDigit = false) :
    digits (d.chars ++ tail) = d.chars := by
  rw [digits, List.takeWhile_append_of_pos fun _ => d.isDigit_of_mem]
  cases tail with
  | nil => simp
  | cons c tail => simp [htail c rfl]

theorem firstPiece_of_isDigit {c : Char} (hc : c.isDigit = true) (rest : List Char) :
    firstPiece c rest = .token (.text (number (c :: rest)).1 (String.ofList (number (c :: rest)).2))
      (number (c :: rest)).2 := by
  have hlead := Pattern.lead_of_isDigit hc
  have hblank : ¬ isBlank c = true := by
    intro hblank
    cases hlead.symm.trans (Pattern.lead_of_isBlank hblank)
  have hcomment : ¬ (decide (c = '/') && decide (rest.head? = some '/')) = true := by
    intro h
    obtain rfl : c = '/' := of_decide_eq_true (Bool.and_eq_true_iff.mp h).1
    cases hc
  rw [firstPiece, if_neg hblank, if_neg hcomment, if_pos hc]

/-- Two numerals with a dot between them are a real number, even if another dot follows. -/
theorem number_point (d e : Numeral) (htail : ∀ c, tail.head? = some c → c = '.') :
    number (d.chars ++ '.' :: (e.chars ++ tail)) = (.real, d.chars ++ '.' :: e.chars) := by
  have hwhole : digits (d.chars ++ '.' :: (e.chars ++ tail)) = d.chars :=
    digits_chars d (by rintro _ ⟨⟩; rfl)
  have hfraction : digits (e.chars ++ tail) = e.chars :=
    digits_chars e fun c hc => by rw [htail c hc]; rfl
  have hdecimal : decimal (d.chars ++ '.' :: (e.chars ++ tail)) = d.chars ++ '.' :: e.chars := by
    rw [decimal, hwhole, List.drop_left, digitsAfter_cons, hfraction,
      if_pos ⟨e.chars_ne_nil, rfl⟩]
  have hlonger : (d.chars ++ '.' :: e.chars).length ≠ d.chars.length := by
    rw [List.length_append, List.length_cons]
    omega
  have hafter : (d.chars ++ '.' :: (e.chars ++ tail)).drop (d.chars ++ '.' :: e.chars).length =
      tail := by
    rw [← List.cons_append, ← List.append_assoc, List.drop_left]
  rw [number, hwhole, List.drop_left, digitsAfter_of_ne (by decide), if_neg (by simp), hdecimal]
  simp only [hafter, if_neg hlonger]
  split
  · next rest => cases htail 'i' rfl
  · rfl

theorem scanFrom_point (d e : Numeral) (htail : ∀ c, tail.head? = some c → c = '.') (l : Location) :
    scanFrom l 0 (d.chars ++ '.' :: e.chars ++ tail) =
      .token ⟨.text .real (String.ofList (d.chars ++ '.' :: e.chars)),
        .between l (l.skip (d.chars ++ '.' :: e.chars))⟩ ::
          scanFrom (l.skip (d.chars ++ '.' :: e.chars)) 0 tail := by
  obtain ⟨c, r, hchars⟩ := List.exists_cons_of_ne_nil d.chars_ne_nil
  have hdigit : c.isDigit = true := d.isDigit_of_mem (by rw [hchars]; exact List.mem_cons_self)
  have hnumber := number_point d e htail
  rw [hchars, List.cons_append, List.cons_append] at hnumber
  have hpiece : firstPiece c (r ++ '.' :: e.chars ++ tail) =
      .token (.text .real (String.ofList (c :: (r ++ '.' :: e.chars))))
        (c :: (r ++ '.' :: e.chars)) := by
    rw [List.append_assoc, List.cons_append, firstPiece_of_isDigit hdigit, hnumber]
  rw [hchars]
  exact scanFrom_token hpiece l

theorem scanFrom_dot (d : Numeral) (tail : List Char) (l : Location) :
    scanFrom l 0 ('.' :: (d.chars ++ tail)) =
      .token ⟨.punct .dot, .between l (l.skip ['.'])⟩ ::
        scanFrom (l.skip ['.']) 0 (d.chars ++ tail) := by
  obtain ⟨c, r, hchars⟩ := List.exists_cons_of_ne_nil d.chars_ne_nil
  have hdigit : c.isDigit = true := d.isDigit_of_mem (by rw [hchars]; exact List.mem_cons_self)
  have hdot : '.' ≠ c := by
    rintro rfl
    cases hdigit
  have hpiece : firstPiece '.' ([] ++ (d.chars ++ tail)) = .token (.punct .dot) ['.'] := by
    rw [hchars]
    simp [firstPiece, isBlank, isWordStart, Punct.leading?, Punct.all, Punct.chars, hdot]
  exact scanFrom_token hpiece l

theorem scanFrom_name {x : String} (hx : (Kind.text .identifier x).Written) (htail : EndsWord tail)
    (l : Location) :
    scanFrom l 0 (x.toList ++ tail) =
      .token ⟨.text .identifier x, .between l (l.skip x.toList)⟩ ::
        scanFrom (l.skip x.toList) 0 tail := by
  obtain ⟨c, r, hword, hc, hr⟩ := mem_identifier.mp hx.1
  have hkind : Kind.ofWord (String.ofList x.toList) = .text .identifier x :=
    (names_ofWord hx.1).unique hx.names
  rw [hword] at hkind ⊢
  rw [scanFrom_word hc hr htail, hkind]

theorem scans_name {x : String} (hx : (Kind.text .identifier x).Written) :
    Scans x.toList [.text .identifier x] EndsWord := by
  intro l tail htail
  rw [scanFrom_name hx htail]
  exact (Took.refl _).cons _

/-- The text ends here, or a space follows. -/
def Spaced (tail : List Char) : Prop := ∀ c, tail.head? = some c → c = ' '

theorem scans_selection (d : Numeral) :
    Scans ('.' :: d.chars) [.punct .dot, .text .integer d.text] Spaced := by
  intro l tail htail
  rw [List.cons_append, scanFrom_dot, scanFrom_written d.names_integer htail]
  exact ((Took.refl _).cons _).cons _

theorem scans_selections (ds : List Numeral) :
    Scans (ds.flatMap fun d => [' '] ++ '.' :: d.chars) (selectionKinds ds) Spaced := by
  induction ds with
  | nil => exact scans_nil
  | cons d ds ih =>
    have hblank : Scans [' '] [] fun _ => True := by
      intro l tail _
      rw [List.singleton_append, scanFrom_blank rfl]
      exact .refl _
    have hfirst := hblank.append (scans_selection d) fun _ _ => trivial
    rw [selectionKinds, List.flatMap_cons, List.flatMap_cons]
    refine hfirst.append ih fun tail htail => ?_
    cases ds with
    | nil => exact htail
    | cons e ds =>
      rintro c ⟨⟩
      rfl

end Lexer

namespace Expr

open Lexer Grammar

variable {x : String} {text : List Char}

/-- A text that is cut into the tokens of a chain is read as that chain. -/
theorem exists_ofText_of_took {ds : List Numeral} (hds : ∀ d ∈ ds, d.value ≤ 2 ^ 64 - 1)
    (h : Took (scan text) (.text .identifier x :: selectionKinds ds) []) :
    ∃ e, Expr.ofText text = .ok e ∧ e.bare = .ordinals x ds := by
  have hremaining : ds.length ≤ (Stream.ofText text).remaining := by
    obtain ⟨ts, hts, hkinds⟩ := h
    have hlength := congrArg List.length hkinds
    simp only [selectionKinds, List.length_map, List.length_cons, List.length_flatMap,
      List.length_nil, List.map_const', List.sum_replicate, smul_eq_mul] at hlength
    simp only [Stream.remaining, Stream.ofText, hts, List.length_append, List.length_map]
    omega
  obtain ⟨e, s', hrun, he, -⟩ := succeeds_read_ordinals hds ⟨_, shows_ofText text, h⟩ hremaining
  exact ⟨e, ofText_of_runs hrun, he⟩

theorem took_chainText_spaced (hx : (Kind.text .identifier x).Written) (ds : List Numeral) :
    Took (scan (chainText [' '] x ds)) (.text .identifier x :: selectionKinds ds) [] := by
  have hscans := (scans_name hx).append (scans_selections ds) fun tail htail => ?_
  · have htook := hscans .start [] (by rintro _ ⟨⟩)
    rwa [List.append_nil] at htook
  · -- what follows the name is the end or a space
    have hspaced : Spaced ((ds.flatMap fun d => [' '] ++ '.' :: d.chars) ++ tail) := by
      cases ds with
      | nil => exact htail
      | cons d ds =>
        rintro c ⟨⟩
        rfl
    intro c hc
    rw [hspaced c hc]
    rfl

theorem scan_chainText_one (hx : (Kind.text .identifier x).Written) (d : Numeral) :
    scan (chainText [] x [d]) =
      [.token ⟨.text .identifier x, .covering [] x.toList⟩,
        .token ⟨.punct .dot, .covering x.toList ['.']⟩,
        .token ⟨.text .integer d.text, .covering (x.toList ++ ['.']) d.chars⟩] := by
  have hword : EndsWord ('.' :: (d.chars ++ [])) := by
    rintro c ⟨⟩
    rfl
  have hend : Spaced [] := by rintro c ⟨⟩
  have hscan := scanFrom_name hx hword .start
  rw [scanFrom_dot, scanFrom_written d.names_integer hend, ← skip_append, ← skip_append,
    List.append_nil] at hscan
  rw [chainText, List.flatMap_singleton, List.nil_append, scan, hscan]
  rfl

/-- Without blanks, the first two ordinals of a chain are a real number, which selects nothing. -/
theorem ofText_chainText_dense (hx : (Kind.text .identifier x).Written) (d e : Numeral)
    (ds : List Numeral) :
    Expr.ofText (chainText [] x (d :: e :: ds)) =
      .error ⟨.expectedField (.text .real (String.ofList (d.chars ++ '.' :: e.chars))),
        .covering (x.toList ++ ['.']) (d.chars ++ '.' :: e.chars)⟩ := by
  have hlater : ∀ c, (ds.flatMap fun d => '.' :: d.chars).head? = some c → c = '.' := by
    cases ds with
    | nil => rintro c ⟨⟩
    | cons d ds =>
      rintro c ⟨⟩
      rfl
  have htext : chainText [] x (d :: e :: ds) = x.toList ++ '.' :: (d.chars ++
      ('.' :: e.chars ++ ds.flatMap fun d => '.' :: d.chars)) := by
    simp [chainText]
  have hword : EndsWord ('.' :: (d.chars ++
      ('.' :: e.chars ++ ds.flatMap fun d => '.' :: d.chars))) := by
    rintro c ⟨⟩
    rfl
  have hscan := scanFrom_name hx hword .start
  rw [scanFrom_dot, ← List.append_assoc, scanFrom_point d e hlater] at hscan
  have hshows := shows_ofText (chainText [] x (d :: e :: ds))
  rw [htext, scan, ← List.append_assoc d.chars, hscan] at hshows
  obtain ⟨s', hfails⟩ := fails_read_of_selector hshows fun s₁ hs₁ => by
    obtain ⟨s₂, hnext, -⟩ := exists_runs_next hs₁
    exact ⟨s₂, fails_bind.mpr (.inr ⟨_, s₂, hnext, fails_fail.mpr ⟨rfl, rfl⟩⟩)⟩
  rw [htext, ← List.append_assoc d.chars, ofText_of_fails hfails, Span.covering,
    skip_append _ (x.toList ++ ['.']), skip_append _ x.toList]

theorem written_x : (Kind.text .identifier "x").Written :=
  ⟨mem_identifier.mpr ⟨'x', [], rfl, rfl, by simp⟩, by rintro - kw; cases kw <;> decide⟩

/-- A chain of ordinals behind a name is read as it should be wherever a text is cut into its tokens,
and so if each dot has a space before it. Without blanks it is read only if there is no more than one
ordinal; otherwise the first two are refused as one number. -/
theorem read_chainText (x : String) (hx : (Kind.text .identifier x).Written) (d : Numeral)
    (ds : List Numeral) (hds : ∀ e ∈ d :: ds, e.value < 2 ^ 64) :
    (∀ text, Took (scan text) (.text .identifier x :: selectionKinds (d :: ds)) [] →
      ∃ e, Expr.ofText text = .ok e ∧ e.bare = .ordinals x (d :: ds)) ∧
    (∃ e, Expr.ofText (chainText [' '] x (d :: ds)) = .ok e ∧ e.bare = .ordinals x (d :: ds)) ∧
    ((∃ e, Expr.ofText (chainText [] x (d :: ds)) = .ok e ∧ e.bare = .ordinals x (d :: ds)) ↔
      ds = []) ∧
    ∀ d' ds', ds = d' :: ds' → Expr.ofText (chainText [] x (d :: ds)) =
      .error ⟨.expectedField (.text .real (String.ofList (d.chars ++ '.' :: d'.chars))),
        .covering (x.toList ++ ['.']) (d.chars ++ '.' :: d'.chars)⟩ := by
  have hbound : ∀ e ∈ d :: ds, e.value ≤ 2 ^ 64 - 1 := fun e he => Nat.le_sub_one_of_lt (hds e he)
  refine ⟨fun text => exists_ofText_of_took hbound,
    exists_ofText_of_took hbound (took_chainText_spaced hx _), ⟨?_, ?_⟩, ?_⟩
  · rintro ⟨e, he, -⟩
    cases ds with
    | nil => rfl
    | cons d' ds' =>
      rw [ofText_chainText_dense hx] at he
      cases he
  · rintro rfl
    exact exists_ofText_of_took hbound ⟨[_, _, _], scan_chainText_one hx d, rfl⟩
  · rintro d' ds' rfl
    exact ofText_chainText_dense hx d d' ds'

/-- The same two ordinals, with a space between them and without. -/
theorem read_chainText_oneTwo :
    (∃ e, Expr.ofText "x .1 .2".toList = .ok e ∧
      e.bare = .ordinal .origin (.ordinal .origin (.var .origin "x") 1) 2) ∧
    Expr.ofText "x.1.2".toList =
      .error ⟨.expectedField (.text .real "1.2"), ⟨2, 5, ⟨1, 3⟩⟩⟩ := by
  have hsmall : ∀ e ∈ [Numeral.ofNat 1, Numeral.ofNat 2], e.value < 2 ^ 64 := by
    simp [Numeral.value_ofNat]
  obtain ⟨-, hspaced, -, hdense⟩ := read_chainText "x" written_x (.ofNat 1) [.ofNat 2] hsmall
  exact ⟨hspaced, hdense (.ofNat 2) [] rfl⟩

/-- Two selections by ordinals are not read where only the dots are written between them. -/
theorem not_read_denseChain :
    "x.1.2".toList = chainText [] "x" [.ofNat 1, .ofNat 2] ∧
    ¬ ∃ e, Expr.ofText "x.1.2".toList = .ok e ∧ e.bare = .ordinals "x" [.ofNat 1, .ofNat 2] := by
  have hrefused := ofText_chainText_dense written_x (.ofNat 1) (.ofNat 2) []
  refine ⟨rfl, ?_⟩
  rintro ⟨e, he, -⟩
  cases he.symm.trans hrefused

end Expr

end ExprCheck
