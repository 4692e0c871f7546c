import Mathlib
import ExprCheck.Ty

/-!
# The text of a type

The text of a type shows where it ends. So a text can begin with the text of one type only, however
deeply function types and tuple types are nested in it, and what follows that type is the same too.

A type is shown by a name and, in parentheses, by its parts. No name begins another. The parts of
arrays, maps and tuples are a list with commas between them, and a part, which begins with a capital
letter, is never taken for the character that ends such a list. A function type shows its parameters
as such a list, which an arrow ends.
-/

namespace ExprCheck

namespace Ty

/-- The names of types. -/
def names : List String :=
  ["BooleanType", "IntegerType", "RealType", "RationalType", "ComplexType", "StringType",
    "FunctionType", "ArrayType", "MapType", "TupleType", "UndefinedType"]

theorem name_mem_names (t : Ty) : t.name ∈ names := by
  cases t with
  | primitive p => cases p <;> simp [name, names]
  | function | array | map | tuple | undefined => simp [name, names]

/-- No name begins another. -/
theorem eq_of_isPrefix_of_mem_names :
    ∀ m ∈ names, ∀ n ∈ names, m.toList <+: n.toList → m = n := by
  decide +kernel

/-- The types that a type is built from. -/
def parts : Ty → List Ty
  | function signature => signature
  | array element => [element]
  | map key value => [key, value]
  | tuple fields => fields
  | primitive _ | undefined => []

/-- A type is known by its name and its parts. -/
theorem eq_of_name_of_parts {s t : Ty} (hname : s.name = t.name) (hparts : s.parts = t.parts) :
    s = t := by
  cases s with
  | primitive p =>
    cases t with
    | primitive q => cases p <;> cases q <;> simp [name] at hname ⊢
    | _ => cases p <;> simp [name] at hname
  | _ =>
    cases t with
    | primitive q => cases q <;> simp [name] at hname
    | _ => simp_all [name, parts]

theorem sizeOf_lt_of_mem_parts {s t : Ty} (h : s ∈ t.parts) : sizeOf s < sizeOf t := by
  cases t with
  | function ts | tuple ts =>
    have hlt := List.sizeOf_lt_of_mem (show s ∈ ts from h)
    simp only [function.sizeOf_spec, tuple.sizeOf_spec]
    omega
  | array e =>
    obtain rfl := List.mem_singleton.mp h
    simp
  | map k v =>
    simp only [parts, List.mem_cons, List.not_mem_nil, or_false] at h
    rcases h with rfl | rfl <;> simp only [map.sizeOf_spec] <;> omega
  | primitive | undefined => cases h

/-- The names of the types that show their parts as a list. -/
def listNames : List String := ["ArrayType", "MapType", "TupleType"]

/-- What a type shows after its name. -/
def afterName (t : Ty) : List Char :=
  if t.name = "FunctionType" then '(' :: (renderSignature t.parts).toList ++ [')']
  else if t.name ∈ listNames then '(' :: (renderList t.parts).toList ++ [')']
  else []

theorem toList_render (t : Ty) : t.render.toList = t.name.toList ++ t.afterName := by
  cases t with
  | primitive p => cases p <;> simp [render, name, afterName, listNames]
  | _ => simp [render, renderList, name, afterName, listNames, parts]

/-- A type that is shown by its name alone has no parts. -/
theorem parts_eq_nil {t : Ty} (hf : t.name ≠ "FunctionType") (hl : t.name ∉ listNames) :
    t.parts = [] := by
  cases t with
  | primitive | undefined => rfl
  | _ => simp [name, listNames] at hf hl

/-- A text begins with the name of one type at most. -/
theorem name_append_inj {s t : Ty} {u v : List Char}
    (h : s.name.toList ++ u = t.name.toList ++ v) : s.name = t.name ∧ u = v := by
  have hname : s.name = t.name := by
    rcases List.append_eq_append_iff.mp h with ⟨r, hr, -⟩ | ⟨r, hr, -⟩
    · exact eq_of_isPrefix_of_mem_names _ s.name_mem_names _ t.name_mem_names ⟨r, hr.symm⟩
    · exact (eq_of_isPrefix_of_mem_names _ t.name_mem_names _ s.name_mem_names ⟨r, hr.symm⟩).symm
  rw [hname] at h
  exact ⟨hname, List.append_cancel_left h⟩

/-- A text that begins with this type begins with no other one, and there is one rest behind it. -/
def Separates (t : Ty) : Prop :=
  ∀ (t' : Ty) (u u' : List Char), t.render.toList ++ u = t'.render.toList ++ u' → t = t' ∧ u = u'

section Lists

variable {ts : List Ty}

/-- A list that is not empty begins with a capital letter. -/
theorem renderList_cons_append_ne {c : Char} (hc : c.isUpper = false) (t : Ty) (ts : List Ty)
    (u v : List Char) : (renderList (t :: ts)).toList ++ u ≠ c :: v := by
  intro h
  obtain ⟨w, hw⟩ : ∃ w, (renderList (t :: ts)).toList = t.name.toList ++ w := by
    cases ts with
    | nil => exact ⟨_, t.toList_render⟩
    | cons s ts =>
      simp only [renderList, String.toList_append, toList_render, List.append_assoc]
      exact ⟨_, rfl⟩
  have hnames : ∀ n ∈ names, n.toList.head?.any Char.isUpper = true := by decide +kernel
  have hname := hnames _ t.name_mem_names
  cases hn : t.name.toList with
  | nil => simp [hn] at hname
  | cons d r =>
    rw [hw, hn, List.cons_append, List.cons_append] at h
    obtain ⟨rfl, -⟩ := List.cons.inj h
    rw [hn, List.head?_cons, Option.any_some, hc] at hname
    cases hname

/-- A list of types is ended by any character that can neither go on with it nor begin it. -/
theorem renderList_append_inj (hts : ∀ t ∈ ts, t.Separates) {stop : Char}
    (hstop : stop.isUpper = false) (hcomma : stop ≠ ',') {ts' : List Ty} {u u' : List Char}
    (h : (renderList ts).toList ++ stop :: u = (renderList ts').toList ++ stop :: u') :
    ts = ts' ∧ u = u' := by
  induction ts generalizing ts' with
  | nil =>
    cases ts' with
    | nil => exact ⟨rfl, (List.cons.inj h).2⟩
    | cons t' ts' => exact absurd h.symm (renderList_cons_append_ne hstop t' ts' _ _)
  | cons t ts ih =>
    obtain ⟨ht, hts⟩ := List.forall_mem_cons.mp hts
    cases ts' with
    | nil => exact absurd h (renderList_cons_append_ne hstop t ts _ _)
    | cons t' ts' =>
      -- the first types are equal; then a comma or the end follows both of them
      cases ts with
      | nil =>
        cases ts' with
        | nil =>
          obtain ⟨rfl, hrest⟩ := ht t' _ _ h
          exact ⟨rfl, (List.cons.inj hrest).2⟩
        | cons s' ts' =>
          simp only [renderList, String.toList_append, List.append_assoc] at h
          exact absurd (List.cons.inj (ht t' _ _ h).2).1 hcomma
      | cons s ts =>
        cases ts' with
        | nil =>
          simp only [renderList, String.toList_append, List.append_assoc] at h
          exact absurd (List.cons.inj (ht t' _ _ h).2).1.symm hcomma
        | cons s' ts' =>
          simp only [renderList, String.toList_append, List.append_assoc] at h
          obtain ⟨rfl, hrest⟩ := ht t' _ _ h
          obtain ⟨hlist, hu⟩ := ih hts (List.append_cancel_left hrest)
          exact ⟨by rw [hlist], hu⟩

theorem renderSignature_singleton_append (result : Ty) (w : List Char) :
    (renderSignature [result]).toList ++ w = '-' :: '>' :: ' ' :: (result.render.toList ++ w) := by
  simp [renderSignature]

theorem renderSignature_cons_append (param result : Ty) (params : List Ty) (w : List Char) :
    (renderSignature (param :: params ++ [result])).toList ++ w =
      (renderList (param :: params)).toList ++
        ' ' :: '-' :: '>' :: ' ' :: (result.render.toList ++ w) := by
  induction params generalizing param with
  | nil => simp [renderSignature, renderList]
  | cons next params ih =>
    have hsplit : renderSignature (param :: next :: params ++ [result]) =
        param.render ++ ", " ++ renderSignature (next :: params ++ [result]) := by
      cases params <;> rfl
    rw [hsplit, String.toList_append, List.append_assoc, ih]
    simp only [renderList, String.toList_append, List.append_assoc]

/-- A signature with parameters begins with a capital letter, one with a result only begins with the
arrow, and an empty one leaves nothing before the parenthesis. -/
theorem renderSignature_append_inj (hts : ∀ t ∈ ts, t.Separates) {ts' : List Ty} {u u' : List Char}
    (h : (renderSignature ts).toList ++ ')' :: u = (renderSignature ts').toList ++ ')' :: u') :
    ts = ts' ∧ u = u' := by
  have hshape : ∀ l : List Ty, l = [] ∨ (∃ r, l = [r]) ∨ ∃ p ps r, l = p :: ps ++ [r] := by
    intro l
    rcases l.eq_nil_or_concat' with rfl | ⟨ps, r, rfl⟩
    · exact .inl rfl
    · cases ps with
      | nil => exact .inr (.inl ⟨r, rfl⟩)
      | cons p ps => exact .inr (.inr ⟨p, ps, r, rfl⟩)
  have hresult : ∀ {r r' : Ty}, r.Separates →
      r.render.toList ++ ')' :: u = r'.render.toList ++ ')' :: u' → r = r' ∧ u = u' := by
    intro r r' hr hend
    obtain ⟨rfl, hrest⟩ := hr r' _ _ hend
    exact ⟨rfl, (List.cons.inj hrest).2⟩
  have hnil : ∀ w : List Char, (renderSignature []).toList ++ w = w := fun _ => rfl
  rcases hshape ts with rfl | ⟨r, rfl⟩ | ⟨p, ps, r, rfl⟩
  · rw [hnil] at h
    rcases hshape ts' with rfl | ⟨r', rfl⟩ | ⟨p', ps', r', rfl⟩
    · exact ⟨rfl, (List.cons.inj h).2⟩
    · simp [renderSignature_singleton_append] at h
    · rw [renderSignature_cons_append] at h
      exact absurd h.symm (renderList_cons_append_ne rfl p' ps' _ _)
  · rw [renderSignature_singleton_append] at h
    rcases hshape ts' with rfl | ⟨r', rfl⟩ | ⟨p', ps', r', rfl⟩
    · simp [hnil] at h
    · simp only [renderSignature_singleton_append, List.cons.injEq, true_and] at h
      obtain ⟨rfl, hu⟩ := hresult (hts r (by simp)) h
      exact ⟨rfl, hu⟩
    · rw [renderSignature_cons_append] at h
      exact absurd h.symm (renderList_cons_append_ne rfl p' ps' _ _)
  · rw [renderSignature_cons_append] at h
    rcases hshape ts' with rfl | ⟨r', rfl⟩ | ⟨p', ps', r', rfl⟩
    · exact absurd h (renderList_cons_append_ne rfl p ps _ _)
    · rw [renderSignature_singleton_append] at h
      exact absurd h (renderList_cons_append_ne rfl p ps _ _)
    · rw [renderSignature_cons_append] at h
      obtain ⟨hparams, hrest⟩ := renderList_append_inj
        (fun t ht => hts t (List.mem_append_left _ ht)) rfl (by decide) h
      simp only [List.cons.injEq, true_and] at hrest
      obtain ⟨rfl, hu⟩ := hresult (hts r (by simp)) hrest
      exact ⟨by rw [hparams], hu⟩

end Lists

/-- The text of a type shows where it ends. -/
theorem separates (t : Ty) : t.Separates := by
  induction hn : sizeOf t using Nat.strong_induction_on generalizing t with
  | _ n ih =>
    have hparts : ∀ s ∈ t.parts, s.Separates := fun s hs =>
      ih _ (hn ▸ sizeOf_lt_of_mem_parts hs) s rfl
    intro t' u u' h
    rw [toList_render, toList_render, List.append_assoc, List.append_assoc] at h
    obtain ⟨hname, hrest⟩ := name_append_inj h
    -- the name says how the parts are shown
    unfold afterName at hrest
    rw [← hname] at hrest
    by_cases hf : t.name = "FunctionType"
    · simp only [if_pos hf, List.append_assoc, List.cons_append, List.nil_append] at hrest
      obtain ⟨hp, hu⟩ := renderSignature_append_inj hparts (List.cons.inj hrest).2
      exact ⟨eq_of_name_of_parts hname hp, hu⟩
    · by_cases hl : t.name ∈ listNames
      · simp only [if_neg hf, if_pos hl, List.append_assoc, List.cons_append,
          List.nil_append] at hrest
        obtain ⟨hp, hu⟩ := renderList_append_inj hparts (by decide) (by decide)
          (List.cons.inj hrest).2
        exact ⟨eq_of_name_of_parts hname hp, hu⟩
      · simp only [if_neg hf, if_neg hl, List.nil_append] at hrest
        refine ⟨eq_of_name_of_parts hname ?_, hrest⟩
        rw [parts_eq_nil hf hl, parts_eq_nil (hname ▸ hf) (hname ▸ hl)]

/-- Types that are shown alike are alike. -/
theorem render_injective : Function.Injective render := by
  intro s t h
  have hrest : s.render.toList ++ [] = t.render.toList ++ [] := by rw [h]
  exact (s.separates t [] [] hrest).1

end Ty

end ExprCheck
