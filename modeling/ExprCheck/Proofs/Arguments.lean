import Mathlib
import ExprCheck.CommandLine.Run

/-!
# Arguments in any order

The switches that shape a check, a choice of colours and the input file can be given in every
combination and in every order. What is open after an argument, a value or the input file, is
settled by the next one, so the reading is followed up to what it would settle to: `Reads`.
-/

namespace ExprCheck.CommandLine

/-- A part of a command line. -/
inductive Word where
  | flag (s : Switch)
  | color (c : ColorChoice)
  | input (path : String)

namespace Word

/-- How it is written. -/
def spell : Word → List String
  | flag s => ["--" ++ s.name]
  | color c => ["--" ++ Switch.color.name, c.text]
  | input path => [path]

/-- The argument that it gives. -/
def arg : Word → Argument
  | flag s => .switch s
  | color _ => .switch .color
  | input _ => .input

/-- The switch leads to a check and takes no value; the file does not look like a switch. -/
def Plain : Word → Prop
  | flag s => s.takesValue = false ∧ s.asksAbout = false
  | color _ => True
  | input path => path ≠ "" ∧ path.toList.head? ≠ some '-'

end Word

namespace Progress

/-- What is known after one more part. -/
def take (q : Progress) : Word → Progress
  | .flag s => { q with used := q.used ++ [.switch s] }
  | .color c => { q with used := q.used ++ [.switch .color], color := some c }
  | .input path => { q with used := q.used ++ [.input], input := some path, inputSeen := true }

/-- The reading has come to `p`, and it will settle to `q`. -/
structure Reads (p q : Progress) : Prop where
  closed : p.closed = .ok q
  inputSeen : p.inputSeen = q.inputSeen
  awaits : ∀ a, p.pending ≠ some ⟨a, none⟩
  settled : q.pending = none
  seen : q.inputSeen = true ↔ .input ∈ q.used

theorem reads_initial : Reads initial initial := ⟨rfl, rfl, by simp [initial], rfl, by simp [initial]⟩

/-! ## One argument -/

theorem step_of_plain (p : Progress) {arg : String} (h : arg.toList.head? ≠ some '-') :
    p.step arg = p.word arg := by
  unfold step
  split
  · next heq => exact absurd (by rw [heq]; rfl) h
  · next heq => exact absurd (by rw [heq]; rfl) h
  · rfl

theorem eq_notMem_name (s : Switch) : ∀ c ∈ s.name.toList, c ≠ '=' := by
  cases s <;> simp [Switch.name]

theorem ofName?_name (s : Switch) : Switch.ofName? s.name = some s := by
  cases s <;> decide +kernel

/-- The name of a switch, with two dashes before it. -/
theorem step_name (p : Progress) (s : Switch) : p.step ("--" ++ s.name) = p.named s.name none := by
  have hchars : ("--" ++ s.name).toList = '-' :: '-' :: s.name.toList := by
    rw [String.toList_append]
    rfl
  have hname : s.name.toList.takeWhile (· ≠ '=') = s.name.toList :=
    List.takeWhile_eq_self_iff.mpr fun c hc => decide_eq_true (eq_notMem_name s c hc)
  have hvalue : s.name.toList.dropWhile (· ≠ '=') = [] :=
    List.dropWhile_eq_nil_iff.mpr fun c hc => decide_eq_true (eq_notMem_name s c hc)
  unfold step
  rw [hchars]
  simp only [hname, hvalue, String.ofList_toList]

theorem name_ne_dashes (s : Switch) : "--" ++ s.name ≠ "--" := by
  cases s <;> decide +kernel

theorem text_plain (c : ColorChoice) : c.text.toList.head? ≠ some '-' := by
  cases c <;> decide +kernel

theorem ofText?_text (c : ColorChoice) : ColorChoice.ofText? c.text = some c := by
  cases c <;> decide +kernel

theorem ne_dashes_of_plain {path : String} (h : path.toList.head? ≠ some '-') : path ≠ "--" := by
  rintro rfl
  exact h (by decide +kernel)

theorem settle_input (p : Progress) {path : String} (h : path ≠ "") :
    p.settle .input (some path) =
      ({ p with used := p.used ++ [.input], input := some path }, none) := by
  unfold settle
  split
  · next heq => exact absurd (Option.some.inj heq) h
  · next heq =>
    obtain rfl := Option.some.inj heq
    rfl
  · next heq => cases heq
  · next hinput => exact absurd rfl hinput

theorem readAll_cons (p : Progress) {arg : String} (rest : List String) (h : arg ≠ "--") :
    p.readAll false (arg :: rest) = p.step arg >>= fun p => p.readAll false rest := by
  rw [readAll, if_neg h]

/-- A part of the command line that is not there yet is taken. -/
theorem readAll_word {p q : Progress} (h : Reads p q) {w : Word} (hw : w.Plain)
    (hnew : w.arg ∉ q.used) (rest : List String) :
    ∃ p', p.readAll false (w.spell ++ rest) = p'.readAll false rest ∧ Reads p' (q.take w) := by
  cases w with
  | flag s =>
    have hflag : p.step ("--" ++ s.name) = .ok (q.take (.flag s)) := by
      rw [step_name, named, ofName?_name]
      simp only [hw.1, Bool.false_eq_true, if_false, flag, h.closed]
      have hnot : Argument.switch s ∉ q.used := hnew
      cases s with
      | help | version => exact absurd hw.2 (by decide)
      | color => exact absurd hw.1 (by decide)
      | verbose | dumpTokens | dumpProgram | dumpSymbols =>
        show (if _ ∈ q.used then _ else _) = _
        rw [if_neg hnot]
        rfl
    refine ⟨q.take (.flag s), ?_, ?_⟩
    · show p.readAll false (("--" ++ s.name) :: rest) = _
      rw [readAll_cons p rest (name_ne_dashes s), hflag]
      rfl
    · refine ⟨?_, rfl, by simp [take, h.settled], h.settled, ?_⟩
      · simp [closed, close, take, h.settled]
      · simp [take, h.seen]
  | color c =>
    have hcolor : p.step ("--" ++ Switch.color.name) =
        .ok { q with pending := some ⟨.switch .color, none⟩ } := by
      rw [step_name, named, ofName?_name]
      show p.option .color none = _
      rw [option, h.closed]
      rfl
    refine ⟨{ q with pending := some ⟨.switch .color, some c.text⟩ }, ?_, ?_⟩
    · show p.readAll false (("--" ++ Switch.color.name) :: c.text :: rest) = _
      rw [readAll_cons p _ (name_ne_dashes .color), hcolor]
      show readAll _ false (c.text :: rest) = _
      rw [readAll_cons _ rest (ne_dashes_of_plain (text_plain c)), step_of_plain _ (text_plain c)]
      rfl
    · have hnot : Argument.switch .color ∉ q.used := hnew
      refine ⟨?_, rfl, by simp, h.settled, ?_⟩
      · obtain ⟨used, input, color, pending, inputSeen⟩ := q
        obtain rfl : pending = none := h.settled
        simp only [closed, close, settle, if_neg hnot, ofText?_text]
        rfl
      · simp [take, h.seen]
  | input path =>
    obtain ⟨hne, hplain⟩ := hw
    have hnot : Argument.input ∉ q.used := hnew
    have hunseen : p.inputSeen = false := by
      rw [h.inputSeen, Bool.eq_false_iff]
      exact fun hseen => hnot (h.seen.mp hseen)
    have hfile : p.step path =
        .ok { q with pending := some ⟨.input, some path⟩, inputSeen := true } := by
      rw [step_of_plain p hplain, word]
      split
      · next a heq => exact absurd heq (h.awaits a)
      · rw [file, hunseen, h.closed]
        rfl
    refine ⟨{ q with pending := some ⟨.input, some path⟩, inputSeen := true }, ?_, ?_⟩
    · show p.readAll false (path :: rest) = _
      rw [readAll_cons p rest (ne_dashes_of_plain hplain), hfile]
      rfl
    · refine ⟨?_, rfl, by simp, h.settled, by simp [take]⟩
      obtain ⟨used, input, color, pending, inputSeen⟩ := q
      obtain rfl : pending = none := h.settled
      simp only [closed, close, settle_input _ hne]
      rfl

/-! ## All arguments -/

theorem used_take (q : Progress) (w : Word) : (q.take w).used = q.used ++ [w.arg] := by
  cases w <;> rfl

theorem readAll_words {p q : Progress} (h : Reads p q) {words : List Word}
    (hplain : ∀ w ∈ words, w.Plain) (hnodup : (q.used ++ words.map Word.arg).Nodup) :
    ∃ p', p.readAll false (words.flatMap Word.spell) = .ok p' ∧ Reads p' (words.foldl take q) := by
  induction words generalizing p q with
  | nil => exact ⟨p, rfl, h⟩
  | cons w rest ih =>
    have hnew : w.arg ∉ q.used := by
      intro hmem
      exact (List.nodup_append.mp hnodup).2.2 _ hmem _ List.mem_cons_self rfl
    obtain ⟨p₁, hread, h₁⟩ :=
      readAll_word h (hplain w List.mem_cons_self) hnew (rest.flatMap Word.spell)
    have hrest : ((q.take w).used ++ rest.map Word.arg).Nodup := by
      rw [used_take, List.append_assoc]
      exact hnodup
    obtain ⟨p₂, hread₂, h₂⟩ := ih h₁ (fun v hv => hplain v (List.mem_cons_of_mem _ hv)) hrest
    exact ⟨p₂, by rw [List.flatMap_cons, hread, hread₂], h₂⟩

theorem used_foldl (words : List Word) (q : Progress) :
    (words.foldl take q).used = q.used ++ words.map Word.arg := by
  induction words generalizing q with
  | nil => simp
  | cons w rest ih => rw [List.foldl_cons, ih, used_take, List.append_assoc]; rfl

/-- What only one argument sets stays as it is where this argument is not given. -/
theorem foldl_take_of_notMem {α : Type} {f : Progress → α} {a : Argument}
    (hf : ∀ (q : Progress) w, w.arg ≠ a → f (q.take w) = f q) {words : List Word} (q : Progress)
    (h : a ∉ words.map Word.arg) : f (words.foldl take q) = f q := by
  induction words generalizing q with
  | nil => rfl
  | cons w rest ih =>
    rw [List.map_cons, List.mem_cons, not_or] at h
    rw [List.foldl_cons, ih _ h.2, hf q w (Ne.symm h.1)]

/-- What only one argument sets is as this argument sets it, wherever it is given. -/
theorem foldl_take_of_mem {α : Type} {f : Progress → α} {w : Word} {x : α}
    (hf : ∀ (q : Progress) v, v.arg ≠ w.arg → f (q.take v) = f q) (hw : ∀ q : Progress, f (q.take w) = x)
    {words : List Word} (q : Progress) (hnodup : (words.map Word.arg).Nodup) (h : w ∈ words) :
    f (words.foldl take q) = x := by
  obtain ⟨before, later, rfl⟩ := List.append_of_mem h
  rw [List.map_append, List.map_cons] at hnodup
  have hnot : w.arg ∉ later.map Word.arg :=
    (List.nodup_cons.mp (List.nodup_append.mp hnodup).2.1).1
  rw [List.foldl_append, List.foldl_cons, foldl_take_of_notMem hf _ hnot, hw]

theorem input_of_mem {words : List Word} {path : String} (q : Progress)
    (hnodup : (words.map Word.arg).Nodup) (h : .input path ∈ words) :
    (words.foldl take q).input = some path := by
  refine foldl_take_of_mem (f := Progress.input) ?_ (fun _ => rfl) q hnodup h
  intro q v hv
  cases v with
  | input path => exact absurd rfl hv
  | flag s | color c => rfl

theorem color_of_mem {words : List Word} {c : ColorChoice} (q : Progress)
    (hnodup : (words.map Word.arg).Nodup) (h : .color c ∈ words) :
    (words.foldl take q).color = some c := by
  refine foldl_take_of_mem (f := Progress.color) ?_ (fun _ => rfl) q hnodup h
  intro q v hv
  cases v with
  | color c => exact absurd rfl hv
  | flag s | input path => rfl

end Progress

/-- Every combination of switches, with or without a choice of colours, in every order and with the
input file anywhere among them, asks for a check of the file. -/
theorem parse_spell {words : List Word} {path : String} (hplain : ∀ w ∈ words, w.Plain)
    (hnodup : (words.map Word.arg).Nodup) (hinput : .input path ∈ words) :
    ∃ i, parse (words.flatMap Word.spell) = .ok i ∧ i.input = path ∧
      (∀ s, i.has s = true ↔ .switch s ∈ words.map Word.arg) ∧
      ∀ c, .color c ∈ words → i.color = c := by
  obtain ⟨p, hread, hp⟩ := Progress.readAll_words Progress.reads_initial hplain hnodup
  have hpath := Progress.input_of_mem Progress.initial hnodup hinput
  have hcolor := fun c => Progress.color_of_mem (c := c) Progress.initial hnodup
  have hused : (words.foldl Progress.take Progress.initial).used = words.map Word.arg :=
    Progress.used_foldl words Progress.initial
  generalize words.foldl Progress.take Progress.initial = q at hp hpath hcolor hused
  refine ⟨⟨path, q.switches, q.color.getD .auto⟩, ?_, rfl, fun s => ?_, fun c hc => ?_⟩
  · simp only [parse, hread, bind, Except.bind, hp.closed, hpath]
    rfl
  · rw [Invocation.has, List.contains_iff_mem, Progress.switches, List.mem_filterMap, hused]
    constructor
    · rintro ⟨a, ha, hs⟩
      cases a with
      | input => cases hs
      | switch t =>
        obtain rfl := Option.some.inj hs
        exact ha
    · exact fun h => ⟨_, h, rfl⟩
  · show q.color.getD .auto = c
    rw [hcolor c hc]
    rfl

end ExprCheck.CommandLine
