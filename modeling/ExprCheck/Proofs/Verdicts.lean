import Mathlib
import ExprCheck.Proofs.Arguments
import ExprCheck.Proofs.NodeSpans
import ExprCheck.Proofs.ReadFailures

/-!
# Options do not change the verdict

A session with and one without a dump of the tokens read the text in two ways: the dump cuts all of
it into tokens first, while the readers ask for one token after the other and may stop before a
lexical fault. They still agree on whether the text can be read, since a program is read to the end
of the text. The other options only add to the log.
-/

namespace ExprCheck

/-- All tokens of a text that can be read as a program are good. -/
theorem tokenize_of_ofText {text : List Char} {p : Program} (h : Program.ofText text = .ok p) :
    ∃ ts, tokenize text = .ok ts := by
  obtain ⟨ts, hout⟩ := laidOut_of_ofText h
  exact ⟨_, by rw [tokenize, hout.scan, Grammar.tokensOf_map_token]⟩

namespace Session

variable {file : SourceFile} {o : Options}

/-- What comes of a session in which the tokens are not dumped or are all good. -/
theorem result_of_lexicalStage {tokens : String} (h : lexicalStage file o = .ok tokens) :
    (run file o).result =
      (Program.ofText file.text).map fun p => ⟨p, (Checker.initial.check p).errors⟩ := by
  unfold run
  rw [h]
  cases hp : Program.ofText file.text with
  | error e => rfl
  | ok p => rfl

theorem lexicalStage_of_tokenize {ts : List Token} (h : tokenize file.text = .ok ts) :
    ∃ tokens, lexicalStage file o = .ok tokens := by
  unfold lexicalStage
  split
  · exact ⟨_, by rw [h]; rfl⟩
  · exact ⟨_, rfl⟩

/-- A session ends well if and only if the text can be read, whatever it is asked to write. -/
theorem result_eq_ok_iff {outcome : Outcome} :
    (run file o).result = .ok outcome ↔
      ∃ p, Program.ofText file.text = .ok p ∧ outcome = ⟨p, (Checker.initial.check p).errors⟩ := by
  constructor
  · intro h
    cases hlex : lexicalStage file o with
    | error e =>
      simp only [run, hlex] at h
      cases h
    | ok tokens =>
      rw [result_of_lexicalStage hlex] at h
      cases hp : Program.ofText file.text with
      | error e =>
        rw [hp] at h
        cases h
      | ok p =>
        rw [hp] at h
        exact ⟨p, rfl, (Except.ok.inj h).symm⟩
  · rintro ⟨p, hp, rfl⟩
    obtain ⟨ts, hts⟩ := tokenize_of_ofText hp
    obtain ⟨tokens, hlex⟩ := lexicalStage_of_tokenize (o := o) hts
    rw [result_of_lexicalStage hlex, hp]
    rfl

/-- Where a session stops: at the first lexical fault if it dumps the tokens and there is one, and
otherwise where the readers stop. -/
theorem result_eq_error {e : ReadError} (h : Program.ofText file.text = .error e) :
    (o.dumpTokens = true ∧ ∃ e', tokenize file.text = .error e' ∧ (run file o).result = .error e') ∨
      ((run file o).result = .error e ∧
        (o.dumpTokens = true → ∃ ts, tokenize file.text = .ok ts)) := by
  cases hd : o.dumpTokens with
  | false =>
    have hlex : lexicalStage file o = .ok "" := by
      rw [lexicalStage, hd]
      rfl
    exact Or.inr ⟨by rw [result_of_lexicalStage hlex, h]; rfl, by simp⟩
  | true =>
    cases ht : tokenize file.text with
    | ok ts =>
      obtain ⟨tokens, hlex⟩ := lexicalStage_of_tokenize (o := o) ht
      exact Or.inr ⟨by rw [result_of_lexicalStage hlex, h]; rfl, fun _ => ⟨ts, rfl⟩⟩
    | error e' =>
      have hlex : lexicalStage file o = .error e' := by
        rw [lexicalStage, hd, if_pos rfl, ht]
        rfl
      refine Or.inl ⟨rfl, e', rfl, ?_⟩
      rw [run, hlex]

/-- The first session dumps the tokens and stops at the first lexical fault. The second one does not
and stops earlier, at a fault of the grammar. -/
structure Overtaken (text : List Char) (o o' : Options) (e e' : ReadError) : Prop where
  dumps : o.dumpTokens = true
  plain : o'.dumpTokens = false
  first : tokenize text = .error e
  grammatical : e'.fault.isLexical = false
  before : e'.span.Before e.span

/-- Two sessions with the same text come to the same end, or they stop at different faults because
only one of them dumps the tokens. -/
theorem results_agree (file : SourceFile) (o o' : Options) :
    (∃ outcome, (run file o).result = .ok outcome ∧ (run file o').result = .ok outcome) ∨
      ∃ e e', (run file o).result = .error e ∧ (run file o').result = .error e' ∧
        (e = e' ∨ Overtaken file.text o o' e e' ∨ Overtaken file.text o' o e' e) := by
  cases hp : Program.ofText file.text with
  | ok p =>
    exact Or.inl ⟨_, result_eq_ok_iff.mpr ⟨p, hp, rfl⟩, result_eq_ok_iff.mpr ⟨p, hp, rfl⟩⟩
  | error e =>
    right
    have hfirst := before_junk_of_ofText hp
    -- one session stops at the lexical fault, the other one where the readers do
    have hmixed : ∀ {o₁ o₂ : Options} {e₁ : ReadError}, o₁.dumpTokens = true →
        tokenize file.text = .error e₁ →
        (o₂.dumpTokens = true → ∃ ts, tokenize file.text = .ok ts) →
        e₁ = e ∨ Overtaken file.text o₁ o₂ e₁ e := by
      intro o₁ o₂ e₁ hd₁ ht hd₂
      rcases hfirst with heq | ⟨hlex, hbefore⟩
      · rw [ht] at heq
        exact Or.inl (Except.error.inj heq)
      · have hplain : o₂.dumpTokens = false := by
          rw [Bool.eq_false_iff]
          intro hd
          obtain ⟨ts, hts⟩ := hd₂ hd
          rw [ht] at hts
          cases hts
        exact Or.inr ⟨hd₁, hplain, ht, hlex, hbefore _ ht⟩
    rcases result_eq_error (o := o) hp with ⟨hd, e₁, ht, hr⟩ | ⟨hr, hd⟩
    · rcases result_eq_error (o := o') hp with ⟨-, e₂, ht', hr'⟩ | ⟨hr', hd'⟩
      · rw [ht] at ht'
        exact ⟨e₁, e₂, hr, hr', Or.inl (Except.error.inj ht')⟩
      · refine ⟨e₁, e, hr, hr', ?_⟩
        rcases hmixed hd ht hd' with heq | hover
        · exact Or.inl heq
        · exact Or.inr (Or.inl hover)
    · rcases result_eq_error (o := o') hp with ⟨hd', e₂, ht', hr'⟩ | ⟨hr', -⟩
      · refine ⟨e, e₂, hr, hr', ?_⟩
        rcases hmixed hd' ht' hd with heq | hover
        · exact Or.inl heq.symm
        · exact Or.inr (Or.inr hover)
      · exact ⟨e, e, hr, hr', Or.inl rfl⟩

end Session

namespace CommandLine

theorem decode_eq_ok_iff {bytes : ByteArray} {source : String} :
    decode bytes = .ok source ↔ bytes = source.toUTF8 := by
  unfold decode String.fromUTF8?
  constructor
  · intro h
    split at h
    · next text heq =>
      obtain rfl := Except.ok.inj h
      split at heq
      · obtain rfl := Option.some.inj heq
        rfl
      · cases heq
    · cases h
  · rintro rfl
    rw [String.toUTF8_eq_toByteArray, dif_pos source.isValidUTF8]
    rfl

theorem isAccepted_iff (o : Outcome) : o.isAccepted = true ↔ o.errors = [] := List.isEmpty_iff

/-- A program that can be read and has no type errors. -/
def Accepts (source : String) : Prop :=
  ∃ p, Program.ofText source.toList = .ok p ∧ (Checker.initial.check p).errors = []

theorem code_run_eq_zero_iff (i : Invocation) (input : Except Unreadable String) :
    (i.run input).code = 0 ↔ ∃ source, input = .ok source ∧ Accepts source := by
  cases input with
  | error reason =>
    constructor
    · intro h
      cases h
    · rintro ⟨source, h, -⟩
      cases h
  | ok source =>
    cases hr : (Session.run ⟨i.input, source.toList⟩ i.options).result with
    | error e =>
      simp only [Invocation.run, hr]
      constructor
      · intro h
        cases h
      · rintro ⟨source', h, p, hp, -⟩
        obtain rfl := Except.ok.inj h
        have hok : (Session.run ⟨i.input, source.toList⟩ i.options).result =
            .ok ⟨p, (Checker.initial.check p).errors⟩ :=
          Session.result_eq_ok_iff.mpr ⟨p, hp, rfl⟩
        rw [hr] at hok
        cases hok
    | ok outcome =>
      obtain ⟨p, hp, rfl⟩ := Session.result_eq_ok_iff.mp hr
      have hiff := isAccepted_iff ⟨p, (Checker.initial.check p).errors⟩
      simp only [Invocation.run, hr]
      constructor
      · intro h
        refine ⟨source, rfl, p, hp, hiff.mp ?_⟩
        by_contra hne
        rw [if_neg hne] at h
        cases h
      · rintro ⟨source', h, p', hp', herrors⟩
        obtain rfl := Except.ok.inj h
        obtain rfl := Except.ok.inj (hp.symm.trans hp')
        rw [if_pos (hiff.mpr herrors)]

/-- The options of a session and of the command never change the verdict. Two sessions with the same
text agree. The command succeeds if and only if the input file holds the UTF-8 encoding of a program
without type errors, whatever switches come with it; and every combination of them may come. -/
theorem verdict_of_text :
    (∀ (file : SourceFile) (o o' : Options),
      (∃ outcome, (Session.run file o).result = .ok outcome ∧
        (Session.run file o').result = .ok outcome) ∨
      ∃ e e', (Session.run file o).result = .error e ∧ (Session.run file o').result = .error e' ∧
        (e = e' ∨ Session.Overtaken file.text o o' e e' ∨
          Session.Overtaken file.text o' o e' e)) ∧
    (∀ (args : List String) (i : Invocation) (files : String → Except Unreadable ByteArray),
      parse args = .ok i →
      ((run args fun path => files path >>= decode).code = 0 ↔
        ∃ source : String, files i.input = .ok source.toUTF8 ∧ Accepts source)) ∧
    ∀ (words : List Word) (path : String), (∀ w ∈ words, w.Plain) →
      (words.map Word.arg).Nodup → .input path ∈ words →
      ∃ i, parse (words.flatMap Word.spell) = .ok i ∧ i.input = path ∧
        (∀ s, i.has s = true ↔ .switch s ∈ words.map Word.arg) ∧
        ∀ c, .color c ∈ words → i.color = c := by
  refine ⟨Session.results_agree, ?_, fun _ _ => parse_spell⟩
  intro args i files hargs
  rw [run, hargs, code_run_eq_zero_iff]
  constructor
  · rintro ⟨source, hread, haccepts⟩
    obtain ⟨bytes, hbytes, hdecode⟩ := Grammar.bind_eq_ok hread
    exact ⟨source, by rw [hbytes, decode_eq_ok_iff.mp hdecode], haccepts⟩
  · rintro ⟨source, hbytes, haccepts⟩
    refine ⟨source, ?_, haccepts⟩
    rw [hbytes]
    exact decode_eq_ok_iff.mpr rfl

/-- A command line with the input file between a switch and a choice of colours. -/
def mixedWords : List Word := [.flag .dumpTokens, .input "a.f", .color .never]

theorem verdict_of_text_mixedWords :
    (run (mixedWords.flatMap Word.spell) fun _ => .ok "x is 1".toUTF8 >>= decode).code = 0 := by
  have hplain : ∀ w ∈ mixedWords, w.Plain := by
    simp [mixedWords, Word.Plain, Switch.takesValue, Switch.asksAbout]
  obtain ⟨i, hi, -⟩ := verdict_of_text.2.2 mixedWords "a.f" hplain (by decide) (by simp [mixedWords])
  refine (verdict_of_text.2.1 _ i (fun _ => .ok "x is 1".toUTF8) hi).mpr ⟨"x is 1", rfl, ?_⟩
  have herrors : (Program.ofText "x is 1".toList).toOption.map
      (fun p => (Checker.initial.check p).errors) = some [] := by decide +kernel
  cases h : Program.ofText "x is 1".toList with
  | error e =>
    rw [h] at herrors
    cases herrors
  | ok p =>
    rw [h] at herrors
    exact ⟨p, h, Option.some.inj herrors⟩

end CommandLine

end ExprCheck
