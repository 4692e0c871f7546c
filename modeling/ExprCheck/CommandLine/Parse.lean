import ExprCheck.CommandLine.Misuse
import ExprCheck.Text.Similarity

/-!
# Reading the arguments

Arguments are read from left to right. A switch that takes a value, and the input file, are open
until the next argument is known not to belong to them; only then are their values looked at. The
first thing that is wrong ends the reading, and so does a request for help or for the version.
-/

namespace ExprCheck.CommandLine

/-- A valid use of the command. -/
structure Invocation where
  /-- The input file. -/
  input : String
  /-- The switches given. -/
  switches : List Switch
  /-- When reports are coloured. -/
  color : ColorChoice
deriving DecidableEq, Repr

/-- Why the reading of arguments ended early. -/
inductive Stop where
  /-- The short help was asked for. -/
  | summary
  /-- The long help was asked for. -/
  | manual
  /-- The version was asked for. -/
  | version
  /-- Something is wrong. -/
  | misuse (m : Misuse)
deriving DecidableEq, Repr

/-- An argument whose value is not settled yet. -/
structure Pending where
  /-- The argument. -/
  arg : Argument
  /-- Its value, if it has come. -/
  value : Option String
deriving DecidableEq, Repr

/-- What has been read so far. -/
structure Progress where
  /-- The arguments given, in order. -/
  used : List Argument
  /-- The input file. -/
  input : Option String
  /-- The choice of colours. -/
  color : Option ColorChoice
  /-- The argument that is still open. -/
  pending : Option Pending
  /-- Whether an input file has come up, settled or not. -/
  inputSeen : Bool

namespace Progress

/-- Nothing read. -/
def initial : Progress := ⟨[], none, none, none, false⟩

/-- Settle an argument. What is left behind counts also if something is wrong with the argument. -/
def settle (p : Progress) (arg : Argument) (value : Option String) : Progress × Option Misuse :=
  match arg, value with
  | .input, some "" => ({ p with used := p.used ++ [.input] }, some (.missingValue .input))
  | .input, some file => ({ p with used := p.used ++ [.input], input := some file }, none)
  | arg, none => (p, some (.missingValue arg))
  | arg, some word =>
    if arg ∈ p.used then ({ p with used := p.used.erase arg }, some (.repeated arg))
    else
      let p := { p with used := p.used ++ [arg] }
      match ColorChoice.ofText? word with
      | some choice => ({ p with color := some choice }, none)
      | none =>
        let misuse :=
          if word.isEmpty then .missingValue arg
          else .invalidColor word (Text.mostSimilar? word (ColorChoice.all.map (·.text)))
        (p, some misuse)

/-- Settle the open argument, if there is one. -/
def close (p : Progress) : Progress × Option Misuse :=
  match p.pending with
  | none => (p, none)
  | some pending => settle { p with pending := none } pending.arg pending.value

/-- Settle the open argument; what is wrong with it ends the reading. -/
def closed (p : Progress) : Except Stop Progress :=
  match p.close with
  | (p, none) => .ok p
  | (_, some m) => .error (.misuse m)

/-- The switches given, in order. -/
def switches (p : Progress) : List Switch := p.used.filterMap Argument.switch?

/-- The usage with what has been given; the general one if nothing has. -/
def usage (p : Progress) : Usage :=
  if p.used.isEmpty then .general else .given p.switches

/-- A switch without a value. `spelled` says whether its name was written, rather than its
letter. -/
def flag (p : Progress) (s : Switch) (spelled : Bool) : Except Stop Progress := do
  let p ← p.closed
  match s with
  | .help => throw (if spelled then .manual else .summary)
  | .version => throw .version
  | s =>
    if .switch s ∈ p.used then throw (.misuse (.repeated (.switch s)))
    else return { p with used := p.used ++ [.switch s] }

/-- A switch with a value, which comes with it or is to follow. -/
def option (p : Progress) (s : Switch) : Option String → Except Stop Progress
  | some value => do
    let p ← p.closed
    closed { p with pending := some ⟨.switch s, some value⟩ }
  | none => do
    let p ← p.closed
    return { p with pending := some ⟨.switch s, none⟩ }

/-- A name after two dashes that belongs to no switch. The switch that may have been meant counts as
given. -/
def unknownName (p : Progress) (name : String) : Stop :=
  let p := p.close.1
  match (Text.mostSimilar? name (Switch.all.map (·.name))).bind Switch.ofName? with
  | some s =>
    let used := if .switch s ∈ p.used then p.used else p.used ++ [.switch s]
    .misuse (.unexpected ("--" ++ name) (.similar s) (usage { p with used := used }))
  | none => .misuse (.unexpected ("--" ++ name) .asInput p.usage)

/-- The usage shown for a value that a switch does not take. Once an argument is settled, all that
shape a check are alternatives in it, and only a switch beside them is shown on its own. -/
def valueUsage (p : Progress) (s : Switch) : Usage :=
  if p.used.isEmpty then .given [s] else .anyOf (if s.asksAbout then [s] else [])

/-- A name after two dashes, with or without a value. -/
def named (p : Progress) (name : String) (value : Option String) : Except Stop Progress :=
  match Switch.ofName? name with
  | none => .error (p.unknownName name)
  | some s =>
    if s.takesValue then p.option s value
    else
      match value with
      | none => p.flag s true
      | some v => .error (.misuse (.unexpectedValue v s (p.valueUsage s)))

/-- Letters after one dash. -/
def letters (p : Progress) : List Char → Except Stop Progress
  | [] => .ok p
  | c :: rest =>
    match Switch.ofLetter? c with
    | some s => do
      let p ← p.flag s false
      p.letters rest
    | none =>
      .error (.misuse (.unexpected (String.ofList ['-', c]) .asInput .general))

/-- An input file. There can be only one. -/
def file (p : Progress) (path : String) : Except Stop Progress :=
  if p.inputSeen then .error (.misuse (.unexpected path .nothing .general))
  else do
    let p ← p.closed
    return { p with pending := some ⟨.input, some path⟩, inputSeen := true }

/-- An argument that is no switch: a value that is awaited, or an input file. -/
def word (p : Progress) (arg : String) : Except Stop Progress :=
  match p.pending with
  | some ⟨waiting, none⟩ => .ok { p with pending := some ⟨waiting, some arg⟩ }
  | _ => p.file arg

/-- One argument before a lone `--`. -/
def step (p : Progress) (arg : String) : Except Stop Progress :=
  match arg.toList with
  | '-' :: '-' :: rest =>
    let name := rest.takeWhile (· ≠ '=')
    let value :=
      match rest.dropWhile (· ≠ '=') with
      | [] => none
      | _ :: value => some (String.ofList value)
    p.named (String.ofList name) value
  | '-' :: c :: rest => p.letters (c :: rest)
  | _ => p.word arg

/-- All arguments. After a lone `--` only input files follow. -/
def readAll (p : Progress) : Bool → List String → Except Stop Progress
  | _, [] => .ok p
  | true, arg :: rest => do
    let p ← p.file arg
    p.readAll true rest
  | false, arg :: rest =>
    if arg = "--" then p.readAll true rest
    else do
      let p ← p.step arg
      p.readAll false rest

end Progress

/-- The use of the command that some arguments ask for. -/
def parse (args : List String) : Except Stop Invocation := do
  let p ← Progress.initial.readAll false args
  let p ← p.closed
  match p.input with
  | some input => return ⟨input, p.switches, p.color.getD .auto⟩
  | none => throw (.misuse (.missingInput (.given p.switches)))

end ExprCheck.CommandLine
