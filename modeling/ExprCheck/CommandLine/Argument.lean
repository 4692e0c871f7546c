/-!
# Arguments of the command

The command takes one input file and some switches.
-/

namespace ExprCheck.CommandLine

/-- When reports are coloured. -/
inductive ColorChoice where
  /-- Where the reader can see colours. -/
  | auto
  /-- In any case. -/
  | always
  /-- In no case. -/
  | never
deriving DecidableEq, Repr

namespace ColorChoice

/-- Every choice, once. -/
def all : List ColorChoice := [auto, always, never]

/-- The word for a choice. -/
def text : ColorChoice → String
  | auto => "auto"
  | always => "always"
  | never => "never"

/-- The choice that a word names. -/
def ofText? (word : String) : Option ColorChoice := all.find? (·.text = word)

end ColorChoice

/-- A switch. -/
inductive Switch where
  | verbose | dumpTokens | dumpProgram | dumpSymbols | color | help | version
deriving DecidableEq, Repr

namespace Switch

/-- Every switch, once. -/
def all : List Switch := [verbose, dumpTokens, dumpProgram, dumpSymbols, color, help, version]

/-- The name of a switch, written after two dashes. -/
def name : Switch → String
  | verbose => "verbose"
  | dumpTokens => "dump-tokens"
  | dumpProgram => "dump-ast"
  | dumpSymbols => "dump-symbols"
  | color => "color"
  | help => "help"
  | version => "version"

/-- The letter of a switch, written after one dash. -/
def letter? : Switch → Option Char
  | verbose => some 'v'
  | help => some 'h'
  | version => some 'V'
  | _ => none

/-- Whether a switch takes a value. -/
def takesValue (s : Switch) : Bool := s = color

/-- The switch with a name. -/
def ofName? (name : String) : Option Switch := all.find? (·.name = name)

/-- The switch with a letter. -/
def ofLetter? (c : Char) : Option Switch := all.find? (·.letter? = some c)

/-- Whether a switch asks about the command itself, so that nothing is checked. -/
def asksAbout (s : Switch) : Bool := s = help || s = version

/-- How a switch is shown. -/
def shown (s : Switch) : String :=
  "--" ++ s.name ++ if s.takesValue then " <COLOR>" else ""

end Switch

/-- An argument: the input file or a switch. -/
inductive Argument where
  | input
  | switch (s : Switch)
deriving DecidableEq, Repr

namespace Argument

/-- The arguments that shape a check: the input file and the switches that lead to one. -/
def shaping : List Argument := input :: (Switch.all.filter (!·.asksAbout)).map switch

/-- How an argument is shown among alternatives, which have brackets around them already. -/
def alternative : Argument → String
  | input => "INPUT"
  | switch s => s.shown

/-- How an argument is shown. -/
def shown : Argument → String
  | input => "<INPUT>"
  | switch s => s.shown

/-- The switch that an argument is. -/
def switch? : Argument → Option Switch
  | input => none
  | switch s => some s

end Argument

end ExprCheck.CommandLine
