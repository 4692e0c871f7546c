import ExprCheck.CommandLine.Argument
import ExprCheck.Text.Control

/-!
# Misuse of the command

What can be wrong with the arguments, and how it is told.
-/

namespace ExprCheck.CommandLine

/-- How the command is used. -/
inductive Usage where
  /-- In general. -/
  | general
  /-- With the given switches. -/
  | given (switches : List Switch)
  /-- With the given switches and any of the arguments that shape a check. -/
  | anyOf (switches : List Switch)
deriving DecidableEq, Repr

namespace Usage

/-- The arguments that shape a check as alternatives. -/
def alternatives : String := "<" ++ "|".intercalate (Argument.shaping.map (·.alternative)) ++ ">"

/-- Switches, each with a blank after it. -/
def listed (switches : List Switch) : String := String.join (switches.map fun s => s.shown ++ " ")

/-- A usage on one line. -/
def render : Usage → String
  | general => "Usage: fcheck [OPTIONS] <INPUT>"
  | given switches => "Usage: fcheck " ++ listed switches ++ Argument.input.shown
  | anyOf switches => "Usage: fcheck " ++ listed switches ++ alternatives

end Usage

/-- What may have been meant by an argument that the command does not know. -/
inductive Hint where
  /-- Nothing comes to mind. -/
  | nothing
  /-- The argument, as an input file. -/
  | asInput
  /-- A switch with a similar name. -/
  | similar (s : Switch)
deriving DecidableEq, Repr

/-- What is wrong with the arguments. -/
inductive Misuse where
  /-- An argument that the command does not know. -/
  | unexpected (arg : String) (hint : Hint) (usage : Usage)
  /-- A value for a switch that takes none. -/
  | unexpectedValue (value : String) (s : Switch) (usage : Usage)
  /-- A switch given twice. -/
  | repeated (a : Argument)
  /-- An argument without the value it takes. -/
  | missingValue (a : Argument)
  /-- A value that is no choice of colours, and a similar one that is. -/
  | invalidColor (value : String) (similar : Option String)
  /-- No input file. -/
  | missingInput (usage : Usage)
deriving DecidableEq, Repr

namespace Misuse

/-- The values that an argument can have, if only some are possible. -/
def possibleValues : Argument → List String
  | .switch .color =>
    let values := ", ".intercalate (ColorChoice.all.map (·.text))
    [s!"  [possible values: {values}]"]
  | _ => []

/-- What is wrong, line by line. Words from the command line are told without control sequences. -/
def lines : Misuse → List String
  | unexpected arg hint usage =>
    let arg := Text.withoutControls arg
    let tip :=
      match hint with
      | .nothing => []
      | .asInput => ["", s!"  tip: to pass '{arg}' as a value, use '-- {arg}'"]
      | .similar s => ["", s!"  tip: a similar argument exists: '--{s.name}'"]
    [s!"error: unexpected argument '{arg}' found"] ++ tip ++ ["", usage.render]
  | unexpectedValue value s usage =>
    let value := Text.withoutControls value
    [s!"error: unexpected value '{value}' for '{s.shown}' found; no more were expected", "",
      usage.render]
  | repeated a =>
    [s!"error: the argument '{a.shown}' cannot be used multiple times", "", Usage.general.render]
  | missingValue a =>
    s!"error: a value is required for '{a.shown}' but none was supplied" :: possibleValues a
  | invalidColor value similar =>
    let value := Text.withoutControls value
    let a := Argument.switch .color
    let tip :=
      match similar with
      | some v => ["", s!"  tip: a similar value exists: '{v}'"]
      | none => []
    [s!"error: invalid value '{value}' for '{a.shown}'"] ++ possibleValues a ++ tip
  | missingInput usage =>
    ["error: the following required arguments were not provided:", "  <INPUT>", "", usage.render]

/-- What is wrong, and where to find help. -/
def render (m : Misuse) : String :=
  String.join ((m.lines ++ ["", "For more information, try '--help'."]).map (· ++ "\n"))

end Misuse

end ExprCheck.CommandLine
