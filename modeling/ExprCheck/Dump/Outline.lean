/-!
# Outlines

Tokens and programs are dumped as outlines: trees of named records. An outline is written either on
one line or with one part a line, indented by four blanks a level.
-/

namespace ExprCheck.Dump

/-- A tree of named records. -/
inductive Outline where
  /-- A word. -/
  | atom (text : String)
  /-- A name with named parts. -/
  | record (name : String) (fields : List (String × Outline))
  /-- A name with parts. -/
  | tuple (name : String) (parts : List Outline)
  /-- A list. -/
  | list (items : List Outline)

namespace Outline

/-- A part that may be missing. -/
def option : Option Outline → Outline
  | some t => tuple "Some" [t]
  | none => atom "None"

mutual

/-- An outline on one line. -/
def inline : Outline → String
  | atom text => text
  | record name fields => name ++ " \x7b " ++ inlineFields fields ++ " \x7d"
  | tuple name parts => name ++ "(" ++ inlineList parts ++ ")"
  | list items => "[" ++ inlineList items ++ "]"

/-- Outlines on one line, separated by commas. -/
def inlineList : List Outline → String
  | [] => ""
  | [t] => inline t
  | t :: u :: rest => inline t ++ ", " ++ inlineList (u :: rest)

/-- Named parts on one line, separated by commas. -/
def inlineFields : List (String × Outline) → String
  | [] => ""
  | [(name, t)] => name ++ ": " ++ inline t
  | (name, t) :: part :: rest => name ++ ": " ++ inline t ++ ", " ++ inlineFields (part :: rest)

end

/-- A new line, indented by the given level. -/
def newline (level : Nat) : String := "\n".pushn ' ' (4 * level)

mutual

/-- An outline with one part a line. A part is followed by a comma. -/
def indented (level : Nat) : Outline → String
  | atom text => text
  | record name fields =>
    name ++ " \x7b" ++ indentedFields (level + 1) fields ++ newline level ++ "\x7d"
  | tuple name parts => name ++ "(" ++ indentedList (level + 1) parts ++ newline level ++ ")"
  | list [] => "[]"
  | list items => "[" ++ indentedList (level + 1) items ++ newline level ++ "]"

/-- Outlines on lines of their own. -/
def indentedList (level : Nat) : List Outline → String
  | [] => ""
  | t :: rest => newline level ++ indented level t ++ "," ++ indentedList level rest

/-- Named parts on lines of their own. -/
def indentedFields (level : Nat) : List (String × Outline) → String
  | [] => ""
  | (name, t) :: rest =>
    newline level ++ name ++ ": " ++ indented level t ++ "," ++ indentedFields level rest

end

end Outline

end ExprCheck.Dump
