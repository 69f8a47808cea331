/-! What may be written on a command line: a program with subcommands, and their switches. -/

namespace NativeBridge.CommandLine

/-- What giving a switch means. -/
inductive Effect where
  | set | help | version
  deriving DecidableEq, Repr

/-- A switch with its long name, perhaps a letter, and the name of its value if it takes one. -/
structure Switch where
  long : String
  short : Option Char
  value : Option String
  effect : Effect
  help : String
  deriving DecidableEq, Repr

/-- The value of the switch as messages name it, if it takes one. -/
def Switch.valueText (s : Switch) : String :=
  match s.value with
  | none => ""
  | some value => " <" ++ value ++ ">"

/-- The switch as messages name it. -/
def Switch.text (s : Switch) : String := "--" ++ s.long ++ s.valueText

/-- A command: the whole program or one of its subcommands. -/
structure Command where
  name : String
  about : String
  switches : List Switch
  deriving DecidableEq, Repr

/-- A program and its subcommands. -/
structure Grammar where
  program : Command
  subcommands : List Command
  deriving DecidableEq, Repr

/-- Name of the subcommand that prints help. -/
def helpName : String := "help"

namespace Grammar

/-- The subcommand of this name. -/
def subcommand? (g : Grammar) (name : String) : Option Command :=
  g.subcommands.find? (·.name == name)

/-- Whether a word names a subcommand, the one for help included. -/
def isSubcommand (g : Grammar) (word : String) : Bool :=
  word == helpName || (g.subcommand? word).isSome

end Grammar

end NativeBridge.CommandLine
