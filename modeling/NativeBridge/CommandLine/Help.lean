import NativeBridge.CommandLine.Grammar
import NativeBridge.CommandLine.StyledText

/-! Help texts, laid out from the grammar: what a command does, how it is used, and one row for
    each subcommand and each switch. -/

namespace NativeBridge.CommandLine

/-- A text filled up with blanks to a width. -/
def padRight (width : Nat) (text : String) : String := text.pushn ' ' (width - text.length)

/-- Rows of two columns; the first is as wide as its widest text. -/
def columns (rows : List (Line × String)) : List Line :=
  let width := rows.foldl (fun width row => max width row.1.width) 0
  rows.map fun row => row.1 ++ plainLine (padRight (width + 2 - row.1.width) "" ++ row.2)

/-- A heading and the text after it. -/
def headed (heading : String) (rest : Line) : Line := ⟨.heading, heading⟩ :: rest

/-- How a command is called: its name, and what may follow. -/
def usage (name rest : String) : Line :=
  headed "Usage:" [⟨.plain, " "⟩, ⟨.literal, name⟩, ⟨.plain, rest⟩]

/-- The first column of a switch. -/
def Switch.row (s : Switch) : Line × String :=
  let letter : Line := match s.short with
    | none => plainLine "      "
    | some letter => [⟨.plain, "  "⟩, ⟨.literal, "-" ++ letter.toString⟩, ⟨.plain, ", "⟩]
  (letter ++ [⟨.literal, "--" ++ s.long⟩, ⟨.plain, s.valueText⟩], s.help)

/-- What the help subcommand does. -/
def helpAbout : String := "Print this message or the help of the given subcommand(s)"

/-- The rows of all switches of a command. -/
def optionLines (c : Command) : List Line :=
  headed "Options:" [] :: columns (c.switches.map Switch.row)

namespace Grammar

/-- Help on the whole program. -/
def programHelp (g : Grammar) : List Line :=
  let row (name about : String) : Line × String := ([⟨.plain, "  "⟩, ⟨.literal, name⟩], about)
  let rows := g.subcommands.map (fun c => row c.name c.about) ++ [row helpName helpAbout]
  [plainLine g.program.about, [], usage g.program.name " [OPTIONS] <COMMAND>", [],
    headed "Commands:" []] ++ columns rows ++ [[]] ++ optionLines g.program

/-- Help on a subcommand. -/
def commandHelp (g : Grammar) (c : Command) : List Line :=
  [plainLine c.about, [], usage (g.program.name ++ " " ++ c.name) " [OPTIONS]", []] ++
    optionLines c

/-- Help on the subcommand that prints help. -/
def helpHelp (g : Grammar) : List Line :=
  [plainLine helpAbout, [], usage (g.program.name ++ " " ++ helpName) " [COMMAND]...", [],
    headed "Arguments:" []] ++
    columns [(plainLine "  [COMMAND]...", "Print help for the subcommand(s)")]

/-- Help on a topic, the whole program without one. -/
def helpOn (g : Grammar) : Option Command → List Line
  | none => g.programHelp
  | some c => g.commandHelp c

end Grammar

end NativeBridge.CommandLine
