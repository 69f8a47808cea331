import NativeBridge.CommandLine.PlainText

/-! Lines of text whose parts have a role.

    A terminal shows the role by a control sequence before the part and one after it that takes
    it back. Elsewhere only the text is shown, and of a quoted word only what is plain in it. -/

namespace NativeBridge.CommandLine

/-- The part that a piece of text plays in a line. -/
inductive Role where
  | plain | heading | literal | failure | quoted
  deriving DecidableEq, Repr

/-- The control sequences that begin a role: bold, underlined, red, yellow. -/
def Role.sequences : Role → String
  | plain => ""
  | heading => "\x1b[1m\x1b[4m"
  | literal => "\x1b[1m"
  | failure => "\x1b[1m\x1b[31m"
  | quoted => "\x1b[33m"

/-- A piece of text with its role. -/
structure Piece where
  role : Role
  text : String
  deriving DecidableEq, Repr

/-- The piece as it is shown, with or without control sequences. -/
def Piece.render (styled : Bool) (p : Piece) : String :=
  match styled, p.role with
  | false, .quoted => plainText p.text
  | false, _ | true, .plain => p.text
  | true, role => role.sequences ++ p.text ++ "\x1b[0m"

/-- A line as its pieces. -/
abbrev Line := List Piece

namespace Line

/-- The line as it is shown, with or without control sequences. -/
def render (styled : Bool) (line : Line) : String := String.join (line.map (Piece.render styled))

/-- Number of characters without control sequences. -/
def width (line : Line) : Nat := (line.render false).length

end Line

/-- A line that is plain throughout. -/
def plainLine (text : String) : Line := [⟨.plain, text⟩]

/-! ### Whether text is styled -/

/-- The variables of the environment that matter to styling. -/
def styleVariables : List String := ["NO_COLOR", "CLICOLOR_FORCE", "CLICOLOR", "TERM", "CI"]

/-- Whether a variable of the environment is set to some text. -/
def isFilled (value : Option String) : Bool := value.any (· ≠ "")

/-- Whether an output is styled. One variable forbids it and another one demands it, whatever the
    output is; otherwise only a terminal gets styled text, if it is known to show it. -/
def isStyled (setting? : String → Option String) (terminal : Bool) : Bool :=
  if isFilled (setting? "NO_COLOR") then false
  else if isFilled (setting? "CLICOLOR_FORCE") then true
  else if setting? "CLICOLOR" = some "0" then false
  else
    terminal && ((setting? "TERM").any (· ≠ "dumb") || (setting? "CLICOLOR").isSome ||
      (setting? "CI").isSome)

end NativeBridge.CommandLine
