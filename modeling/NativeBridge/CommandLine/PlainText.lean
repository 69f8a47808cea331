/-! Text for an output that is not a terminal.

    Of the control characters only the blanks are kept. A sequence that would steer a terminal is
    left out as a whole: it begins with the escape character, and the character after that says
    what ends it. A blank is kept inside a sequence that ends with a single character. It
    interrupts the sequence: what follows is kept too, up to the next character that text does not
    keep, and only then the sequence is read on. -/

namespace NativeBridge.CommandLine

/-- Where a reader of text stands: outside every sequence, or inside one. -/
inductive Place where
  /-- Outside every sequence. -/
  | text
  /-- After the escape character. -/
  | escape
  /-- After marks that follow the escape character; one more character ends the sequence. -/
  | escapeMarks
  /-- In a control sequence, which a letter ends. -/
  | control
  /-- At the start of a device string: parameters or marks may follow, a letter opens it. -/
  | device
  /-- After parameters of a device string. -/
  | deviceParameters
  /-- After marks of a device string. -/
  | deviceMarks
  /-- In a string that the string terminator ends. -/
  | string
  /-- In a command to the terminal, which the bell ends. -/
  | command
  deriving DecidableEq, Repr

/-- The blanks among the control characters. -/
def isControlBlank (c : Char) : Bool := c = '\t' || c = '\n' || c = '\x0c' || c = '\r'

/-- Whether a character lies between two others. -/
def isBetween (low high c : Char) : Bool := low ≤ c && c ≤ high

namespace Place

/-- The place after the character that follows an escape character. -/
def afterEscape (c : Char) : Place :=
  if c = '[' then .control
  else if c = ']' then .command
  else if c = 'P' then .device
  else if c = 'X' || c = '^' || c = '_' then .string
  else if isBetween ' ' '/' c then .escapeMarks
  else if isBetween '0' '~' c then .text
  else .escape

/-- The place after a character in the head of a device string. A character out of order makes
    the string one that is ignored, which ends the same way. -/
def afterDevice (place : Place) (c : Char) : Place :=
  if isBetween '@' '~' c then .string
  else if isBetween ' ' '/' c then .deviceMarks
  else if isBetween '0' '?' c then
    if place = .device || place = .deviceParameters && c < '<' then .deviceParameters else .string
  else place

/-- The place after a character. Everywhere two control characters break a sequence off, and the
    escape character begins a new one. A string ends at the byte of the string terminator, also
    where that is a part of a longer character. -/
def after (place : Place) (c : Char) : Place :=
  if c = '\x18' || c = '\x1a' then .text
  else if c = '\x1b' then .escape
  else
    match place with
    | .text => .text
    | .escape => afterEscape c
    | .escapeMarks => if isBetween '0' '~' c then .text else .escapeMarks
    | .control => if isBetween '@' '~' c then .text else .control
    | .device | .deviceParameters | .deviceMarks => place.afterDevice c
    | .string => if (String.utf8EncodeChar c).contains 0x9c then .text else .string
    | .command => if c = '\x07' then .text else .command

/-- Whether a character at this place is kept. -/
def keeps (place : Place) (c : Char) : Bool :=
  match place with
  | .text => isControlBlank c || ' ' ≤ c && c ≠ '\x7f'
  | .escape | .escapeMarks | .control => isControlBlank c
  | _ => false

end Place

/-- A reader of text: its place, and whether it kept the last character. -/
structure Reader where
  place : Place
  kept : Bool
  deriving DecidableEq, Repr

namespace Reader

/-- A reader outside every sequence. -/
def start : Reader := ⟨.text, false⟩

/-- Whether a character is kept; after a kept one the rules of text apply at every place. -/
def keeps (r : Reader) (c : Char) : Bool :=
  if r.kept then Place.text.keeps c else r.place.keeps c

/-- The place after a character. After a kept one a sequence stands still, unless the character
    breaks it off; one beyond ASCII does that too. -/
def nextPlace (r : Reader) (c : Char) : Place :=
  if !r.kept || c = '\x18' || c = '\x1a' || c = '\x1b' then r.place.after c
  else if '\x7f' < c then .text
  else r.place

/-- The characters that are kept. -/
def plain (r : Reader) : List Char → List Char
  | [] => []
  | c :: rest =>
    let later := plain ⟨r.nextPlace c, r.keeps c⟩ rest
    if r.keeps c then c :: later else later

end Reader

/-- Text without control sequences. -/
def plainText (s : String) : String := .ofList (Reader.start.plain s.toList)

/-- The first line of a text; a carriage return before the line feed belongs to the line's end. -/
def firstLine (s : String) : String :=
  match s.toList.dropWhile (· ≠ '\n') with
  | [] => s
  | _ =>
    let line := s.toList.takeWhile (· ≠ '\n')
    .ofList (if line.getLast? = some '\r' then line.dropLast else line)

end NativeBridge.CommandLine
