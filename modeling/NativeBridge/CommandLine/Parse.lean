import NativeBridge.CommandLine.Grammar
import NativeBridge.CommandLine.StyledText

/-! Reading a command line.

    Words are read from left to right on two levels: those of the program up to a subcommand,
    then those of the subcommand. A switch that takes a value waits for the next word; it is
    settled, and only then found to be repeated or without a value, when another switch is given
    or the words end. A word that cannot be read at all is reported before that. -/

namespace NativeBridge.CommandLine

/-- Why a command line is refused. -/
inductive UsageError where
  | unexpectedArgument (word : String)
  | unexpectedValue (value : String) (switch : Switch)
  | repeatedSwitch (switch : Switch)
  | missingValue (switch : Switch)
  | unknownSubcommand (word : String)
  | missingSubcommand (program : String)
  deriving DecidableEq, Repr

/-- The failure in words. -/
def UsageError.message : UsageError → Line
  | unexpectedArgument word =>
    [⟨.plain, "unexpected argument '"⟩, ⟨.quoted, word⟩, ⟨.plain, "' found"⟩]
  | unexpectedValue value switch =>
    [⟨.plain, "unexpected value '"⟩, ⟨.quoted, value⟩, ⟨.plain, "' for '"⟩,
      ⟨.literal, switch.text⟩, ⟨.plain, "' found; no more were expected"⟩]
  | repeatedSwitch switch =>
    [⟨.plain, "the argument '"⟩, ⟨.quoted, switch.text⟩,
      ⟨.plain, "' cannot be used multiple times"⟩]
  | missingValue switch =>
    [⟨.plain, "a value is required for '"⟩, ⟨.quoted, switch.text⟩,
      ⟨.plain, "' but none was supplied"⟩]
  | unknownSubcommand word =>
    [⟨.plain, "unrecognized subcommand '"⟩, ⟨.quoted, word⟩, ⟨.plain, "'"⟩]
  | missingSubcommand program =>
    [⟨.plain, "'"⟩, ⟨.quoted, program⟩,
      ⟨.plain, "' requires a subcommand but one was not provided"⟩]

/-- Why reading ends before the words do. -/
inductive Stop where
  | help
  | version
  | refused (error : UsageError)
  deriving DecidableEq, Repr

/-- What has been read on one level: settled switches with their values, a switch whose value
    may still come, and whether all further words are plain. -/
structure Progress where
  settled : List (String × Option String)
  waiting : Option (Switch × Option String)
  plainOnly : Bool
  deriving DecidableEq, Repr

namespace Progress

/-- Nothing read. -/
def start : Progress := ⟨[], none, false⟩

/-- Records a switch, which must be its first time. -/
def record (p : Progress) (switch : Switch) (value : Option String) : Except Stop Progress :=
  if p.settled.any (·.1 == switch.long) then .error (.refused (.repeatedSwitch switch))
  else .ok { p with settled := p.settled ++ [(switch.long, value)] }

/-- Settles a switch that waits; by now its value must have come. -/
def settle (p : Progress) : Except Stop Progress :=
  match p.waiting with
  | none => .ok p
  | some (switch, none) => .error (.refused (.missingValue switch))
  | some (switch, some value) => { p with waiting := none }.record switch (some value)

/-- Gives a switch together with its value, if it takes one. -/
def give (p : Progress) (switch : Switch) (value : Option String) : Except Stop Progress :=
  match p.settle with
  | .error stop => .error stop
  | .ok p =>
    match switch.effect with
    | .set => p.record switch value
    | .help => .error .help
    | .version => .error .version

/-- Gives a switch whose value is the next word. -/
def await (p : Progress) (switch : Switch) : Except Stop Progress :=
  match p.settle with
  | .error stop => .error stop
  | .ok p => .ok { p with waiting := some (switch, none) }

/-- Whether the next word is the value of a switch, unless it looks like a switch itself. -/
def expectsValue (p : Progress) : Bool := p.waiting.any (·.2.isNone)

end Progress

/-- A word cut at its first equals sign. -/
def cutAtEquals (word : List Char) : String × Option String :=
  match word.dropWhile (· ≠ '=') with
  | [] => (.ofList word, none)
  | _ :: value => (.ofList (word.takeWhile (· ≠ '=')), some (.ofList value))

/-- Reads a word after two dashes. -/
def readLong (c : Command) (p : Progress) (word : List Char) : Except Stop Progress :=
  let (name, value) := cutAtEquals word
  match c.switches.find? (·.long == name), value with
  | none, _ => .error (.refused (.unexpectedArgument ("--" ++ name)))
  | some switch, none => if switch.value.isSome then p.await switch else p.give switch none
  | some switch, some value =>
    if switch.value.isSome then p.give switch (some value)
    else .error (.refused (.unexpectedValue value switch))

/-- Reads the letters after one dash; the value of a switch may follow its letter. -/
def readShort (c : Command) (p : Progress) : List Char → Except Stop Progress
  | [] => .ok p
  | letter :: rest =>
    match c.switches.find? (·.short == some letter) with
    | none => .error (.refused (.unexpectedArgument (.ofList ['-', letter])))
    | some switch =>
      if switch.value.isSome then
        match rest with
        | [] => p.await switch
        | '=' :: value | value => p.give switch (some (.ofList value))
      else
        match p.give switch none with
        | .error stop => .error stop
        | .ok p => readShort c p rest

/-- How the words of one level end: with the words, or at a subcommand. -/
inductive Level where
  | done (settled : List (String × Option String))
  | subcommand (settled : List (String × Option String)) (name : String) (rest : List String)
  deriving DecidableEq, Repr

/-- A plain word that is neither a value nor a subcommand. -/
def refusePlain (isSubcommand : Option (String → Bool)) (p : Progress) (word : String) :
    UsageError :=
  match isSubcommand with
  | none => .unexpectedArgument word
  | some known =>
    if p.plainOnly && known word then .unexpectedArgument word else .unknownSubcommand word

/-- Reads the words of one level; `isSubcommand` is missing where there are no subcommands. -/
def readLevel (c : Command) (isSubcommand : Option (String → Bool)) (p : Progress) :
    List String → Except Stop Level
  | [] =>
    match p.settle with
    | .error stop => .error stop
    | .ok p => .ok (.done p.settled)
  | word :: rest =>
    let letters := word.toList
    if p.plainOnly then .error (.refused (refusePlain isSubcommand p word))
    else if !p.expectsValue && isSubcommand.any (· word) then
      .ok (.subcommand p.settled word rest)
    else
      let read : Except Stop Progress :=
        match letters with
        | ['-', '-'] => .ok { p with plainOnly := true }
        | '-' :: '-' :: name => readLong c p name
        | '-' :: letter :: more => readShort c p (letter :: more)
        | _ =>
          match p.waiting with
          | some (switch, none) => .ok { p with waiting := some (switch, some word) }
          | _ => .error (.refused (refusePlain isSubcommand p word))
      match read with
      | .error stop => .error stop
      | .ok p => readLevel c isSubcommand p rest

/-- What a command line asks for. -/
inductive Request where
  | run (command : String) (switches : List (String × Option String))
  | help (topic : Option Command)
  | helpOnHelp
  | missing
  | version
  | refuse (error : UsageError)
  deriving DecidableEq, Repr

/-- A request that ends early, on behalf of the program or of a subcommand. -/
def Stop.request (topic : Option Command) : Stop → Request
  | .help => .help topic
  | .version => .version
  | .refused error => .refuse error

/-- What the words after the subcommand for help ask for. -/
def readHelp (g : Grammar) : List String → Request
  | [] => .help none
  | word :: rest =>
    if !g.isSubcommand word then .refuse (.unknownSubcommand word)
    else
      match rest with
      | [] =>
        match g.subcommand? word with
        | none => .helpOnHelp
        | some command => .help (some command)
      | word :: _ => .refuse (.unknownSubcommand word)

/-- Reads a whole command line. -/
def read (g : Grammar) (words : List String) : Request :=
  match readLevel g.program (some g.isSubcommand) .start words with
  | .error stop => stop.request none
  | .ok (.done settled) =>
    if settled.isEmpty then .missing else .refuse (.missingSubcommand g.program.name)
  | .ok (.subcommand settled name rest) =>
    match g.subcommand? name with
    | none => readHelp g rest
    | some command =>
      match readLevel command none .start rest with
      | .error stop => stop.request (some command)
      | .ok (.done own) => .run name (settled ++ own)
      | .ok (.subcommand own _ _) => .run name (settled ++ own)

end NativeBridge.CommandLine
