import NativeBridge.Check.Suite
import NativeBridge.CommandLine.Help
import NativeBridge.CommandLine.Parse
import NativeBridge.Export.Module

/-! The program that inspects the bridge and checks it.

    `execute` maps the words of a command line to everything that can be seen of a run: the exit
    code and the lines on both outputs. -/

namespace NativeBridge.CommandLine

/-- What only the built program knows: how it was built, and where its helpers are. -/
structure Image where
  build : String
  address : Code → String

/-- What a run shows. -/
structure Outcome where
  code : Nat
  out : List String
  err : List String
  deriving DecidableEq, Repr

namespace Outcome

/-- A run that succeeds. -/
def success (out : List String) : Outcome := ⟨0, out, []⟩

/-- A run that fails with a message. -/
def failure (message : String) : Outcome := ⟨1, [], ["error: " ++ message]⟩

/-- The first line on the output for errors; a quoted word may hold line feeds of its own. -/
def firstError (o : Outcome) : Option String := o.err.head?.map firstLine

end Outcome

/-! ### The grammar -/

/-- Counts live objects; it may stand before or after the subcommand. -/
def trackSwitch : Switch :=
  ⟨"track-allocs", none, none, .set, "Count live host objects and report any still alive on exit"⟩

/-- Prints help. -/
def helpSwitch : Switch := ⟨"help", some 'h', none, .help, "Print help"⟩

/-- Prints the version. -/
def versionSwitch : Switch := ⟨"version", some 'V', none, .version, "Print version"⟩

/-- Narrows the list of helpers. -/
def filterSwitch : Switch :=
  ⟨"filter", none, some "TEXT", .set, "Only list helpers whose name contains this text"⟩

/-- Prints passing checks too. -/
def verboseSwitch : Switch := ⟨"verbose", some 'v', none, .set, "Also print passing checks"⟩

/-- The program and its subcommands. -/
def grammar : Grammar where
  program :=
    ⟨"helperlib", "Inspect and self-check the native helper bridge",
      [trackSwitch, helpSwitch, versionSwitch]⟩
  subcommands :=
    [⟨"symbols", "List exported helpers with their addresses",
        [filterSwitch, trackSwitch, helpSwitch]⟩,
      ⟨"constants", "Print the constants exported alongside the helpers",
        [trackSwitch, helpSwitch]⟩,
      ⟨"check", "Call every core helper through the export table against the reference host",
        [trackSwitch, verboseSwitch, helpSwitch]⟩,
      ⟨"version", "Show version information", [trackSwitch, helpSwitch]⟩]

/-! ### The subcommands -/

/-- The version of the program. -/
def version : String := "0.1.0"

/-- The line that names the version. -/
def versionLine (image : Image) : String :=
  grammar.program.name ++ " " ++ version ++ " (" ++ image.build ++ ")"

/-- One line for each matching helper, then how many of all they are. -/
def symbolLines (image : Image) (table : ExportTable) (filter : Option String) : List String :=
  let entries := table.matching filter
  entries.map (fun entry => padRight 24 entry.1 ++ " " ++ image.address entry.2) ++
    [toString entries.length ++ " of " ++ toString table.size ++ " helpers"]

/-- Lists the helpers. -/
def listSymbols (image : Image) (filter : Option String) : Outcome :=
  match ExportTable.real with
  | .error error => .failure error.message
  | .ok table => .success (symbolLines image table filter)

/-- Prints the constants of the loaded helpers. -/
def printConstants : Outcome :=
  match HelperModule.load with
  | .error error => .failure error.message
  | .ok loaded =>
    .success ["buffer_view_size  " ++ toString loaded.viewSize,
      "long_min          " ++ toString loaded.longMin,
      "long_max          " ++ toString loaded.longMax]

/-- Runs the checks against the reference host. -/
def checkHelpers (host : Host) (verbose : Bool) : Host × Outcome :=
  match HelperModule.load with
  | .error error => (host, .failure error.message)
  | .ok loaded =>
    let (host, report) := Check.run host.install.1 loaded.table verbose
    let passed := Check.suite.length - report.failed
    let last := toString passed ++ " passed, " ++ toString report.failed ++ " failed"
    (host, ⟨if report.failed = 0 then 0 else 1, report.lines ++ [last], []⟩)

/-- Prints the version and the number of helpers. -/
def printVersion (image : Image) : Outcome :=
  .success [versionLine image, "helpers: " ++ toString Helper.all.length]

/-- Reports objects that are still alive, which makes the run fail. -/
def reportLive (census : Census) (outcome : Outcome) : Outcome :=
  if census.isQuiet then outcome
  else
    { outcome with
      code := 1
      err := outcome.err ++ ["error: host objects still alive on exit:"] ++
        census.report.map fun row => "  " ++ padRight 16 row.1.name ++ " " ++ toString row.2 }

/-! ### A run -/

/-- Runs a subcommand. -/
def runCommand (image : Image) (name : String) (switches : List (String × Option String)) :
    Outcome :=
  let given (switch : Switch) := (switches.lookup switch.long).isSome
  let census := if given trackSwitch then Census.initial.enable else Census.initial
  let host : Host := { Host.initial with heap := { Heap.initial with census } }
  let (host, outcome) :=
    match name with
    | "symbols" => (host, listSymbols image (switches.lookup filterSwitch.long).join)
    | "constants" => (host, printConstants)
    | "check" => checkHelpers host (given verboseSwitch)
    | _ => (host, printVersion image)
  reportLive host.heap.census outcome

/-- The lines about a command line that is refused. -/
def refusal (error : UsageError) : List Line :=
  [[⟨.failure, "error:"⟩, ⟨.plain, " "⟩] ++ error.message, [],
    [⟨.plain, "For more information, try '"⟩, ⟨.literal, "--help"⟩, ⟨.plain, "'."⟩]]

/-- A run with the given words after the program's name; `styled` says for either output whether
    help and refusals are styled on it. -/
def execute (image : Image) (styled : Bool × Bool) (words : List String) : Outcome :=
  match read grammar words with
  | .run name switches => runCommand image name switches
  | .help topic => .success ((grammar.helpOn topic).map (Line.render styled.1))
  | .helpOnHelp => .success (grammar.helpHelp.map (Line.render styled.1))
  | .version => .success [versionLine image]
  | .missing => ⟨2, [], grammar.programHelp.map (Line.render styled.2)⟩
  | .refuse error => ⟨2, [], (refusal error).map (Line.render styled.2)⟩

end NativeBridge.CommandLine
