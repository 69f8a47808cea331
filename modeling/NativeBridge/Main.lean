import NativeBridge.CommandLine.Program

/-! The command line program: prints what a run shows and exits with its code. -/

namespace NativeBridge

/-- Where a helper is listed: sixteen bytes for each, in the order of registration. -/
def listedAddress (code : Code) : String :=
  let place :=
    match code with
    | .helper helper => ((Helper.index? helper.name).getD 0 + 1) * 16
    | _ => 0
  let digits := String.ofList (Nat.toDigits 16 place)
  "0x" ++ "".pushn '0' (16 - digits.length) ++ digits

/-- The program as it is built here. -/
def image : CommandLine.Image := ⟨"native", listedAddress⟩

end NativeBridge

open NativeBridge.CommandLine in
/-- Runs the program. -/
def main (words : List String) : IO UInt32 := do
  let settings ← styleVariables.mapM fun name => return (name, ← IO.getEnv name)
  let styled (terminal : Bool) := isStyled (fun name => (settings.lookup name).join) terminal
  let out ← (← IO.getStdout).isTty
  let err ← (← IO.getStderr).isTty
  let outcome := execute NativeBridge.image (styled out, styled err) words
  for line in outcome.out do
    IO.println line
  for line in outcome.err do
    IO.eprintln line
  return .ofNat outcome.code
