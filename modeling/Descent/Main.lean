import Descent.CommandLine.Arguments
import Descent.CommandLine.Execute

/-! # The program

Reads the arguments and the text they name, and writes what the command gives.
-/

namespace Descent.CommandLine

/-- The system's number for a failed reading; some calls give it negated. -/
def readErrorOf (e : IO.Error) : ReadError :=
  let number := fun code : UInt32 => if code < 0x80000000 then code.toNat else (0 - code).toNat
  match e with
  | .noFileOrDirectory _ code _ => .system (number code)
  | .permissionDenied _ code _ => .system (number code)
  | .inappropriateType _ code _ => .system (number code)
  | .invalidArgument _ code _ => .system (number code)
  | .resourceExhausted _ code _ => .system (number code)
  | .otherError code _ => .system (number code)
  | _ => .system 5

def readOrigin (origin : Origin) : IO (Except ReadError String) := do
  let decode (bytes : ByteArray) : Except ReadError String :=
    match String.fromUTF8? bytes with
    | some text => .ok text
    | none => .error .notUtf8
  try
    match origin with
    | .inline text => return .ok text
    | .standardInput => return decode (← (← IO.getStdin).readBinToEnd)
    | .file path => return decode (← IO.FS.readBinFile path)
  catch e => return .error (readErrorOf e)

end Descent.CommandLine

open Descent.CommandLine in
def main (args : List String) : IO UInt32 := do
  let stdout ← IO.getStdout
  let stderr ← IO.getStderr
  match readCommand args with
  | .error e =>
    (if e.exitCode = 0 then stdout else stderr).putStrLn e.message
    return e.exitCode.toUInt32
  | .ok command =>
    let content ← match command.origin? with
      | some origin => readOrigin origin
      | none => pure (.ok "")
    let output := command.run content ((← stdout.isTty) && (← stderr.isTty))
    stdout.putStr output.stdout
    stderr.putStr output.stderr
    return output.code.toUInt32
