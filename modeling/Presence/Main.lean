import Presence.CommandLine.Run

/-! The command-line program. -/
namespace Presence

open CommandLine

/-- What the system says about a file that it does not open. -/
def openErrorOf : IO.Error → OpenError
  | .permissionDenied .. => .denied
  | .inappropriateType (some _) .. => .notDirectory
  | .inappropriateType none .. => .isDirectory
  | .invalidArgument .. => .nameTooLong
  | _ => .notFound

def readFile (p : Path) : IO (Except OpenError (List UInt8)) := do
  try
    let bytes ← IO.FS.readBinFile p.text
    return .ok bytes.toList
  catch e => return .error (openErrorOf e)

/-- The inputs that a run will read, with their paths. -/
def inputsOf (arguments : List String) : List (String × Path) :=
  match Request.ofStrings arguments with
  | .ok (.run a) =>
    match a.tree? with
    | .ok tree => a.inputs.map fun i => (i, Extraction.resolve tree i)
    | .error _ => a.inputs.filter (· = stdinInput) |>.map fun i => (i, .ofString i)
  | _ => []

def runProgram (arguments : List String) : IO UInt32 := do
  let inputs := inputsOf arguments
  let files ← (inputs.filter (·.1 ≠ stdinInput)).mapM fun i => do
    return (i.2, ← readFile i.2)
  let stdin ← if inputs.any (·.1 = stdinInput) then (← IO.getStdin).readBinToEnd else pure .empty
  let contents (p : Path) : Except OpenError (List UInt8) :=
    match files.find? (·.1 = p) with
    | some f => f.2
    | none => .error .notFound
  match run { stdin := .bytes stdin.toList, contents } arguments with
  | .ok outcome =>
    (← IO.getStdout).putStr outcome.stdout
    (← IO.getStderr).putStr outcome.stderr
    return outcome.code.toUInt32
  | .error e =>
    (← IO.getStderr).putStr (e.message ++ "\n")
    return 1

end Presence

def main (arguments : List String) : IO UInt32 :=
  Presence.runProgram arguments
