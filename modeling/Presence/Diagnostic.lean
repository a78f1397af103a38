/-! Messages with the place they are about. -/
namespace Presence

/-- A message with its line; the file is named only beside a line. -/
def locate (message : String) (line : Option Int) (file : Option String) : String :=
  match line, file with
  | none, _ => message
  | some n, none => message ++ " at line " ++ toString n
  | some n, some f => message ++ " at " ++ f ++ ":" ++ toString n

structure Diagnostic where
  stage : String
  file : String
  message : String
  line : Option Int := none
  deriving DecidableEq, Repr

def Diagnostic.text (d : Diagnostic) : String :=
  let place := match d.line with
    | none => d.file
    | some n => d.file ++ ":" ++ toString n
  place ++ ": " ++ d.stage ++ ": " ++ d.message

end Presence
