import Presence.Path
import Presence.Text.Quoted
import Presence.Text.Utf8

/-! Files and directories below the current directory. -/
namespace Presence

open Text

inductive OpenError
  | notFound
  | denied
  | notDirectory
  | isDirectory
  | nameTooLong
  deriving DecidableEq, Repr

def OpenError.number : OpenError → Nat
  | notFound => 2
  | denied => 13
  | notDirectory => 20
  | isDirectory => 21
  | nameTooLong => 36

def OpenError.reason : OpenError → String
  | notFound => "No such file or directory"
  | denied => "Permission denied"
  | notDirectory => "Not a directory"
  | isDirectory => "Is a directory"
  | nameTooLong => "File name too long"

def OpenError.message (e : OpenError) (p : Path) : String :=
  "[Errno " ++ toString e.number ++ "] " ++ e.reason ++ ": " ++ quoted p.text

/-- The files with their bytes, and directories; those on the way to a file need not be listed. -/
structure SourceTree where
  files : List (List String × List UInt8) := []
  directories : List (List String) := []

namespace SourceTree

inductive Place
  | file (bytes : List UInt8)
  | directory (parts : List String)
  /-- A directory above the current one, of which nothing below is known. -/
  | outside

def isDirectory (t : SourceTree) (parts : List String) : Bool :=
  t.directories.any (parts.isPrefixOf ·) || t.files.any fun f => parts.isPrefixOf f.1

def lookup? (t : SourceTree) (parts : List String) : Option Place :=
  match t.files.find? (·.1 = parts) with
  | some f => some (.file f.2)
  | none => if t.isDirectory parts then some (.directory parts) else none

/-- The most bytes of a component, and of a whole path. -/
def componentLimit : Nat := 255
def pathLimit : Nat := 4095

def byteLength (s : String) : Nat :=
  (Utf8.encode s.toList).length

def enter (t : SourceTree) (place : Place) (part : String) : Except OpenError Place :=
  match place with
  | .file _ => .error .notDirectory
  | .directory here =>
    if part = ".." then .ok (if here = [] then .outside else .directory here.dropLast)
    else if componentLimit < byteLength part then .error .nameTooLong
    else match t.lookup? (here ++ [part]) with
      | some place => .ok place
      | none => .error .notFound
  | .outside =>
    if part = ".." then .ok .outside
    else if componentLimit < byteLength part then .error .nameTooLong
    else .error .notFound

def contents (t : SourceTree) (p : Path) : Except OpenError (List UInt8) :=
  if pathLimit < byteLength p.text then .error .nameTooLong
  else
    let start := if p.isAbsolute then .outside else .directory []
    match p.parts.foldlM t.enter start with
    | .error e => .error e
    | .ok (.file bytes) => .ok bytes
    | .ok _ => .error .isDirectory

end SourceTree
end Presence
