/-! Paths in a normal form. -/
namespace Presence

/-- A path without empty components and without `.`. The root is empty, one slash or two. -/
structure Path where
  root : String
  parts : List String
  deriving DecidableEq, Repr

namespace Path

def components : List Char → List (List Char)
  | [] => [[]]
  | c :: s =>
    if c = '/' then [] :: components s
    else match components s with
      | [] => [[c]]
      | part :: parts => (c :: part) :: parts

/-- Exactly two leading slashes are a root of their own; three or more are as good as one. -/
def rootOf (s : List Char) : String :=
  match (s.takeWhile (· = '/')).length with
  | 0 => ""
  | 2 => "//"
  | _ => "/"

def ofString (s : String) : Path :=
  let parts := (components s.toList).filter fun p => p ≠ [] ∧ p ≠ ['.']
  ⟨rootOf s.toList, parts.map String.ofList⟩

def text (p : Path) : String :=
  if p.root = "" ∧ p.parts = [] then "." else p.root ++ "/".intercalate p.parts

def isAbsolute (p : Path) : Bool :=
  p.root ≠ ""

/-- A path below another one; an absolute path is below none. -/
def below (p : Path) (base : Path) : Path :=
  if p.isAbsolute then p else ⟨base.root, base.parts ++ p.parts⟩

example : (ofString "./sub//a.c/").text = "sub/a.c" := by decide
example : (ofString "").text = "." := by decide
example : (ofString "//a/../b").text = "//a/../b" := by decide
example : ((ofString "a.c").below (ofString "/x")).text = "/x/a.c" := by decide

end Path
end Presence
