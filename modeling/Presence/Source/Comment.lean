/-! Removing comments from a line. -/
namespace Presence

/-- Where a line starts: in code, or in a block comment that an earlier line opened. -/
inductive CommentState
  | code
  | comment
  deriving DecidableEq, Repr

/-- A line without its comments, and where the next line starts. The star that opens a block
comment does not close it too. -/
def stripComments : CommentState → List Char → List Char × CommentState
  | .comment, '*' :: '/' :: s => stripComments .code s
  | .comment, _ :: s => stripComments .comment s
  | .comment, [] => ([], .comment)
  | .code, '/' :: '/' :: _ => ([], .code)
  | .code, '/' :: '*' :: s => stripComments .comment s
  | .code, c :: s => ((c :: (stripComments .code s).1), (stripComments .code s).2)
  | .code, [] => ([], .code)

example : stripComments .code "a /* b */ c // d".toList = ("a  c ".toList, .code) := by decide
example : stripComments .code "/*/".toList = ([], .comment) := by decide
example : stripComments .comment "b */ c".toList = (" c".toList, .code) := by decide

end Presence
