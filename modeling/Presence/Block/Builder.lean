import Presence.Block
import Presence.Condition
import Presence.Diagnostic
import Presence.Source.Directive
import Presence.Source.LogicalLine

/-! Building blocks from logical lines. -/
namespace Presence

open Text

inductive FormatProblem
  | invalidCondition (expression : List Char) (cause : ConditionError)
  | endWithoutOpening
  | branchWithoutOpening (k : Keyword)
  | branchAfterElse (k : Keyword)
  | unclosed (opening : Nat)
  deriving DecidableEq, Repr

def FormatProblem.message : FormatProblem → String
  | .invalidCondition e cause =>
    "Can't parse expression '" ++ String.ofList (trim e) ++ "': " ++ cause.message
  | .endWithoutOpening => "Found #endif with no corresponding opening"
  | .branchWithoutOpening k => "Found " ++ k.text ++ " with no previous #if condition"
  | .branchAfterElse k => "Found " ++ k.text ++ " after an #else condition"
  | .unclosed n => "Found opening at line " ++ toString n ++ " but no closing #endif"

structure FormatError where
  problem : FormatProblem
  line : Nat
  file : String
  deriving DecidableEq, Repr

def FormatError.message (e : FormatError) : String :=
  locate e.problem.message (some e.line) (some e.file)

/-- The digit limit is not a fault of the file. -/
inductive ReadError
  | format (e : FormatError)
  | digitLimit (e : DigitLimitError)
  deriving DecidableEq, Repr

/-- A branch that is not closed yet. `earlier` has the conditions of its chain so far, its own
included; after the last branch of a chain it is empty. -/
structure OpenBranch where
  first : Nat
  condition : Formula
  presence : Formula
  children : List Block
  earlier : List Formula
  deriving Repr

def OpenBranch.close (b : OpenBranch) (file : String) (last : Nat) : Block :=
  ⟨b.first, last, file, b.condition, b.presence, b.children⟩

/-- The blocks built so far. The innermost open branch comes first. -/
structure Builder where
  finished : List Block := []
  stack : List OpenBranch := []
  contentOutside : Bool := false
  line : Nat := 0
  deriving Repr

namespace Builder

def openBranch (b : Builder) (condition : Formula) (earlier : List Formula) : Builder :=
  let presence := match b.stack with
    | [] => condition
    | parent :: _ => .and parent.presence condition
  { b with stack := ⟨b.line, condition, presence, [], earlier⟩ :: b.stack }

/-- Closes the innermost branch just before the current line. -/
def closeBranch (b : Builder) (file : String) : Builder :=
  match b.stack with
  | [] => b
  | branch :: stack =>
    let block := branch.close file (b.line - 1)
    match stack with
    | [] => { b with stack := [], finished := b.finished ++ [block] }
    | parent :: stack =>
      { b with stack := { parent with children := parent.children ++ [block] } :: stack }

def failure (b : Builder) (file : String) (p : FormatProblem) : ReadError :=
  .format ⟨p, b.line, file⟩

def testedCondition (b : Builder) (o : Context) (file : String) (expression : List Char) :
    Except ReadError Formula :=
  match condition o expression with
  | .ok f => .ok f
  | .error (.digitLimit e) => .error (.digitLimit e)
  | .error e => .error (b.failure file (.invalidCondition expression e))

/-- The conditions of the chain that a further branch continues: the first one and the rest. -/
def chain (b : Builder) (file : String) (k : Keyword) :
    Except ReadError (Formula × List Formula) :=
  match b.stack with
  | [] => .error (b.failure file (.branchWithoutOpening k))
  | branch :: _ =>
    match branch.earlier with
    | [] => .error (b.failure file (.branchAfterElse k))
    | f :: fs => .ok (f, fs)

def direct (b : Builder) (o : Context) (file : String) (d : Directive) :
    Except ReadError Builder :=
  match d.keyword with
  | .ifDefined | .ifUndefined | .ifHolds => do
    let c ← b.testedCondition o file d.expression
    return b.openBranch c [c]
  | .elseIf => do
    let (f, fs) ← b.chain file d.keyword
    let c ← b.testedCondition o file d.expression
    return (b.closeBranch file).openBranch (.and (.noneOf f fs) c) (f :: fs ++ [c])
  | .otherwise => do
    let (f, fs) ← b.chain file d.keyword
    return (b.closeBranch file).openBranch (.noneOf f fs) []
  | .endIf =>
    match b.stack with
    | [] => .error (b.failure file .endWithoutOpening)
    | _ :: _ => .ok (b.closeBranch file)

def handle (b : Builder) (o : Context) (file : String) (l : LogicalLine) :
    Except ReadError Builder :=
  match Directive.ofLine? l.text with
  | some d => b.direct o file d
  | none =>
    if l.text.isEmpty || !b.stack.isEmpty then .ok b else .ok { b with contentOutside := true }

/-- Takes a line in. A line that fails only moves the current line. -/
def accept (b : Builder) (o : Context) (file : String) (l : LogicalLine) :
    Builder × Option ReadError :=
  let b := { b with line := l.number }
  match b.handle o file l with
  | .ok b => (b, none)
  | .error e => (b, some e)

def acceptAll (b : Builder) (o : Context) (file : String) :
    List LogicalLine → Builder × Option ReadError
  | [] => (b, none)
  | l :: ls =>
    match b.accept o file l with
    | (b, none) => b.acceptAll o file ls
    | (b, some e) => (b, some e)

/-- The blocks, once every branch is closed. The block around a whole file ends one line after the
last one. -/
def result (b : Builder) (o : Context) (file : String) : Except ReadError (List Block) :=
  match b.stack with
  | branch :: _ => .error (.format ⟨.unclosed branch.first, branch.first, file⟩)
  | [] =>
    if b.contentOutside && o.pseudoBlock then .ok [.whole file (b.line + 1) b.finished]
    else .ok b.finished

/-- Reads the physical lines of a text on top of what was read before. -/
def read (b : Builder) (o : Context) (file : String) (lines : List (List Char)) :
    Builder × Except ReadError (List Block) :=
  match b.acceptAll o file (logicalLines lines) with
  | (b, none) => (b, b.result o file)
  | (b, some e) => (b, .error e)

end Builder

def readBlocks (o : Context) (file : String) (lines : List (List Char)) :
    Except ReadError (List Block) :=
  (Builder.read {} o file lines).2

end Presence
