import Presence.IntegerConstant
import Presence.Expr
import Presence.Token.Scan

/-! Why a condition has no formula. -/
namespace Presence

inductive GrammarProblem
  | unexpected
  | operandMissing
  | punctuatorMissing (p : Punctuator)
  | testedNameMissing
  deriving DecidableEq, Repr

def GrammarProblem.message : GrammarProblem → String
  | .unexpected => "Unexpected token"
  | .operandMissing => "Expected an operand"
  | .punctuatorMissing p => "Expected '" ++ p.symbol ++ "'"
  | .testedNameMissing => "Expected macro name in defined"

/-- The tokens from the offending one on. -/
structure GrammarError where
  problem : GrammarProblem
  rest : List Token
  deriving DecidableEq, Repr

def GrammarError.token? (e : GrammarError) : Option Token :=
  e.rest.head?

def GrammarError.place (e : GrammarError) : String :=
  match e.rest with
  | [] | ⟨.endOfText, _⟩ :: _ => "end of expression"
  | t :: _ => "column " ++ toString t.column

def GrammarError.message (e : GrammarError) : String :=
  e.problem.message ++ " at " ++ e.place

/-- What has no counterpart among formulas. -/
inductive MeaningError
  | bareIdentifier (name : String)
  | unaryOperator (symbol : String)
  | binaryOperator (symbol : String)
  | conditionalOperator
  | comparisonNotEnabled (c : Comparison)
  | incomparable
  | argumentMissing (function : String)
  | argumentNotName (function : String)
  | unknownFunction (function : String)
  | absent
  deriving DecidableEq, Repr

def MeaningError.message : MeaningError → String
  | .bareIdentifier name => "Found variable outside of defined() call: " ++ name
  | .unaryOperator s => "Unsupported operator: unary " ++ s
  | .binaryOperator s => "Unsupported operator: " ++ s
  | .conditionalOperator => "Unsupported operator: ?:"
  | .comparisonNotEnabled c => c.symbol ++ " is only supported if fuzzy parsing is enabled"
  | .incomparable =>
    "Can only fuzzy-parse variables compared with integer literals or other variables"
  | .argumentMissing f => "Can't handle function " ++ f ++ " without argument"
  | .argumentNotName f => f ++ "() call without variable"
  | .unknownFunction f => "Unsupported function/macro: " ++ f
  | .absent => "Unsupported expression: None"

inductive ConditionError
  | scan (e : ScanError)
  | grammar (e : GrammarError)
  | meaning (e : MeaningError)
  | tooDeep
  | digitLimit (e : DigitLimitError)
  deriving DecidableEq, Repr

/-- Everything but the digit limit is a fault of the expression, which a caller may choose to
overlook. -/
def ConditionError.isRecoverable : ConditionError → Bool
  | .digitLimit _ => false
  | _ => true

def ConditionError.message : ConditionError → String
  | .scan e => e.message
  | .grammar e => e.message
  | .meaning e => e.message
  | .tooDeep => "Condition nested too deeply"
  | .digitLimit e => e.message

end Presence
