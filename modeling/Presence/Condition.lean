import Presence.Expr.Grammar
import Presence.Formula
import Presence.Options

/-! Conditions: the formulas that expressions stand for. -/
namespace Presence

def Comparison.tag : Comparison → String
  | eq => "_eq_"
  | ne => "_ne_"
  | lt => "_lt_"
  | le => "_le_"
  | gt => "_gt_"
  | ge => "_ge_"

def moduleVariable (name : String) : String := name ++ "_MODULE"

def nonzeroVariable (name : String) : String := name ++ "_ne_0"

/-- The variable that stands in for a condition without a formula. -/
def errorVariableName : String := "PARSING_ERROR"

namespace Expr

def literalFormula (value : Int) : Formula :=
  .const (value ≠ 0)

def meaningless (e : MeaningError) : Except ConditionError Formula :=
  .error (.meaning e)

/-- Calls test names: `defined` always, the kernel's option tests if they are enabled. -/
def callFormula (o : Options) (function : String) : Expr → Except ConditionError Formula
  | absent => meaningless (.argumentMissing function)
  | identifier name =>
    if function = definedName then .ok (.var name)
    else if o.linux ∧ function = "IS_ENABLED" then
      .ok (.or (.var name) (.var (moduleVariable name)))
    else if o.linux ∧ function = "IS_BUILTIN" then .ok (.var name)
    else if o.linux ∧ function = "IS_MODULE" then .ok (.var (moduleVariable name))
    else meaningless (.unknownFunction function)
  | _ => meaningless (.argumentNotName function)

/-- A comparison is a variable named after its operands, with a name on the left. -/
def comparisonFormula (o : Options) (c : Comparison) (left right : Expr) :
    Except ConditionError Formula :=
  let withNumber (name : String) (c : Comparison) (value : Int) :=
    match decimalText value with
    | .ok text => .ok (.var (name ++ c.tag ++ text))
    | .error e => .error (.digitLimit e)
  if !o.fuzzy then meaningless (.comparisonNotEnabled c)
  else match left, right with
    | identifier name, integer _ value => withNumber name c value
    | integer _ value, identifier name => withNumber name c.swap value
    | identifier name, identifier other => .ok (.var (name ++ c.tag ++ other))
    | _, _ => meaningless .incomparable

/-- The formula of an expression, of which each level of operands takes a unit of the budget. -/
def toFormula (o : Options) : (budget : Nat) → Expr → Except ConditionError Formula
  | 0, _ => .error .tooDeep
  | n + 1, e =>
    match e with
    | call function argument => callFormula o function argument
    | identifier name =>
      if o.fuzzy then .ok (.var (nonzeroVariable name)) else meaningless (.bareIdentifier name)
    | integer _ value => .ok (literalFormula value)
    | unary .not x => do
      let f ← toFormula o n x
      return .not f
    | unary .minus (integer _ value) => .ok (literalFormula (-value))
    | unary op _ => meaningless (.unaryOperator op.symbol)
    | binary .and l r => do
      let f ← toFormula o n l
      let g ← toFormula o n r
      return .and f g
    | binary .or l r => do
      let f ← toFormula o n l
      let g ← toFormula o n r
      return .or f g
    | binary (.compare c) l r => comparisonFormula o c l r
    | binary (.other symbol) _ _ => meaningless (.binaryOperator symbol)
    | conditional _ _ _ => meaningless .conditionalOperator
    | absent => meaningless .absent

end Expr

def formulaOf (o : Context) (expression : List Char) : Except ConditionError Formula := do
  let e ← Expr.ofChars o.budget expression
  e.toFormula o.toOptions o.budget.translatedLevels

/-- The formula that takes the place of an invalid condition, if the handling has one. -/
def InvalidHandling.substitute? : InvalidHandling → Option Formula
  | .fail => none
  | .assumeTrue => some (.const true)
  | .errorVariable => some (.var errorVariableName)

def condition (o : Context) (expression : List Char) : Except ConditionError Formula :=
  match formulaOf o expression with
  | .ok f => .ok f
  | .error e =>
    match o.invalid.substitute? with
    | some f => if e.isRecoverable then .ok f else .error e
    | none => .error e

end Presence
