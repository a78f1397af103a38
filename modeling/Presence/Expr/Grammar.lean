import Presence.ConditionError
import Presence.Options

/-!
Reading expressions by recursive descent. Each level of the grammar that is entered takes one unit
of a nesting budget, and operands of one tier are joined in a loop, to the left.
-/
namespace Presence

/-- The tiers of binary operators, from the loosest to the tightest. -/
inductive Tier
  | disjunction | conjunction
  | bitOr | bitXor | bitAnd
  | equality | relational | shift | additive | multiplicative
  deriving DecidableEq, Repr

def Tier.operator? : Tier → Punctuator → Option BinaryOp
  | .disjunction, .or => some .or
  | .conjunction, .and => some .and
  | .bitOr, .bitOr => some (.other "|")
  | .bitXor, .bitXor => some (.other "^")
  | .bitAnd, .bitAnd => some (.other "&")
  | .equality, .equal => some (.compare .eq)
  | .equality, .unequal => some (.compare .ne)
  | .relational, .less => some (.compare .lt)
  | .relational, .atMost => some (.compare .le)
  | .relational, .greater => some (.compare .gt)
  | .relational, .atLeast => some (.compare .ge)
  | .shift, .shiftLeft => some (.other "<<")
  | .shift, .shiftRight => some (.other ">>")
  | .additive, .plus => some (.other "+")
  | .additive, .minus => some (.other "-")
  | .multiplicative, .times => some (.other "*")
  | .multiplicative, .divide => some (.other "/")
  | .multiplicative, .remainder => some (.other "%")
  | _, _ => none

def unaryOperator? : Punctuator → Option UnaryOp
  | .minus => some .minus
  | .plus => some (.other "+")
  | .complement => some (.other "~")
  | .not => some .not
  | _ => none

/-- Logical negation at the level `negation` takes in everything up to the next `&&`; at the level
`unary`, below another operator, it takes in a single operand. -/
inductive Level
  | conditional
  | tier (t : Tier)
  | negation
  | unary
  | primary
  deriving DecidableEq, Repr

def Tier.operand : Tier → Level
  | .disjunction => .tier .conjunction
  | .conjunction => .negation
  | .bitOr => .tier .bitXor
  | .bitXor => .tier .bitAnd
  | .bitAnd => .tier .equality
  | .equality => .tier .relational
  | .relational => .tier .shift
  | .shift => .tier .additive
  | .additive => .tier .multiplicative
  | .multiplicative => .unary

namespace Expr

abbrev Reading := Except ConditionError (Expr × List Token)

def expect (p : Punctuator) (tokens : List Token) : Except ConditionError (List Token) :=
  match tokens with
  | ⟨.punctuator q, _⟩ :: rest =>
    if q = p then .ok rest else .error (.grammar ⟨.punctuatorMissing p, tokens⟩)
  | _ => .error (.grammar ⟨.punctuatorMissing p, tokens⟩)

/-- Joins further operands to the left one, `steps` of them at most. -/
def joinOperands (operator? : Punctuator → Option BinaryOp) (operand : List Token → Reading) :
    (steps : Nat) → Expr → List Token → Reading
  | 0, left, tokens => .ok (left, tokens)
  | n + 1, left, tokens =>
    match tokens with
    | ⟨.punctuator p, _⟩ :: rest =>
      match operator? p with
      | some op => do
        let (right, rest) ← operand rest
        joinOperands operator? operand n (.binary op left right) rest
      | none => .ok (left, tokens)
    | _ => .ok (left, tokens)

def definedName : String := "defined"

def readTestedName (tokens : List Token) : Except ConditionError (String × List Token) :=
  match tokens with
  | ⟨.identifier name, _⟩ :: rest => .ok (name, rest)
  | _ => .error (.grammar ⟨.testedNameMissing, tokens⟩)

/-- Reads what follows `defined`: a name, in parentheses or not. -/
def readDefined (tokens : List Token) : Reading :=
  match tokens with
  | ⟨.punctuator .leftParen, _⟩ :: rest => do
    let (name, rest) ← readTestedName rest
    let rest ← expect .rightParen rest
    return (.call definedName (.identifier name), rest)
  | _ => do
    let (name, rest) ← readTestedName tokens
    return (.call definedName (.identifier name), rest)

/-- Scanning makes an integer of nothing but the spelling of a constant. -/
def readInteger (spelling : String) (tokens rest : List Token) : Reading :=
  let s := spelling.toList
  match IntegerConstant.ofSpelling? s, IntegerConstant.readSpelling? s with
  | some _, some (.ok value) => .ok (.integer spelling value, rest)
  | some _, some (.error e) => .error (.digitLimit e)
  | _, _ => .error (.grammar ⟨.unexpected, tokens⟩)

def readLevel : (budget : Nat) → Level → List Token → Reading
  | 0, _, _ => .error .tooDeep
  | n + 1, .conditional, tokens => do
    let (condition, rest) ← readLevel n (.tier .disjunction) tokens
    match rest with
    | ⟨.punctuator .question, _⟩ :: rest => do
      let (thenExpr, rest) ← readLevel n .conditional rest
      let rest ← expect .colon rest
      let (elseExpr, rest) ← readLevel n .conditional rest
      return (.conditional condition thenExpr elseExpr, rest)
    | _ => return (condition, rest)
  | n + 1, .tier t, tokens => do
    let (left, rest) ← readLevel n t.operand tokens
    joinOperands t.operator? (readLevel n t.operand) rest.length left rest
  | n + 1, .negation, tokens =>
    match tokens with
    | ⟨.punctuator .not, _⟩ :: rest => do
      let (operand, rest) ← readLevel n .negation rest
      return (.unary .not operand, rest)
    | _ => readLevel n (.tier .bitOr) tokens
  | n + 1, .unary, tokens =>
    match tokens with
    | ⟨.punctuator p, _⟩ :: rest =>
      match unaryOperator? p with
      | some op => do
        let (operand, rest) ← readLevel n .unary rest
        return (.unary op operand, rest)
      | none => readLevel n .primary tokens
    | _ => readLevel n .primary tokens
  | n + 1, .primary, tokens =>
    match tokens with
    | ⟨.integer spelling, _⟩ :: rest => readInteger spelling tokens rest
    | ⟨.identifier name, _⟩ :: rest =>
      if name = definedName then readDefined rest
      else match rest with
        | ⟨.punctuator .leftParen, _⟩ :: ⟨.punctuator .rightParen, _⟩ :: rest =>
          .ok (.call name .absent, rest)
        | ⟨.punctuator .leftParen, _⟩ :: rest => do
          let (argument, rest) ← readLevel n .conditional rest
          let rest ← expect .rightParen rest
          return (.call name argument, rest)
        | _ => .ok (.identifier name, rest)
    | ⟨.punctuator .leftParen, _⟩ :: rest => do
      let (inner, rest) ← readLevel n .conditional rest
      let rest ← expect .rightParen rest
      return (inner, rest)
    | [] | ⟨.endOfText, _⟩ :: _ => .error (.grammar ⟨.operandMissing, tokens⟩)
    | _ => .error (.grammar ⟨.unexpected, tokens⟩)

/-- Reads an expression that goes on to the end of the text. -/
def ofTokens (budget : Nat) (tokens : List Token) : Except ConditionError Expr := do
  let (e, rest) ← readLevel budget .conditional tokens
  match rest with
  | [] | ⟨.endOfText, _⟩ :: _ => return e
  | _ => .error (.grammar ⟨.unexpected, rest⟩)

/-- A pair of parentheses takes fourteen calls, one for each level inside. -/
def ofChars (budget : CallBudget) (expression : List Char) : Except ConditionError Expr :=
  match scan expression with
  | .ok tokens => ofTokens budget.calls tokens
  | .error e => .error (.scan e)

end Expr
end Presence
