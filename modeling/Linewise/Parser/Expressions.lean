import Linewise.Parser.Statements

/-!
# The grammar of expressions

From the loosest to the tightest: assignment, which groups to the right; equality, comparison, sums
and products, which group to the left; `#`; calls, members and elements; and the atoms.
-/

namespace Linewise

inductive Precedence where
  | equality | comparison | additive | multiplicative
deriving DecidableEq

def BinaryOp.precedence : BinaryOp → Precedence
  | equals | notEquals => .equality
  | less | greater | lessEqual | greaterEqual => .comparison
  | plus | minus => .additive
  | times | divide => .multiplicative

def BinaryOp.ofKind? : TokenKind → Option BinaryOp
  | .plus => some plus
  | .minus => some minus
  | .times => some times
  | .divide => some divide
  | .equals => some equals
  | .notEquals => some notEquals
  | .leftAngle => some less
  | .rightAngle => some greater
  | .lessEqual => some lessEqual
  | .greaterEqual => some greaterEqual
  | _ => none

def BinaryOp.at? (p : Precedence) (kind : TokenKind) : Option BinaryOp :=
  (ofKind? kind).filter fun op => op.precedence = p

namespace Parser

variable (rules : Rules)

/-- A semicolon in front of `else` does not end the expression before it. -/
def skipBeforeElse : Parser Unit := do
  if ← nextAre .semicolon (.keyword .elseWord) then expect .semicolon

def conditional : Parser Expr := do
  expectWord .ifWord
  expect .leftParen
  let condition ← rules.expression
  expect .rightParen
  let thenBody ← body rules
  skipBeforeElse
  let elseBody ← behind (.keyword .elseWord) (body rules)
  return .cond condition thenBody elseBody

/-- `a, b -> body` or `else -> body` -/
def whenCase : Parser (Located WhenCase) := do
  let start ← here
  if ← accept (.keyword .elseWord) then
    expect .arrow
    let body ← body rules
    located start (.otherwise body)
  else
    let conditions ← listOf rules.expression
    expect .arrow
    let body ← body rules
    located start (.matching conditions body)

def closeGroup : Parser (Located Expr) := do
  let inner ← rules.expression
  expect .rightParen
  return inner

def whenChoice : Parser Expr := do
  expectWord .whenWord
  let subject ← behind .leftParen (closeGroup rules)
  expect .leftCurl
  let cases ← sequenceOf true (whenCase rules)
  expect .rightCurl
  return .whenCase subject cases

def atom : Parser Expr := do
  match ← peek with
  | .identifier => return .name (← expectAs .expression .identifier)
  | .integer => return .integer (← expectAs .expression .integer)
  | .string => return .string (StringLiteral.decode (← expectAs .expression .string))
  | .keyword .nullWord =>
    expectWord .nullWord
    return .null
  | .leftParen =>
    expect .leftParen
    return (← closeGroup rules).node
  | .leftSquare =>
    expect .leftSquare
    return .array (← listUntil .rightSquare rules.expression)
  | .leftCurl => return .lambda (← rules.block).node
  | .keyword .ifWord => conditional rules
  | .keyword .whenWord => whenChoice rules
  | _ => unexpected .expression

def blockArgument : Parser (Located Argument) := do
  let block ← rules.block
  return ⟨⟨none, ⟨.lambda block.node, block.span⟩⟩, block.span⟩

/-- Arguments in parentheses. One block behind them, on the same line, is the last of them. -/
def callArguments : Parser (List (Located Argument)) := do
  let args ← arguments rules
  if ← nextOnLine .leftCurl then return args ++ [← blockArgument rules] else return args

def closeIndex : Parser (Located Expr) := do
  let index ← rules.expression
  expect .rightSquare
  return index

/-- One suffix of an expression, if one follows. Calls and elements must begin on the line that the
expression ends on; members need not. -/
def suffix? (target : Located Expr) : Parser (Option Expr) := do
  if ← nextOnLine .leftParen then
    return some (.call target (← callArguments rules))
  else if ← nextOnLine .leftCurl then
    return some (.call target [← blockArgument rules])
  else if ← nextOnLine .leftSquare then
    expect .leftSquare
    return some (.index target (← closeIndex rules))
  else if ← accept .dot then
    return some (.member target (← identifier))
  else
    return none

def suffixRound (start : Span) (target : Located Expr) : Parser (ForInStep (Located Expr)) := do
  match ← suffix? rules target with
  | some node => return .yield (← located start node)
  | none => return .done target

def suffixed : Parser (Located Expr) := do
  let start ← here
  let first ← located start (← atom rules)
  iterate (suffixRound rules start) first

def unary : Parser (Located Expr) := do
  let start ← here
  if ← accept .hash then
    let inner ← rules.operand
    located start (.compilerExec inner)
  else
    suffixed rules

def operator? (p : Precedence) : Parser (Option BinaryOp) := do
  let kind ← peek
  match BinaryOp.at? p kind with
  | some op =>
    expect kind
    return some op
  | none => return none

def chainRound (p : Precedence) (operand : Parser (Located Expr)) (start : Span)
    (lhs : Located Expr) : Parser (ForInStep (Located Expr)) := do
  match ← operator? p with
  | some op =>
    let rhs ← operand
    return .yield (← located start (.binary op lhs rhs))
  | none => return .done lhs

/-- Operands with operators of one precedence between them, grouped to the left. -/
def chain (p : Precedence) (operand : Parser (Located Expr)) : Parser (Located Expr) := do
  let start ← here
  let first ← operand
  iterate (chainRound p operand start) first

def binary : Parser (Located Expr) :=
  chain .equality (chain .comparison (chain .additive (chain .multiplicative (unary rules))))

def assignment : Parser (Located Expr) := do
  let start ← here
  let target ← binary rules
  if ← nextIs .assign then
    if target.node.isPlace then
      expect .assign
      let value ← rules.expression
      located start (.assign target value)
    else
      fail .invalidTarget target.span
  else
    return target

end Parser

end Linewise
