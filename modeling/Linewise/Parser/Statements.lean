import Linewise.Parser.Rules

/-!
# The grammar of statements

A statement is a loop, a property, a function or an expression. A loop's body may be a statement that
is not in braces, so loops chain without nesting; each of them reads tokens, and the tokens that are
left bound the length of the chain.
-/

namespace Linewise.Parser

variable (rules : Rules)

def localAfter (ms : Modifiers) : Parser Statement := do
  match ← peek with
  | .keyword .funWord => return .function (← function rules ms)
  | .keyword .valWord | .keyword .varWord => return .property (← property rules ms)
  | _ => unexpected .localDeclaration

def localDeclaration : Parser Statement := do localAfter rules (← modifiers rules)

def simpleStatement : Parser Statement := do
  match ← peek with
  | .atSign | .keyword .funWord | .keyword .valWord | .keyword .varWord | .keyword .externWord
  | .keyword .compilerWord | .keyword .abstractWord => localDeclaration rules
  | _ => return .expr (← rules.expression).node

/-- A block, or a statement that stands for a block of its own. -/
def bodyOf (statement : Parser (Located Statement)) : Parser (Located Block) := do
  if ← nextIs .leftCurl then rules.block else return Block.single (← statement)

def whileLoop (statement : Parser (Located Statement)) : Parser Statement := do
  expectWord .whileWord
  expect .leftParen
  let condition ← rules.expression
  expect .rightParen
  return .while condition (← bodyOf rules statement)

def statementNode (statement : Parser (Located Statement)) : Parser Statement := do
  if ← nextIs (.keyword .whileWord) then whileLoop rules statement else simpleStatement rules

/-- A statement, given the rule for a statement that is the body of a loop. -/
def statementWith (statement : Parser (Located Statement)) : Parser (Located Statement) := do
  let start ← here
  located start (← statementNode rules statement)

def statementFor : List Terminal → Parser (Located Statement)
  | [] => statementWith rules (unexpected .expression)
  | _ :: bound => statementWith rules (statementFor bound)

def statement : Parser (Located Statement) := do statementFor rules (← get).rest

def body : Parser (Located Block) := bodyOf rules (statement rules)

def blockBody : Parser (Located Block) := do
  let start ← here
  expect .leftCurl
  let statements ← sequenceOf true (statement rules)
  expect .rightCurl
  located start ⟨statements⟩

end Linewise.Parser
