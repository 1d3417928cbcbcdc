import Linewise.Parser.Types

/-!
# Rules that nest

The grammar is recursive through these rules only, and each of them opens a level of nesting. All
other productions take the rules of the next level as a parameter.
-/

namespace Linewise.Parser

structure Rules where
  type : Parser (Located Ty)
  expression : Parser (Located Expr)
  /-- What may follow the sign `#` in an expression. -/
  operand : Parser (Located Expr)
  block : Parser (Located Block)
  declaration : Parser (Located Declaration)

variable (rules : Rules)

def argument : Parser (Located Argument) := do
  let start ← here
  let name ← label? .assign
  let value ← rules.expression
  located start ⟨name, value⟩

def arguments : Parser (List (Located Argument)) := do
  expect .leftParen
  listUntil .rightParen (argument rules)

/-- `@name` or `@name(args)`, with the arguments on the line of the name. -/
def annotated : Parser Annotated := do
  expect .atSign
  let name ← identifier
  if ← nextOnLine .leftParen then
    return ⟨name, ← arguments rules⟩
  else
    return ⟨name, []⟩

def library : Parser (Option String) := do
  if ← accept .leftParen then
    let literal ← expectAs .libraryName .string
    expect .rightParen
    return some (StringPart.concat (StringLiteral.decode literal))
  else
    return none

def modifier? : Parser (Option Modifier) := do
  match ← peek with
  | .keyword .externWord =>
    expectWord .externWord
    return some (.external (← library))
  | .keyword .compilerWord =>
    expectWord .compilerWord
    return some .compiler
  | .keyword .abstractWord =>
    expectWord .abstractWord
    return some .abstractItem
  | _ => return none

def modifierRound : Modifiers → Parser (ForInStep Modifiers)
  | ⟨ms, as⟩ => do
    let start ← here
    if ← nextIs .atSign then
      let a ← annotated rules
      return .yield ⟨ms, as ++ [← located start a]⟩
    else
      match ← modifier? with
      | some m => return .yield ⟨ms ++ [← located start m], as⟩
      | none => return .done ⟨ms, as⟩

def modifiers : Parser Modifiers := iterate (modifierRound rules) ⟨[], []⟩

def behind {α : Type} (sign : TokenKind) (p : Parser α) : Parser (Option α) := do
  if ← accept sign then return some (← p) else return none

def binding : Parser Bool := do
  match ← peek with
  | .keyword .valWord =>
    expectWord .valWord
    return true
  | .keyword .varWord =>
    expectWord .varWord
    return false
  | _ => unexpected .property

def property (ms : Modifiers) : Parser PropertyDef := do
  let readonly ← binding
  let name ← identifier
  let type ← behind .colon rules.type
  let value ← behind .assign rules.expression
  return ⟨ms, readonly, name, type, value⟩

/-- Takes a function's name off the type that was read in front of its parameters. -/
def detachName (type : Located Ty) : Parser (Option (Located Ty) × String) :=
  match type.node with
  | .user (.member parent name []) =>
    let stop := type.span.stop - (name.utf8ByteSize + 1)
    return (some ⟨.user parent, ⟨type.span.start, stop⟩⟩, name)
  | _ => fail .functionNameExpected type.span

def functionName : Parser (Option (Located Ty) × String) := do
  if ← nextAre .identifier .leftParen then
    return (none, ← identifier)
  else
    let type ← rules.type
    -- A user type has read the name as a member; any other receiver leaves it behind a dot.
    if ← accept .dot then
      return (some type, ← identifier)
    else
      detachName type

def plainParam : Parser Param := do
  let name ← identifier
  expect .colon
  return ⟨name, ← rules.type⟩

def param : Parser (Located Param) := do
  let start ← here
  located start (← plainParam rules)

/-- A body in braces, a value behind `=`, which is a body of one statement, or none at all. -/
def functionBody : Parser (Option (Located Block)) := do
  if ← nextIs .leftCurl then
    return some (← rules.block)
  else if ← accept .assign then
    let value ← rules.expression
    return some (Block.single ⟨.expr value.node, value.span⟩)
  else
    return none

def function (ms : Modifiers) : Parser FunctionDef := do
  expectWord .funWord
  let (receiver, name) ← functionName rules
  expect .leftParen
  let params ← listUntil .rightParen (param rules)
  let result ← behind .colon rules.type
  let body ← functionBody rules
  return ⟨ms, receiver, name, params, result, body⟩

end Linewise.Parser
