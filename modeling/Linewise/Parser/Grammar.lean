import Linewise.Parser.Expressions

/-!
# The grammar of source files

Declarations, the rules tied together level by level, and `parse`, which reads a token stream as a
list of declarations or answers with every fault found.
-/

namespace Linewise

namespace Parser

variable (rules : Rules)

def compilerCall : Parser (Located Expr) := do
  let hash ← here
  expect .hash
  let call ← suffixed rules
  if call.node.isCall then return call else fail .callExpected (hash.merge call.span)

/-- A parameter of a class, behind its modifiers. Only a property can have any. -/
def constructorParamAfter (start : Span) (ms : Modifiers) : Parser (Located ClassParam) := do
  match ← peek with
  | .keyword .valWord | .keyword .varWord =>
    let decl ← property rules ms
    located start (.property decl)
  | _ =>
    if ms.isEmpty then
      let param ← plainParam rules
      located start (.plain param)
    else
      unexpected .propertyAfterModifiers

def constructorParam : Parser (Located ClassParam) := do
  let start ← here
  constructorParamAfter rules start (← modifiers rules)

def constructor? : Parser (Option (Located (List (Located ClassParam)))) := do
  let start ← here
  if ← accept .leftParen then
    let params ← listUntil .rightParen (constructorParam rules)
    return some (← located start params)
  else
    return none

def members : Parser (List (Located Declaration)) := do
  if ← accept .leftCurl then
    let decls ← sequenceOf true rules.declaration
    expect .rightCurl
    return decls
  else
    return []

def classDecl (ms : Modifiers) : Parser ClassDef := do
  expectWord .classWord
  let name ← identifier
  let constructor ← constructor? rules
  let members ← members rules
  return ⟨ms, name, constructor, members⟩

def declarationAfter (ms : Modifiers) : Parser Declaration := do
  match ← peek with
  | .keyword .funWord => return .function (← function rules ms)
  | .keyword .classWord => return .classDecl (← classDecl rules ms)
  | .keyword .valWord | .keyword .varWord => return .property (← property rules ms)
  | _ => unexpected .declaration

def declarationNode : Parser Declaration := do
  if ← nextIs .hash then
    return .compilerCall (← compilerCall rules)
  else
    declarationAfter rules (← modifiers rules)

def declarationBody : Parser (Located Declaration) := do
  let start ← here
  located start (← declarationNode rules)

/-- The rules for a reader that has `levels` of its `limit` levels of nesting left. -/
def grammar (limit : Nat) : (levels : Nat) → Rules
  | 0 =>
    { type := typeRule limit 0
      expression := do fail .nestingTooDeep (← here)
      operand := do fail .nestingTooDeep (← here)
      block := do fail .nestingTooDeep (← here)
      declaration := do fail .nestingTooDeep (← here) }
  | levels + 1 =>
    let inner := grammar limit levels
    { type := typeRule limit (levels + 1)
      expression := deeper limit (assignment inner)
      operand := deeper limit (unary inner)
      block := deeper limit (blockBody inner)
      declaration := deeper limit (declarationBody inner) }

def declarations (limit : Nat) : Parser (List (Located Declaration)) :=
  sequenceOf false (grammar limit limit).declaration

end Parser

/-- Reads a token stream as a source file that nests in at most `limit` levels, or answers with all its
faults in the order found. -/
def parseWithin (limit : Nat) (tags : LayoutTags TokenKind Channel) (s : TokenStream) :
    Except (List (Located SyntaxFault)) SourceFile :=
  match (Parser.declarations limit).run (.start s tags) with
  | (.ok declarations, state) =>
    match state.faults.toList with
    | [] => .ok ⟨declarations⟩
    | faults => .error faults
  | (.error fault, state) => .error (state.faults.push fault).toList

def parse (tags : LayoutTags TokenKind Channel) (s : TokenStream) :
    Except (List (Located SyntaxFault)) SourceFile :=
  parseWithin maxDepth tags s

end Linewise
