import Linewise.Ast
import Linewise.Parser.Repetition

/-!
# The grammar of types

A type is a user type, a type in parentheses or a function type, with at most one `?` and any number
of `*` after it. The rules take the rule for the types inside a type as a parameter; `typeRule` ties
the knot, one level of nesting at a time.
-/

namespace Linewise.Parser

variable (type : Parser (Located Ty))

def typeArgs : Parser (List (Located Ty)) := do
  if ← accept .leftAngle then
    let args ← listOf type
    expect .rightAngle
    return args
  else
    return []

def memberRound (parent : UserType) : Parser (ForInStep UserType) := do
  if ← nextAre .dot .identifier then
    expect .dot
    let name ← identifier
    return .yield (.member parent name (← typeArgs type))
  else
    return .done parent

def userType : Parser UserType := do
  let name ← identifier
  let args ← typeArgs type
  iterate (memberRound type) (.simple name args)

def typeParam : Parser (Option String × Located Ty) := do
  let name ← label? .colon
  return (name, ← type)

/-- Where a type begins that has this receiver in front of its parentheses. -/
def startOf : Option (Located Ty) → Parser Span
  | some receiver => return receiver.span
  | none => here

/-- `(A, name: B) -> R`, where a receiver may stand before it. One unnamed type in parentheses without
an arrow is that type. -/
def functionType (receiver : Option (Located Ty)) : Parser (Located Ty) := do
  let start ← startOf receiver
  expect .leftParen
  let params ← listUntil .rightParen (typeParam type)
  if ← accept .arrow then
    let result ← type
    located start (.function receiver params result)
  else
    -- Without an arrow these were parentheses around a type.
    match receiver, params with
    | none, [(none, inner)] => return inner
    | _, _ => fail .arrowExpected (← here)

def namedType (start : Span) : Parser (Located Ty) := do
  let user ← located start (.user (← userType type))
  if ← nextAre .dot .leftParen then
    expect .dot
    functionType type (some user)
  else
    return user

def plainType (start : Span) : Parser (Located Ty) := do
  match ← peek with
  | .leftParen => functionType type none
  | .identifier => namedType type start
  | _ => unexpected .type

def nullable (start : Span) (plain : Located Ty) : Parser (Located Ty) := do
  if ← accept .question then located start (.nullable plain) else return plain

def pointerRound (start : Span) (inner : Located Ty) : Parser (ForInStep (Located Ty)) := do
  if ← accept .times then return .yield (← located start (.pointer inner)) else return .done inner

def pointers (start : Span) (base : Located Ty) : Parser (Located Ty) :=
  iterate (pointerRound start) base

def typeBody : Parser (Located Ty) := do
  let start ← here
  let plain ← plainType type start
  let base ← nullable start plain
  pointers start base

/-- Types, for a reader that has `levels` of its `limit` levels of nesting left. -/
def typeRule (limit : Nat) : (levels : Nat) → Parser (Located Ty)
  | 0 => do fail .nestingTooDeep (← here)
  | levels + 1 => deeper limit (typeBody (typeRule limit levels))

end Linewise.Parser
