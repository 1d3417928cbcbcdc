import Linewise.Parser.State

/-!
# Repetition

All loops of the grammar are `iterate`: a step runs over and over until it says that it is done. Every
round but the last reads a token, so the tokens left at the start bound the number of rounds.
-/

namespace Linewise.Parser

variable {α β : Type}

/-- At most one round per element of the bound, and one more. -/
def iterateFor (step : β → Parser (ForInStep β)) : List Terminal → β → Parser β
  | [], b => return (← step b).value
  | _ :: bound, b => do
    match ← step b with
    | .done b => return b
    | .yield b => iterateFor step bound b

def iterate (step : β → Parser (ForInStep β)) (b : β) : Parser β := do
  iterateFor step (← get).rest b

def goOnAt (sign : TokenKind) (b : β) : Parser (ForInStep β) := do
  if ← accept sign then return .yield b else return .done b

def skipSemicolons : Parser Unit := iterate (goOnAt .semicolon) ()

def listRound (item : Parser α) (items : Array α) : Parser (ForInStep (Array α)) := do
  let a ← item
  goOnAt .comma (items.push a)

def listOf (item : Parser α) : Parser (List α) := do
  let items ← iterate (listRound item) #[]
  return items.toList

def listUntilRound (close : TokenKind) (item : Parser α) (items : Array α) :
    Parser (ForInStep (Array α)) := do
  if ← nextIs close then return .done items else listRound item items

/-- Items with commas between them up to a closing token, which it reads too. A comma may follow the
last item. -/
def listUntil (close : TokenKind) (item : Parser α) : Parser (List α) := do
  let items ← iterate (listUntilRound close item) #[]
  expect close
  return items.toList

/-- Reads what separates an item from the next one. A missing separator is reported, and parsing goes
on at the same token. -/
def separator : Parser Unit := do
  if ← nextIs .semicolon then skipSemicolons
  else if (← atEnd) || (← atClosing) || (← atTerminator) then return ()
  else report ⟨.missingSeparator (← peek), ← here⟩

def atStop (inBlock : Bool) : Parser Bool := return (← atEnd) || (inBlock && (← atClosing))

def recoverRound (inBlock : Bool) (progressed : Bool) : Parser (ForInStep Bool) := do
  if ← atStop inBlock then return .done progressed
  if ← accept .semicolon then return .done true
  if progressed && (← onNewLine) then return .done true
  advance
  return .yield true

/-- Skips what is left of an item that failed: all up to and including a semicolon, or up to a token
that begins a line or, in a block, closes it. An item that had read nothing loses one token at least,
if there is one before the close. -/
def recover (inBlock : Bool) (progressed : Bool) : Parser Unit := do
  let _ ← iterate (recoverRound inBlock) progressed

/-- An item and what separates it from the next one. A fault in it is reported, and costs this item
only. -/
def itemRound (inBlock : Bool) (item : Parser α) (items : Array α) :
    Parser (ForInStep (Array α)) := do
  let before := (← get).rest
  match ← attempt item with
  | .ok node =>
    separator
    return .yield (items.push node)
  | .error fault =>
    report fault
    recover inBlock ((← get).rest.length != before.length)
    return .yield items

def sequenceRound (inBlock : Bool) (item : Parser α) (items : Array α) :
    Parser (ForInStep (Array α)) := do
  skipSemicolons
  if ← atStop inBlock then return .done items else itemRound inBlock item items

def sequenceOf (inBlock : Bool) (item : Parser α) : Parser (List α) := do
  let items ← iterate (sequenceRound inBlock item) #[]
  return items.toList

end Linewise.Parser
