import Linewise.Parser.Fault
import Linewise.Terminal

/-!
# Parser states

A parser reads terminals and answers a value or fails with a fault. Whatever it has read and reported
by then stays read and reported.
-/

namespace Linewise

namespace Parser

structure State where
  rest : List Terminal
  finish : Span
  /-- The span of the token read last. -/
  previous : Span
  depth : Nat
  faults : Array (Located SyntaxFault)

def State.start (s : TokenStream) (tags : LayoutTags TokenKind Channel) : State :=
  ⟨s.terminals tags, s.finish, ⟨0, 0⟩, 0, #[]⟩

def State.here (s : State) : Span :=
  match s.rest with
  | t :: _ => t.token.span
  | [] => s.finish

end Parser

abbrev Parser (α : Type) := ExceptT (Located SyntaxFault) (StateM Parser.State) α

namespace Parser

abbrev Outcome (α : Type) := Except (Located SyntaxFault) α × State

def run {α : Type} (p : Parser α) (s : State) : Outcome α := p s

/-- The kind of the next token, which is `eof` at the end of input. -/
def peek : Parser TokenKind := do
  match (← get).rest with
  | t :: _ => return t.token.kind
  | [] => return .eof

def peekSecond : Parser TokenKind := do
  match (← get).rest with
  | _ :: t :: _ => return t.token.kind
  | _ => return .eof

def atEnd : Parser Bool := return (← get).rest.isEmpty

def atClosing : Parser Bool := return (← get).rest.head?.any (·.closing)

/-- Does the next token follow a line break? The end of input stands on a line of its own. -/
def onNewLine : Parser Bool := return (← get).rest.head?.all (·.onNewLine)

def atTerminator : Parser Bool := return (← get).rest.head?.all (·.terminated)

def nextIs (kind : TokenKind) : Parser Bool := return (← peek) = kind

def nextAre (first second : TokenKind) : Parser Bool :=
  return (← peek) = first ∧ (← peekSecond) = second

def nextOnLine (kind : TokenKind) : Parser Bool := return (← nextIs kind) && !(← onNewLine)

def here : Parser Span := return (← get).here

/-- The span from `start` to the end of the token read last. -/
def spanFrom (start : Span) : Parser Span := return start.merge (← get).previous

def located {α : Type} (start : Span) (node : α) : Parser (Located α) :=
  return ⟨node, ← spanFrom start⟩

/-- Reads the next token; at the end of input there is nothing to read. -/
def advance : Parser Unit :=
  modify fun s =>
    match s.rest with
    | t :: ts => { s with rest := ts, previous := t.token.span }
    | [] => s

def fail {α : Type} (fault : SyntaxFault) (span : Span) : Parser α := throw ⟨fault, span⟩

def unexpected {α : Type} (what : Expectation) : Parser α := do
  fail (.expected what (← peek)) (← here)

def report (fault : Located SyntaxFault) : Parser Unit :=
  modify fun s => { s with faults := s.faults.push fault }

def accept (kind : TokenKind) : Parser Bool := do
  if ← nextIs kind then
    advance
    return true
  else
    return false

def expectAs (what : Expectation) (kind : TokenKind) : Parser String := do
  match (← get).rest with
  | t :: _ =>
    if t.token.kind = kind then
      advance
      return t.token.text
    else unexpected what
  | [] => unexpected what

def expect (kind : TokenKind) : Parser Unit := do
  let _ ← expectAs (.token kind) kind

def expectWord (word : Keyword) : Parser Unit := expect (.keyword word)

def identifier : Parser String := expectAs .identifier .identifier

def label? (sign : TokenKind) : Parser (Option String) := do
  if ← nextAre .identifier sign then
    let name ← identifier
    expect sign
    return some name
  else
    return none

/-- Runs a parser and answers with its fault if it fails. -/
def attempt {α : Type} (p : Parser α) : Parser (Except (Located SyntaxFault) α) :=
  ExceptT.mk (.ok <$> ExceptT.run p)

/-- Runs a parser one level deeper, unless as many levels are open as there may be. -/
def deeper {α : Type} (limit : Nat) (p : Parser α) : Parser α := do
  if (← get).depth ≥ limit then
    fail .nestingTooDeep (← here)
  else
    modify fun s => { s with depth := s.depth + 1 }
    let result ← attempt p
    modify fun s => { s with depth := s.depth - 1 }
    match result with
    | .ok a => return a
    | .error fault => throw fault

end Parser

end Linewise
