import Linewise.Text.ByteSize
import Linewise.Text.CharClass
import Linewise.Token

/-!
# Lexemes

A source text falls into lexemes, each as long as its kind allows. `scan` reads one lexeme,
`lexemes` all of them. A lexeme holds text and no position, so the lexemes of a text do not depend on
what stands before it.
-/

namespace Linewise

inductive LexicalFault where
  | unexpectedCharacter (c : Char)
  | unterminatedComment
  | unterminatedString
  | invalidEscape (c : Char)
  | invalidUnicodeEscape
  | missingDigits
deriving DecidableEq

namespace LexicalFault

def message : LexicalFault → String
  | unexpectedCharacter c => "Unexpected character '" ++ String.singleton c ++ "'"
  | unterminatedComment => "Unterminated comment"
  | unterminatedString => "Unterminated string literal"
  | invalidEscape c => "Invalid escape sequence '\\" ++ String.singleton c ++ "'"
  | invalidUnicodeEscape => "Invalid unicode escape: expected 4 hex digits"
  | missingDigits => "Missing digits after integer prefix"

end LexicalFault

/-- A fault with the characters of its lexeme that it is about, `first` included, `last` not. -/
structure Flaw where
  fault : LexicalFault
  first : Nat
  last : Nat
deriving DecidableEq

namespace Lexeme

/-- What is known of a lexeme once its first character is read: its kind, if it has one, how many
characters it takes beyond the first, and its flaws in order of their ends. -/
structure Scan where
  kind : Option TokenKind
  more : Nat
  flaws : List Flaw
deriving DecidableEq

def Scan.good (kind : TokenKind) (more : Nat) : Scan := ⟨some kind, more, []⟩

def countWhile (p : Char → Bool) (cs : List Char) : Nat := (cs.takeWhile p).length

/-- Where a comment ends: the number of characters read up to its end, given the number of comments
open inside it and of characters read already. -/
def commentEnd? (inner read : Nat) : List Char → Option Nat
  | [] => none
  | '*' :: '/' :: cs =>
    match inner with
    | 0 => some (read + 2)
    | inner + 1 => commentEnd? inner (read + 2) cs
  | '/' :: '*' :: cs => commentEnd? (inner + 1) (read + 2) cs
  | _ :: cs => commentEnd? inner (read + 1) cs

def comment (cs : List Char) : Scan :=
  match commentEnd? 0 1 cs with
  | some more => .good .blockComment more
  | none =>
    let more := cs.length + 1
    ⟨some .blockComment, more, [⟨.unterminatedComment, 0, more + 1⟩]⟩

def isEscapable (c : Char) : Bool :=
  c == 't' || c == 'b' || c == 'r' || c == 'n' || c == '"' || c == '\\' || c == '$'

/-- The number of characters read up to the end of a string literal, and its flaws, given the number
of characters read already. A line break ends a literal that nothing has closed. -/
def stringEnd (read : Nat) : List Char → Nat × List Flaw
  | [] => (read, [⟨.unterminatedString, 0, read⟩])
  | '"' :: _ => (read + 1, [])
  | '\\' :: 'u' :: cs =>
    let digits := countWhile Text.isHexDigit (cs.take 4)
    if digits = 4 then stringEnd (read + 2) cs
    else
      let (stop, flaws) := stringEnd (read + 2) cs
      (stop, ⟨.invalidUnicodeEscape, read, read + 2 + digits⟩ :: flaws)
  | '\\' :: c :: cs =>
    if Text.isLineBreak c then (read + 1, [⟨.unterminatedString, 0, read + 1⟩])
    -- An escape that is not known is a flaw and does not end the literal.
    else if isEscapable c then stringEnd (read + 2) cs
    else
      let (stop, flaws) := stringEnd (read + 2) cs
      (stop, ⟨.invalidEscape c, read, read + 2⟩ :: flaws)
  | c :: cs =>
    if Text.isLineBreak c then (read, [⟨.unterminatedString, 0, read⟩])
    else stringEnd (read + 1) cs

def string (cs : List Char) : Scan :=
  let (stop, flaws) := stringEnd 1 cs
  ⟨some .string, stop - 1, flaws⟩

def based (isDigit : Char → Bool) (cs : List Char) : Scan :=
  let digits := cs.takeWhile fun c => isDigit c || c == '_'
  let more := digits.length + 1
  ⟨some .integer, more, if digits.any isDigit then [] else [⟨.missingDigits, 0, more + 1⟩]⟩

def integer (first : Char) (cs : List Char) : Scan :=
  let decimal := Scan.good .integer (countWhile (fun c => c.isDigit || c == '_') cs)
  match cs with
  | base :: rest =>
    if first == '0' && (base == 'x' || base == 'X') then based Text.isHexDigit rest
    else if first == '0' && (base == 'b' || base == 'B') then based Text.isBinaryDigit rest
    else decimal
  | [] => decimal

def name (first : Char) (cs : List Char) : Scan :=
  let rest := cs.takeWhile Text.isNameRest
  match Keyword.ofString? (String.ofList (first :: rest)) with
  | some word => .good (.keyword word) rest.length
  | none => .good .identifier rest.length

/-- A sign of two characters if the second one follows, otherwise of one. -/
def pair (second : Char) (two one : TokenKind) (cs : List Char) : Scan :=
  if cs.head? = some second then .good two 1 else .good one 0

def unexpected (c : Char) : Scan := ⟨none, 0, [⟨.unexpectedCharacter c, 0, 1⟩]⟩

def scan (c : Char) (cs : List Char) : Scan :=
  match c with
  | '\n' => .good .lineBreak 0
  | '\r' => .good .lineBreak (if cs.head? = some '\n' then 1 else 0)
  | '/' =>
    match cs with
    | '/' :: rest => .good .lineComment (countWhile (fun c => !Text.isLineBreak c) rest + 1)
    | '*' :: rest => comment rest
    | _ => .good .divide 0
  | '(' => .good .leftParen 0
  | ')' => .good .rightParen 0
  | '{' => .good .leftCurl 0
  | '}' => .good .rightCurl 0
  | '[' => .good .leftSquare 0
  | ']' => .good .rightSquare 0
  | ',' => .good .comma 0
  | '.' => .good .dot 0
  | ':' => .good .colon 0
  | ';' => .good .semicolon 0
  | '#' => .good .hash 0
  | '?' => .good .question 0
  | '@' => .good .atSign 0
  | '+' => .good .plus 0
  | '*' => .good .times 0
  | '-' => pair '>' .arrow .minus cs
  | '=' => pair '=' .equals .assign cs
  | '<' => pair '=' .lessEqual .leftAngle cs
  | '>' => pair '=' .greaterEqual .rightAngle cs
  | '!' => if cs.head? = some '=' then .good .notEquals 1 else unexpected c
  | '"' => string cs
  | _ =>
    if Text.isBlank c then .good .whitespace (countWhile Text.isBlank cs)
    else if c.isDigit then integer c cs
    else if Text.isNameStart c then name c cs
    else unexpected c

end Lexeme

structure Lexeme where
  text : List Char
  kind : Option TokenKind
  flaws : List Flaw
deriving DecidableEq

namespace Lexeme

def ofScan (c : Char) (cs : List Char) (s : Scan) : Lexeme :=
  ⟨c :: cs.take s.more, s.kind, s.flaws⟩

/-- Adds to `found` the lexemes of a text after its first `skip` characters. -/
def collect (found : Array Lexeme) : Nat → List Char → Array Lexeme
  | _, [] => found
  | skip + 1, _ :: cs => collect found skip cs
  | 0, c :: cs =>
    let s := scan c cs
    collect (found.push (ofScan c cs s)) s.more cs

def faultsAt (offset : Nat) (l : Lexeme) : List (Located LexicalFault) :=
  l.flaws.map fun flaw =>
    let byteAt (n : Nat) : Nat := offset + Text.byteSize (l.text.take n)
    ⟨flaw.fault, ⟨byteAt flaw.first, byteAt flaw.last⟩⟩

end Lexeme

def lexemes (text : List Char) : List Lexeme := (Lexeme.collect #[] 0 text).toList

end Linewise
