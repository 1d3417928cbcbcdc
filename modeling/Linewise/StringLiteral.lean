import Linewise.Text.CharClass

/-!
# String literals

The value of a string literal is a list of parts: text, and references `$name`. Decoding splits the
characters between the quotes into pieces, one character or one reference each, and joins adjacent
characters.
-/

namespace Linewise

inductive StringPart where
  | text (s : String)
  | reference (name : String)
deriving DecidableEq

namespace StringPart

def spelling : StringPart → String
  | text s => s
  | reference name => "$" ++ name

end StringPart

namespace StringLiteral

inductive Piece where
  | char (c : Char)
  | reference (name : List Char)
deriving DecidableEq

def body (raw : List Char) : List Char :=
  let opened := match raw with
    | '"' :: cs => cs
    | cs => cs
  if opened.getLast? = some '"' then opened.dropLast else opened

/-- A number in base sixteen; one plus sign may stand before its digits. -/
def hexNumber? (digits : List Char) : Option Nat :=
  let digits := match digits with
    | '+' :: ds => ds
    | ds => ds
  if digits ≠ [] ∧ digits.all Text.isHexDigit = true then
    some (digits.foldl (fun n d => 16 * n + Text.hexValue d) 0)
  else none

def unicodeChar? (digits : List Char) : Option Char :=
  match hexNumber? digits with
  | some n => if n.isValidChar then some (Char.ofNat n) else none
  | none => none

/-- `\u` with the digits that follow it: one character, or its own spelling if it names none. -/
def unicodePieces (digits : List Char) : List Piece :=
  match unicodeChar? digits with
  | some c => [.char c]
  | none => ('\\' :: 'u' :: digits).map .char

def escapedChar : Char → Char
  | 't' => '\t'
  | 'b' => '\x08'
  | 'r' => '\r'
  | 'n' => '\n'
  | c => c

/-- The pieces of a literal's body after the first `skip` characters. -/
def pieces : Nat → List Char → List Piece
  | _, [] => []
  | skip + 1, _ :: cs => pieces skip cs
  | 0, '\\' :: 'u' :: cs => unicodePieces (cs.take 4) ++ pieces 4 cs
  | 0, '\\' :: c :: cs => .char (escapedChar c) :: pieces 0 cs
  | 0, '$' :: c :: cs =>
    if Text.isNameStart c then
      let name := (c :: cs).takeWhile Text.isNameRest
      .reference name :: pieces name.length (c :: cs)
    else .char '$' :: pieces 0 (c :: cs)
  | 0, c :: cs => .char c :: pieces 0 cs

def textPart (cs : List Char) : List StringPart :=
  if cs = [] then [] else [.text (String.ofList cs)]

/-- Joins runs of characters, given the characters of the run read so far, last one first. -/
def join (run : List Char) : List Piece → List StringPart
  | [] => textPart run.reverse
  | .char c :: ps => join (c :: run) ps
  | .reference name :: ps =>
    textPart run.reverse ++ .reference (String.ofList name) :: join [] ps

/-- The parts of a string literal, given with or without its quotes. Escapes that the lexical
grammar does not know stand for the character after the backslash. -/
def decode (raw : String) : List StringPart := join [] (pieces 0 (body raw.toList))

end StringLiteral

def StringPart.concat (parts : List StringPart) : String := String.join (parts.map spelling)

end Linewise
