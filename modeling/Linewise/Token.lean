import Linewise.Keyword
import Linewise.Span

/-!
# Tokens

A token has a kind, a channel, its text and its place. The grammar reads the tokens of the visible
channel; layout (blanks, line breaks, comments) goes to the hidden one, where a reader of line
structure still finds it.
-/

namespace Linewise

inductive Channel where
  | visible | hidden
deriving DecidableEq

def Channel.display : Channel → String
  | .visible => "default"
  | .hidden => "hidden"

inductive TokenKind where
  | whitespace | lineBreak | lineComment | blockComment
  | identifier | keyword (word : Keyword) | integer | string
  | leftParen | rightParen | leftCurl | rightCurl | leftSquare | rightSquare
  | comma | dot | colon | semicolon | hash | question | atSign | arrow
  | assign | equals | notEquals | leftAngle | rightAngle | lessEqual | greaterEqual
  | plus | minus | times | divide
  | eof
deriving DecidableEq

namespace TokenKind

def isLayout : TokenKind → Bool
  | whitespace | lineBreak | lineComment | blockComment => true
  | _ => false

def channel (k : TokenKind) : Channel := if k.isLayout then .hidden else .visible

/-- The name used in listings: keywords are spelled out bare, signs stand in quotes. -/
def name : TokenKind → String
  | whitespace => "WS"
  | lineBreak => "NL"
  | lineComment => "LineComment"
  | blockComment => "DelimitedComment"
  | identifier => "Identifier"
  | keyword word => word.spelling
  | integer => "IntegerLiteral"
  | string => "StringLiteral"
  | leftParen => "'('"
  | rightParen => "')'"
  | leftCurl => "'\x7b'"
  | rightCurl => "'\x7d'"
  | leftSquare => "'['"
  | rightSquare => "']'"
  | comma => "','"
  | dot => "'.'"
  | colon => "':'"
  | semicolon => "';'"
  | hash => "'#'"
  | question => "'?'"
  | atSign => "'@'"
  | arrow => "'->'"
  | assign => "'='"
  | equals => "'=='"
  | notEquals => "'!='"
  | leftAngle => "'<'"
  | rightAngle => "'>'"
  | lessEqual => "'<='"
  | greaterEqual => "'>='"
  | plus => "'+'"
  | minus => "'-'"
  | times => "'*'"
  | divide => "'/'"
  | eof => "EOF"

/-- The name used in messages, where keywords stand in quotes too. -/
def display : TokenKind → String
  | keyword word => "'" ++ word.spelling ++ "'"
  | kind => kind.name

end TokenKind

structure Token where
  kind : TokenKind
  channel : Channel
  text : String
  span : Span
  index : Nat
  start : Point
deriving DecidableEq

def Token.isVisible (t : Token) : Bool := t.channel == .visible

end Linewise
