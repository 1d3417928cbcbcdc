import Linewise.Diagnostic
import Linewise.Token

/-!
# Syntax faults

The ways in which a token stream can miss the grammar, and how each is worded.
-/

namespace Linewise

/-- How deep types, expressions, blocks and declarations may nest in one another. -/
def maxDepth : Nat := 128

inductive Expectation where
  | token (kind : TokenKind)
  | identifier
  | libraryName
  | type
  | expression
  | declaration
  | property
  | propertyAfterModifiers
  | localDeclaration
deriving DecidableEq

def Expectation.display : Expectation → String
  | token kind => kind.display
  | identifier => "identifier"
  | libraryName => "library name string"
  | type => "type"
  | expression => "expression"
  | declaration => "declaration"
  | property => "'val' or 'var'"
  | propertyAfterModifiers => "'val' or 'var' after modifiers"
  | localDeclaration => "'fun', 'val' or 'var'"

inductive SyntaxFault where
  | expected (what : Expectation) (found : TokenKind)
  | missingSeparator (found : TokenKind)
  | nestingTooDeep
  | invalidTarget
  | callExpected
  | functionNameExpected
  | arrowExpected
deriving DecidableEq

namespace SyntaxFault

def message : SyntaxFault → String
  | expected what found => "Expected " ++ what.display ++ ", found " ++ found.display
  | missingSeparator found => "Expected newline or ';' before " ++ found.display
  | nestingTooDeep => "Nesting exceeds " ++ toString maxDepth ++ " levels"
  | invalidTarget => "Invalid assignment target"
  | callExpected => "Expected a call after '#'"
  | functionNameExpected => "Expected function name"
  | arrowExpected => "Expected '->' after function type parameters"

def hint : SyntaxFault → Option String
  | missingSeparator _ => some "separate statements on the same line with ';'"
  | nestingTooDeep => some "split deeply nested code into smaller functions"
  | invalidTarget => some "only names, members and index expressions can be assigned"
  | callExpected => some "compiler calls look like `#name(args)`"
  | expected .. | functionNameExpected | arrowExpected => none

def toDiagnostic (fault : Located SyntaxFault) : Diagnostic :=
  ⟨.syntactic, fault.node.message, fault.span, fault.node.hint⟩

end SyntaxFault

end Linewise
