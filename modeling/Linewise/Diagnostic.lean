import Linewise.Span

/-!
# Diagnostics

What a phase of the front end says about a source it refuses: a message, the place it is about, and
perhaps a hint.
-/

namespace Linewise

inductive Phase where
  | lexical | syntactic
deriving DecidableEq

def Phase.display : Phase → String
  | .lexical => "lexical error"
  | .syntactic => "syntax error"

structure Diagnostic where
  phase : Phase
  message : String
  span : Span
  hint : Option String
deriving DecidableEq

namespace Diagnostic

/-- The code under which every diagnostic is filed. -/
def code : String := "abla::syntax"

def label : String := "here"

def headline (d : Diagnostic) : String := d.phase.display ++ ": " ++ d.message

end Diagnostic

end Linewise
