import Linewise.Diagnostic
import Linewise.Lexeme
import Linewise.Token.Stream

/-!
# Lexing

`lex` turns a source text into a token stream that ends in an empty token of kind `eof`. It reads on
after a fault, so that one run reports every fault of the text; a text with a fault has no stream.
-/

namespace Linewise

/-- Adds to `found` the faults of lexemes that follow each other from a byte offset on. -/
def collectFaults (offset : Nat) (found : Array (Located LexicalFault)) :
    List Lexeme → Array (Located LexicalFault)
  | [] => found
  | l :: ls => collectFaults (offset + Text.byteSize l.text) (found ++ l.faultsAt offset) ls

def TokenStream.pushLexeme (s : TokenStream) (l : Lexeme) : TokenStream :=
  match l.kind with
  | some kind => s.push kind (String.ofList l.text)
  | none => s

def lex (source : String) : Except (List (Located LexicalFault)) TokenStream :=
  let found := lexemes source.toList
  match (collectFaults 0 #[] found).toList with
  | [] => .ok ((found.foldl TokenStream.pushLexeme .empty).push .eof "")
  | faults => .error faults

def LexicalFault.toDiagnostic (fault : Located LexicalFault) : Diagnostic :=
  ⟨.lexical, fault.node.message, fault.span, none⟩

end Linewise
