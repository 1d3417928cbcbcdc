import Linewise.CommandLine.Args
import Linewise.CommandLine.Files
import Linewise.Ast.ToRecord
import Linewise.Lexer
import Linewise.Listing
import Linewise.Parser.Grammar
import Linewise.Report

/-!
# The command line

`run` answers what the program writes for its arguments, given what each path leads to. A command
either writes its text to the standard output or one message to the standard error output.
-/

namespace Linewise

namespace CommandLine

/-- The largest file that is read, in bytes. -/
def sizeLimit : Nat := 10 * 1024 * 1024

/-- The source text at a path, or the message that says why there is none. -/
def load (file : String) : Access → Except String String
  | .missing => cannotAccess "No such file or directory (os error 2)"
  | .notDirectory => cannotAccess "Not a directory (os error 20)"
  | .nameTooLong => cannotAccess "File name too long (os error 36)"
  | .denied => cannotRead "Permission denied (os error 13)"
  | .directory => cannotRead "Is a directory (os error 21)"
  | .file contents =>
    if sizeLimit < contents.size then
      .error ("Source file '" ++ file ++ "' is too large (" ++ toString contents.size ++
        " bytes, max " ++ toString sizeLimit ++ " bytes)")
    else
      match contents.text? with
      | some source => .ok source
      | none => cannotRead "stream did not contain valid UTF-8"
where
  cannotAccess (reason : String) : Except String String :=
    .error ("Cannot access file '" ++ file ++ "': " ++ reason)
  cannotRead (reason : String) : Except String String :=
    .error ("Error reading file '" ++ file ++ "': " ++ reason)

def trimEnd (s : String) : String :=
  String.ofList (s.toList.reverse.dropWhile Char.isWhitespace).reverse

def refuse {ε : Type} (file source : String) (toDiagnostic : Located ε → Diagnostic)
    (faults : List (Located ε)) : String :=
  trimEnd (report file source (faults.map toDiagnostic))

def tokensOf (file source : String) : Except String TokenStream :=
  (lex source).mapError (refuse file source LexicalFault.toDiagnostic)

def layoutTags (strict : Bool) : LayoutTags TokenKind Channel :=
  .standard (if strict then .reject else .accept)

def fileOf (file source : String) (strict : Bool) : Except String SourceFile := do
  let tokens ← tokensOf file source
  (parse (layoutTags strict) tokens).mapError (refuse file source SyntaxFault.toDiagnostic)

def answer (c : Command) (source : String) : Except String String :=
  match c.action with
  | .lex => do return (← tokensOf c.file source).tokenListing c.flagged
  | .parse => do return (← fileOf c.file source c.flagged).toRecord.render 0
  | .check => do
    let _ ← fileOf c.file source c.flagged
    return "✓ Syntax check passed!"
  | .terminators => do
    return (← tokensOf c.file source).layoutListing (layoutTags c.flagged)

structure Outcome where
  exitCode : Nat
  output : String
  errors : String
deriving DecidableEq

def perform (c : Command) (access : Access) : Outcome :=
  match load c.file access >>= answer c with
  | .ok text => ⟨0, text ++ "\n", ""⟩
  | .error message => ⟨1, "", message ++ "\n"⟩

def version : String := "abla 0.1.0"

def usage : String := "Syntax tools for the Abla programming language

Usage: abla <COMMAND>

Commands:
  lex          Print the token stream
  parse        Parse a file and print its AST
  check        Parse a file and report diagnostics only
  terminators  Show the statement-terminator predicates for every visible token
  help         Print this message or the help of the given subcommand(s)

Options:
  -h, --help     Print help
  -V, --version  Print version
"

def Refusal.outcome : Refusal → Outcome
  | help => ⟨0, usage, ""⟩
  | version => ⟨0, CommandLine.version ++ "\n", ""⟩
  | r => ⟨r.exitCode, "", usage⟩

def run (args : List String) (access : String → Access) : Outcome :=
  match readArgs args with
  | .ok command => perform command (access command.file)
  | .error refusal => refusal.outcome

end CommandLine

end Linewise
