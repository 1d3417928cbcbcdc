/-!
# Command-line arguments

The program has four commands. Each takes one file and knows one flag. Arguments are read from left to
right and the first one that does not fit decides the answer; an empty file name is found out when the
next option is, or at the end.
-/

namespace Linewise.CommandLine

inductive Action where
  | lex | parse | check | terminators
deriving DecidableEq

namespace Action

def name : Action → String
  | lex => "lex"
  | parse => "parse"
  | check => "check"
  | terminators => "terminators"

def flag : Action → String
  | lex => "hidden"
  | parse | check | terminators => "strict-terminators"

def ofName? (s : String) : Option Action :=
  [lex, parse, check, terminators].find? fun a => a.name == s

end Action

structure Command where
  action : Action
  file : String
  flagged : Bool
deriving DecidableEq

/-- Why arguments name no command to run: they ask for help or the version, or they do not fit. -/
inductive Refusal where
  | help
  | version
  | nothingAsked
  | unknownCommand
  | unknownArgument
  | missingFile
  | emptyFile
  | repeatedFlag
  | valueForFlag
deriving DecidableEq

/-- Asking for help or the version is no mistake. -/
def Refusal.exitCode : Refusal → Nat
  | help | version => 0
  | _ => 2

/-- What an argument looks like, as long as no `--` stands before it. -/
inductive Shape where
  | separator
  /-- `--name` or `--name=value` -/
  | long (name : String) (hasValue : Bool)
  /-- `-abc`: a letter each -/
  | short (letters : List Char)
  | word (s : String)
deriving DecidableEq

/-- A lone `-` is a word. -/
def Shape.of (arg : String) : Shape :=
  match arg.toList with
  | ['-', '-'] => separator
  | '-' :: '-' :: cs => long (String.ofList (cs.takeWhile (· != '='))) (cs.contains '=')
  | '-' :: c :: cs => short (c :: cs)
  | _ => word arg

structure Progress where
  file : Option String
  flagged : Bool

namespace Progress

def checkFile (p : Progress) : Except Refusal Unit :=
  if p.file = some "" then .error .emptyFile else .ok ()

def addFile (p : Progress) (s : String) : Except Refusal Progress :=
  match p.file with
  | none => .ok { p with file := some s }
  | some _ => .error .unknownArgument

def addFlag (p : Progress) : Except Refusal Progress := do
  p.checkFile
  if p.flagged then .error .repeatedFlag else .ok { p with flagged := true }

def help {α : Type} (p : Progress) : Except Refusal α := do
  p.checkFile
  .error .help

def finish (p : Progress) (action : Action) : Except Refusal Command := do
  p.checkFile
  match p.file with
  | some file => .ok ⟨action, file, p.flagged⟩
  | none => .error .missingFile

end Progress

def readCommand (action : Action) (p : Progress) : List String → Except Refusal Command
  | [] => p.finish action
  | arg :: args =>
    match Shape.of arg with
    | .separator => do (← args.foldlM Progress.addFile p).finish action
    | .long name hasValue =>
      if name = "help" ∨ name = action.flag then
        if hasValue then .error .valueForFlag
        else if name = "help" then p.help
        else do readCommand action (← p.addFlag) args
      else .error .unknownArgument
    | .short letters => if letters.head? = some 'h' then p.help else .error .unknownArgument
    | .word s => do readCommand action (← p.addFile s) args

def readHelp : List String → Refusal
  | [] => .help
  | [s] => if s = "help" ∨ (Action.ofName? s).isSome then .help else .unknownCommand
  | _ => .unknownCommand

def readArgs : List String → Except Refusal Command
  | [] => .error .nothingAsked
  | arg :: args =>
    match Shape.of arg with
    | .separator =>
      -- Behind `--` a command is only a word, and the program itself takes no words.
      match args with
      | [] => .error .nothingAsked
      | s :: _ =>
        .error (if s = "help" ∨ (Action.ofName? s).isSome then .unknownArgument else .unknownCommand)
    | .long name hasValue =>
      if name = "help" ∨ name = "version" then
        .error (if hasValue then .valueForFlag else if name = "help" then .help else .version)
      else .error .unknownArgument
    | .short letters =>
      .error (match letters.head? with
        | some 'h' => .help
        | some 'V' => .version
        | _ => .unknownArgument)
    | .word s =>
      if s = "help" then .error (readHelp args)
      else
        match Action.ofName? s with
        | some action => readCommand action ⟨none, false⟩ args
        | none => .error .unknownCommand

end Linewise.CommandLine
