/-!
# Files to read

A `FileTree` is a directory with the files and directories below it. `add` puts a file into it, and
`access` follows a path from there and tells what it finds.
-/

namespace Linewise.CommandLine

/-- The bytes of a file: some data, and zero bytes behind them. -/
structure Contents where
  data : ByteArray
  zeros : Nat

namespace Contents

def size (c : Contents) : Nat := c.data.size + c.zeros

/-- The text of a file, if its bytes are well-formed. Zero bytes are characters, whatever stands before
them. -/
def text? (c : Contents) : Option String :=
  (String.fromUTF8? c.data).map fun s => s.pushn '\x00' c.zeros

end Contents

inductive Access where
  | file (contents : Contents)
  | directory
  | missing
  | notDirectory
  | nameTooLong
  | denied

/-- Files and directories by the names on the way to them. Of two files in one place the first one
counts. -/
structure FileTree where
  directories : List (List String)
  files : List (List String × Contents)

namespace FileTree

def empty : FileTree := ⟨[], []⟩

inductive Place where
  | outside
  | inside (path : List String)

/-- The steps of a path; a blank step stays where it is. -/
def steps (path : String) : List String := path.splitOn "/"

def addAt (tree : FileTree) (path : List String) (contents : Contents) : List String → FileTree
  | [] => tree
  | [name] => { tree with files := (path ++ [name], contents) :: tree.files }
  | step :: rest =>
    if step = "" ∨ step = "." then addAt tree path contents rest
    else if step = ".." then addAt tree path.dropLast contents rest
    else
      let path := path ++ [step]
      addAt { tree with directories := path :: tree.directories } path contents rest

def add (tree : FileTree) (path : String) (contents : Contents) : FileTree :=
  tree.addAt [] contents (steps path)

def isDirectory (tree : FileTree) (path : List String) : Bool :=
  path.isEmpty || tree.directories.contains path

def find? (tree : FileTree) (path : List String) : Option Contents :=
  (tree.files.find? fun f => f.1 == path).map Prod.snd

def maxPath : Nat := 4095

def maxName : Nat := 255

/-- Follows the steps of a path from a directory. Of what lies outside the tree only directories are
known. -/
def follow (tree : FileTree) (place : Place) : List String → Access
  | [] => .directory
  | step :: rest =>
    if step = "" ∨ step = "." then follow tree place rest
    else if step = ".." then
      match place with
      | .inside (name :: path) => follow tree (.inside (name :: path).dropLast) rest
      | _ => follow tree .outside rest
    else if maxName < step.utf8ByteSize then .nameTooLong
    else
      match place with
      | .outside => .missing
      | .inside path =>
        let path := path ++ [step]
        match tree.find? path with
        | some contents => if rest.isEmpty then .file contents else .notDirectory
        | none => if tree.isDirectory path then follow tree (.inside path) rest else .missing

/-- An absolute path leads out of the tree. -/
def access (tree : FileTree) (path : String) : Access :=
  if maxPath < path.utf8ByteSize then .nameTooLong
  else tree.follow (if path.startsWith "/" then .outside else .inside []) (steps path)

end FileTree

end Linewise.CommandLine
