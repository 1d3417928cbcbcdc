import Linewise.Diagnostic
import Linewise.Text.ByteSize
import Linewise.Text.Width

/-!
# Reports

A report shows a diagnostic with the lines of the source around its place. The columns that the place
covers are underlined, one column at least. A place at the very end of a text has no column to
underline, and of a place past the end there is nothing to show.
-/

namespace Linewise

namespace Report

def spaces (n : Nat) : String := "".pushn ' ' n

/-- A line of a source text: its number, the byte offset it begins at, and whether a line feed ends
it. -/
structure SourceLine where
  number : Nat
  start : Nat
  text : List Char
  ended : Bool
deriving DecidableEq

def SourceLine.stop (l : SourceLine) : Nat :=
  l.start + Text.byteSize l.text + if l.ended then 1 else 0

/-- The lines of a text, given the characters of the line that is open, last one first. Nothing behind
the last line feed is no line. -/
def linesFrom (number start : Nat) (opened : List Char) : List Char → List SourceLine
  | [] => if opened.isEmpty then [] else [⟨number, start, opened.reverse, false⟩]
  | '\n' :: cs =>
    let line : SourceLine := ⟨number, start, opened.reverse, true⟩
    line :: linesFrom (number + 1) line.stop [] cs
  | c :: cs => linesFrom number start (c :: opened) cs

def sourceLines (source : String) : List SourceLine := linesFrom 1 0 [] source.toList

def linesBefore (lines : List SourceLine) (offset : Nat) : List SourceLine :=
  lines.filter fun l => l.ended && decide (l.stop ≤ offset)

/-- The lines to show for a span: from the one before its start to the one behind its end. -/
def excerpt (lines : List SourceLine) (span : Span) : List SourceLine :=
  let first := (linesBefore lines span.start).length
  let last := (linesBefore lines (max (span.start + span.size) 1)).length + 2
  lines.filter fun l => decide (first ≤ l.number) && decide (l.number ≤ last)

/-- The columns a character takes when it stands at a column. A tab goes on to the next multiple of
four. A terminal's control sequence, from the escape character to the letter `m`, takes none. -/
def widthAt (column : Nat) (inSequence : Bool) (c : Char) : Nat :=
  if inSequence then 0
  else if c = '\t' then 4 - column % 4
  else Text.width c

def sequenceAfter (inSequence : Bool) (c : Char) : Bool :=
  if inSequence then c != 'm' else c == '\x1b'

def columnAfter (column : Nat) (inSequence : Bool) : List Char → Nat
  | [] => column
  | c :: cs => columnAfter (column + widthAt column inSequence c) (sequenceAfter inSequence c) cs

def expandTabs (column : Nat) (inSequence : Bool) : List Char → List Char
  | [] => []
  | c :: cs =>
    let w := widthAt column inSequence c
    (if c = '\t' then List.replicate w ' ' else [c]) ++
      expandTabs (column + w) (sequenceAfter inSequence c) cs

def takeBytes (partly : Bool) (bytes : Nat) : List Char → List Char
  | [] => []
  | c :: cs =>
    if (if partly then 0 < bytes else c.utf8Size ≤ bytes) then
      c :: takeBytes partly (bytes - c.utf8Size) cs
    else []

/-- The column of a byte of a line. The line feed takes a column of its own. -/
def columnOf (l : SourceLine) (partly : Bool) (offset : Nat) : Nat :=
  let bytes := offset - l.start
  columnAfter 0 false (takeBytes partly bytes l.text) + if Text.byteSize l.text < bytes then 1 else 0

def numberedLine (width : Nat) (l : SourceLine) : String :=
  let number := toString l.number
  " " ++ spaces (width - number.length) ++ number ++ " │ " ++
    String.ofList (expandTabs 0 false l.text)

def markLine (width : Nat) (marks : String) : String := " " ++ spaces width ++ " · " ++ marks

def markLines (width : Nat) (span : Span) (l : SourceLine) : List String :=
  if l.start ≤ span.start ∧ span.start < l.stop then
    let first := columnOf l false span.start
    let last :=
      if span.isEmpty then first + 1 else max (columnOf l true span.stop) (first + 1)
    let middle := (first + last) / 2
    [markLine width (spaces first ++ "".pushn '─' (middle - first) ++ "┬" ++
        "".pushn '─' (last - middle - 1)),
      markLine width (spaces middle ++ "╰── " ++ Diagnostic.label)]
  else []

def sourcePart (file source : String) (span : Span) : List String :=
  if source.utf8ByteSize < span.start + span.size then
    ["  [Failed to read contents for label `" ++ Diagnostic.label ++ "` (offset: " ++
      toString span.start ++ ", length: " ++ toString span.size ++ "): OutOfBounds]"]
  else
    let lines := sourceLines source
    let shown := excerpt lines span
    let width := (toString ((shown.getLast?.map SourceLine.number).getD 0)).length
    let before := linesBefore lines span.start
    let lineStart := (before.getLast?.map SourceLine.stop).getD 0
    let place : Point := ⟨before.length + 1, span.start - lineStart + 1⟩
    [spaces (width + 2) ++ "╭─[" ++ file ++ ":" ++ place.display ++ "]"] ++
      shown.flatMap (fun l => numberedLine width l :: markLines width span l) ++
      [spaces (width + 2) ++ "╰────"]

def dropEndBlanks (s : String) : String :=
  String.ofList (s.toList.reverse.dropWhile (· == ' ')).reverse

/-- The lines of a text behind a heading. The heading stands in front of the first line, a margin in
front of each other one. -/
def hang (heading margin text : String) : List String :=
  match text.splitOn "\n" with
  | [] => [heading]
  | l :: ls => (heading ++ dropEndBlanks l) :: ls.map (margin ++ dropEndBlanks ·)

def lines (file source : String) (d : Diagnostic) : List String :=
  [Diagnostic.code, ""] ++ hang "  × " "  │ " d.headline ++ sourcePart file source d.span ++
    (d.hint.map (hang "  help: " "        ")).getD []

end Report

def report (file source : String) (ds : List Diagnostic) : String :=
  String.join ((ds.flatMap (Report.lines file source)).map (· ++ "\n"))

end Linewise
