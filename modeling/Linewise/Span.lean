/-!
# Spans and points

A `Span` is a half-open range of byte offsets into a source text. A `Point` is a line and a column
of it, both counted from one.
-/

namespace Linewise

structure Span where
  start : Nat
  stop : Nat
deriving DecidableEq, Inhabited

namespace Span

def size (s : Span) : Nat := s.stop - s.start

def isEmpty (s : Span) : Bool := s.size == 0

/-- The smallest span that holds both. -/
def merge (a b : Span) : Span := ⟨min a.start b.start, max a.stop b.stop⟩

theorem merge_comm (a b : Span) : a.merge b = b.merge a := by
  simp [merge, Nat.min_comm, Nat.max_comm]

theorem merge_assoc (a b c : Span) : (a.merge b).merge c = a.merge (b.merge c) := by
  simp [merge, Nat.min_assoc, Nat.max_assoc]

@[simp] theorem merge_self (a : Span) : a.merge a = a := by simp [merge]

end Span

structure Located (α : Type) where
  node : α
  span : Span
deriving DecidableEq

structure Point where
  line : Nat
  column : Nat
deriving DecidableEq

namespace Point

def origin : Point := ⟨1, 1⟩

def display (p : Point) : String := toString p.line ++ ":" ++ toString p.column

/-- The point after `text`. A line feed, a carriage return, and the pair of both are one break each,
and every other character is one column wide. -/
def advance (p : Point) : List Char → Point
  | [] => p
  | '\r' :: '\n' :: text => advance ⟨p.line + 1, 1⟩ text
  | '\n' :: text => advance ⟨p.line + 1, 1⟩ text
  | '\r' :: text => advance ⟨p.line + 1, 1⟩ text
  | _ :: text => advance ⟨p.line, p.column + 1⟩ text

end Point

end Linewise
