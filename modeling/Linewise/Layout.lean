import Linewise.Text.CharClass

/-!
# What the layout says

Whether a statement may end in front of a token depends on what precedes it: a line break, a comment
that spans one, or a token that is not hidden, whichever is nearest. `LayoutTags.preceding` finds it. It
knows tokens only through `TokenLike` and the tags of a `LayoutTags`, so it serves the tokens of any
lexer.
-/

namespace Linewise

class TokenLike (τ : Type) (κ χ : outParam Type) where
  kind : τ → κ
  channel : τ → χ
  text : τ → String

/-- What to answer for a token that another one precedes on its line. -/
inductive Fallthrough where
  | accept | reject
deriving DecidableEq

/-- The nearest token in front of a position that is not plain layout, with its index. -/
inductive Preceding where
  | lineBreak (index : Nat)
  | multiLineComment (index : Nat)
  | visibleToken (index : Nat)
  | startOfStream
deriving DecidableEq

namespace Preceding

def isLineBreak : Preceding → Bool
  | lineBreak _ | multiLineComment _ => true
  | visibleToken _ | startOfStream => false

def endsStatement (fallthrough : Fallthrough) : Preceding → Bool
  | lineBreak _ | multiLineComment _ | startOfStream => true
  | visibleToken _ => fallthrough == .accept

theorem endsStatement_accept (p : Preceding) : p.endsStatement .accept = true := by
  cases p <;> rfl

theorem endsStatement_reject (p : Preceding) :
    p.endsStatement .reject = (p.isLineBreak || p == .startOfStream) := by
  cases p <;> rfl

end Preceding

structure LayoutTags (κ χ : Type) where
  lineBreak : κ
  blockComment : κ
  closing : κ
  hidden : χ
  fallthrough : Fallthrough

namespace LayoutTags

variable {τ κ χ : Type} [TokenLike τ κ χ] [DecidableEq κ] [DecidableEq χ]

/-- What stops a walk back from a position. A line break stops it on any channel. -/
def walkBack (tags : LayoutTags κ χ) (tokens : Array τ) : Nat → Preceding
  | 0 => .startOfStream
  | i + 1 =>
    match tokens[i]? with
    | none => .startOfStream
    | some t =>
      if TokenLike.kind t = tags.lineBreak then .lineBreak i
      else if TokenLike.kind t = tags.blockComment ∧ Text.hasLineBreak (TokenLike.text t) = true then
        .multiLineComment i
      else if TokenLike.channel t = tags.hidden then walkBack tags tokens i
      else .visibleToken i

/-- What precedes the token at an index. An index past the end stands for the end. -/
def preceding (tags : LayoutTags κ χ) (tokens : Array τ) (index : Nat) : Preceding :=
  tags.walkBack tokens (min index tokens.size)

def endsStatement (tags : LayoutTags κ χ) (tokens : Array τ) (index : Nat) : Bool :=
  (tags.preceding tokens index).endsStatement tags.fallthrough

def closes (tags : LayoutTags κ χ) (tokens : Array τ) (index : Nat) : Bool :=
  tokens[index]?.any fun t => TokenLike.kind t = tags.closing

end LayoutTags

end Linewise
