import Linewise.Layout
import Linewise.Token.Stream

/-!
# Terminals

The grammar reads visible tokens only. What the layout around a token says about the ends of statements
is looked up before parsing and goes with the token: both together are a terminal of the grammar.
-/

namespace Linewise

instance : TokenLike Token TokenKind Channel where
  kind := Token.kind
  channel := Token.channel
  text := Token.text

/-- The tags of the tokens that `lex` makes. -/
def LayoutTags.standard (fallthrough : Fallthrough) : LayoutTags TokenKind Channel :=
  ⟨.lineBreak, .blockComment, .rightCurl, .hidden, fallthrough⟩

structure Terminal where
  token : Token
  onNewLine : Bool
  terminated : Bool
  closing : Bool

namespace TokenStream

def terminal (s : TokenStream) (tags : LayoutTags TokenKind Channel) (t : Token) :
    Terminal where
  token := t
  onNewLine := (tags.preceding s.tokens t.index).isLineBreak
  terminated := tags.endsStatement s.tokens t.index
  closing := tags.closes s.tokens t.index

/-- What the grammar reads of a stream: its visible tokens up to the first one of kind `eof`. -/
def terminals (s : TokenStream) (tags : LayoutTags TokenKind Channel) : List Terminal :=
  (s.visible.takeWhile fun t => t.kind != .eof).map (s.terminal tags)

/-- The place of the end of input: that of the first visible token of kind `eof`, or the end. -/
def finish (s : TokenStream) : Span :=
  match s.visible.find? fun t => t.kind == .eof with
  | some t => t.span
  | none => ⟨s.offset, s.offset⟩

end TokenStream

end Linewise
