import Linewise.Terminal
import Linewise.Text.Quoted

/-!
# Listings of a token stream

`tokenListing` writes a line for each token, `layoutListing` a line for each visible token with
what the layout in front of it says.
-/

namespace Linewise

def Token.listing (t : Token) : String :=
  toString t.index ++ ": " ++ t.channel.display ++ " " ++ t.kind.name ++ " " ++ Text.quote t.text

def Preceding.describe : Preceding → String
  | lineBreak index => "line break at " ++ toString index
  | multiLineComment index => "multi-line comment at " ++ toString index
  | visibleToken index => "follows " ++ toString index
  | startOfStream => "start of stream"

namespace TokenStream

/-- Hidden tokens are listed on demand only. -/
def tokenListing (s : TokenStream) (hiddenToo : Bool) : String :=
  "\n".intercalate
    ((s.tokens.toList.filter fun t => hiddenToo || t.channel != .hidden).map Token.listing)

def layoutLine (s : TokenStream) (tags : LayoutTags TokenKind Channel) (t : Token) :
    String :=
  toString t.index ++ ": " ++ t.kind.name ++ " " ++ Text.quote t.text ++
    " terminator=" ++ toString (tags.endsStatement s.tokens t.index) ++
    " closing=" ++ toString (tags.closes s.tokens t.index) ++
    " (" ++ (tags.preceding s.tokens t.index).describe ++ ")"

def layoutListing (s : TokenStream) (tags : LayoutTags TokenKind Channel) : String :=
  "\n".intercalate (s.visible.map (s.layoutLine tags))

end TokenStream

end Linewise
