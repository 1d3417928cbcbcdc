import Linewise.Token

/-!
# Token streams

A stream grows at its end only. The index, span and point of a token follow from the texts pushed
before it, so the texts of a stream put together are the source it covers.
-/

namespace Linewise

structure TokenStream where
  tokens : Array Token
  /-- The number of bytes that the tokens cover. -/
  offset : Nat
  point : Point
deriving DecidableEq

namespace TokenStream

def empty : TokenStream := ⟨#[], 0, .origin⟩

def size (s : TokenStream) : Nat := s.tokens.size

def get? (s : TokenStream) (index : Nat) : Option Token := s.tokens[index]?

/-- Appends a token on a channel of the caller's choice. -/
def pushTo (s : TokenStream) (channel : Channel) (kind : TokenKind) (text : String) : TokenStream :=
  let stop := s.offset + text.utf8ByteSize
  { tokens := s.tokens.push ⟨kind, channel, text, ⟨s.offset, stop⟩, s.tokens.size, s.point⟩
    offset := stop
    point := s.point.advance text.toList }

def push (s : TokenStream) (kind : TokenKind) (text : String) : TokenStream :=
  s.pushTo kind.channel kind text

def ofList (tokens : List (TokenKind × String)) : TokenStream :=
  tokens.foldl (fun s t => s.push t.1 t.2) empty

def visible (s : TokenStream) : List Token := s.tokens.toList.filter Token.isVisible

def hidden (s : TokenStream) : List Token := s.tokens.toList.filter fun t => !t.isVisible

def visibleFrom? (s : TokenStream) (start : Nat) : Option Nat :=
  ((s.tokens.toList.drop start).find? Token.isVisible).map Token.index

def text (s : TokenStream) : String := String.join (s.tokens.toList.map Token.text)

@[simp] theorem size_pushTo (s : TokenStream) (channel : Channel) (kind : TokenKind)
    (text : String) : (s.pushTo channel kind text).size = s.size + 1 := by
  simp [pushTo, size]

theorem get?_pushTo_of_lt {s : TokenStream} {channel : Channel} {kind : TokenKind} {text : String}
    {i : Nat} (h : i < s.size) : (s.pushTo channel kind text).get? i = s.get? i := by
  simp only [size] at h
  simp [get?, pushTo, Array.getElem?_push, Nat.ne_of_lt h]

theorem get?_pushTo_size (s : TokenStream) (channel : Channel) (kind : TokenKind) (text : String) :
    (s.pushTo channel kind text).get? s.size =
      some ⟨kind, channel, text, ⟨s.offset, s.offset + text.utf8ByteSize⟩, s.size, s.point⟩ := by
  simp [get?, pushTo, size]

end TokenStream

end Linewise
