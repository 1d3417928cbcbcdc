import Linewise.Proofs.Lexing.Lookback

/-!
# Reading terminals from left to right

What the layout says about a token is found by a walk back from it. Here it is kept up to date from left
to right instead, so the terminals of a stream are known item by item, and those of a stream that is put
together from two are put together too.
-/

namespace Linewise

/-- What stands in front of an item, as far as its terminal depends on it. -/
structure Lead where
  offset : Nat
  /-- Is there a visible token? -/
  visible : Bool
  /-- Does the line break behind the last one of them? -/
  broken : Bool

namespace Lead

def start : Lead := ⟨0, false, false⟩

def breaks (i : Item) : Bool :=
  i.1 == .lineBreak || (i.1 == .blockComment && Text.hasLineBreak i.2)

def next (l : Lead) (i : Item) : Lead where
  offset := l.offset + i.2.utf8ByteSize
  visible := l.visible || !i.1.isLayout
  broken := i.1.isLayout && (l.broken || breaks i)

/-- The terminal of an item, without its index and its point, which the grammar does not read. -/
def terminal (l : Lead) (f : Fallthrough) (i : Item) : Terminal where
  token := ⟨i.1, .visible, i.2, ⟨l.offset, l.offset + i.2.utf8ByteSize⟩, 0, .origin⟩
  onNewLine := l.broken
  terminated := l.broken || !l.visible || f == .accept
  closing := i.1 = .rightCurl

def read (f : Fallthrough) : Lead → List Item → List Terminal
  | _, [] => []
  | l, i :: is =>
    if i.1.isLayout then read f (l.next i) is
    else if i.1 = .eof then []
    else l.terminal f i :: read f (l.next i) is

end Lead

def bare (t : Terminal) : Terminal :=
  { t with token := ⟨t.token.kind, .visible, t.token.text, t.token.span, 0, .origin⟩ }

-- ---------------------------------------------------------------------------
-- Reading a stream
-- ---------------------------------------------------------------------------

section
variable {f : Fallthrough} {l : Lead} {s : TokenStream} {t : Token} {i : Item} {is js : List Item}
  {tokens : Array Token} {n : Nat} {point : Point}

/-- What is known of the items in front says the same as the walk back. -/
structure Lead.Fits (l : Lead) (f : Fallthrough) (p : Preceding) : Prop where
  broken : l.broken = p.isLineBreak
  ends : (l.broken || !l.visible || f == .accept) = p.endsStatement f

theorem Lead.fits_start : Lead.start.Fits f .startOfStream := ⟨rfl, rfl⟩

theorem Lead.next_of_breaks (h : breaks i = true) : (l.next i).broken = true := by
  have hlayout : i.1.isLayout = true := by
    simp only [breaks, Bool.or_eq_true, Bool.and_eq_true, beq_iff_eq] at h
    rcases h with h | ⟨h, -⟩ <;> rw [h] <;> rfl
  simp [next, hlayout, h]

theorem Lead.next_of_layout (hi : i.1.isLayout = true) (h : breaks i = false) :
    l.next i = ⟨l.offset + i.2.utf8ByteSize, l.visible, l.broken⟩ := by
  simp [next, hi, h]

theorem Lead.next_of_visible (hi : i.1.isLayout = false) :
    l.next i = ⟨l.offset + i.2.utf8ByteSize, true, false⟩ := by
  simp [next, hi]

theorem Lead.Fits.of_break {p : Preceding} (hl : l.broken = true) (hp : p.isLineBreak = true) :
    l.Fits f p :=
  ⟨hl.trans hp.symm, by rw [hl, Bool.true_or, Bool.true_or, endsStatement_of_isLineBreak hp]⟩

theorem Lead.Fits.next (h : l.Fits f ((LayoutTags.standard f).walkBack tokens n))
    (ht : tokens[n]? = some t) (hc : t.channel = t.kind.channel) :
    (l.next t.item).Fits f ((LayoutTags.standard f).walkBack tokens (n + 1)) := by
  rw [walkBack_succ ht, hc]
  by_cases hbreak : t.kind = .lineBreak
  · rw [if_pos hbreak]
    exact .of_break (next_of_breaks (by simp [breaks, Token.item, hbreak])) rfl
  rw [if_neg hbreak]
  by_cases hcomment : t.kind = .blockComment ∧ t.breaks = true
  · rw [if_pos hcomment]
    refine .of_break (next_of_breaks ?_) rfl
    obtain ⟨hk, hb⟩ := hcomment
    rw [Token.breaks] at hb
    simp [breaks, Token.item, hk, hb]
  rw [if_neg hcomment]
  cases hk : t.kind.isLayout with
  | true =>
    have hnone : breaks t.item = false := by
      rw [Token.breaks] at hcomment
      simpa [breaks, Token.item, hbreak] using hcomment
    rw [if_pos (by simp [TokenKind.channel, hk]), next_of_layout hk hnone]
    exact ⟨h.broken, h.ends⟩
  | false =>
    rw [if_neg (by simp [TokenKind.channel, hk]), next_of_visible hk]
    exact ⟨rfl, rfl⟩

theorem bare_terminal (h : l.Fits f ((LayoutTags.standard f).walkBack s.tokens n))
    (ht : s.tokens[n]? = some t) (hindex : t.index = n)
    (hspan : t.span = ⟨l.offset, l.offset + t.text.utf8ByteSize⟩) :
    bare (s.terminal (.standard f) t) = l.terminal f t.item := by
  have hle : n ≤ s.tokens.size := by
    obtain ⟨hlt, -⟩ := Array.getElem?_eq_some_iff.mp ht
    omega
  have hpreceding : (LayoutTags.standard f).preceding s.tokens t.index =
      (LayoutTags.standard f).walkBack s.tokens n := by
    rw [LayoutTags.preceding, hindex, Nat.min_eq_left hle]
  have hcloses : (LayoutTags.standard f).closes s.tokens t.index = decide (t.kind = .rightCurl) := by
    rw [LayoutTags.closes, hindex, ht]
    rfl
  simp only [bare, TokenStream.terminal, LayoutTags.endsStatement, hpreceding, hcloses, hspan,
    Lead.terminal, h.broken, Token.item]
  rw [← h.broken, h.ends]
  rfl

theorem map_bare_placed (xs : List Token)
    (htokens : s.tokens.toList = xs ++ placed l.offset xs.length point is)
    (h : l.Fits f ((LayoutTags.standard f).walkBack s.tokens xs.length)) :
    (((placed l.offset xs.length point is).filter Token.isVisible).takeWhile fun t => t.kind != .eof).map
        (fun t => bare (s.terminal (.standard f) t)) =
      l.read f is := by
  induction is generalizing l xs point with
  | nil => rfl
  | cons i is ih =>
    rw [placed] at htokens ⊢
    let t : Token := ⟨i.1, i.1.channel, i.2, ⟨l.offset, l.offset + i.2.utf8ByteSize⟩, xs.length, point⟩
    have hget : s.tokens[xs.length]? = some t := by
      rw [← Array.getElem?_toList, htokens, List.getElem?_append_right (Nat.le_refl _)]
      simp [t]
    have hnext := h.next hget rfl
    have hsplit : s.tokens.toList = (xs ++ [t]) ++
        placed (l.next i).offset (xs ++ [t]).length (point.advance i.2.toList) is := by
      rw [htokens, List.length_append, List.append_assoc]
      rfl
    have hrest := ih (xs ++ [t]) hsplit (by rw [List.length_append]; exact hnext)
    rw [List.length_append] at hrest
    have hvisible : t.isVisible = !i.1.isLayout := by
      cases hi : i.1.isLayout <;> simp [t, Token.isVisible, TokenKind.channel, hi]
    rw [List.filter_cons, Lead.read]
    cases hi : i.1.isLayout with
    | true =>
      rw [hi] at hvisible
      rw [if_neg (show ¬t.isVisible = true from Bool.eq_false_iff.mp hvisible), if_pos rfl]
      exact hrest
    | false =>
      rw [hi] at hvisible
      rw [if_pos (show t.isVisible = true from hvisible), if_neg Bool.false_ne_true,
        List.takeWhile_cons]
      by_cases heof : i.1 = .eof
      · rw [if_pos heof, if_neg (by simp [heof])]
        rfl
      · have hhead : bare (s.terminal (.standard f) t) = l.terminal f i :=
          bare_terminal h hget rfl rfl
        rw [if_neg heof, if_pos (by simp [heof]), List.map_cons, hhead]
        exact congrArg _ hrest

theorem map_bare_terminals (f : Fallthrough) (is : List Item) :
    ((TokenStream.ofList is).terminals (.standard f)).map bare = Lead.start.read f is := by
  have htokens := toList_tokens_ofList is
  have h := map_bare_placed (f := f) (s := .ofList is) (l := .start) [] htokens Lead.fits_start
  rw [TokenStream.terminals, TokenStream.visible, htokens, List.map_map]
  exact h

theorem finish_ofList (h : ∀ i ∈ is, i.1 ≠ .eof) :
    (TokenStream.ofList (is ++ [(.eof, "")])).finish =
      ⟨Text.byteSize (chars is), Text.byteSize (chars is)⟩ := by
  have hnone : ∀ t ∈ (placed 0 0 .origin is).filter Token.isVisible, ¬(t.kind == .eof) = true := by
    intro t ht heof
    have hitem : t.item ∈ is := by
      have := List.mem_map_of_mem (f := Token.item) (List.mem_filter.mp ht).1
      rwa [map_item_placed] at this
    exact h _ hitem (by rw [beq_iff_eq] at heof; exact heof)
  rw [TokenStream.finish, TokenStream.visible, toList_tokens_ofList, placed_append,
    List.filter_append, List.find?_append, List.find?_eq_none.mpr hnone]
  simp [placed, Token.isVisible, TokenKind.channel, TokenKind.isLayout]

end

-- ---------------------------------------------------------------------------
-- Items that are joined
-- ---------------------------------------------------------------------------

namespace Lead

variable {f : Fallthrough} {l : Lead} {is js : List Item}

theorem read_append (h : ∀ i ∈ is, i.1 ≠ .eof) :
    l.read f (is ++ js) = l.read f is ++ (is.foldl next l).read f js := by
  induction is generalizing l with
  | nil => rfl
  | cons i is ih =>
    obtain ⟨hi, hrest⟩ := List.forall_mem_cons.mp h
    rw [List.cons_append, read, read, List.foldl_cons, ih hrest, if_neg hi, if_neg hi]
    split <;> rfl

theorem offset_foldl_next : (is.foldl next l).offset = l.offset + Text.byteSize (chars is) := by
  induction is generalizing l with
  | nil => rfl
  | cons i is ih =>
    rw [List.foldl_cons, ih, chars_cons, Text.byteSize_append, Text.byteSize_toList, next,
      Nat.add_assoc]

end Lead

def shift (n : Nat) (s : Span) : Span := ⟨s.start + n, s.stop + n⟩

def Terminal.shift (n : Nat) (t : Terminal) : Terminal :=
  { t with token := { t.token with span := Linewise.shift n t.token.span } }

def firstOnNewLine : List Terminal → List Terminal
  | [] => []
  | t :: ts => { t with onNewLine := true } :: ts

namespace Lead

variable {f : Fallthrough} {is : List Item}

theorem read_shift (n o : Nat) (v b : Bool) :
    (Lead.mk (o + n) v b).read f is = ((Lead.mk o v b).read f is).map (Terminal.shift n) := by
  induction is generalizing o v b with
  | nil => rfl
  | cons i is ih =>
    have hoffset : o + n + i.2.utf8ByteSize = o + i.2.utf8ByteSize + n := Nat.add_right_comm ..
    rw [read, read, next, next]
    dsimp only
    rw [hoffset, ih]
    split
    · rfl
    · split
      · rfl
      · rw [List.map_cons]
        simp only [terminal, Terminal.shift, Linewise.shift, hoffset]

theorem read_broken (o : Nat) (v b : Bool) :
    (Lead.mk o v true).read f is = firstOnNewLine ((Lead.mk o false b).read f is) := by
  induction is generalizing o b with
  | nil => rfl
  | cons i is ih =>
    rw [read, read]
    cases hi : i.1.isLayout with
    | true =>
      simp only [next, hi, Bool.true_and, Bool.true_or, Bool.not_true, Bool.or_false]
      exact ih _ _
    | false =>
      simp only [next, hi, Bool.false_and, Bool.not_false, Bool.or_true, Bool.false_eq_true, ↓reduceIte]
      split
      · rfl
      · simp [firstOnNewLine, terminal]

end Lead

end Linewise
