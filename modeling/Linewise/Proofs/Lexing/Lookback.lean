import Linewise.Proofs.Lexing.Placement
import Linewise.Terminal

/-!
# Looking back over the layout

In a lexed stream the walk back from a visible token finds a line break exactly if the text between that
token and the visible one before it holds one.
-/

namespace Linewise

/-- What the kind of a token says about its channel and its text is true. -/
structure SoundToken (t : Token) : Prop extends SoundLayout t.item where
  channel : t.channel = t.kind.channel

def Token.breaks (t : Token) : Bool := Text.hasLineBreak t.text

section
variable {f : Fallthrough} {tokens : Array Token} {t u : Token} {i : Nat}

theorem walkBack_succ (hi : tokens[i]? = some t) :
    (LayoutTags.standard f).walkBack tokens (i + 1) =
      if t.kind = .lineBreak then .lineBreak i
      else if t.kind = .blockComment ∧ t.breaks = true then .multiLineComment i
      else if t.channel = .hidden then (LayoutTags.standard f).walkBack tokens i
      else .visibleToken i := by
  rw [LayoutTags.walkBack, hi]
  rfl

theorem walkBack_visible (hi : tokens[i]? = some t) (ht : SoundToken t) (hv : t.isVisible = true) :
    (LayoutTags.standard f).walkBack tokens (i + 1) = .visibleToken i := by
  have hchannel : t.channel = .visible := by simpa [Token.isVisible] using hv
  have hkind : t.kind.channel = .visible := ht.channel ▸ hchannel
  rw [walkBack_succ hi, if_neg, if_neg, if_neg]
  · rw [hchannel]
    decide
  · rintro ⟨h, -⟩
    rw [h] at hkind
    cases hkind
  · intro h
    rw [h] at hkind
    cases hkind

theorem walkBack_hidden (hi : tokens[i]? = some t) (ht : SoundToken t) (hv : t.isVisible = false) :
    t.breaks = true ∧ ((LayoutTags.standard f).walkBack tokens (i + 1)).isLineBreak = true ∨
      t.breaks = false ∧ (LayoutTags.standard f).walkBack tokens (i + 1) =
        (LayoutTags.standard f).walkBack tokens i := by
  have hchannel : t.channel = .hidden := by
    cases hc : t.channel with
    | hidden => rfl
    | visible => simp [Token.isVisible, hc] at hv
  have hkind : t.kind.isLayout = true := by
    have := ht.channel ▸ hchannel
    simpa [TokenKind.channel] using this
  rw [walkBack_succ hi]
  by_cases hbreak : t.kind = .lineBreak
  · rw [if_pos hbreak]
    exact .inl ⟨ht.lineBreak hbreak, rfl⟩
  · rw [if_neg hbreak]
    by_cases hcomment : t.kind = .blockComment ∧ t.breaks = true
    · rw [if_pos hcomment]
      exact .inl ⟨hcomment.2, rfl⟩
    · rw [if_neg hcomment, if_pos hchannel]
      refine .inr ⟨?_, rfl⟩
      cases hk : t.kind with
      | whitespace => exact ht.plain (.inl hk)
      | lineComment => exact ht.plain (.inr hk)
      | lineBreak => exact absurd hk hbreak
      | blockComment => exact Bool.eq_false_iff.mpr fun h => hcomment ⟨hk, h⟩
      | _ => simp [hk, TokenKind.isLayout] at hkind

theorem walkBack_layout (pre mid : List Token) {post : List Token}
    (htokens : tokens.toList = pre ++ mid ++ post)
    (hmid : ∀ t ∈ mid, SoundToken t ∧ t.isVisible = false) :
    mid.any Token.breaks = true ∧
        ((LayoutTags.standard f).walkBack tokens (pre.length + mid.length)).isLineBreak = true ∨
      mid.any Token.breaks = false ∧
        (LayoutTags.standard f).walkBack tokens (pre.length + mid.length) =
          (LayoutTags.standard f).walkBack tokens pre.length := by
  suffices hall : ∀ n ≤ mid.length,
      (mid.take n).any Token.breaks = true ∧
          ((LayoutTags.standard f).walkBack tokens (pre.length + n)).isLineBreak = true ∨
        (mid.take n).any Token.breaks = false ∧
          (LayoutTags.standard f).walkBack tokens (pre.length + n) =
            (LayoutTags.standard f).walkBack tokens pre.length by
    simpa using hall mid.length (Nat.le_refl _)
  intro n hn
  induction n with
  | zero => exact .inr ⟨rfl, rfl⟩
  | succ n ih =>
    have hget : tokens[pre.length + n]? = some mid[n] := by
      rw [← Array.getElem?_toList, htokens, List.append_assoc,
        List.getElem?_append_right (by omega), Nat.add_sub_cancel_left,
        List.getElem?_append_left (by omega), List.getElem?_eq_getElem]
    obtain ⟨hsound, hhidden⟩ := hmid mid[n] (List.getElem_mem _)
    rw [List.take_succ_eq_append_getElem (by omega), List.any_append, List.any_cons, List.any_nil,
      Bool.or_false, ← Nat.add_assoc]
    rcases walkBack_hidden (f := f) hget hsound hhidden with ⟨hb, hw⟩ | ⟨hb, hw⟩
    · exact .inl ⟨by rw [hb, Bool.or_true], hw⟩
    · rw [hb, Bool.or_false, hw]
      exact ih (by omega)

end

-- ---------------------------------------------------------------------------
-- Lexed streams
-- ---------------------------------------------------------------------------

section
variable {f : Fallthrough} {is : List Item} {t u : Token} {pre mid post : List Token}

/-- The items of a lexed stream: those of a text, and the end. -/
def SoundStream (s : TokenStream) : Prop :=
  ∃ is, s = .ofList is ∧ ∀ i ∈ is, SoundLayout i

theorem SoundStream.sound {s : TokenStream} (h : SoundStream s) (ht : t ∈ s.tokens.toList) :
    SoundToken t := by
  obtain ⟨is, rfl, his⟩ := h
  rw [toList_tokens_ofList] at ht
  have hitem : t.item ∈ is := by
    have := List.mem_map_of_mem (f := Token.item) ht
    rwa [map_item_placed] at this
  exact ⟨his _ hitem, channel_of_mem_placed ht⟩

theorem placed_split (h : placed 0 0 .origin is = pre ++ t :: post) :
    t.index = pre.length ∧ t.span.start = Text.byteSize (chars (pre.map Token.item)) ∧
      t.span.stop = Text.byteSize (chars ((pre ++ [t]).map Token.item)) := by
  obtain ⟨js, ks, -, hpre, hpost⟩ := placed_eq_append h
  have hjs : pre.map Token.item = js := by rw [hpre, map_item_placed]
  cases ks with
  | nil => cases hpost
  | cons k ks =>
    rw [placed] at hpost
    obtain ⟨ht, -⟩ := List.cons.inj hpost
    rw [List.map_append, hjs, hpre, length_placed, ht]
    simp [Token.item, Text.byteSize_toList]

variable {s : TokenStream}

theorem SoundStream.split (hs : SoundStream s) (h : s.tokens.toList = pre ++ t :: post) :
    t.index = pre.length ∧ t.span.start = Text.byteSize (chars (pre.map Token.item)) ∧
      t.span.stop = Text.byteSize (chars ((pre ++ [t]).map Token.item)) := by
  obtain ⟨is, rfl, -⟩ := hs
  rw [toList_tokens_ofList] at h
  exact placed_split h

theorem SoundStream.preceding_eq (hs : SoundStream s) (h : s.tokens.toList = pre ++ t :: post) :
    (LayoutTags.standard f).preceding s.tokens t.index =
      (LayoutTags.standard f).walkBack s.tokens pre.length := by
  have hsize := congrArg List.length h
  rw [Array.length_toList, List.length_append, List.length_cons] at hsize
  rw [LayoutTags.preceding, (hs.split h).1, Nat.min_eq_left (by omega)]

theorem endsStatement_of_isLineBreak {p : Preceding} (h : p.isLineBreak = true) (f : Fallthrough) :
    p.endsStatement f = true := by
  cases p <;> first | rfl | cases h

theorem SoundStream.closes (hs : SoundStream s) (h : s.tokens.toList = pre ++ t :: post) :
    (LayoutTags.standard f).closes s.tokens t.index = decide (t.kind = .rightCurl) := by
  have hget : s.tokens[t.index]? = some t := by
    rw [(hs.split h).1, ← Array.getElem?_toList, h]
    simp
  rw [LayoutTags.closes, hget]
  rfl

/-- Behind a visible token, what the walk back finds is what stands between the two. -/
theorem SoundStream.preceding_behind (hs : SoundStream s)
    (h : s.tokens.toList = pre ++ u :: mid ++ t :: post) (hu : u.isVisible = true)
    (hmid : ∀ t ∈ mid, t.isVisible = false) :
    let p := (LayoutTags.standard f).preceding s.tokens t.index
    p.isLineBreak = mid.any Token.breaks ∧
      p.endsStatement f = (mid.any Token.breaks || f == .accept) := by
  have hsplit : s.tokens.toList = (pre ++ [u]) ++ mid ++ (t :: post) := by simpa using h
  have hget : s.tokens[pre.length]? = some u := by
    rw [← Array.getElem?_toList, h, List.append_assoc]
    simp
  have hbase : (LayoutTags.standard f).walkBack s.tokens (pre ++ [u]).length =
      .visibleToken pre.length := by
    rw [List.length_append]
    exact walkBack_visible hget (hs.sound (h ▸ by simp)) hu
  have hwalk := walkBack_layout (f := f) (pre ++ [u]) mid hsplit fun t ht =>
    ⟨hs.sound (by rw [h]; simp [ht]), hmid t ht⟩
  rw [hs.preceding_eq hsplit, List.length_append]
  dsimp only
  rcases hwalk with ⟨hb, hw⟩ | ⟨hb, hw⟩
  · rw [hb, hw, endsStatement_of_isLineBreak hw]
    exact ⟨rfl, rfl⟩
  · rw [hb, hw, hbase]
    exact ⟨rfl, rfl⟩

theorem SoundStream.preceding_first (hs : SoundStream s) (h : s.tokens.toList = mid ++ t :: post)
    (hmid : ∀ t ∈ mid, t.isVisible = false) :
    let p := (LayoutTags.standard f).preceding s.tokens t.index
    p.isLineBreak = mid.any Token.breaks ∧ p.endsStatement f = true := by
  have hwalk := walkBack_layout (f := f) [] mid h fun t ht =>
    ⟨hs.sound (by rw [h]; simp [ht]), hmid t ht⟩
  rw [hs.preceding_eq h]
  dsimp only
  simp only [List.length_nil, Nat.zero_add] at hwalk
  rcases hwalk with ⟨hb, hw⟩ | ⟨hb, hw⟩
  · rw [hb, hw, endsStatement_of_isLineBreak hw]
    exact ⟨rfl, rfl⟩
  · rw [hb, hw]
    exact ⟨rfl, rfl⟩

theorem any_chars_item (ts : List Token) :
    (chars (ts.map Token.item)).any Text.isLineBreak = ts.any Token.breaks := by
  induction ts with
  | nil => rfl
  | cons t ts ih => rw [List.map_cons, chars_cons, List.any_append, ih, List.any_cons]; rfl

end

-- ---------------------------------------------------------------------------
-- Sources
-- ---------------------------------------------------------------------------

theorem soundStream_of_lex {source : String} {s : TokenStream} (h : lex source = .ok s) :
    SoundStream s := by
  obtain ⟨hclean, rfl⟩ := lex_eq_ok.mp h
  refine ⟨_, rfl, fun i hi => ?_⟩
  rcases List.mem_append.mp hi with hi | hi
  · exact (sound_items hclean i hi).toSoundLayout
  · cases List.mem_singleton.mp hi
    exact soundLayout_eof ""

theorem chars_of_lex {source : String} {s : TokenStream} (h : lex source = .ok s) :
    chars (s.tokens.toList.map Token.item) = source.toList := by
  obtain ⟨hclean, rfl⟩ := lex_eq_ok.mp h
  rw [toList_tokens_ofList, map_item_placed, chars_append, chars_items hclean]
  simp

theorem slice_between {source : String} {s : TokenStream} (h : lex source = .ok s)
    {pre mid post : List Token} {t u : Token} (hs : s.tokens.toList = pre ++ u :: mid ++ t :: post) :
    Text.slice ⟨u.span.stop, t.span.start⟩ source = chars (mid.map Token.item) := by
  have hsound := soundStream_of_lex h
  have hu := (hsound.split (by simpa using hs : _ = pre ++ u :: (mid ++ t :: post))).2.2
  have ht := (hsound.split hs).2.1
  have hchars : source.toList = chars ((pre ++ [u]).map Token.item) ++ chars (mid.map Token.item) ++
      chars ((t :: post).map Token.item) := by
    rw [← chars_of_lex h, hs, ← chars_append, ← chars_append, ← List.map_append, ← List.map_append]
    simp
  rw [hu, ht, ← Text.slice_append hchars, ← chars_append, ← List.map_append, List.append_assoc]
  rfl

theorem slice_front {source : String} {s : TokenStream} (h : lex source = .ok s)
    {mid post : List Token} {t : Token} (hs : s.tokens.toList = mid ++ t :: post) :
    Text.slice ⟨0, t.span.start⟩ source = chars (mid.map Token.item) := by
  have ht := ((soundStream_of_lex h).split hs).2.1
  have hchars : source.toList =
      [] ++ chars (mid.map Token.item) ++ chars ((t :: post).map Token.item) := by
    rw [← chars_of_lex h, hs, List.map_append, chars_append, List.nil_append]
  rw [ht]
  exact Text.slice_append hchars

theorem ordered_of_lex {source : String} {s : TokenStream} (h : lex source = .ok s) :
    s.tokens.toList.Pairwise fun t u => t.span.stop ≤ u.span.start := by
  obtain ⟨-, rfl⟩ := lex_eq_ok.mp h
  rw [toList_tokens_ofList]
  exact ordered_placed

theorem covers_of_lex {source : String} {s : TokenStream} {t : Token} (h : lex source = .ok s)
    (ht : t ∈ s.tokens.toList) (hk : t.kind ≠ .eof) : t.span.start < t.span.stop := by
  obtain ⟨hclean, rfl⟩ := lex_eq_ok.mp h
  rw [toList_tokens_ofList] at ht
  have hitem : t.item ∈ items source.toList ++ [(.eof, "")] := by
    have := List.mem_map_of_mem (f := Token.item) ht
    rwa [map_item_placed] at this
  rw [stop_of_mem_placed ht]
  rcases List.mem_append.mp hitem with hitem | hitem
  · have hne : t.text.toList ≠ [] := (sound_items hclean _ hitem).nonempty
    have hsize : t.text.utf8ByteSize ≠ 0 := fun hzero => hne (by simpa using hzero)
    omega
  · exact absurd (congrArg Prod.fst (List.mem_singleton.mp hitem)) hk

-- ---------------------------------------------------------------------------
-- Gaps
-- ---------------------------------------------------------------------------

/-- The last visible token in front of an index. -/
def TokenStream.visibleBefore? (s : TokenStream) (index : Nat) : Option Token :=
  ((s.tokens.toList.take index).filter Token.isVisible).getLast?

/-- The text in front of a token, back to the visible token before it or to the start of the source. -/
def gapBefore (source : String) (s : TokenStream) (t : Token) : List Char :=
  Text.slice ⟨((s.visibleBefore? t.index).map (·.span.stop)).getD 0, t.span.start⟩ source

theorem filter_split {α : Type} {p : α → Bool} {l xs ys : List α} {a b : α}
    (h : l.filter p = xs ++ a :: b :: ys) :
    ∃ pre mid post, l = pre ++ a :: mid ++ b :: post ∧ p a = true ∧ ∀ x ∈ mid, p x = false := by
  obtain ⟨pre, rest, rfl, -, hrest⟩ := List.filter_eq_append_iff.mp h
  obtain ⟨skipped, rest, rfl, -, ha, hrest⟩ := List.filter_eq_cons_iff.mp hrest
  obtain ⟨mid, post, rfl, hmid, -, -⟩ := List.filter_eq_cons_iff.mp hrest
  exact ⟨pre ++ skipped, mid, post, by simp, ha, fun x hx => by simpa using hmid x hx⟩

theorem split_of_getLast?_filter {α : Type} {p : α → Bool} {l : List α} {a : α}
    (h : (l.filter p).getLast? = some a) :
    ∃ xs ys, l = xs ++ a :: ys ∧ p a = true ∧ ∀ y ∈ ys, p y = false := by
  obtain ⟨kept, hkept⟩ := List.getLast?_eq_some_iff.mp h
  obtain ⟨xs, rest, rfl, -, hrest⟩ := List.filter_eq_append_iff.mp hkept
  obtain ⟨skipped, ys, rfl, -, ha, hys⟩ := List.filter_eq_cons_iff.mp hrest
  refine ⟨xs ++ skipped, ys, by simp, ha, fun y hy => ?_⟩
  simpa using List.filter_eq_nil_iff.mp hys y hy

section
variable {source : String} {s : TokenStream} {t : Token}

theorem preceding_gap (f : Fallthrough) (h : lex source = .ok s) (ht : t ∈ s.visible) :
    let p := (LayoutTags.standard f).preceding s.tokens t.index
    p.isLineBreak = (gapBefore source s t).any Text.isLineBreak ∧
      p.endsStatement f = ((gapBefore source s t).any Text.isLineBreak ||
        (s.visibleBefore? t.index).isNone || f == .accept) := by
  have hs := soundStream_of_lex h
  obtain ⟨pre, post, hsplit⟩ := List.append_of_mem (List.mem_filter.mp ht).1
  have hfront : s.tokens.toList.take t.index = pre := by
    rw [(hs.split hsplit).1, hsplit, List.take_left]
  cases hlast : s.visibleBefore? t.index with
  | none =>
    have hpre : ∀ x ∈ pre, x.isVisible = false := by
      rw [TokenStream.visibleBefore?, hfront, List.getLast?_eq_none_iff] at hlast
      simpa using List.filter_eq_nil_iff.mp hlast
    have hgap : gapBefore source s t = chars (pre.map Token.item) := by
      rw [gapBefore, hlast]
      exact slice_front h hsplit
    obtain ⟨hline, hends⟩ := hs.preceding_first (f := f) hsplit hpre
    exact ⟨by rw [hline, hgap, any_chars_item], by rw [hends]; simp⟩
  | some u =>
    rw [TokenStream.visibleBefore?, hfront] at hlast
    obtain ⟨xs, mid, rfl, hu, hmid⟩ := split_of_getLast?_filter hlast
    have hgap : gapBefore source s t = chars (mid.map Token.item) := by
      rw [gapBefore, TokenStream.visibleBefore?, hfront, hlast]
      exact slice_between h hsplit
    obtain ⟨hline, hends⟩ := hs.preceding_behind hsplit hu hmid
    exact ⟨by rw [hline, hgap, any_chars_item], by rw [hends, hgap, any_chars_item]; simp⟩

/-- The walk back from a visible token, the end included, finds a line break exactly if the gap in front
of the token holds one. Read strictly, a statement may end there exactly if it does, or if there is no
visible token before it. -/
theorem lookback_eq_gap (f : Fallthrough) (h : lex source = .ok s) (ht : t ∈ s.visible) :
    (((LayoutTags.standard f).preceding s.tokens t.index).isLineBreak = true ↔
        ∃ c ∈ gapBefore source s t, c = '\n' ∨ c = '\r') ∧
      ((LayoutTags.standard .reject).endsStatement s.tokens t.index = true ↔
        (∃ c ∈ gapBefore source s t, c = '\n' ∨ c = '\r') ∨ s.visibleBefore? t.index = none) := by
  have hbreak : (gapBefore source s t).any Text.isLineBreak = true ↔
      ∃ c ∈ gapBefore source s t, c = '\n' ∨ c = '\r' := by
    simp [Text.isLineBreak]
  have hends := (preceding_gap .reject h ht).2
  refine ⟨by rw [(preceding_gap f h ht).1, hbreak], ?_⟩
  rw [LayoutTags.endsStatement, show (LayoutTags.standard .reject).fallthrough = .reject from rfl,
    hends, ← hbreak]
  simp

end

theorem lookback_eq_gap_comments :
    ∃ s t u, lex "a/*\r*/b/**/c" = .ok s ∧ t ∈ s.visible ∧ u ∈ s.visible ∧
      ((LayoutTags.standard .accept).preceding s.tokens t.index).isLineBreak = true ∧
      ¬(LayoutTags.standard .reject).endsStatement s.tokens u.index = true := by
  have h := lex_eq_ok.mpr ⟨(by decide +kernel : Clean "a/*\r*/b/**/c".toList), rfl⟩
  refine ⟨_, ⟨.identifier, .visible, "b", ⟨6, 7⟩, 2, ⟨2, 3⟩⟩,
    ⟨.identifier, .visible, "c", ⟨11, 12⟩, 4, ⟨2, 8⟩⟩, h, ?_, ?_, ?_, ?_⟩
  · decide +kernel
  · decide +kernel
  · exact (lookback_eq_gap .accept h (by decide +kernel)).1.mpr ⟨'\r', by decide +kernel, .inr rfl⟩
  · refine mt (lookback_eq_gap .reject h (by decide +kernel)).2.mp ?_
    rintro (⟨c, hc, hbreak⟩ | hfirst)
    · have hnone : Text.isLineBreak c = false :=
        Bool.eq_false_iff.mpr (List.any_eq_false.mp (by decide +kernel) c hc)
      rcases hbreak with rfl | rfl <;> cases hnone
    · exact absurd hfirst (by decide +kernel)

end Linewise
