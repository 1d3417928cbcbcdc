import Linewise.Proofs.Lexing.LongestMatch

/-!
# Tokens tile the source

The tokens of a lexed source are the source, cut up, and nothing else. The point at which a token starts is kept
up to date token by token; as no token ends between a carriage return and a line feed, it is the point that the
text in front of the token leads to.
-/

namespace Linewise

-- ---------------------------------------------------------------------------
-- Points of a text
-- ---------------------------------------------------------------------------

namespace Text

/-- The line breaks of a text. A carriage return with a line feed behind it is one break. -/
def lineBreaks : List Char → Nat
  | [] => 0
  | '\r' :: '\n' :: cs => lineBreaks cs + 1
  | c :: cs => lineBreaks cs + if isLineBreak c then 1 else 0

/-- The characters behind the last line break. -/
def lastLine (cs : List Char) : List Char := (cs.reverse.takeWhile fun c => !isLineBreak c).reverse

theorem length_lastLine_cons (c : Char) (cs : List Char) :
    (lastLine (c :: cs)).length =
      (lastLine cs).length + if isLineBreak c || cs.any isLineBreak then 0 else 1 := by
  rw [lastLine, lastLine, List.reverse_cons, List.length_reverse, List.length_reverse]
  cases hany : cs.any isLineBreak with
  | false =>
    have hall : ∀ d ∈ cs.reverse, (!isLineBreak d) = true := by simpa using hany
    have hself : cs.reverse.takeWhile (fun d => !isLineBreak d) = cs.reverse := by
      simpa using @List.takeWhile_append_of_pos _ _ cs.reverse [] hall
    rw [List.takeWhile_append_of_pos hall, hself]
    cases hc : isLineBreak c <;> simp [hc]
  | true =>
    have hshort : (cs.reverse.takeWhile fun d => !isLineBreak d).length ≠ cs.reverse.length := by
      intro hlength
      have hself := (List.takeWhile_prefix _).eq_of_length hlength
      have hall := List.all_takeWhile (l := cs.reverse) (p := fun d => !isLineBreak d)
      rw [hself, List.all_reverse] at hall
      simp [List.any_eq_not_all_not, hall] at hany
    rw [List.takeWhile_append, if_neg hshort, Bool.or_true, if_pos rfl, Nat.add_zero]

theorem lineBreaks_cons {c : Char} {cs : List Char} (h : c = '\r' → cs.head? ≠ some '\n') :
    lineBreaks (c :: cs) = lineBreaks cs + if isLineBreak c then 1 else 0 := by
  rw [lineBreaks]
  rintro ds rfl rfl
  exact h rfl rfl

end Text

namespace Point

/-- The point that a text leads to. -/
def behind (cs : List Char) : Point := ⟨1 + Text.lineBreaks cs, 1 + (Text.lastLine cs).length⟩

variable {p : Point} {c : Char} {cs ds : List Char}

theorem advance_break (hc : Text.isLineBreak c = true) (h : c = '\r' → cs.head? ≠ some '\n') :
    p.advance (c :: cs) = advance ⟨p.line + 1, 1⟩ cs := by
  simp only [Text.isLineBreak, Bool.or_eq_true, beq_iff_eq] at hc
  rcases hc with rfl | rfl
  · rfl
  · rw [advance]
    rintro ds rfl
    exact h rfl rfl

theorem advance_plain (hc : Text.isLineBreak c = false) :
    p.advance (c :: cs) = advance ⟨p.line, p.column + 1⟩ cs := by
  rw [advance]
  · rintro ds rfl rfl
    cases hc
  · rintro rfl
    cases hc
  · rintro rfl
    cases hc

theorem advance_induction {P : Point → List Char → Prop} (nil : ∀ p, P p [])
    (pair : ∀ p cs, P ⟨p.line + 1, 1⟩ cs → P p ('\r' :: '\n' :: cs))
    (lineBreak : ∀ p c cs, Text.isLineBreak c = true → (c = '\r' → cs.head? ≠ some '\n') →
      P ⟨p.line + 1, 1⟩ cs → P p (c :: cs))
    (plain : ∀ p c cs, Text.isLineBreak c = false → P ⟨p.line, p.column + 1⟩ cs → P p (c :: cs))
    (p : Point) (cs : List Char) : P p cs := by
  fun_induction advance p cs with
  | case1 p => exact nil p
  | case2 p cs ih => exact pair p cs ih
  | case3 p cs ih => exact lineBreak p _ cs rfl nofun ih
  | case4 p cs h ih =>
    refine lineBreak p _ cs rfl (fun _ hhead => ?_) ih
    obtain ⟨ds, rfl⟩ := List.head?_eq_some_iff.mp hhead
    exact h ds rfl
  | case5 p c cs _ hfeed hreturn ih =>
    exact plain p c cs (by simpa [Text.isLineBreak] using ⟨hfeed, hreturn⟩) ih

theorem advance_eq (p : Point) (cs : List Char) :
    p.advance cs = ⟨p.line + Text.lineBreaks cs,
      (if cs.any Text.isLineBreak then 1 else p.column) + (Text.lastLine cs).length⟩ := by
  induction p, cs using advance_induction with
  | nil p => rfl
  | pair p cs ih =>
    rw [advance, ih, Text.lineBreaks, Text.length_lastLine_cons, Text.length_lastLine_cons,
      Nat.add_right_comm]
    simp [Text.isLineBreak, Nat.add_assoc]
  | lineBreak p c cs hc hpair ih =>
    rw [advance_break hc hpair, ih, Text.lineBreaks_cons hpair, Text.length_lastLine_cons]
    simp [hc, Nat.add_assoc, Nat.add_comm 1]
  | plain p c cs hc ih =>
    rw [advance_plain hc, ih, Text.lineBreaks_cons (by rintro rfl; cases hc),
      Text.length_lastLine_cons, List.any_cons, hc, Bool.false_or]
    cases hany : cs.any Text.isLineBreak with
    | true => rfl
    | false => simp [Nat.add_assoc, Nat.add_comm 1]

theorem origin_advance (cs : List Char) : origin.advance cs = behind cs := by
  rw [advance_eq, behind, origin, ite_self]

/-- A text can be read in two parts unless the second one ends a break that the first one begins. -/
theorem advance_append (h : cs.getLast? = some '\r' → ds.head? ≠ some '\n') :
    p.advance (cs ++ ds) = (p.advance cs).advance ds := by
  induction p, cs using advance_induction with
  | nil p => rfl
  | pair p cs ih =>
    refine ih fun hlast => h ?_
    rw [List.getLast?_cons, List.getLast?_cons, hlast]
    rfl
  | lineBreak p c cs hc hpair ih =>
    have hpair' : c = '\r' → (cs ++ ds).head? ≠ some '\n' := by
      rintro rfl
      cases cs with
      | nil => exact h rfl
      | cons d cs => exact hpair rfl
    rw [List.cons_append, advance_break hc hpair', advance_break hc hpair]
    refine ih fun hlast => h ?_
    rw [List.getLast?_cons, hlast]
    rfl
  | plain p c cs hc ih =>
    rw [List.cons_append, advance_plain hc, advance_plain hc]
    refine ih fun hlast => h ?_
    rw [List.getLast?_cons, hlast]
    rfl

end Point

-- ---------------------------------------------------------------------------
-- No lexeme ends inside of a line break
-- ---------------------------------------------------------------------------

namespace Lexeme

variable {cs ds : List Char} {kind : TokenKind}

theorem IsDecimal.not_mem {c : Char} (h : IsDecimal cs) (hc : c.isDigit = false ∧ c ≠ '_') :
    c ∉ cs := by
  cases cs with
  | nil => exact h.elim
  | cons d ds =>
    intro hmem
    rcases List.mem_cons.mp hmem with rfl | hmem
    · exact Bool.false_ne_true (hc.1.symm.trans h.1)
    · rcases h.2 c hmem with hdigit | hsign
      · exact Bool.false_ne_true (hc.1.symm.trans hdigit)
      · exact hc.2 hsign

theorem IsBased.not_mem {letters : List Char} {isDigit : Char → Bool} {c : Char}
    (h : IsBased letters isDigit cs) (hc : c ∉ '0' :: '_' :: letters) (hdigit : isDigit c = false) :
    c ∉ cs := by
  unfold IsBased at h
  split at h
  · obtain ⟨hbase, hall, -⟩ := h
    simp only [List.mem_cons, not_or] at hc ⊢
    refine ⟨hc.1, fun heq => hc.2.2 (heq ▸ hbase), fun hmem => ?_⟩
    rcases hall c hmem with h | h
    · exact Bool.false_ne_true (hdigit.symm.trans h)
    · exact hc.2.1 h
  · exact h.elim

theorem Spells.eq_of_getLast? (h : Spells kind cs) (hlast : cs.getLast? = some '\r') : cs = ['\r'] := by
  have hmem : '\r' ∈ cs := List.mem_of_getLast? hlast
  unfold Spells at h
  split at h
  · cases h.2 _ hmem
  · rcases h with rfl | rfl | rfl
    · cases hlast
    · cases hlast
    · rfl
  · obtain ⟨ds, rfl, hds⟩ := h
    cases hds _ (by simpa using hmem)
  · obtain ⟨ds, rfl, hds⟩ := h
    simp [List.getLast?_cons, List.getLast?_append] at hlast
  · cases h.1.forall_isNameRest _ hmem
  · cases (h ▸ isName_spelling _ : IsName cs).forall_isNameRest _ hmem
  · rcases h with hdecimal | hhex | hbinary
    · exact absurd hmem (hdecimal.not_mem (by decide))
    · exact absurd hmem (hhex.not_mem (by decide) rfl)
    · exact absurd hmem (hbinary.not_mem (by decide) rfl)
  · obtain ⟨ds, rfl, hds⟩ := h
    simp [List.getLast?_cons, List.getLast?_append] at hlast
  · exact absurd hmem (TokenKind.return_not_mem_sign? h)

theorem Longest.not_split (h : Longest kind cs (cs ++ ds)) :
    cs.getLast? = some '\r' → ds.head? ≠ some '\n' := by
  intro hlast hhead
  obtain rfl := h.spells.eq_of_getLast? hlast
  obtain ⟨ds, rfl⟩ := List.head?_eq_some_iff.mp hhead
  have hle := h.length_le .lineBreak ['\r', '\n'] (.inr (.inl rfl)) ⟨ds, rfl⟩
  exact absurd hle (by decide)

end Lexeme

theorem pointAfter_items {cs : List Char} (h : Clean cs) {is : List Item} (hi : is <+: items cs)
    (point : Point) : pointAfter point is = point.advance (chars is) := by
  induction cs using lexemes_induction generalizing is point with
  | nil =>
    obtain rfl := List.prefix_nil.mp hi
    rfl
  | cons c cs ih =>
    obtain ⟨hflaws, hrest⟩ := clean_cons.mp h
    obtain ⟨kind, -, -, hitems⟩ := items_cons hflaws
    cases is with
    | nil => rfl
    | cons i is =>
      rw [hitems] at hi
      obtain ⟨rfl, js, hjs⟩ := List.cons_prefix_cons.mp hi
      have hlongest := longest_items h (hitems.trans (List.nil_append _).symm)
      rw [← hjs, chars_cons, chars_append] at hlongest
      show pointAfter (point.advance _) is = _
      rw [ih hrest ⟨js, hjs⟩, chars_cons, Point.advance_append]
      intro hlast hhead
      refine hlongest.not_split hlast ?_
      rw [List.head?_append, hhead]
      rfl

-- ---------------------------------------------------------------------------
-- Tokens
-- ---------------------------------------------------------------------------

/-- Spans that follow each other without a gap from an offset to another. -/
def Tiles : Nat → List Span → Nat → Prop
  | lo, [], hi => lo = hi
  | lo, p :: ps, hi => p.start = lo ∧ Tiles p.stop ps hi

section
variable {offset index i : Nat} {point : Point} {is : List Item} {t : Token}

theorem tiles_placed : Tiles offset ((placed offset index point is).map Token.span)
    (offset + Text.byteSize (chars is)) := by
  induction is generalizing offset index point with
  | nil => rfl
  | cons i is ih =>
    rw [placed, List.map_cons, chars_cons, Text.byteSize_append, Text.byteSize_toList, ← Nat.add_assoc]
    exact ⟨rfl, ih⟩

theorem index_placed (h : (placed offset index point is)[i]? = some t) : t.index = index + i := by
  induction is generalizing offset index point i with
  | nil => cases h
  | cons j is ih =>
    cases i with
    | zero =>
      cases h
      rfl
    | succ i => rw [ih h, Nat.add_right_comm, Nat.add_assoc]

end

section
variable {source : String} {s : TokenStream} {t : Token}

theorem tokens_of_lex (h : lex source = .ok s) :
    s.tokens.toList = placed 0 0 .origin (items source.toList ++ [(TokenKind.eof, "")]) := by
  obtain ⟨-, rfl⟩ := lex_eq_ok.mp h
  exact toList_tokens_ofList _

theorem start_of_lex (h : lex source = .ok s) (ht : t ∈ s.tokens.toList) :
    t.start = .behind (Text.slice ⟨0, t.span.start⟩ source) := by
  obtain ⟨pre, post, hs⟩ := List.append_of_mem ht
  obtain ⟨js, ks, hitems, hpre, hpost⟩ := placed_eq_append ((tokens_of_lex h).symm.trans hs)
  have hfront : js <+: items source.toList := by
    refine List.prefix_of_prefix_length_le ⟨ks, hitems.symm⟩ (List.prefix_append _ _) ?_
    have hlength := congrArg List.length hitems
    cases ks with
    | nil => cases hpost
    | cons k ks =>
      simp only [List.length_append, List.length_cons, List.length_nil] at hlength
      omega
  have hstart : t.start = pointAfter .origin js := by
    cases ks with
    | nil => cases hpost
    | cons k ks => rw [(List.cons.inj hpost).1]
  rw [hstart, pointAfter_items (lex_eq_ok.mp h).1 hfront, Point.origin_advance, slice_front h hs, hpre,
    map_item_placed]

theorem slice_of_lex (h : lex source = .ok s) (ht : t ∈ s.tokens.toList) :
    t.text.toList = Text.slice t.span source := by
  obtain ⟨pre, post, hs⟩ := List.append_of_mem ht
  obtain ⟨-, hstart, hstop⟩ := (soundStream_of_lex h).split hs
  have hchars : source.toList = chars (pre.map Token.item) ++ t.text.toList ++
      chars (post.map Token.item) := by
    rw [← chars_of_lex h, hs, List.map_append, chars_append, List.map_cons, chars_cons,
      List.append_assoc]
    rfl
  have hspan : t.span = ⟨Text.byteSize (chars (pre.map Token.item)),
      Text.byteSize (chars (pre.map Token.item) ++ t.text.toList)⟩ := by
    have hone : chars ((pre ++ [t]).map Token.item) = chars (pre.map Token.item) ++ t.text.toList := by
      simp [Token.item]
    rw [← hstart, ← hone, ← hstop]
  rw [hspan, Text.slice_append hchars]

theorem text_of_lex (h : lex source = .ok s) : s.text = source := by
  refine String.toList_inj.mp ?_
  rw [TokenStream.text, String.toList_join, ← chars_of_lex h, chars, List.flatMap_map, List.flatMap_map]
  rfl

theorem split_of_lex (h : lex source = .ok s) :
    ∃ front last, s.tokens.toList = front ++ [last] ∧ last.kind = .eof ∧ last.text = "" ∧
      ∀ t ∈ front, t.kind ≠ .eof ∧ t.text ≠ "" := by
  have htokens := tokens_of_lex h
  rw [placed_append] at htokens
  refine ⟨_, _, htokens, rfl, rfl, fun t ht => ?_⟩
  have hitem : t.item ∈ items source.toList := by
    have := List.mem_map_of_mem (f := Token.item) ht
    rwa [map_item_placed] at this
  have hsound := sound_items (lex_eq_ok.mp h).1 _ hitem
  exact ⟨hsound.not_eof, fun hempty => hsound.nonempty (by rw [Token.item, hempty]; rfl)⟩

/-- The tokens of a lexed source follow each other in order and without a gap, from its first byte to its last.
Each holds the text of its span and knows the point at which it starts, and it stands on the channel of its
kind. The last token is the end, which is empty, and no other one is. -/
theorem lossless_of_lex (h : lex source = .ok s) :
    s.text = source ∧ Tiles 0 (s.tokens.toList.map Token.span) source.utf8ByteSize ∧
      (∀ (i : Nat) (t : Token), s.tokens[i]? = some t →
        t.index = i ∧ t.channel = t.kind.channel ∧
          t.span.stop = t.span.start + t.text.utf8ByteSize ∧
          t.text.toList = Text.slice t.span source ∧
          t.start = .behind (Text.slice ⟨0, t.span.start⟩ source)) ∧
      ∃ front last, s.tokens.toList = front ++ [last] ∧ last.kind = .eof ∧ last.text = "" ∧
        ∀ t ∈ front, t.kind ≠ .eof ∧ t.text ≠ "" := by
  have htokens := tokens_of_lex h
  refine ⟨text_of_lex h, ?_, fun i t hi => ?_, ?_⟩
  · have hsize : Text.byteSize (chars (items source.toList ++ [(.eof, "")])) = source.utf8ByteSize := by
      rw [chars_append, chars_items (lex_eq_ok.mp h).1, Text.byteSize_append, Text.byteSize_toList]
      rfl
    rw [htokens, ← hsize, ← Nat.zero_add (Text.byteSize _)]
    exact tiles_placed
  · rw [← Array.getElem?_toList] at hi
    have ht := List.mem_of_getElem? hi
    have hstart := start_of_lex h ht
    have htext := slice_of_lex h ht
    rw [htokens] at hi ht
    exact ⟨by rw [index_placed hi, Nat.zero_add], channel_of_mem_placed ht, stop_of_mem_placed ht, htext,
      hstart⟩
  · exact split_of_lex h

end

theorem lossless_of_lex_pairs :
    ∃ s t, lex "a\r\"é\"\r\n/*\r\n*/b" = .ok s ∧ s.tokens[5]? = some t ∧
      Text.slice t.span "a\r\"é\"\r\n/*\r\n*/b" = ['b'] ∧ t.start = ⟨4, 3⟩ := by
  have h := lex_eq_ok.mpr ⟨(by decide +kernel : Clean "a\r\"é\"\r\n/*\r\n*/b".toList), rfl⟩
  have hget : (TokenStream.ofList (items "a\r\"é\"\r\n/*\r\n*/b".toList ++ [(.eof, "")])).tokens[5]? =
      some ⟨.identifier, .visible, "b", ⟨14, 15⟩, 5, ⟨4, 3⟩⟩ := by decide +kernel
  obtain ⟨-, -, -, htext, hstart⟩ := (lossless_of_lex h).2.2.1 5 _ hget
  exact ⟨_, _, h, hget, htext.symm, hstart.trans (by decide +kernel)⟩

end Linewise
