import Linewise.Proofs.Lexing.Lexemes

/-!
# Where tokens stand

The tokens of a stream follow from the items that were pushed: `placed` computes the place of each from
those before it. The text between two tokens is that of the tokens that stand between them.
-/

namespace Linewise

namespace Text

/-- The characters that begin inside a span, of a text that begins at a byte offset. -/
def sliceFrom (offset : Nat) (span : Span) : List Char → List Char
  | [] => []
  | c :: cs =>
    let rest := sliceFrom (offset + c.utf8Size) span cs
    if span.start ≤ offset ∧ offset < span.stop then c :: rest else rest

/-- The part of a text that a span covers. -/
def slice (span : Span) (text : String) : List Char := sliceFrom 0 span text.toList

theorem sliceFrom_before {offset : Nat} {span : Span} (cs ds : List Char)
    (h : offset + byteSize cs ≤ span.start) :
    sliceFrom offset span (cs ++ ds) = sliceFrom (offset + byteSize cs) span ds := by
  induction cs generalizing offset with
  | nil => rfl
  | cons c cs ih =>
    rw [byteSize_cons] at h ⊢
    have := c.utf8Size_pos
    rw [List.cons_append, sliceFrom, if_neg (by omega), ih (by omega), Nat.add_assoc]

theorem sliceFrom_inside {offset : Nat} {span : Span} (cs ds : List Char)
    (hs : span.start ≤ offset) (h : offset + byteSize cs ≤ span.stop) :
    sliceFrom offset span (cs ++ ds) = cs ++ sliceFrom (offset + byteSize cs) span ds := by
  induction cs generalizing offset with
  | nil => rfl
  | cons c cs ih =>
    rw [byteSize_cons] at h ⊢
    have := c.utf8Size_pos
    rw [List.cons_append, sliceFrom, if_pos (by omega), ih (by omega) (by omega), Nat.add_assoc]
    rfl

theorem sliceFrom_behind {offset : Nat} {span : Span} (cs : List Char) (h : span.stop ≤ offset) :
    sliceFrom offset span cs = [] := by
  induction cs generalizing offset with
  | nil => rfl
  | cons c cs ih => rw [sliceFrom, if_neg (by omega), ih (by omega)]

theorem slice_append {text : String} {cs ds es : List Char} (h : text.toList = cs ++ ds ++ es) :
    slice ⟨byteSize cs, byteSize (cs ++ ds)⟩ text = ds := by
  have hsize : byteSize (cs ++ ds) = byteSize cs + byteSize ds := byteSize_append cs ds
  rw [slice, h, List.append_assoc, sliceFrom_before _ _ (by simp),
    sliceFrom_inside _ _ (by simp) (by simp), sliceFrom_behind _ (by simp), List.append_nil]

end Text

-- ---------------------------------------------------------------------------
-- Tokens and their items
-- ---------------------------------------------------------------------------

abbrev Item : Type := TokenKind × String

def Token.item (t : Token) : Item := (t.kind, t.text)

def visibleItems (is : List Item) : List Item := is.filter fun i => !i.1.isLayout

@[simp] theorem visibleItems_append (is js : List Item) :
    visibleItems (is ++ js) = visibleItems is ++ visibleItems js := List.filter_append ..

def pointAfter (point : Point) (is : List Item) : Point :=
  is.foldl (fun p i => p.advance i.2.toList) point

/-- The tokens of items that follow each other from a place on. -/
def placed (offset index : Nat) (point : Point) : List Item → List Token
  | [] => []
  | i :: is =>
    ⟨i.1, i.1.channel, i.2, ⟨offset, offset + i.2.utf8ByteSize⟩, index, point⟩ ::
      placed (offset + i.2.utf8ByteSize) (index + 1) (point.advance i.2.toList) is

theorem toList_foldl_push (is : List Item) (s : TokenStream) :
    (is.foldl (fun s i => s.push i.1 i.2) s).tokens.toList =
      s.tokens.toList ++ placed s.offset s.tokens.size s.point is := by
  induction is generalizing s with
  | nil => simp [placed]
  | cons i is ih =>
    rw [List.foldl_cons, ih]
    simp [TokenStream.push, TokenStream.pushTo, placed]

theorem toList_tokens_ofList (is : List Item) :
    (TokenStream.ofList is).tokens.toList = placed 0 0 .origin is := by
  rw [TokenStream.ofList, toList_foldl_push]
  rfl

variable {offset index : Nat} {point : Point} {is js : List Item}

@[simp] theorem length_placed : (placed offset index point is).length = is.length := by
  induction is generalizing offset index point with
  | nil => rfl
  | cons i is ih => rw [placed, List.length_cons, List.length_cons, ih]

@[simp] theorem map_item_placed : (placed offset index point is).map Token.item = is := by
  induction is generalizing offset index point with
  | nil => rfl
  | cons i is ih => rw [placed, List.map_cons, ih]; rfl

theorem placed_append (is js : List Item) :
    placed offset index point (is ++ js) =
      placed offset index point is ++
        placed (offset + Text.byteSize (chars is)) (index + is.length) (pointAfter point is) js := by
  induction is generalizing offset index point with
  | nil => rfl
  | cons i is ih =>
    rw [List.cons_append, placed, placed, ih, chars_cons, Text.byteSize_append, Text.byteSize_toList,
      List.length_cons, List.cons_append, Nat.add_assoc, Nat.add_right_comm index, Nat.add_assoc index]
    rfl

theorem placed_eq_append {xs ys : List Token} (h : placed offset index point is = xs ++ ys) :
    ∃ js ks, is = js ++ ks ∧ xs = placed offset index point js ∧
      ys = placed (offset + Text.byteSize (chars js)) (index + js.length) (pointAfter point js) ks := by
  have hlen : xs.length ≤ is.length := by
    have := congrArg List.length h
    simp only [length_placed, List.length_append] at this
    omega
  refine ⟨is.take xs.length, is.drop xs.length, (List.take_append_drop _ _).symm, ?_⟩
  rw [← List.take_append_drop xs.length is, placed_append] at h
  exact (List.append_inj h.symm (by simp [hlen])).imp_right fun h => by simpa using h

theorem channel_of_mem_placed {t : Token} (h : t ∈ placed offset index point is) :
    t.channel = t.kind.channel := by
  induction is generalizing offset index point with
  | nil => cases h
  | cons i is ih =>
    rcases List.mem_cons.mp h with rfl | h
    · rfl
    · exact ih h

theorem map_item_visible_placed :
    ((placed offset index point is).filter Token.isVisible).map Token.item = visibleItems is := by
  have hvisible : ∀ t ∈ placed offset index point is, t.isVisible = !t.item.1.isLayout := fun t ht => by
    rw [Token.isVisible, channel_of_mem_placed ht, TokenKind.channel, Token.item]
    cases t.kind.isLayout <;> rfl
  have hfilter := List.filter_map (f := Token.item) (p := fun i => !i.1.isLayout)
    (l := placed offset index point is)
  rw [map_item_placed] at hfilter
  rw [List.filter_congr hvisible, visibleItems, hfilter]
  rfl

theorem offset_le_of_mem_placed {t : Token} (h : t ∈ placed offset index point is) :
    offset ≤ t.span.start := by
  induction is generalizing offset index point with
  | nil => cases h
  | cons i is ih =>
    rw [placed] at h
    rcases List.mem_cons.mp h with rfl | h
    · exact Nat.le_refl _
    · exact Nat.le_trans (Nat.le_add_right _ _) (ih h)

theorem ordered_placed :
    (placed offset index point is).Pairwise fun t u => t.span.stop ≤ u.span.start := by
  induction is generalizing offset index point with
  | nil => exact .nil
  | cons i is ih => exact List.pairwise_cons.mpr ⟨fun _ h => offset_le_of_mem_placed h, ih⟩

theorem stop_of_mem_placed {t : Token} (h : t ∈ placed offset index point is) :
    t.span.stop = t.span.start + t.text.utf8ByteSize := by
  induction is generalizing offset index point with
  | nil => cases h
  | cons i is ih =>
    rw [placed] at h
    rcases List.mem_cons.mp h with rfl | h
    · rfl
    · exact ih h

end Linewise
