import Linewise.Terminal

/-!
# Streams that are built

A token stream is empty or made by pushing a token of any kind, text and channel behind another one. So
the tokens of a stream know their index, and their spans follow each other and stay within the stream.
-/

namespace Linewise

namespace TokenStream

/-- The stream is what some pushes have made of the empty one. -/
inductive Built : TokenStream → Prop
  | empty : Built .empty
  | pushTo {s : TokenStream} (h : s.Built) (channel : Channel) (kind : TokenKind) (text : String) :
    Built (s.pushTo channel kind text)

variable {s : TokenStream} {t : Token} {i n : Nat}

def pushed (s : TokenStream) (channel : Channel) (kind : TokenKind) (text : String) : Token :=
  ⟨kind, channel, text, ⟨s.offset, s.offset + text.utf8ByteSize⟩, s.size, s.point⟩

theorem tokens_pushTo (s : TokenStream) (channel : Channel) (kind : TokenKind) (text : String) :
    (s.pushTo channel kind text).tokens = s.tokens.push (s.pushed channel kind text) := rfl

@[simp] theorem offset_pushTo (s : TokenStream) (channel : Channel) (kind : TokenKind) (text : String) :
    (s.pushTo channel kind text).offset = s.offset + text.utf8ByteSize := rfl

theorem Built.push (h : s.Built) (kind : TokenKind) (text : String) : (s.push kind text).Built :=
  h.pushTo _ _ _

theorem built_ofList (is : List (TokenKind × String)) : (ofList is).Built := by
  suffices hall : ∀ s : TokenStream, s.Built → (is.foldl (fun s t => s.push t.1 t.2) s).Built from
    hall .empty .empty
  induction is with
  | nil => exact fun s h => h
  | cons i is ih => exact fun s h => ih _ (h.push i.1 i.2)

theorem Built.index_lt (h : s.Built) (ht : t ∈ s.tokens.toList) : t.index < s.size := by
  induction h with
  | empty => simp [TokenStream.empty] at ht
  | @pushTo s _ channel kind text ih =>
    rw [tokens_pushTo, Array.toList_push, List.mem_append, List.mem_singleton] at ht
    rw [size_pushTo]
    rcases ht with ht | rfl
    · exact Nat.lt_succ_of_lt (ih ht)
    · exact Nat.lt_succ_self _

theorem Built.within (h : s.Built) (ht : t ∈ s.tokens.toList) :
    t.span.start ≤ t.span.stop ∧ t.span.stop ≤ s.offset := by
  induction h with
  | empty => simp [TokenStream.empty] at ht
  | @pushTo s _ channel kind text ih =>
    rw [tokens_pushTo, Array.toList_push, List.mem_append, List.mem_singleton] at ht
    rw [offset_pushTo]
    rcases ht with ht | rfl
    · exact ⟨(ih ht).1, Nat.le_trans (ih ht).2 (Nat.le_add_right _ _)⟩
    · exact ⟨Nat.le_add_right _ _, Nat.le_refl _⟩

/-- What holds of each token that is pushed and of those in front of it holds of any two tokens. -/
theorem Built.pairwise {R : Token → Token → Prop} (h : s.Built)
    (hR : ∀ s : TokenStream, s.Built → ∀ t ∈ s.tokens.toList, ∀ channel kind text,
      R t (s.pushed channel kind text)) :
    s.tokens.toList.Pairwise R := by
  induction h with
  | empty => exact .nil
  | @pushTo s hs channel kind text ih =>
    rw [tokens_pushTo, Array.toList_push]
    refine List.pairwise_append.mpr ⟨ih, List.pairwise_singleton _ _, fun t ht u hu => ?_⟩
    rw [List.mem_singleton.mp hu]
    exact hR s hs t ht channel kind text

theorem Built.ordered (h : s.Built) : s.tokens.toList.Pairwise fun t u => t.span.stop ≤ u.span.start :=
  h.pairwise fun _ hs _ ht _ _ _ => (hs.within ht).2

theorem Built.index_ordered (h : s.Built) : s.tokens.toList.Pairwise fun t u => t.index < u.index :=
  h.pairwise fun _ hs _ ht _ _ _ => hs.index_lt ht

/-- What the grammar reads of a stream, and the end that it sees, are some of the tokens and the end. -/
theorem sublist_read {α : Type} (s : TokenStream) (f : Token → α) (last : α) :
    ((s.visible.takeWhile fun t => t.kind != .eof).map f ++
        [((s.visible.find? fun t => t.kind == .eof).map f).getD last]).Sublist
      (s.tokens.toList.map f ++ [last]) := by
  have hvisible : s.visible.Sublist s.tokens.toList := List.filter_sublist
  cases hend : s.visible.find? fun t => t.kind == .eof with
  | none => exact (((List.takeWhile_sublist _).trans hvisible).map _).append (List.Sublist.refl _)
  | some t =>
    -- The first token of kind `eof` stands behind what is read.
    obtain ⟨ht, us, vs, hsplit, hus⟩ := List.find?_eq_some_iff_append.mp hend
    have htake : s.visible.takeWhile (fun t => t.kind != .eof) = us := by
      have hus' : ∀ u ∈ us, (u.kind != .eof) = true := hus
      rw [hsplit, List.takeWhile_append_of_pos hus', List.takeWhile_cons_of_neg (by simpa using ht),
        List.append_nil]
    have hfront : (us ++ [t]).Sublist s.tokens.toList := by
      refine .trans ?_ hvisible
      rw [hsplit]
      exact (List.Sublist.refl us).append (List.singleton_sublist.mpr List.mem_cons_self)
    have hmap := hfront.map f
    rw [List.map_append] at hmap
    rw [htake]
    exact hmap.trans (List.sublist_append_left _ _)

theorem map_token_terminals (s : TokenStream) (tags : LayoutTags TokenKind Channel) :
    (s.terminals tags).map Terminal.token = s.visible.takeWhile fun t => t.kind != .eof := by
  rw [terminals, List.map_map]
  exact List.map_id _

theorem mem_of_terminals {tags : LayoutTags TokenKind Channel} {x : Terminal} (h : x ∈ s.terminals tags) :
    x.token ∈ s.tokens.toList := by
  have hx : x.token ∈ (s.terminals tags).map Terminal.token := List.mem_map_of_mem h
  rw [map_token_terminals] at hx
  exact (List.mem_filter.mp ((List.takeWhile_sublist _).subset hx)).1

end TokenStream

end Linewise
