import Linewise.Proofs.Lexing.Language
import Linewise.Proofs.Lexing.Lookback

/-!
# Longest match

Each token of a lexed source is the longest lexeme that the rest of the source begins with, and its kind is the
only one that its text spells.
-/

namespace Linewise

namespace Lexeme

variable {c : Char} {cs : List Char} {kind kind' : TokenKind}

theorem Spells.ne_nil (h : Spells kind cs) : cs ≠ [] := by
  rintro rfl
  unfold Spells at h
  split at h
  · exact h.1 rfl
  · simp at h
  · simp at h
  · simp at h
  · exact h.1
  · rename_i word
    cases word <;> cases h
  · exact h.elim id fun h => h.elim id id
  · simp at h
  · exact TokenKind.sign?_ne_nil _ h

theorem Spells.unique (h : Spells kind cs) (h' : Spells kind' cs) : kind = kind' := by
  cases cs with
  | nil => exact absurd rfl h.ne_nil
  | cons c cs =>
    have hkind := (reaches_of_spells h).kind_eq
    rw [(reaches_of_spells h').kind_eq] at hkind
    exact (Option.some.inj hkind).symm

/-- Of the lexemes that a text begins with, the longest one. -/
structure Longest (kind : TokenKind) (cs text : List Char) : Prop where
  begins : cs <+: text
  spells : Spells kind cs
  length_le : ∀ kind' ds, Spells kind' ds → ds <+: text → ds.length ≤ cs.length

theorem longest_scan (h : (scan c cs).flaws = []) :
    ∃ kind, (scan c cs).kind = some kind ∧ Longest kind (c :: cs.take (scan c cs).more) (c :: cs) := by
  obtain ⟨kind, hkind, hspells⟩ := spelled_scan c cs h
  refine ⟨kind, hkind, ⟨List.cons_prefix_cons.mpr ⟨rfl, List.take_prefix _ _⟩, hspells, ?_⟩⟩
  rintro kind' ds hds ⟨es, htext⟩
  cases ds with
  | nil => exact absurd rfl hds.ne_nil
  | cons d ds =>
    rw [List.cons_append] at htext
    obtain ⟨rfl, rfl⟩ := List.cons.inj htext
    have hreach := (reaches_of_spells hds).length_le es
    have hmore := (sound_scan d (ds ++ es)).more_le
    rw [List.length_cons, List.length_cons, List.length_take]
    omega

end Lexeme

open Lexeme

theorem longest_items {cs : List Char} (h : Clean cs) {pre post : List Item} {i : Item}
    (hi : items cs = pre ++ i :: post) : Longest i.1 i.2.toList (chars (i :: post)) := by
  induction cs using lexemes_induction generalizing pre with
  | nil => simp at hi
  | cons c cs ih =>
    obtain ⟨hflaws, hrest⟩ := clean_cons.mp h
    obtain ⟨kind, hkind, -, hitems⟩ := items_cons hflaws
    cases pre with
    | nil =>
      obtain ⟨kind', hkind', hlongest⟩ := longest_scan hflaws
      cases Option.some.inj (hkind.symm.trans hkind')
      obtain ⟨rfl, rfl⟩ := List.cons.inj (hitems.symm.trans hi)
      rw [← hitems, chars_items h, String.toList_ofList]
      exact hlongest
    | cons j pre =>
      rw [hitems] at hi
      exact ih hrest (List.cons.inj hi).2

variable {source : String} {s : TokenStream} {t : Token}

theorem slice_rest (h : lex source = .ok s) {pre post : List Token}
    (hs : s.tokens.toList = pre ++ t :: post) :
    Text.slice ⟨t.span.start, source.utf8ByteSize⟩ source = chars ((t :: post).map Token.item) := by
  have hchars : source.toList =
      chars (pre.map Token.item) ++ chars ((t :: post).map Token.item) ++ [] := by
    rw [← chars_of_lex h, hs, List.map_append, chars_append, List.append_nil]
  rw [((soundStream_of_lex h).split hs).2.1, ← Text.byteSize_toList, ← Text.slice_append hchars, hchars,
    List.append_nil]

theorem longest_of_lex (h : lex source = .ok s) {pre post : List Token}
    (hs : s.tokens.toList = pre ++ t :: post) (hk : t.kind ≠ .eof) :
    Longest t.kind t.text.toList (chars ((t :: post).map Token.item)) := by
  obtain ⟨hclean, rfl⟩ := lex_eq_ok.mp h
  have hitems := congrArg (List.map Token.item) hs
  rw [toList_tokens_ofList, map_item_placed, List.map_append, List.map_cons] at hitems
  rcases List.append_eq_append_iff.mp hitems with ⟨js, -, hend⟩ | ⟨js, hpre, hpost⟩
  · cases js with
    | nil => exact absurd (congrArg Prod.fst (List.cons.inj hend).1).symm hk
    | cons j js => simp at hend
  · cases js with
    | nil => exact absurd (congrArg Prod.fst (List.cons.inj hpost).1) hk
    | cons j js =>
      obtain ⟨rfl, hpost⟩ := List.cons.inj hpost
      rw [List.map_cons, hpost, chars_append, chars_cons (.eof, ""), chars_nil,
        String.toList_empty, List.append_nil, List.append_nil]
      exact longest_items hclean hpre

theorem spells_of_lex (h : lex source = .ok s) (ht : t ∈ s.tokens.toList) (hk : t.kind ≠ .eof) :
    Spells t.kind t.text.toList := by
  obtain ⟨pre, post, hs⟩ := List.append_of_mem ht
  exact (longest_of_lex h hs hk).spells

/-- The text of a token is the longest lexeme that the rest of the source begins with, and it spells no other
kind. A name is a keyword if it is spelled like one, and an identifier if it is not. -/
theorem longest_match (h : lex source = .ok s) (ht : t ∈ s.tokens.toList) (hk : t.kind ≠ .eof) :
    Longest t.kind t.text.toList (Text.slice ⟨t.span.start, source.utf8ByteSize⟩ source) ∧
      (∀ kind, Spells kind t.text.toList → kind = t.kind) ∧
      (IsName t.text.toList →
        (∀ word : Keyword, t.kind = .keyword word ↔ t.text = word.spelling) ∧
          (t.kind = .identifier ↔ ∀ word : Keyword, t.text ≠ word.spelling)) := by
  obtain ⟨pre, post, hs⟩ := List.append_of_mem ht
  have hlongest := longest_of_lex h hs hk
  have hkind (kind : TokenKind) (hspells : Spells kind t.text.toList) : t.kind = kind :=
    hlongest.spells.unique hspells
  have hspells {kind : TokenKind} (hkind : t.kind = kind) : Spells kind t.text.toList :=
    hkind ▸ hlongest.spells
  refine ⟨slice_rest h hs ▸ hlongest, fun kind hspells => (hkind kind hspells).symm, fun hname => ⟨?_, ?_⟩⟩
  · exact fun word => ⟨fun hword => String.toList_inj.mp (hspells hword).symm,
      fun htext => hkind _ (congrArg String.toList htext.symm)⟩
  · exact ⟨fun hid word htext => (hspells hid).2 word (congrArg String.toList htext.symm),
      fun hnone => hkind _ ⟨hname, fun word hword => hnone word (String.toList_inj.mp hword.symm)⟩⟩

theorem longest_match_based :
    ∃ s t, lex "fund<=0b12/*/**/*/" = .ok s ∧ t ∈ s.tokens.toList ∧ t.kind ≠ .eof ∧
      Longest .integer ['0', 'b', '1'] "0b12/*/**/*/".toList := by
  have h := lex_eq_ok.mpr ⟨(by decide +kernel : Clean "fund<=0b12/*/**/*/".toList), rfl⟩
  refine ⟨_, ⟨.integer, .visible, "0b1", ⟨6, 9⟩, 2, ⟨1, 7⟩⟩, h, by decide +kernel, by decide, ?_⟩
  have hrest : Text.slice ⟨6, "fund<=0b12/*/**/*/".utf8ByteSize⟩ "fund<=0b12/*/**/*/" =
      "0b12/*/**/*/".toList := by decide +kernel
  rw [← hrest]
  exact (longest_match (t := ⟨.integer, .visible, "0b1", ⟨6, 9⟩, 2, ⟨1, 7⟩⟩) h (by decide +kernel)
    (by decide)).1

end Linewise
