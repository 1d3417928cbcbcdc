import Linewise.Proofs.Lexing.Concatenation
import Linewise.Proofs.Lexing.Faults
import Linewise.Proofs.Lexing.Lossless

/-!
# Lexing line by line

Behind a line feed that is no part of a lexeme begun before it, a text is lexed as if it stood alone. So a
source, a line feed and another source have the tokens of both, or the faults of the second one.
-/

namespace Linewise

open Lexeme

variable {cs ds : List Char} {offset index : Nat} {point : Point}

theorem lexemes_append (ds : List Char) (hc : Clean cs) (hlast : cs.getLast? ≠ some '\r') :
    lexemes (cs ++ '\n' :: ds) = lexemes cs ++ ⟨['\n'], some .lineBreak, []⟩ :: lexemes ds := by
  induction cs using lexemes_induction with
  | nil => exact lexemes_cons '\n' ds
  | cons c cs ih =>
    obtain ⟨hflaws, hrest⟩ := clean_cons.mp hc
    have hlone : c = '\r' → cs ≠ [] := by
      rintro rfl rfl
      exact hlast rfl
    have hle := (sound_scan c cs).more_le
    have hrestLast : (cs.drop (scan c cs).more).getLast? ≠ some '\r' := by
      rw [List.getLast?_drop]
      split
      · exact nofun
      · intro h
        exact hlast (by rw [List.getLast?_cons, h]; rfl)
    rw [List.cons_append, lexemes_cons, scan_append ds hlone hflaws, List.drop_append_of_le_length hle,
      ih hrest hrestLast, lexemes_cons, ofScan, List.take_append_of_le_length hle]
    rfl

theorem items_append_lineFeed (ds : List Char) (hc : Clean cs) (hlast : cs.getLast? ≠ some '\r') :
    items (cs ++ '\n' :: ds) = items cs ++ (.lineBreak, "\n") :: items ds := by
  rw [items, lexemes_append ds hc hlast, List.filterMap_append, List.filterMap_cons]
  rfl

-- ---------------------------------------------------------------------------
-- Tokens further behind
-- ---------------------------------------------------------------------------

/-- A token so many bytes, tokens and lines further behind. -/
def Token.moved (bytes tokens lines : Nat) (t : Token) : Token :=
  { t with
    span := shift bytes t.span
    index := t.index + tokens
    start := ⟨t.start.line + lines, t.start.column⟩ }

theorem Point.advance_lines (line column n : Nat) (cs : List Char) :
    advance ⟨line + n, column⟩ cs =
      ⟨(advance ⟨line, column⟩ cs).line + n, (advance ⟨line, column⟩ cs).column⟩ := by
  rw [advance_eq, advance_eq]
  simp only [Nat.add_right_comm]

theorem placed_moved (bytes tokens lines : Nat) (is : List Item) :
    placed (offset + bytes) (index + tokens) ⟨point.line + lines, point.column⟩ is =
      (placed offset index point is).map (Token.moved bytes tokens lines) := by
  induction is generalizing offset index point with
  | nil => rfl
  | cons i is ih =>
    rw [placed, placed, List.map_cons, Point.advance_lines, Nat.add_right_comm offset,
      Nat.add_right_comm index, ih]
    simp only [Token.moved, shift, Nat.add_right_comm]

-- ---------------------------------------------------------------------------
-- Sources
-- ---------------------------------------------------------------------------

variable {a b : String} {s t : TokenStream}

def lineFeedBehind (a : String) (s : TokenStream) : Token where
  kind := .lineBreak
  channel := .hidden
  text := "\n"
  span := ⟨a.utf8ByteSize, a.utf8ByteSize + 1⟩
  index := s.size - 1
  start := .behind a.toList

theorem toList_append_lineFeed (a b : String) : (a ++ "\n" ++ b).toList = a.toList ++ '\n' :: b.toList := by
  simp

theorem tokens_append_lineFeed {j : TokenStream} (ha : lex a = .ok s) (hlast : a.toList.getLast? ≠ some '\r')
    (hb : lex b = .ok t) (hj : lex (a ++ "\n" ++ b) = .ok j) :
    j.tokens.toList = s.tokens.toList.dropLast ++ lineFeedBehind a s ::
      t.tokens.toList.map (Token.moved (a.utf8ByteSize + 1) s.size (Text.lineBreaks a.toList + 1)) := by
  have hca := (lex_eq_ok.mp ha).1
  have hchars := chars_items hca
  have htokens := tokens_of_lex ha
  have hsize : s.size = (items a.toList).length + 1 := by
    rw [TokenStream.size, ← Array.length_toList, htokens, length_placed, List.length_append]
    rfl
  have hfront : s.tokens.toList.dropLast = placed 0 0 .origin (items a.toList) := by
    rw [htokens, placed_append, placed, placed, List.dropLast_concat]
  have hpoint : pointAfter .origin (items a.toList) = .behind a.toList := by
    rw [pointAfter_items hca (List.prefix_refl _), hchars, Point.origin_advance]
  rw [tokens_of_lex hj, toList_append_lineFeed, items_append_lineFeed _ hca hlast, List.append_assoc,
    placed_append, hchars, Text.byteSize_toList, Nat.zero_add, Nat.zero_add, hpoint, hfront,
    List.cons_append, placed, lineFeedBehind, tokens_of_lex hb, ← placed_moved, hsize, Nat.zero_add,
    Nat.zero_add, Nat.add_sub_cancel]
  rfl

/-- A source that lexes and does not end in a carriage return, a line feed and another source: if the other
one lexes, these are the tokens of the first source without its end, a line break, and the tokens of the other
one, so many bytes, tokens and lines further behind and in their old columns. If it does not, its faults are
the faults, so many bytes further behind. -/
theorem lex_append_lineFeed (ha : lex a = .ok s) (hlast : a.toList.getLast? ≠ some '\r') (b : String) :
    match lex b with
    | .ok t => ∃ j, lex (a ++ "\n" ++ b) = .ok j ∧
        j.tokens.toList = s.tokens.toList.dropLast ++ lineFeedBehind a s ::
          t.tokens.toList.map (Token.moved (a.utf8ByteSize + 1) s.size (Text.lineBreaks a.toList + 1))
    | .error faults =>
        lex (a ++ "\n" ++ b) = .error (faults.map (LexicalFault.moved (a.utf8ByteSize + 1))) := by
  have hca := (lex_eq_ok.mp ha).1
  split
  · rename_i t hb
    have hj : lex (a ++ "\n" ++ b) = .ok _ := lex_eq_ok.mpr
      ⟨toList_append_lineFeed a b ▸ clean_append hca (lex_eq_ok.mp hb).1, rfl⟩
    exact ⟨_, hj, tokens_append_lineFeed ha hlast hb hj⟩
  · rename_i faults hb
    obtain ⟨hfaults, hne⟩ := lex_eq_error.mp hb
    refine lex_eq_error.mpr ⟨?_, by simpa using hne⟩
    rw [toList_append_lineFeed, lexemes_append _ hca hlast, faultsFrom_append, faultsFrom_eq_nil _ hca,
      flatMap_text_lexemes, Text.byteSize_toList, List.nil_append, ← hfaults, ← faultsFrom_add,
      Nat.zero_add, Nat.zero_add]
    rfl

theorem lex_append_lineFeed_comment :
    ∃ s t j, lex "a\r\n//é" = .ok s ∧ lex "=1" = .ok t ∧ lex ("a\r\n//é" ++ "\n" ++ "=1") = .ok j ∧
      j.tokens.toList = s.tokens.toList.dropLast ++ lineFeedBehind "a\r\n//é" s ::
        t.tokens.toList.map (Token.moved 8 4 2) ∧
      lex ("a\r\n//é" ++ "\n" ++ "=\"\\q") =
        .error [⟨.invalidEscape 'q', ⟨10, 12⟩⟩, ⟨.unterminatedString, ⟨9, 12⟩⟩] := by
  have ha := lex_eq_ok.mpr ⟨(by decide +kernel : Clean "a\r\n//é".toList), rfl⟩
  have hb := lex_eq_ok.mpr ⟨(by decide +kernel : Clean "=1".toList), rfl⟩
  have hbad : lex "=\"\\q" = .error [⟨.invalidEscape 'q', ⟨2, 4⟩⟩, ⟨.unterminatedString, ⟨1, 4⟩⟩] :=
    lex_eq_error.mpr (by decide +kernel)
  have hgood := lex_append_lineFeed ha (by decide) "=1"
  have hfails := lex_append_lineFeed ha (by decide) "=\"\\q"
  rw [hb] at hgood
  rw [hbad] at hfails
  obtain ⟨j, hj, htokens⟩ := hgood
  exact ⟨_, _, j, ha, hb, hj, htokens, hfails⟩

end Linewise
