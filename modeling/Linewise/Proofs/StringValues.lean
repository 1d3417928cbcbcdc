import Linewise.Proofs.Lexing.Decoding
import Linewise.Proofs.Lexing.Parted
import Linewise.Proofs.Streams

/-!
# The values of string literals

The lists of parts that literals are decoded to are those in canonical form: no empty text, no two texts next
to each other, references to names only. Each of them is the value of a literal that spells its characters as
code points, so that no character ends the literal and none goes on with a name.
-/

namespace Linewise.StringLiteral

open Lexeme (IsName StringBody)

variable {c : Char} {name : List Char} {parts : List StringPart} {ps : List Piece}

-- ---------------------------------------------------------------------------
-- Spelling a value
-- ---------------------------------------------------------------------------

def hexDigits (n : Nat) : List Char := [n / 4096, n / 256 % 16, n / 16 % 16, n % 16].map Nat.digitChar

theorem isHexDigit_hexDigits {n : Nat} (h : n < 65536) : ∀ d ∈ hexDigits n, Text.isHexDigit d = true := by
  intro d hd
  obtain ⟨digit, hdigit, rfl⟩ := List.mem_map.mp hd
  refine (digitChar_hex digit ?_).1
  simp only [List.mem_cons, List.not_mem_nil, or_false] at hdigit
  omega

theorem codePoint_hexDigits {n : Nat} (h : n < 65536) : codePoint (hexDigits n) = n := by
  have hvalue (d : Nat) (hd : d < 16) := (digitChar_hex d hd).2
  simp only [codePoint, hexDigits, List.map_cons, List.map_nil, List.foldl_cons, List.foldl_nil]
  rw [hvalue _ (by omega), hvalue _ (by omega), hvalue _ (by omega), hvalue _ (by omega)]
  omega

/-- A character by its code point if four digits are enough for it, otherwise as it is. -/
def charSpelling (c : Char) : List Char :=
  if c.toNat < 65536 then '\\' :: 'u' :: hexDigits c.toNat else [c]

def pieceSpelling : Piece → List Char
  | .char c => charSpelling c
  | .reference name => '$' :: name

def spelling (ps : List Piece) : List Char := ps.flatMap pieceSpelling

theorem spelling_char (c : Char) (ps : List Piece) :
    spelling (.char c :: ps) = charSpelling c ++ spelling ps := rfl

theorem spelling_reference (name : List Char) (ps : List Piece) :
    spelling (.reference name :: ps) = '$' :: (name ++ spelling ps) := rfl

-- ---------------------------------------------------------------------------
-- Reading the spelling
-- ---------------------------------------------------------------------------

theorem toNat_lt_of_isNameRest (h : Text.isNameRest c = true) : c.toNat < 128 := by
  have hval : c.val.toNat = c.toNat := rfl
  -- The letters, the digits and the underscore, in this order.
  have hrest : (((decide (c.val ≥ 'A'.val ∧ c.val ≤ 'Z'.val) ||
      decide (c.val ≥ 'a'.val) && decide (c.val ≤ 'z'.val)) || c.isDigit) || c == '_') = true := h
  simp only [Char.isDigit, Bool.or_eq_true, Bool.and_eq_true, decide_eq_true_eq, beq_iff_eq,
    UInt32.le_iff_toNat_le] at hrest
  rcases hrest with ((h | h) | h) | rfl
  · simp at h
    omega
  · simp at h
    omega
  · simp at h
    omega
  · decide

theorem plain_of_large (h : ¬c.toNat < 65536) :
    (c ≠ '"' ∧ c ≠ '\\' ∧ Text.isLineBreak c = false) ∧ c ≠ '$' ∧ Text.isNameRest c = false := by
  have hne {d : Char} (hd : d.toNat < 65536) : c ≠ d := by
    rintro rfl
    exact h hd
  refine ⟨⟨hne (by decide), hne (by decide), ?_⟩, hne (by decide), Bool.eq_false_iff.mpr fun hname => h ?_⟩
  · rw [Text.isLineBreak, beq_false_of_ne (hne (by decide)), beq_false_of_ne (hne (by decide))]
    rfl
  · exact Nat.lt_trans (toNat_lt_of_isNameRest hname) (by decide)

theorem head_spelling (ps : List Piece) : ∀ c ∈ (spelling ps).head?, Text.isNameRest c = false := by
  cases ps with
  | nil => exact nofun
  | cons p ps =>
    cases p with
    | reference name =>
      rintro _ ⟨⟩
      rfl
    | char c =>
      rw [spelling_char, charSpelling]
      split
      · rintro _ ⟨⟩
        rfl
      · rintro _ ⟨⟩
        exact (plain_of_large ‹_›).2.2

theorem pieces_spelling (h : NamesOnly ps) : pieces 0 (spelling ps) = ps := by
  induction ps with
  | nil => rfl
  | cons p ps ih =>
    have hrest := ih h.tail
    cases p with
    | reference name =>
      rw [spelling_reference, pieces_reference (h name List.mem_cons_self) (head_spelling ps), hrest]
    | char c =>
      rw [spelling_char, charSpelling]
      split
      · rename_i hc
        have hchar : unicodePieces (hexDigits c.toNat) = [.char c] :=
          unicodePieces_eq_char nofun (isHexDigit_hexDigits hc) (codePoint_hexDigits hc)
        rw [List.cons_append, List.cons_append, pieces_unicode rfl, hchar, hrest, List.singleton_append]
      · rename_i hc
        obtain ⟨⟨-, hbackslash, -⟩, hdollar, -⟩ := plain_of_large hc
        rw [List.singleton_append, pieces_plain ⟨hbackslash, hdollar⟩, hrest]

theorem stringBody_spelling (h : NamesOnly ps) : StringBody (spelling ps) := by
  induction ps with
  | nil => exact .nil
  | cons p ps ih =>
    have hrest := ih h.tail
    cases p with
    | reference name =>
      have hname := (h name List.mem_cons_self).forall_isNameRest
      exact .char (by decide) (hrest.append_left fun c hc => Lexeme.plain_of_isNameRest (hname c hc))
    | char c =>
      rw [spelling_char, charSpelling]
      split
      · exact .unicode rfl (isHexDigit_hexDigits ‹_›) hrest
      · exact .char (plain_of_large ‹_›).1 hrest

-- ---------------------------------------------------------------------------
-- Literals
-- ---------------------------------------------------------------------------

theorem lex_quoted {cs : List Char} (h : StringBody cs) :
    lex (quoted cs) = .ok (.ofList [(.string, quoted cs), (.eof, "")]) := by
  have htext : (quoted cs).toList = '"' :: (cs ++ ['"']) := String.toList_ofList
  have hscan : Lexeme.scan '"' (cs ++ ['"'] ++ chars []) = .good .string (cs ++ ['"']).length := by
    rw [chars_nil, List.append_nil, List.length_append]
    exact Lexeme.string_body h []
  have hparted : Parted [(.string, quoted cs)] := ⟨⟨'"', _, htext, hscan⟩, trivial⟩
  have hchars : chars [(.string, quoted cs)] = (quoted cs).toList := List.append_nil _
  obtain ⟨hclean, hitems⟩ := hparted.items_eq
  rw [hchars] at hclean hitems
  exact lex_eq_ok.mpr ⟨hclean, by rw [hitems]; rfl⟩

theorem decode_spelling (h : IsCanonical parts) : decode (quoted (spelling (contents parts))) = parts := by
  have hpieces := contents_quoted (spelling (contents parts))
  rw [contents_decode, pieces_spelling h.namesOnly] at hpieces
  rw [decode, hpieces, join_contents h (.inl rfl)]
  rfl

-- The letter does not go on with the name of the reference in front of it.
example : decode (quoted (spelling [.char '"', .reference ['a'], .char 'b'])) =
    [.text "\"", .reference "a", .text "b"] := by
  decide

/-- The values of the literals in sources are the lists in canonical form, and each of these is the value of a
source that holds nothing but a literal. -/
theorem literal_values (parts : List StringPart) :
    ((∃ source s t, lex source = .ok s ∧ t ∈ s.tokens.toList ∧ t.kind = .string ∧ decode t.text = parts) ↔
        IsCanonical parts) ∧
      (IsCanonical parts ↔
        ∃ literal, lex literal = .ok (.ofList [(.string, literal), (.eof, "")]) ∧ decode literal = parts) := by
  have hliteral (h : IsCanonical parts) :
      ∃ literal, lex literal = .ok (.ofList [(.string, literal), (.eof, "")]) ∧ decode literal = parts :=
    ⟨_, lex_quoted (stringBody_spelling h.namesOnly), decode_spelling h⟩
  refine ⟨⟨?_, fun h => ?_⟩, hliteral, ?_⟩
  · rintro ⟨-, -, t, -, -, -, rfl⟩
    exact isCanonical_decode t.text
  · obtain ⟨literal, hlex, hdecode⟩ := hliteral h
    refine ⟨literal, _, TokenStream.empty.pushed .visible .string literal, hlex, ?_, rfl, hdecode⟩
    exact List.mem_cons_self
  · rintro ⟨literal, -, rfl⟩
    exact isCanonical_decode literal

end Linewise.StringLiteral
