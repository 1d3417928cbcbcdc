import Linewise.Proofs.Lexing.Language
import Linewise.StringLiteral

/-!
# Decoded literals

The value of a string literal, character by character: `contents`. Decoding makes parts of the pieces that
the body falls into, and `contents` takes the parts to pieces again. The parts are in canonical form, which is
the only one with these contents.
-/

namespace Linewise

open Lexeme (IsName StringBody)

namespace StringLiteral

variable {c : Char} {cs ds name run : List Char} {skip : Nat} {p : StringPart} {parts : List StringPart}
  {ps : List Piece}

def partContents : StringPart → List Piece
  | .text s => s.toList.map .char
  | .reference name => [.reference name.toList]

/-- What the parts hold: characters and references, wherever one part ends and another begins. -/
def contents (parts : List StringPart) : List Piece := parts.flatMap partContents

@[simp] theorem contents_nil : contents [] = [] := rfl

@[simp] theorem contents_cons (p : StringPart) (parts : List StringPart) :
    contents (p :: parts) = partContents p ++ contents parts := rfl

@[simp] theorem contents_append (parts others : List StringPart) :
    contents (parts ++ others) = contents parts ++ contents others := List.flatMap_append

-- ---------------------------------------------------------------------------
-- Joining pieces
-- ---------------------------------------------------------------------------

theorem contents_textPart (cs : List Char) : contents (textPart cs) = cs.map .char := by
  unfold textPart
  split
  · rename_i h
    rw [h]
    rfl
  · simp [partContents]

theorem contents_join (run : List Char) (ps : List Piece) :
    contents (join run ps) = run.reverse.map .char ++ ps := by
  induction ps generalizing run with
  | nil => simp [join, contents_textPart]
  | cons p ps ih =>
    cases p with
    | char c => simp [join, ih]
    | reference name => simp [join, ih, contents_textPart, partContents]

theorem contents_decode (raw : String) : contents (decode raw) = pieces 0 (body raw.toList) :=
  contents_join [] _

/-- No text is empty, no text stands next to another one, and references are names. -/
structure IsCanonical (parts : List StringPart) : Prop where
  nonempty : .text "" ∉ parts
  apart : ∀ s u, ¬[.text s, .text u] <:+: parts
  names : ∀ name, .reference name ∈ parts → IsName name.toList

theorem IsCanonical.tail (h : IsCanonical (p :: parts)) : IsCanonical parts where
  nonempty := fun hmem => h.nonempty (List.mem_cons_of_mem p hmem)
  apart s u hinfix := h.apart s u (List.infix_cons hinfix)
  names name hmem := h.names name (List.mem_cons_of_mem p hmem)

def NamesOnly (ps : List Piece) : Prop := ∀ name, .reference name ∈ ps → IsName name

theorem NamesOnly.tail {p : Piece} (h : NamesOnly (p :: ps)) : NamesOnly ps :=
  fun name hmem => h name (List.mem_cons_of_mem p hmem)

theorem IsCanonical.namesOnly (h : IsCanonical parts) : NamesOnly (contents parts) := by
  intro name hmem
  obtain ⟨p, hp, hpart⟩ := List.mem_flatMap.mp hmem
  cases p with
  | text s => simp [partContents] at hpart
  | reference n =>
    obtain rfl : name = n.toList := by simpa [partContents] using hpart
    exact h.names n hp

theorem isCanonical_nil : IsCanonical [] := ⟨by simp, by simp, by simp⟩

theorem IsCanonical.cons_text {s : String} (hs : s ≠ "") (hhead : ∀ u, parts.head? ≠ some (.text u))
    (h : IsCanonical parts) : IsCanonical (.text s :: parts) where
  nonempty hmem := by
    rcases List.mem_cons.mp hmem with heq | hmem
    · exact hs (StringPart.text.inj heq).symm
    · exact h.nonempty hmem
  apart t u hinfix := by
    rcases List.infix_cons_iff.mp hinfix with hprefix | hinfix
    · obtain ⟨rest, hrest⟩ := (List.cons_prefix_cons.mp hprefix).2
      exact hhead u (by rw [← hrest]; rfl)
    · exact h.apart t u hinfix
  names name hmem := h.names name (by simpa using hmem)

theorem IsCanonical.cons_reference (hname : IsName name) (h : IsCanonical parts) :
    IsCanonical (.reference (String.ofList name) :: parts) where
  nonempty := by simpa using h.nonempty
  apart t u hinfix := by
    rcases List.infix_cons_iff.mp hinfix with hprefix | hinfix
    · cases (List.cons_prefix_cons.mp hprefix).1
    · exact h.apart t u hinfix
  names n hmem := by
    rcases List.mem_cons.mp hmem with heq | hmem
    · rwa [StringPart.reference.inj heq, String.toList_ofList]
    · exact h.names n hmem

theorem IsCanonical.append_textPart (cs : List Char) (hhead : ∀ u, parts.head? ≠ some (.text u))
    (h : IsCanonical parts) : IsCanonical (textPart cs ++ parts) := by
  unfold textPart
  split
  · exact h
  · exact h.cons_text (by simpa) hhead

theorem isCanonical_join (run : List Char) (h : NamesOnly ps) : IsCanonical (join run ps) := by
  induction ps generalizing run with
  | nil =>
    rw [join, ← List.append_nil (textPart _)]
    exact isCanonical_nil.append_textPart run.reverse nofun
  | cons p ps ih =>
    cases p with
    | char c => exact ih _ h.tail
    | reference name =>
      have hrest := (ih [] h.tail).cons_reference (h name List.mem_cons_self)
      exact hrest.append_textPart run.reverse nofun

theorem join_chars (run cs : List Char) (ps : List Piece) :
    join run (cs.map .char ++ ps) = join (cs.reverse ++ run) ps := by
  induction cs generalizing run with
  | nil => rfl
  | cons c cs ih => simp [join, ih]

theorem join_contents (h : IsCanonical parts) (hhead : run = [] ∨ ∀ u, parts.head? ≠ some (.text u)) :
    join run (contents parts) = textPart run.reverse ++ parts := by
  induction parts generalizing run with
  | nil => simp [join]
  | cons p parts ih =>
    cases p with
    | reference name =>
      rw [contents_cons, partContents, List.singleton_append, join, ih h.tail (.inl rfl), String.ofList_toList]
      rfl
    | text s =>
      obtain rfl : run = [] := hhead.resolve_right fun hne => hne s rfl
      have hs : s.toList ≠ [] := fun hnil => h.nonempty (by
        rw [String.toList_eq_nil_iff.mp hnil]
        exact List.mem_cons_self)
      -- Behind a text stands a reference, or nothing.
      have hnext : ∀ u, parts.head? ≠ some (.text u) := by
        intro u hu
        obtain ⟨rest, rfl⟩ := List.head?_eq_some_iff.mp hu
        exact h.apart s u ⟨[], rest, rfl⟩
      rw [contents_cons, partContents, join_chars, List.append_nil, ih h.tail (.inr hnext),
        List.reverse_reverse, textPart, if_neg hs, String.ofList_toList]
      rfl

-- ---------------------------------------------------------------------------
-- Hexadecimal digits
-- ---------------------------------------------------------------------------

def codePoint (digits : List Char) : Nat := digits.foldl (fun n d => 16 * n + Text.hexValue d) 0

theorem hexValue_lt (c : Char) : Text.hexValue c < 16 := by
  have hval : c.val.toNat = c.toNat := rfl
  unfold Text.hexValue
  split
  · rename_i hc
    simp only [Char.isDigit, Bool.and_eq_true, decide_eq_true_eq, UInt32.le_iff_toNat_le] at hc
    simp at hc ⊢
    omega
  split
  · rename_i hc
    simp only [Bool.and_eq_true, decide_eq_true_eq, Char.le_def, UInt32.le_iff_toNat_le] at hc
    simp at hc ⊢
    omega
  split
  · rename_i hc
    simp only [Bool.and_eq_true, decide_eq_true_eq, Char.le_def, UInt32.le_iff_toNat_le] at hc
    simp at hc ⊢
    omega
  · decide

theorem digitChar_hex : ∀ d < 16, Text.isHexDigit (Nat.digitChar d) = true ∧
    Text.hexValue (Nat.digitChar d) = d := by
  decide

theorem foldl_hexValue_lt (n : Nat) (ds : List Char) :
    ds.foldl (fun n d => 16 * n + Text.hexValue d) n < (n + 1) * Nat.pow 16 ds.length := by
  induction ds generalizing n with
  | nil => exact Nat.lt_of_lt_of_eq (Nat.lt_succ_self n) (Nat.mul_one _).symm
  | cons d ds ih =>
    have hd := hexValue_lt d
    calc ds.foldl (fun n d => 16 * n + Text.hexValue d) (16 * n + Text.hexValue d)
      _ < (16 * n + Text.hexValue d + 1) * Nat.pow 16 ds.length := ih _
      _ ≤ (n + 1) * 16 * Nat.pow 16 ds.length := Nat.mul_le_mul_right _ (by omega)
      _ = (n + 1) * Nat.pow 16 (ds.length + 1) := by rw [Nat.mul_assoc, Nat.mul_comm 16]; rfl

theorem codePoint_lt_pow (ds : List Char) : codePoint ds < Nat.pow 16 ds.length :=
  Nat.lt_of_lt_of_eq (foldl_hexValue_lt 0 ds) (Nat.one_mul _)

theorem hexNumber?_eq (hne : ds ≠ []) (hds : ∀ d ∈ ds, Text.isHexDigit d = true) :
    hexNumber? ds = some (codePoint ds) := by
  unfold hexNumber?
  split
  · exact absurd (hds '+' List.mem_cons_self) (by decide)
  · exact if_pos ⟨hne, List.all_eq_true.mpr hds⟩

theorem unicodePieces_eq_char (hne : ds ≠ []) (hds : ∀ d ∈ ds, Text.isHexDigit d = true)
    (hc : codePoint ds = c.toNat) : unicodePieces ds = [.char c] := by
  have hchar : unicodeChar? ds = some c := by
    rw [unicodeChar?, hexNumber?_eq hne hds, hc]
    exact (if_pos c.valid).trans (congrArg some (Char.ofNat_toNat c))
  rw [unicodePieces, hchar]

theorem unicodePieces_eq_spelling (hne : ds ≠ []) (hds : ∀ d ∈ ds, Text.isHexDigit d = true)
    (hc : ¬(codePoint ds).isValidChar) : unicodePieces ds = ('\\' :: 'u' :: ds).map .char := by
  have hnone : unicodeChar? ds = none := by
    rw [unicodeChar?, hexNumber?_eq hne hds]
    exact if_neg hc
  rw [unicodePieces, hnone]

-- ---------------------------------------------------------------------------
-- The pieces of a body
-- ---------------------------------------------------------------------------

theorem pieces_drop (skip : Nat) (cs : List Char) : pieces skip cs = pieces 0 (cs.drop skip) := by
  induction cs generalizing skip with
  | nil => cases skip <;> simp [pieces]
  | cons c cs ih =>
    cases skip with
    | zero => rfl
    | succ skip => rw [pieces, ih, List.drop_succ_cons]

theorem pieces_plain (hc : c ≠ '\\' ∧ c ≠ '$') (cs : List Char) :
    pieces 0 (c :: cs) = .char c :: pieces 0 cs := by
  rw [pieces]
  · exact fun _ h _ => hc.1 h
  · exact fun _ _ h _ => hc.1 h
  · exact fun _ _ h _ => hc.2 h

theorem pieces_escape (hc : c ≠ 'u') (cs : List Char) :
    pieces 0 ('\\' :: c :: cs) = .char (escapedChar c) :: pieces 0 cs := by
  rw [pieces]
  exact hc

theorem pieces_unicode (hlength : ds.length = 4) (cs : List Char) :
    pieces 0 ('\\' :: 'u' :: (ds ++ cs)) = unicodePieces ds ++ pieces 0 cs := by
  rw [pieces, pieces_drop 4, ← hlength, List.take_left, List.drop_left]

theorem takeWhile_append_of_head {p : Char → Bool} (h : ∀ c ∈ ds.head?, p c = false) (cs : List Char) :
    (cs ++ ds).takeWhile p = cs.takeWhile p := by
  induction cs with
  | nil =>
    cases ds with
    | nil => rfl
    | cons d ds => rw [List.nil_append, List.takeWhile_cons, h d rfl]; rfl
  | cons c cs ih => rw [List.cons_append, List.takeWhile_cons, List.takeWhile_cons, ih]

theorem pieces_dollar (hc : Text.isNameStart c = true) (cs : List Char) :
    pieces 0 ('$' :: c :: cs) =
      .reference ((c :: cs).takeWhile Text.isNameRest) ::
        pieces ((c :: cs).takeWhile Text.isNameRest).length (c :: cs) := by
  rw [pieces, if_pos hc]

theorem pieces_reference (hname : IsName name) (hnext : ∀ c ∈ cs.head?, Text.isNameRest c = false) :
    pieces 0 ('$' :: (name ++ cs)) = .reference name :: pieces 0 cs := by
  have hnone : cs.takeWhile Text.isNameRest = [] := takeWhile_append_of_head hnext []
  have hall : (name ++ cs).takeWhile Text.isNameRest = name := by
    rw [List.takeWhile_append_of_pos hname.forall_isNameRest, hnone, List.append_nil]
  cases name with
  | nil => exact hname.elim
  | cons c ds =>
    rw [List.cons_append] at hall ⊢
    rw [pieces_dollar hname.1, hall, pieces_drop, ← List.cons_append, List.drop_left]

theorem pieces_dollar_alone (hnext : ∀ c ∈ cs.head?, Text.isNameStart c = false) :
    pieces 0 ('$' :: cs) = .char '$' :: pieces 0 cs := by
  cases cs with
  | nil => rfl
  | cons c cs => rw [pieces, if_neg (by simp [hnext c rfl])]

theorem isName_takeWhile (hc : Text.isNameStart c = true) (cs : List Char) :
    IsName ((c :: cs).takeWhile Text.isNameRest) := by
  have hname : IsName [c] := ⟨hc, nofun⟩
  have hrest := hname.forall_isNameRest c List.mem_cons_self
  rw [List.takeWhile_cons, if_pos hrest]
  exact ⟨hc, Lexeme.forall_takeWhile _ cs⟩

theorem NamesOnly.cons_char (h : NamesOnly ps) : NamesOnly (.char c :: ps) :=
  fun name hmem => h name (by simpa using hmem)

theorem namesOnly_unicodePieces (ds : List Char) (h : NamesOnly ps) : NamesOnly (unicodePieces ds ++ ps) := by
  have hchars (cs : List Char) : NamesOnly (cs.map .char ++ ps) := fun name hmem => h name (by simpa using hmem)
  unfold unicodePieces
  split
  · exact h.cons_char
  · exact hchars _

theorem namesOnly_pieces (skip : Nat) (cs : List Char) : NamesOnly (pieces skip cs) := by
  fun_induction pieces skip cs with
  | case1 => exact nofun
  | case2 skip c cs ih => exact ih
  | case3 cs ih => exact namesOnly_unicodePieces _ ih
  | case4 c cs hu ih => exact ih.cons_char
  | case5 c cs hstart name ih =>
    intro n hmem
    rcases List.mem_cons.mp hmem with heq | hmem
    · rw [Piece.reference.inj heq]
      exact isName_takeWhile hstart cs
    · exact ih n hmem
  | case6 c cs hstart ih => exact ih.cons_char
  | case7 c cs _ _ _ ih => exact ih.cons_char

theorem isCanonical_decode (raw : String) : IsCanonical (decode raw) :=
  isCanonical_join [] (namesOnly_pieces 0 _)

-- ---------------------------------------------------------------------------
-- Bodies put together
-- ---------------------------------------------------------------------------

/-- What is read as characters and escapes up to its end, with no escape left open there. -/
inductive Whole : List Char → Prop
  | nil : Whole []
  | char {c : Char} {cs : List Char} (hc : c ≠ '\\') (h : Whole cs) : Whole (c :: cs)
  | escape {c : Char} {cs : List Char} (hc : c ≠ 'u') (h : Whole cs) : Whole ('\\' :: c :: cs)
  | unicode {ds cs : List Char} (hlength : ds.length = 4) (h : Whole cs) : Whole ('\\' :: 'u' :: (ds ++ cs))

theorem whole_of_stringBody (h : StringBody cs) : Whole cs := by
  induction h with
  | nil => exact .nil
  | char hc _ ih => exact .char hc.2.1 ih
  | @escape c cs hc _ ih =>
    have hu : c ≠ 'u' := by rintro rfl; simp at hc
    exact .escape hu ih
  | unicode hlength _ _ ih => exact .unicode hlength ih

/-- The pieces in front of a backslash do not depend on what it begins, from any place inside of a name on. -/
theorem Whole.pieces_append (h : Whole cs) (ds : List Char) (hle : skip ≤ cs.length)
    (hskip : ∀ c ∈ cs.take skip, Text.isNameRest c = true) :
    pieces skip (cs ++ '\\' :: ds) = pieces skip cs ++ pieces 0 ('\\' :: ds) := by
  induction h generalizing skip with
  | nil =>
    obtain rfl : skip = 0 := by simpa using hle
    rfl
  | @char c cs hc _ ih =>
    cases skip with
    | succ skip => exact ih (by simpa using hle) fun d hd => hskip d (List.mem_cons_of_mem c hd)
    | zero =>
      have htail := ih (Nat.zero_le _) (by simp)
      by_cases hdollar : c = '$'
      · subst hdollar
        -- A name ends in front of the backslash, so the reference is the same.
        cases cs with
        | nil => rfl
        | cons d cs =>
          cases hd : Text.isNameStart d with
          | false =>
            have hnext (es : List Char) : ∀ c ∈ (d :: es).head?, Text.isNameStart c = false := by
              rintro _ ⟨⟩
              exact hd
            rw [List.cons_append, List.cons_append, pieces_dollar_alone (hnext _),
              pieces_dollar_alone (hnext _)]
            exact congrArg (Piece.char '$' :: ·) htail
          | true =>
            have hend : ∀ c ∈ ('\\' :: ds).head?, Text.isNameRest c = false := by
              rintro _ ⟨⟩
              rfl
            have htake := takeWhile_append_of_head hend (d :: cs)
            rw [List.cons_append] at htake
            rw [List.cons_append, List.cons_append, pieces_dollar hd, pieces_dollar hd, htake]
            refine congrArg (Piece.reference _ :: ·) (ih (List.takeWhile_prefix _).length_le ?_)
            rw [← Lexeme.countWhile, Lexeme.take_countWhile]
            exact Lexeme.forall_takeWhile _ _
      · rw [List.cons_append, pieces_plain ⟨hc, hdollar⟩, pieces_plain ⟨hc, hdollar⟩, htail, List.cons_append]
  | @escape c cs hu _ ih =>
    cases skip with
    | succ skip => exact absurd (hskip '\\' List.mem_cons_self) (by decide)
    | zero =>
      rw [List.cons_append, List.cons_append, pieces_escape hu, pieces_escape hu, ih (Nat.zero_le _) (by simp),
        List.cons_append]
  | @unicode es cs hlength _ ih =>
    cases skip with
    | succ skip => exact absurd (hskip '\\' List.mem_cons_self) (by decide)
    | zero =>
      rw [List.cons_append, List.cons_append, List.append_assoc, pieces_unicode hlength, pieces_unicode hlength,
        ih (Nat.zero_le _) (by simp), List.append_assoc]

theorem pieces_append_backslash (h : StringBody cs) (ds : List Char) (hle : skip ≤ cs.length)
    (hskip : ∀ c ∈ cs.take skip, Text.isNameRest c = true) :
    pieces skip (cs ++ '\\' :: ds) = pieces skip cs ++ pieces 0 ('\\' :: ds) :=
  (whole_of_stringBody h).pieces_append ds hle hskip

-- ---------------------------------------------------------------------------
-- Literals
-- ---------------------------------------------------------------------------

def quoted (cs : List Char) : String := String.ofList ('"' :: (cs ++ ['"']))

theorem contents_quoted (cs : List Char) : contents (decode (quoted cs)) = pieces 0 cs := by
  have hbody : body (quoted cs).toList = cs := by simp [quoted, body]
  rw [contents_decode, hbody]

end StringLiteral

end Linewise
