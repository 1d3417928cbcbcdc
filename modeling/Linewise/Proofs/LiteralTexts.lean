import Linewise.Lexeme
import Linewise.Proofs.Lexing.Decoding

/-!
# Texts that decoding keeps

Parts put together again give back the text of a literal without a backslash. Of the escapes that the lexer
reports, decoding keeps the spelling where it is inside of another escape and where no number stands behind
`\u`; everywhere else something is lost: the backslash in front of an unknown character, and the spelling of a
number that is short or has a sign.
-/

namespace Linewise.StringLiteral

open Lexeme (countWhile countWhile_of_all stringEnd)

variable {raw : String} {fault : LexicalFault} {before escape after cs ds digits : List Char} {c : Char}
  {skip : Nat}

-- ---------------------------------------------------------------------------
-- Putting parts together
-- ---------------------------------------------------------------------------

def pieceText : Piece → List Char
  | .char c => [c]
  | .reference name => '$' :: name

theorem flatMap_map_char (cs : List Char) : (cs.map Piece.char).flatMap pieceText = cs := by
  induction cs with
  | nil => rfl
  | cons c cs ih => rw [List.map_cons, List.flatMap_cons, ih]; rfl

theorem toList_spelling (p : StringPart) : p.spelling.toList = (partContents p).flatMap pieceText := by
  cases p with
  | text s => exact (flatMap_map_char s.toList).symm
  | reference name => simp [StringPart.spelling, partContents, pieceText]

theorem toList_concat (parts : List StringPart) :
    (StringPart.concat parts).toList = (contents parts).flatMap pieceText := by
  rw [StringPart.concat, String.toList_join, List.flatMap_map, contents, List.flatMap_assoc]
  exact congrArg (List.flatMap · parts) (funext toList_spelling)

theorem flatMap_pieces (h : '\\' ∉ cs) : (pieces skip cs).flatMap pieceText = cs.drop skip := by
  fun_induction pieces skip cs with
  | case1 => rw [List.drop_nil]; rfl
  | case2 skip c cs ih => exact ih (List.not_mem_of_not_mem_cons h)
  | case3 cs => exact absurd List.mem_cons_self h
  | case4 c cs => exact absurd List.mem_cons_self h
  | case5 c cs hstart name ih =>
    have hname : name ++ (c :: cs).drop name.length = c :: cs := by
      have htake : (c :: cs).take name.length = name := Lexeme.take_countWhile _ _
      have hsplit := List.take_append_drop name.length (c :: cs)
      rwa [htake] at hsplit
    rw [List.flatMap_cons, ih (List.not_mem_of_not_mem_cons h), pieceText, List.cons_append, hname]
    rfl
  | case6 c cs hstart ih => rw [List.flatMap_cons, ih (List.not_mem_of_not_mem_cons h)]; rfl
  | case7 c cs _ _ _ ih => rw [List.flatMap_cons, ih (List.not_mem_of_not_mem_cons h)]; rfl

/-- Dividing a text without a backslash into parts and putting them together again changes nothing, whatever
references, quotes and single `$` are in it. -/
theorem concat_decode_quoted (s : String) (h : '\\' ∉ s.toList) :
    StringPart.concat (decode ("\"" ++ s ++ "\"")) = s := by
  have hbody : body ("\"" ++ s ++ "\"").toList = s.toList := by simp [body]
  rw [← String.toList_inj, toList_concat, contents_decode, hbody, flatMap_pieces h, List.drop_zero]

theorem concat_decode_references :
    '\\' ∉ "$a$b $5$$c\"$".toList ∧
      decode ("\"" ++ "$a$b $5$$c\"$" ++ "\"") =
        [.reference "a", .reference "b", .text " $5$", .reference "c", .text "\"$"] ∧
      StringPart.concat (decode ("\"" ++ "$a$b $5$$c\"$" ++ "\"")) = "$a$b $5$$c\"$" :=
  ⟨by decide, by decide, concat_decode_quoted "$a$b $5$$c\"$" (by decide)⟩

-- ---------------------------------------------------------------------------
-- Escapes that are reported
-- ---------------------------------------------------------------------------

/-- The escapes that are not in the lexical grammar, given what stands behind them, and what is wrong with
them. -/
inductive IsRejected : LexicalFault → List Char → List Char → Prop
  | unknown {c : Char} {after : List Char} (hc : c ∉ ['t', 'b', 'r', 'n', '"', '\\', '$', 'u', '\n', '\r']) :
      IsRejected (.invalidEscape c) ['\\', c] after
  | unicode {ds after : List Char} (hds : ∀ d ∈ ds, Text.isHexDigit d = true) (hlength : ds.length < 4)
      (hnext : ∀ c ∈ after.head?, Text.isHexDigit c = false) :
      IsRejected .invalidUnicodeEscape ('\\' :: 'u' :: ds) after

theorem take_append_of_short {n : Nat} (h : ds.length < n) (cs : List Char) :
    (ds ++ cs).take n = ds ++ cs.take (n - ds.length) := by
  rw [List.take_append, List.take_of_length_le (Nat.le_of_lt h)]

theorem drop_append_of_short {n : Nat} (h : ds.length < n) (cs : List Char) :
    (ds ++ cs).drop n = cs.drop (n - ds.length) := by
  rw [List.drop_append, List.drop_eq_nil_of_le (Nat.le_of_lt h), List.nil_append]

theorem head_take {p : Char → Bool} (h : ∀ c ∈ cs.head?, p c = false) (n : Nat) :
    ∀ c ∈ (cs.take n).head?, p c = false := by
  intro c hc
  rw [List.head?_take] at hc
  split at hc
  · cases hc
  · exact h c hc

theorem IsRejected.reported (h : IsRejected fault escape after) (read : Nat) (rest : List Char) :
    ∃ stop flaws, stringEnd read (escape ++ after ++ '"' :: rest) =
      (stop, ⟨fault, read, read + escape.length⟩ :: flaws) := by
  cases h with
  | @unknown c _ hc =>
    have hu : c ≠ 'u' := by rintro rfl; simp at hc
    simp only [List.mem_cons, List.not_mem_nil, or_false, not_or] at hc
    have hbreak : Text.isLineBreak c = false := by simp [Text.isLineBreak, hc]
    have hescapable : ¬Lexeme.isEscapable c = true := by simp [Lexeme.isEscapable_iff, hc]
    rw [List.cons_append, List.cons_append, List.cons_append, List.cons_append, stringEnd]
    · simp only [hbreak, hescapable, Bool.false_eq_true, ↓reduceIte]
      exact ⟨_, _, rfl⟩
    · exact hu
  | @unicode ds _ hds hlength hnext =>
    have hhead : ∀ c ∈ (after ++ '"' :: rest).head?, Text.isHexDigit c = false := by
      cases after with
      | nil => rintro _ ⟨⟩; rfl
      | cons d after => exact hnext
    have hdigits : countWhile Text.isHexDigit ((ds ++ (after ++ '"' :: rest)).take 4) = ds.length := by
      have hnone := takeWhile_append_of_head (head_take hhead (4 - ds.length)) []
      rw [List.nil_append] at hnone
      rw [take_append_of_short hlength, countWhile_of_all hds, countWhile, hnone]
      rfl
    have hstop : read + 2 + ds.length = read + ('\\' :: 'u' :: ds).length := by
      simp only [List.length_cons]
      omega
    rw [List.append_assoc, List.cons_append, List.cons_append, stringEnd, ← hstop]
    simp only [hdigits, Nat.ne_of_lt hlength, ↓reduceIte]
    exact ⟨_, _, rfl⟩

-- ---------------------------------------------------------------------------
-- Numbers that are read all the same
-- ---------------------------------------------------------------------------

/-- The number behind `\u` that has fewer than four digits and is read all the same: its digits end where the
literal does, or a sign stands in front of them. -/
inductive LooseNumber : List Char → List Char → List Char → Prop
  | ended {ds : List Char} (hne : ds ≠ []) : LooseNumber ds [] ds
  | signed {after digits : List Char} (hafter : after.take 4 = '+' :: digits) (hne : digits ≠ [])
      (hdigits : ∀ d ∈ digits, Text.isHexDigit d = true) : LooseNumber [] after digits

theorem LooseNumber.hexNumber? (h : LooseNumber ds after digits) (hds : ∀ d ∈ ds, Text.isHexDigit d = true) :
    hexNumber? (ds ++ after.take (4 - ds.length)) = some (codePoint digits) := by
  cases h with
  | ended hne => rw [List.take_nil, List.append_nil, hexNumber?_eq hne hds]
  | signed hafter hne hdigits =>
    show StringLiteral.hexNumber? (after.take 4) = _
    rw [hafter]
    exact if_pos ⟨hne, List.all_eq_true.mpr hdigits⟩

theorem LooseNumber.length_lt (h : LooseNumber ds after digits) (hlength : ds.length < 4) :
    digits.length < 4 := by
  cases h with
  | ended hne => exact hlength
  | signed hafter hne hdigits =>
    have hle := congrArg List.length hafter
    rw [List.length_take, List.length_cons] at hle
    omega

theorem LooseNumber.unicodePieces (h : LooseNumber ds after digits) (hds : ∀ d ∈ ds, Text.isHexDigit d = true)
    (hlength : ds.length < 4) :
    unicodePieces (ds ++ after.take (4 - ds.length)) = [.char (Char.ofNat (codePoint digits))] := by
  have hlt : codePoint digits < 4096 := Nat.lt_of_lt_of_le (codePoint_lt_pow digits)
    (Nat.pow_le_pow_right (by decide) (Nat.le_of_lt_succ (h.length_lt hlength)))
  have hvalid : (codePoint digits).isValidChar := .inl (by omega)
  rw [StringLiteral.unicodePieces, unicodeChar?, h.hexNumber? hds]
  simp only [hvalid, ↓reduceIte]

theorem hexNumber?_eq_none_of_mem (hmem : c ∈ cs) (hc : Text.isHexDigit c = false)
    (hplus : c ≠ '+' ∨ cs.head? ≠ some '+') : hexNumber? cs = none := by
  have hall {ds : List Char} (h : c ∈ ds) : ¬(ds ≠ [] ∧ ds.all Text.isHexDigit = true) := fun hdigits => by
    rw [List.all_eq_true.mp hdigits.2 c h] at hc
    cases hc
  unfold hexNumber?
  split
  · have hne : c ≠ '+' := hplus.resolve_right fun h => h rfl
    exact if_neg (hall (List.mem_of_ne_of_mem hne hmem))
  · exact if_neg (hall hmem)

theorem hexNumber?_eq_none (hds : ∀ d ∈ ds, Text.isHexDigit d = true) (hlength : ds.length < 4)
    (hnext : ∀ c ∈ after.head?, Text.isHexDigit c = false) (h : ¬∃ digits, LooseNumber ds after digits) :
    hexNumber? (ds ++ after.take (4 - ds.length)) = none := by
  cases ds with
  | nil =>
    show hexNumber? (after.take 4) = none
    cases after with
    | nil => rfl
    | cons c after =>
      by_cases hplus : c = '+'
      · subst hplus
        refine if_neg fun hdigits => h ⟨after.take 3, .signed rfl hdigits.1 (List.all_eq_true.mp hdigits.2)⟩
      · exact hexNumber?_eq_none_of_mem List.mem_cons_self (hnext c rfl) (.inl hplus)
  | cons d ds =>
    cases after with
    | nil => exact absurd ⟨_, .ended (List.cons_ne_nil d ds)⟩ h
    | cons c after =>
      obtain ⟨n, hn⟩ : ∃ n, 4 - (d :: ds).length = n + 1 := ⟨3 - (d :: ds).length, by omega⟩
      have hplus : d ≠ '+' := by
        rintro rfl
        exact absurd (hds '+' List.mem_cons_self) (by decide)
      rw [hn]
      exact hexNumber?_eq_none_of_mem (by simp) (hnext c rfl) (.inr (by simpa using hplus))

-- ---------------------------------------------------------------------------
-- What is left of an escape
-- ---------------------------------------------------------------------------

/-- What is read of an escape that is reported and of the text behind it. -/
inductive Leaves : List Char → List Char → List Piece → Prop
  | unknown {c : Char} {after : List Char} (hc : c ≠ 'u') :
      Leaves ['\\', c] after (.char c :: contents (decode (quoted after)))
  | number {ds after digits : List Char} (h : LooseNumber ds after digits) :
      Leaves ('\\' :: 'u' :: ds) after
        (.char (Char.ofNat (codePoint digits)) :: contents (decode (quoted (after.drop (4 - ds.length)))))
  | spelling {ds after : List Char} (h : ¬∃ digits, LooseNumber ds after digits) :
      Leaves ('\\' :: 'u' :: ds) after
        (('\\' :: 'u' :: ds).map .char ++ (after.take (4 - ds.length)).map .char ++
          contents (decode (quoted (after.drop (4 - ds.length)))))

theorem IsRejected.leaves (h : IsRejected fault escape after) :
    Leaves escape after (pieces 0 (escape ++ after)) := by
  cases h with
  | @unknown c _ hc =>
    have hu : c ≠ 'u' := by rintro rfl; simp at hc
    simp only [List.mem_cons, List.not_mem_nil, or_false, not_or] at hc
    have hsame : escapedChar c = c := by
      unfold escapedChar
      split <;> simp_all
    have hpieces : pieces 0 (['\\', c] ++ after) = .char c :: contents (decode (quoted after)) := by
      rw [contents_quoted, List.cons_append, List.singleton_append, pieces_escape hu, hsame]
    rw [hpieces]
    exact .unknown hu
  | @unicode ds _ hds hlength hnext =>
    have hpieces : pieces 0 ('\\' :: 'u' :: ds ++ after) =
        unicodePieces (ds ++ after.take (4 - ds.length)) ++
          contents (decode (quoted (after.drop (4 - ds.length)))) := by
      rw [List.cons_append, List.cons_append, pieces, pieces_drop 4, take_append_of_short hlength,
        drop_append_of_short hlength, contents_quoted]
    rw [hpieces]
    by_cases hloose : ∃ digits, LooseNumber ds after digits
    · obtain ⟨digits, hloose⟩ := hloose
      rw [hloose.unicodePieces hds hlength, List.singleton_append]
      exact .number hloose
    · have hspelling : unicodePieces (ds ++ after.take (4 - ds.length)) =
          ('\\' :: 'u' :: ds).map .char ++ (after.take (4 - ds.length)).map .char := by
        rw [unicodePieces, unicodeChar?, hexNumber?_eq_none hds hlength hnext hloose]
        simp
      rw [hspelling]
      exact .spelling hloose

-- ---------------------------------------------------------------------------
-- Escapes inside of other ones
-- ---------------------------------------------------------------------------

/-- What a text ends with that is not whole: an escape with too few characters. -/
inductive IsOpen : List Char → Prop
  | backslash : IsOpen ['\\']
  | unicode {ds : List Char} (hlength : ds.length < 4) : IsOpen ('\\' :: 'u' :: ds)

def EndsOpen (cs : List Char) : Prop := ∃ front last, cs = front ++ last ∧ Whole front ∧ IsOpen last

theorem EndsOpen.append (hcs : ∀ {ds}, Whole ds → Whole (cs ++ ds)) (h : EndsOpen ds) :
    EndsOpen (cs ++ ds) := by
  obtain ⟨front, last, rfl, hfront, hlast⟩ := h
  exact ⟨cs ++ front, last, (List.append_assoc _ _ _).symm, hcs hfront, hlast⟩

theorem IsOpen.endsOpen (h : IsOpen cs) : EndsOpen cs := ⟨[], cs, rfl, .nil, h⟩

theorem whole_or_endsOpen (cs : List Char) : Whole cs ∨ EndsOpen cs := by
  have hextend (cs : List Char) {ds : List Char} (hcs : ∀ {ds}, Whole ds → Whole (cs ++ ds))
      (h : Whole ds ∨ EndsOpen ds) : Whole (cs ++ ds) ∨ EndsOpen (cs ++ ds) := h.imp hcs (.append hcs)
  match cs with
  | [] => exact .inl .nil
  | c :: cs =>
    by_cases hc : c = '\\'
    · subst hc
      match cs with
      | [] => exact .inr IsOpen.backslash.endsOpen
      | d :: cs =>
        by_cases hd : d = 'u'
        · subst hd
          rcases Nat.lt_or_ge cs.length 4 with hlength | hlength
          · exact .inr (IsOpen.unicode hlength).endsOpen
          · have htake : (cs.take 4).length = 4 := by rw [List.length_take]; omega
            have hall := hextend ('\\' :: 'u' :: cs.take 4) (.unicode htake) (whole_or_endsOpen (cs.drop 4))
            rwa [List.cons_append, List.cons_append, List.take_append_drop] at hall
        · exact hextend ['\\', d] (.escape hd) (whole_or_endsOpen cs)
    · exact hextend [c] (.char hc) (whole_or_endsOpen cs)
termination_by cs.length

theorem IsOpen.not_whole (h : IsOpen cs) : ¬Whole cs := by
  intro hwhole
  cases h with
  | backslash =>
    cases hwhole with
    | char hc => exact hc rfl
  | @unicode ds hlength =>
    generalize hcs : '\\' :: 'u' :: ds = cs at hwhole
    cases hwhole with
    | nil => cases hcs
    | char hc => exact hc (List.head_eq_of_cons_eq hcs).symm
    | escape hu => exact hu (List.head_eq_of_cons_eq (List.tail_eq_of_cons_eq hcs)).symm
    | @unicode es rest hes =>
      have hall := congrArg List.length (List.tail_eq_of_cons_eq (List.tail_eq_of_cons_eq hcs))
      rw [List.length_append] at hall
      omega

theorem exists_map_char_append (h : ∀ c ∈ cs, c ≠ '\\' ∧ c ≠ '$') (n : Nat) (after : List Char) :
    ∃ ps, ((cs ++ after).take n).map .char ++ pieces 0 ((cs ++ after).drop n) = cs.map .char ++ ps := by
  induction cs generalizing n with
  | nil => exact ⟨_, rfl⟩
  | cons c cs ih =>
    obtain ⟨hc, hcs⟩ := List.forall_mem_cons.mp h
    cases n with
    | zero =>
      obtain ⟨ps, hps⟩ := ih hcs 0
      refine ⟨ps, ?_⟩
      rw [List.cons_append, List.take_zero, List.drop_zero, List.map_nil, List.nil_append, pieces_plain hc,
        List.map_cons, List.cons_append]
      exact congrArg (Piece.char c :: ·) hps
    | succ n =>
      obtain ⟨ps, hps⟩ := ih hcs n
      exact ⟨ps, congrArg (Piece.char c :: ·) hps⟩

theorem IsRejected.exists_cons (h : IsRejected fault escape after) :
    ∃ cs, escape = '\\' :: cs ∧ ∀ c ∈ cs, c ≠ '\\' ∧ c ≠ '$' := by
  cases h with
  | @unknown c _ hc =>
    refine ⟨[c], rfl, ?_⟩
    simp only [List.mem_cons, List.not_mem_nil, or_false, not_or] at hc
    simp [hc]
  | @unicode ds _ hds _ _ =>
    refine ⟨'u' :: ds, rfl, List.forall_mem_cons.mpr ⟨by decide, fun d hd => ⟨?_, ?_⟩⟩⟩
    · rintro rfl
      exact absurd (hds _ hd) (by decide)
    · rintro rfl
      exact absurd (hds _ hd) (by decide)

theorem IsRejected.inside (h : IsRejected fault escape after) (hopen : IsOpen cs) :
    ∃ ps qs, pieces 0 (cs ++ (escape ++ after)) = ps ++ escape.map .char ++ qs := by
  obtain ⟨es, rfl, hes⟩ := h.exists_cons
  cases hopen with
  | backslash =>
    obtain ⟨qs, hqs⟩ := exists_map_char_append hes 0 after
    refine ⟨[], qs, ?_⟩
    rw [List.singleton_append, List.cons_append, pieces_escape (by decide)]
    exact congrArg (Piece.char '\\' :: ·) hqs
  | @unicode ds hlength =>
    obtain ⟨qs, hqs⟩ := exists_map_char_append hes (3 - ds.length) after
    have hmore : 4 - ds.length = 3 - ds.length + 1 := by omega
    have htake : (ds ++ '\\' :: (es ++ after)).take 4 = ds ++ '\\' :: (es ++ after).take (3 - ds.length) := by
      rw [take_append_of_short hlength, hmore, List.take_succ_cons]
    have hdrop : (ds ++ '\\' :: (es ++ after)).drop 4 = (es ++ after).drop (3 - ds.length) := by
      rw [drop_append_of_short hlength, hmore, List.drop_succ_cons]
    have hspelling : unicodePieces (ds ++ '\\' :: (es ++ after).take (3 - ds.length)) =
        ('\\' :: 'u' :: ds).map .char ++ .char '\\' :: ((es ++ after).take (3 - ds.length)).map .char := by
      rw [unicodePieces, unicodeChar?, hexNumber?_eq_none_of_mem (c := '\\') (by simp) rfl (.inl (by decide))]
      simp
    refine ⟨('\\' :: 'u' :: ds).map .char, qs, ?_⟩
    rw [List.cons_append, List.cons_append, List.cons_append, pieces, pieces_drop 4, htake, hdrop, hspelling,
      List.append_assoc, List.cons_append, hqs, List.append_assoc, List.map_cons]
    rfl

-- ---------------------------------------------------------------------------
-- Rejected escapes
-- ---------------------------------------------------------------------------

/-- Every escape that the lexer reports, anywhere in a text that is decoded: inside of another escape its
spelling is kept, and everywhere else it leaves what `Leaves` says. -/
theorem rejected_escapes (hbody : body raw.toList = before ++ escape ++ after)
    (h : IsRejected fault escape after) :
    (∀ read rest, ∃ stop flaws, stringEnd read (escape ++ after ++ '"' :: rest) =
      (stop, ⟨fault, read, read + escape.length⟩ :: flaws)) ∧
    (¬Whole before → ∃ ps qs, contents (decode raw) = ps ++ escape.map .char ++ qs) ∧
    (Whole before → ∃ ps, Leaves escape after ps ∧
      contents (decode raw) = contents (decode (quoted before)) ++ ps) := by
  obtain ⟨es, hescape, -⟩ := h.exists_cons
  have happend {front : List Char} (hfront : Whole front) (cs : List Char) :
      pieces 0 (front ++ '\\' :: cs) = pieces 0 front ++ pieces 0 ('\\' :: cs) :=
    hfront.pieces_append cs (Nat.zero_le _) (by simp)
  rw [contents_decode, hbody, List.append_assoc]
  refine ⟨h.reported, fun hopen => ?_, fun hwhole => ?_⟩
  · obtain ⟨front, last, rfl, hfront, hlast⟩ := (whole_or_endsOpen before).resolve_left hopen
    obtain ⟨ps, qs, hpieces⟩ := h.inside hlast
    obtain ⟨rest, hrest⟩ : ∃ rest, last = '\\' :: rest := by cases hlast <;> exact ⟨_, rfl⟩
    refine ⟨pieces 0 front ++ ps, qs, ?_⟩
    rw [List.append_assoc, hrest, List.cons_append, happend hfront, ← List.cons_append, ← hrest, hpieces]
    simp only [List.append_assoc]
  · refine ⟨_, h.leaves, ?_⟩
    rw [contents_quoted, hescape, List.cons_append, happend hwhole]

theorem rejected_escapes_around_number :
    (∃ ps, Leaves ['\\', 'q'] "\\u12".toList ps ∧
      contents (decode "\"$n\\q\\u12\"") = contents (decode (quoted "$n".toList)) ++ ps) ∧
    (∃ ps qs, contents (decode "\"\\u1\\q\"") = ps ++ ['\\', 'q'].map .char ++ qs) ∧
    decode "\"$n\\q\\u12\"" = [.reference "n", .text "q\x12"] ∧
    decode "\"\\u1\\q\"" = [.text "\\u1\\q"] := by
  have hrejected (after : List Char) : IsRejected (.invalidEscape 'q') ['\\', 'q'] after := .unknown (by decide)
  have hfront : Whole "$n".toList := .char (by decide) (.char (by decide) .nil)
  have hnumber : IsOpen ('\\' :: 'u' :: ['1']) := .unicode (by decide)
  have hunknown : body "\"$n\\q\\u12\"".toList = "$n".toList ++ ['\\', 'q'] ++ "\\u12".toList := by decide
  have hinside : body "\"\\u1\\q\"".toList = "\\u1".toList ++ ['\\', 'q'] ++ [] := by decide
  exact ⟨(rejected_escapes hunknown (hrejected _)).2.2 hfront,
    (rejected_escapes hinside (hrejected _)).2.1 hnumber.not_whole, by decide, by decide⟩

end Linewise.StringLiteral
