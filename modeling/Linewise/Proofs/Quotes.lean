import Linewise.Proofs.Lexing.Decoding
import Linewise.Text.Quoted

/-!
# Quoted texts are read back

What a character is quoted as does not begin what another one is quoted as: a backslash tells which of the
forms it has, and the digits of a code point end in front of a brace. So a quoted text is that of one text
only. It stays on its line, as line feeds are quoted as letters.
-/

namespace Linewise

-- ---------------------------------------------------------------------------
-- Code points
-- ---------------------------------------------------------------------------

namespace StringLiteral

theorem codePoint_concat (ds : List Char) (d : Char) :
    codePoint (ds ++ [d]) = 16 * codePoint ds + Text.hexValue d := by
  rw [codePoint, List.foldl_append]
  rfl

theorem hex_toDigits (n : Nat) :
    (∀ d ∈ Nat.toDigits 16 n, Text.isHexDigit d = true) ∧ codePoint (Nat.toDigits 16 n) = n := by
  induction n using Nat.strongRecOn with
  | ind n ih =>
    rw [Nat.toDigits_eq_if (by decide)]
    split
    · rename_i hlt
      obtain ⟨hdigit, hvalue⟩ := digitChar_hex n hlt
      refine ⟨by simpa using hdigit, ?_⟩
      rw [← List.nil_append [n.digitChar], codePoint_concat, hvalue]
      exact Nat.zero_add n
    · obtain ⟨hdigit, hvalue⟩ := digitChar_hex (n % 16) (Nat.mod_lt n (by decide))
      obtain ⟨hdigits, hnumber⟩ := ih (n / 16) (by omega)
      refine ⟨fun d hd => ?_, ?_⟩
      · rcases List.mem_append.mp hd with hd | hd
        · exact hdigits d hd
        · rwa [List.mem_singleton.mp hd]
      · rw [codePoint_concat, hnumber, hvalue]
        exact Nat.div_add_mod n 16

end StringLiteral

namespace Text

open StringLiteral (hex_toDigits)

variable {c d : Char} {cs ds : List Char} {s t : String}

-- ---------------------------------------------------------------------------
-- One character
-- ---------------------------------------------------------------------------

def unescape : Char → Char
  | 't' => '\t'
  | 'r' => '\r'
  | 'n' => '\n'
  | '0' => '\x00'
  | c => c

def readChar : List Char → Option (Char × List Char)
  | [] => none
  | '\\' :: 'u' :: '{' :: cs =>
    some (Char.ofNat (StringLiteral.codePoint (cs.takeWhile isHexDigit)), (cs.dropWhile isHexDigit).drop 1)
  | '\\' :: c :: cs => some (unescape c, cs)
  | c :: cs => some (c, cs)

theorem readChar_plain (hc : c ≠ '\\') (cs : List Char) : readChar (c :: cs) = some (c, cs) := by
  rw [readChar]
  · rintro _ rfl
    exact absurd rfl hc
  · rintro _ _ rfl
    exact absurd rfl hc

theorem readChar_letter (hc : c ≠ 'u') (cs : List Char) :
    readChar ('\\' :: c :: cs) = some (unescape c, cs) := by
  rw [readChar]
  rintro _ rfl
  exact absurd rfl hc

theorem readChar_codePoint (c : Char) (cs : List Char) : readChar (codePoint c ++ cs) = some (c, cs) := by
  obtain ⟨hdigits, hnumber⟩ := hex_toDigits c.toNat
  have hread : readChar (codePoint c ++ cs) = readChar
      ('\\' :: 'u' :: '{' :: (Nat.toDigits 16 c.toNat ++ '}' :: cs)) := by simp [codePoint]
  obtain ⟨htake, hdrop⟩ := Lexeme.takeWhile_run hdigits (show isHexDigit '}' = false from rfl) cs
  rw [hread, readChar, htake, hdrop, hnumber, Char.ofNat_toNat]
  rfl

/-- The forms of a quoted character: an escape by a letter, the character itself, its code point. -/
theorem quoteChar_cases (c : Char) :
    (∃ letter, quoteChar c = ['\\', letter] ∧ letter ≠ 'u' ∧ letter ≠ '\n' ∧ unescape letter = c) ∨
      (quoteChar c = [c] ∧ c ≠ '\\' ∧ c ≠ '\n') ∨ quoteChar c = codePoint c := by
  by_cases hletter : c ∈ ['"', '\\', '\t', '\r', '\n', '\x00']
  · left
    revert c
    simp only [List.forall_mem_cons]
    refine ⟨⟨'"', ?_⟩, ⟨'\\', ?_⟩, ⟨'t', ?_⟩, ⟨'r', ?_⟩, ⟨'n', ?_⟩, ⟨'0', ?_⟩, nofun⟩ <;> decide
  · simp only [List.mem_cons, List.not_mem_nil, or_false, not_or] at hletter
    obtain ⟨hquote, hbackslash, htab, hreturn, hfeed, hzero⟩ := hletter
    rw [quoteChar, if_neg hquote, if_neg hbackslash, if_neg htab, if_neg hreturn, if_neg hfeed, if_neg hzero]
    split
    · exact .inr (.inl ⟨rfl, hbackslash, hfeed⟩)
    · exact .inr (.inr rfl)

theorem readChar_quoteChar (c : Char) (cs : List Char) : readChar (quoteChar c ++ cs) = some (c, cs) := by
  obtain ⟨letter, hquote, hu, -, hletter⟩ | ⟨hquote, hplain, -⟩ | hquote := quoteChar_cases c
  · rw [hquote, List.cons_append, List.singleton_append, readChar_letter hu, hletter]
  · rw [hquote, List.singleton_append, readChar_plain hplain]
  · rw [hquote, readChar_codePoint]

/-- No quoted character begins another one. -/
theorem quoteChar_append_inj (h : quoteChar c ++ cs = quoteChar d ++ ds) : c = d ∧ cs = ds := by
  have hread := congrArg readChar h
  rw [readChar_quoteChar, readChar_quoteChar] at hread
  exact Prod.mk.inj (Option.some.inj hread)

theorem quoteChar_ne_nil (c : Char) : quoteChar c ≠ [] := by
  intro hnil
  have hread := readChar_quoteChar c []
  rw [hnil] at hread
  cases hread

theorem lineFeed_notMem_quoteChar (c : Char) : '\n' ∉ quoteChar c := by
  obtain ⟨letter, hquote, -, hfeed, -⟩ | ⟨hquote, -, hfeed⟩ | hquote := quoteChar_cases c
  · rw [hquote]
    simpa using hfeed.symm
  · rw [hquote]
    simpa using hfeed.symm
  · rw [hquote, codePoint]
    intro hmem
    have hdigit : '\n' ∈ Nat.toDigits 16 c.toNat := by simpa using hmem
    exact absurd ((hex_toDigits c.toNat).1 '\n' hdigit) (by decide)

-- ---------------------------------------------------------------------------
-- Texts
-- ---------------------------------------------------------------------------

theorem flatMap_quoteChar_inj : ∀ {cs ds : List Char}, cs.flatMap quoteChar = ds.flatMap quoteChar → cs = ds
  | [], [], _ => rfl
  | [], d :: _, h => absurd (List.append_eq_nil_iff.mp h.symm).1 (quoteChar_ne_nil d)
  | c :: _, [], h => absurd (List.append_eq_nil_iff.mp h).1 (quoteChar_ne_nil c)
  | _ :: _, _ :: _, h => by
    obtain ⟨rfl, hrest⟩ := quoteChar_append_inj h
    rw [flatMap_quoteChar_inj hrest]

theorem toList_quote (s : String) : (quote s).toList = '"' :: (s.toList.flatMap quoteChar ++ ['"']) :=
  String.toList_ofList

theorem quote_inj (h : quote s = quote t) : s = t := by
  have hbody := congrArg String.toList h
  rw [toList_quote, toList_quote, List.cons_inj_right, List.append_left_inj] at hbody
  exact String.toList_inj.mp (flatMap_quoteChar_inj hbody)

theorem lineFeed_notMem_quote (s : String) : '\n' ∉ (quote s).toList := by
  rw [toList_quote]
  intro hmem
  have hbody : '\n' ∈ s.toList.flatMap quoteChar := by simpa using hmem
  obtain ⟨c, -, hc⟩ := List.mem_flatMap.mp hbody
  exact lineFeed_notMem_quoteChar c hc

end Text

end Linewise
