import Linewise.Proofs.Lexing.Decoding
import Linewise.Proofs.Lexing.LongestMatch

/-!
# The escapes in string literals

The lexer admits an escape of four hexadecimal digits whatever they are, and decoding makes one character of
it unless the digits spell a surrogate, which is no character: such an escape is left as it is spelled. Every
other escape that the lexer admits stands for one character, wherever it is in a literal.
-/

namespace Linewise.StringLiteral

open Lexeme (StringBody)

variable {before escape after ds : List Char} {c d : Char}

/-- What an escape is spelled like in a literal that is lexed. -/
inductive IsEscape : List Char → Prop
  | short {c : Char} (hc : c ∈ ['t', 'b', 'r', 'n', '"', '\\', '$']) : IsEscape ['\\', c]
  | unicode {ds : List Char} (hlength : ds.length = 4) (hds : ∀ d ∈ ds, Text.isHexDigit d = true) :
      IsEscape ('\\' :: 'u' :: ds)

inductive Names : List Char → Char → Prop
  | tab : Names ['\\', 't'] '\t'
  | backspace : Names ['\\', 'b'] '\x08'
  | carriageReturn : Names ['\\', 'r'] '\r'
  | lineFeed : Names ['\\', 'n'] '\n'
  | itself {c : Char} (hc : c ∈ ['"', '\\', '$']) : Names ['\\', c] c
  | unicode {ds : List Char} {c : Char} (hlength : ds.length = 4)
      (hds : ∀ d ∈ ds, Text.isHexDigit d = true) (hc : codePoint ds = c.toNat) : Names ('\\' :: 'u' :: ds) c

/-- The escapes of code points that belong to no character. -/
inductive NamesSurrogate : List Char → Prop
  | unicode {ds : List Char} (hlength : ds.length = 4) (hds : ∀ d ∈ ds, Text.isHexDigit d = true)
      (hpoint : 0xD800 ≤ codePoint ds ∧ codePoint ds < 0xE000) : NamesSurrogate ('\\' :: 'u' :: ds)

-- ---------------------------------------------------------------------------
-- What an escape names
-- ---------------------------------------------------------------------------

theorem codePoint_lt (hlength : ds.length = 4) : codePoint ds < 65536 := by
  have hlt := codePoint_lt_pow ds
  rwa [hlength] at hlt

theorem isValidChar_codePoint (hlength : ds.length = 4) :
    (codePoint ds).isValidChar ↔ ¬(0xD800 ≤ codePoint ds ∧ codePoint ds < 0xE000) := by
  have hlt := codePoint_lt hlength
  unfold Nat.isValidChar
  omega

theorem exists_names_iff (h : IsEscape escape) : (∃ c, Names escape c) ↔ ¬NamesSurrogate escape := by
  cases h with
  | @short c hc =>
    have hu : c ≠ 'u' := by rintro rfl; simp at hc
    refine ⟨fun _ h => ?_, fun _ => ?_⟩
    · cases h
      exact hu rfl
    · simp only [List.mem_cons, List.not_mem_nil, or_false] at hc
      rcases hc with rfl | rfl | rfl | rfl | hc
      · exact ⟨_, .tab⟩
      · exact ⟨_, .backspace⟩
      · exact ⟨_, .carriageReturn⟩
      · exact ⟨_, .lineFeed⟩
      · exact ⟨_, .itself (by simpa using hc)⟩
  | @unicode ds hlength hds =>
    have hvalid := isValidChar_codePoint hlength
    refine ⟨?_, fun h => ?_⟩
    · rintro ⟨c, hc⟩ hsurrogate
      cases hsurrogate with
      | unicode _ _ hpoint =>
        cases hc with
        | itself hc => cases hlength
        | unicode _ _ hc => exact hvalid.mp (hc ▸ c.valid) hpoint
    · have hpoint := hvalid.mpr fun hpoint => h (.unicode hlength hds hpoint)
      exact ⟨Char.ofNatAux (codePoint ds) hpoint, .unicode hlength hds rfl⟩

-- ---------------------------------------------------------------------------
-- What decoding makes of an escape
-- ---------------------------------------------------------------------------

theorem IsEscape.head (h : IsEscape escape) : ∃ rest, escape = '\\' :: rest := by
  cases h with
  | short => exact ⟨_, rfl⟩
  | unicode => exact ⟨_, rfl⟩

theorem pieces_names (h : Names escape c) (after : List Char) :
    pieces 0 (escape ++ after) = .char c :: pieces 0 after := by
  cases h with
  | tab => exact pieces_escape (by decide) after
  | backspace => exact pieces_escape (by decide) after
  | carriageReturn => exact pieces_escape (by decide) after
  | lineFeed => exact pieces_escape (by decide) after
  | itself hc =>
    simp only [List.mem_cons, List.not_mem_nil, or_false] at hc
    rcases hc with rfl | rfl | rfl <;> exact pieces_escape (by decide) after
  | @unicode ds c hlength hds hc =>
    have hne : ds ≠ [] := by rintro rfl; cases hlength
    rw [List.cons_append, List.cons_append, pieces_unicode hlength, unicodePieces_eq_char hne hds hc,
      List.singleton_append]

theorem pieces_namesSurrogate (h : NamesSurrogate escape) (after : List Char) :
    pieces 0 (escape ++ after) = escape.map .char ++ pieces 0 after := by
  cases h with
  | @unicode ds hlength hds hpoint =>
    have hne : ds ≠ [] := by rintro rfl; cases hlength
    have hinvalid : ¬(codePoint ds).isValidChar := fun h => (isValidChar_codePoint hlength).mp h hpoint
    rw [List.cons_append, List.cons_append, pieces_unicode hlength, unicodePieces_eq_spelling hne hds hinvalid]

/-- Every escape in a literal of a source is decoded to the character that it names, whatever stands around
it, unless it names a surrogate. Such an escape, and no other, names no character, and its own spelling is left
in the value. -/
theorem escapes_decoded {source : String} {s : TokenStream} {t : Token} (h : lex source = .ok s)
    (ht : t ∈ s.tokens.toList) (hk : t.kind = .string) :
    ∃ cs, t.text = quoted cs ∧ StringBody cs ∧
      ∀ before escape after, cs = before ++ escape ++ after → StringBody before → IsEscape escape →
        (∀ c, Names escape c → contents (decode t.text) =
          contents (decode (quoted before)) ++ .char c :: contents (decode (quoted after))) ∧
        (NamesSurrogate escape → contents (decode t.text) =
          contents (decode (quoted before)) ++ escape.map .char ++ contents (decode (quoted after))) ∧
        ((∃ c, Names escape c) ↔ ¬NamesSurrogate escape) := by
  have hspells := spells_of_lex h ht (by rw [hk]; nofun)
  rw [hk] at hspells
  obtain ⟨cs, htext, hbody⟩ := hspells
  have hquoted : t.text = quoted cs := by rw [quoted, ← htext, String.ofList_toList]
  refine ⟨cs, hquoted, hbody, ?_⟩
  rintro before escape after rfl hbefore hescape
  obtain ⟨rest, hhead⟩ := hescape.head
  have hsplit : contents (decode t.text) = pieces 0 before ++ pieces 0 (escape ++ after) := by
    rw [hquoted, contents_quoted, List.append_assoc, hhead, List.cons_append]
    exact pieces_append_backslash hbefore _ (Nat.zero_le _) (by simp)
  rw [hsplit, contents_quoted, contents_quoted]
  refine ⟨fun c hc => ?_, fun hc => ?_, exists_names_iff hescape⟩
  · rw [pieces_names hc]
  · rw [pieces_namesSurrogate hc, List.append_assoc]

theorem escapes_decoded_half :
    ∃ s t, lex "\"\\u00e9\\uD83D$a\"" = .ok s ∧ t ∈ s.tokens.toList ∧ t.kind = .string ∧
      contents (decode t.text) = .char 'é' :: "\\uD83D".toList.map .char ++ [.reference ['a']] := by
  have hlex := lex_eq_ok.mpr ⟨(by decide +kernel : Clean "\"\\u00e9\\uD83D$a\"".toList), rfl⟩
  let t : Token := ⟨.string, .visible, "\"\\u00e9\\uD83D$a\"", ⟨0, 16⟩, 0, .origin⟩
  refine ⟨_, t, hlex, by decide +kernel, rfl, ?_⟩
  obtain ⟨cs, htext, -, hescapes⟩ := escapes_decoded (t := t) hlex (by decide +kernel) rfl
  have hbody : cs = "\\u00e9".toList ++ "\\uD83D".toList ++ "$a".toList := by
    have hchars := congrArg (fun s => body s.toList) htext
    simpa [quoted, body, t] using hchars.symm
  have hbefore : StringBody ('\\' :: 'u' :: (['0', '0', 'e', '9'] ++ [])) :=
    .unicode rfl (List.all_eq_true.mp rfl) .nil
  have hescape : IsEscape ('\\' :: 'u' :: ['D', '8', '3', 'D']) := .unicode rfl (List.all_eq_true.mp rfl)
  have hhalf := (hescapes _ _ _ hbody hbefore hescape).2.1
    (.unicode rfl (List.all_eq_true.mp rfl) (by decide))
  have hfront : contents (decode (quoted "\\u00e9".toList)) = [.char 'é'] := by
    rw [contents_quoted]
    decide
  have hback : contents (decode (quoted "$a".toList)) = [.reference ['a']] := by
    rw [contents_quoted]
    decide
  rw [hhalf, hfront, hback]
  rfl

end Linewise.StringLiteral
