import Linewise.Proofs.Lexing.Lexemes

/-!
# The language of lexemes

What the lexemes of each kind look like, said without reading a text: `Spells`. What `scan` reads without a
flaw is a lexeme of the kind it answers (`spelled_scan`). Where a lexeme of a kind stands, `scan` stops in no
place before its end, and it answers that kind if nothing follows (`reaches_of_spells`). A comment and a
literal close themselves: what stands behind them does not matter (`comment_congr`, `string_congr`).
-/

namespace Linewise

def TokenKind.sign? : TokenKind → Option (List Char)
  | leftParen => some ['(']
  | rightParen => some [')']
  | leftCurl => some ['{']
  | rightCurl => some ['}']
  | leftSquare => some ['[']
  | rightSquare => some [']']
  | comma => some [',']
  | dot => some ['.']
  | colon => some [':']
  | semicolon => some [';']
  | hash => some ['#']
  | question => some ['?']
  | atSign => some ['@']
  | arrow => some ['-', '>']
  | assign => some ['=']
  | equals => some ['=', '=']
  | notEquals => some ['!', '=']
  | leftAngle => some ['<']
  | rightAngle => some ['>']
  | lessEqual => some ['<', '=']
  | greaterEqual => some ['>', '=']
  | plus => some ['+']
  | minus => some ['-']
  | times => some ['*']
  | divide => some ['/']
  | _ => none

theorem TokenKind.sign?_ne_nil (kind : TokenKind) : kind.sign? ≠ some [] := by
  cases kind <;> exact nofun

theorem TokenKind.return_not_mem_sign? {kind : TokenKind} {cs : List Char}
    (h : kind.sign? = some cs) : '\r' ∉ cs := by
  cases kind <;> cases h <;> decide

namespace Lexeme

/-- The text begins with a sign that opens or closes a comment. -/
def BeginsSign (cs : List Char) : Prop := ['/', '*'] <+: cs ∨ ['*', '/'] <+: cs

/-- Between the signs of a comment stand comments, and characters with which no such sign begins. -/
inductive CommentBody : List Char → Prop
  | nil : CommentBody []
  | char {c : Char} {cs : List Char} (hc : ¬BeginsSign (c :: cs ++ ['*', '/']))
      (h : CommentBody cs) : CommentBody (c :: cs)
  | comment {cs ds : List Char} (h : CommentBody cs) (h' : CommentBody ds) :
      CommentBody ('/' :: '*' :: (cs ++ '*' :: '/' :: ds))

/-- Between the quotes of a string literal stand escapes and plain characters. -/
inductive StringBody : List Char → Prop
  | nil : StringBody []
  | char {c : Char} {cs : List Char} (hc : c ≠ '"' ∧ c ≠ '\\' ∧ Text.isLineBreak c = false)
      (h : StringBody cs) : StringBody (c :: cs)
  | escape {c : Char} {cs : List Char} (hc : c ∈ ['t', 'b', 'r', 'n', '"', '\\', '$'])
      (h : StringBody cs) : StringBody ('\\' :: c :: cs)
  | unicode {ds cs : List Char} (hlength : ds.length = 4)
      (hds : ∀ d ∈ ds, Text.isHexDigit d = true) (h : StringBody cs) :
      StringBody ('\\' :: 'u' :: (ds ++ cs))

def IsName : List Char → Prop
  | [] => False
  | c :: cs => Text.isNameStart c = true ∧ ∀ d ∈ cs, Text.isNameRest d = true

def IsDecimal : List Char → Prop
  | [] => False
  | c :: cs => c.isDigit = true ∧ ∀ d ∈ cs, d.isDigit = true ∨ d = '_'

/-- A zero, one of the letters for a base, and then digits of the base and underscores, at least one digit
among them. -/
def IsBased (letters : List Char) (isDigit : Char → Bool) : List Char → Prop
  | '0' :: base :: cs =>
    base ∈ letters ∧ (∀ d ∈ cs, isDigit d = true ∨ d = '_') ∧ ∃ d ∈ cs, isDigit d = true
  | _ => False

/-- The text is a lexeme of this kind. -/
def Spells : TokenKind → List Char → Prop
  | .whitespace, cs => cs ≠ [] ∧ ∀ c ∈ cs, Text.isBlank c = true
  | .lineBreak, cs => cs = ['\n'] ∨ cs = ['\r', '\n'] ∨ cs = ['\r']
  | .lineComment, cs => ∃ ds, cs = '/' :: '/' :: ds ∧ ∀ d ∈ ds, Text.isLineBreak d = false
  | .blockComment, cs => ∃ ds, cs = '/' :: '*' :: (ds ++ ['*', '/']) ∧ CommentBody ds
  | .identifier, cs => IsName cs ∧ ∀ word : Keyword, word.spelling.toList ≠ cs
  | .keyword word, cs => word.spelling.toList = cs
  | .integer, cs =>
    IsDecimal cs ∨ IsBased ['x', 'X'] Text.isHexDigit cs ∨ IsBased ['b', 'B'] Text.isBinaryDigit cs
  | .string, cs => ∃ ds, cs = '"' :: (ds ++ ['"']) ∧ StringBody ds
  | kind, cs => kind.sign? = some cs

variable {c : Char} {cs ds es : List Char} {kind kind' : TokenKind} {inner read n : Nat}

theorem IsName.forall_isNameRest (h : IsName cs) : ∀ c ∈ cs, Text.isNameRest c = true := by
  cases cs with
  | nil => exact h.elim
  | cons c cs =>
    refine List.forall_mem_cons.mpr ⟨?_, h.2⟩
    have hstart := h.1
    simp only [Text.isNameStart, Text.isNameRest, Char.isAlphanum, Bool.or_eq_true] at hstart ⊢
    exact hstart.imp_left .inl

-- ---------------------------------------------------------------------------
-- Comments
-- ---------------------------------------------------------------------------

theorem beginsSign_append (ds : List Char) (h : 2 ≤ cs.length) :
    BeginsSign (cs ++ ds) ↔ BeginsSign cs := by
  have hfront (sign : List Char) (hs : sign.length = 2) : sign <+: cs ++ ds ↔ sign <+: cs :=
    ⟨fun hp => List.prefix_of_prefix_length_le hp (List.prefix_append cs ds) (by omega),
      fun hp => hp.trans (List.prefix_append cs ds)⟩
  rw [BeginsSign, hfront _ rfl, hfront _ rfl, BeginsSign]

theorem commentEnd?_char (h : ¬BeginsSign (c :: cs)) :
    commentEnd? inner read (c :: cs) = commentEnd? inner (read + 1) cs := by
  rw [commentEnd?]
  · rintro ds rfl rfl
    exact h (.inr ⟨ds, rfl⟩)
  · rintro ds rfl rfl
    exact h (.inl ⟨ds, rfl⟩)

theorem commentEnd?_body (h : CommentBody cs) (ds : List Char) :
    commentEnd? inner read (cs ++ '*' :: '/' :: ds) =
      commentEnd? inner (read + cs.length) ('*' :: '/' :: ds) := by
  induction h generalizing inner read ds with
  | nil => rfl
  | @char c cs hc _ ih =>
    have hsign : ¬BeginsSign (c :: (cs ++ '*' :: '/' :: ds)) := by
      have hlength : 2 ≤ (c :: cs ++ ['*', '/']).length := by simp
      have := mt (beginsSign_append ds hlength).mp hc
      simpa using this
    rw [List.cons_append, commentEnd?_char hsign, ih, List.length_cons]
    congr 1
    omega
  | @comment cs es _ _ ih ih' =>
    have hinner : commentEnd? inner read ('/' :: '*' :: (cs ++ '*' :: '/' :: es) ++ '*' :: '/' :: ds) =
        commentEnd? (inner + 1) (read + 2) (cs ++ '*' :: '/' :: (es ++ '*' :: '/' :: ds)) := by
      simp [commentEnd?]
    rw [hinner, ih, commentEnd?, ih']
    simp only [List.length_cons, List.length_append]
    congr 1
    omega

/-- A text that closes so many comments and one more, and ends there. -/
inductive Closes : Nat → List Char → Prop
  | last {cs : List Char} (h : CommentBody cs) : Closes 0 (cs ++ ['*', '/'])
  | inner {n : Nat} {cs ds : List Char} (h : CommentBody cs) (h' : Closes n ds) :
      Closes (n + 1) (cs ++ '*' :: '/' :: ds)

theorem Closes.body (h : Closes n cs) :
    ∃ ds es, CommentBody ds ∧ cs = ds ++ '*' :: '/' :: es ∧
      ∀ ds', CommentBody ds' → Closes n (ds' ++ '*' :: '/' :: es) := by
  cases h with
  | last h => exact ⟨_, [], h, rfl, fun _ => .last⟩
  | inner h h' => exact ⟨_, _, h, rfl, fun _ h => .inner h h'⟩

theorem closes_of_commentEnd? (h : commentEnd? inner read cs = some n) :
    ∃ ds es, cs = ds ++ es ∧ n = read + ds.length ∧ Closes inner ds := by
  fun_induction commentEnd? inner read cs with
  | case1 => cases h
  | case2 read cs =>
    cases h
    exact ⟨['*', '/'], cs, rfl, rfl, .last .nil⟩
  | case3 read cs inner ih =>
    obtain ⟨ds, es, rfl, rfl, hds⟩ := ih h
    exact ⟨'*' :: '/' :: ds, es, rfl, by simp only [List.length_cons]; omega, .inner .nil hds⟩
  | case4 inner read cs ih =>
    obtain ⟨ds, es, rfl, rfl, hds⟩ := ih h
    refine ⟨'/' :: '*' :: ds, es, rfl, by simp only [List.length_cons]; omega, ?_⟩
    cases hds with
    | inner hbody hds =>
      obtain ⟨body, tail, hb, rfl, hcloses⟩ := hds.body
      simpa using hcloses _ (.comment hbody hb)
  | case5 inner read c cs hclose hopen ih =>
    obtain ⟨ds, es, rfl, rfl, hds⟩ := ih h
    refine ⟨c :: ds, es, rfl, by simp only [List.length_cons]; omega, ?_⟩
    obtain ⟨body, tail, hb, rfl, hcloses⟩ := hds.body
    refine hcloses (c :: body) (.char (fun hsign => ?_) hb)
    have hbegins := (beginsSign_append (tail ++ es) (by simp)).mpr hsign
    rcases hbegins with ⟨us, hus⟩ | ⟨us, hus⟩
    · exact hopen us (by simpa using congrArg List.head? hus.symm)
        (by simpa using (congrArg List.tail hus).symm)
    · exact hclose us (by simpa using congrArg List.head? hus.symm)
        (by simpa using (congrArg List.tail hus).symm)

-- ---------------------------------------------------------------------------
-- String literals
-- ---------------------------------------------------------------------------

theorem plain_of_class {p : Char → Bool} (hp : ['"', '\\', '\n', '\r'].all (fun d => !p d) = true)
    (h : p c = true) : c ≠ '"' ∧ c ≠ '\\' ∧ Text.isLineBreak c = false := by
  have hne (d : Char) (hd : d ∈ ['"', '\\', '\n', '\r']) : c ≠ d := by
    rintro rfl
    have := List.all_eq_true.mp hp c hd
    rw [h] at this
    cases this
  refine ⟨hne _ (by simp), hne _ (by simp), ?_⟩
  rw [Text.isLineBreak, beq_false_of_ne (hne _ (by simp)), beq_false_of_ne (hne _ (by simp))]
  rfl

theorem plain_of_isHexDigit (h : Text.isHexDigit c = true) : c ≠ '"' ∧ c ≠ '\\' ∧ Text.isLineBreak c = false :=
  plain_of_class rfl h

theorem plain_of_isNameRest (h : Text.isNameRest c = true) : c ≠ '"' ∧ c ≠ '\\' ∧ Text.isLineBreak c = false :=
  plain_of_class rfl h

theorem StringBody.append_left (hplain : ∀ c ∈ cs, c ≠ '"' ∧ c ≠ '\\' ∧ Text.isLineBreak c = false)
    (h : StringBody ds) : StringBody (cs ++ ds) := by
  induction cs with
  | nil => exact h
  | cons c cs ih =>
    obtain ⟨hc, hcs⟩ := List.forall_mem_cons.mp hplain
    exact .char hc (ih hcs)

theorem isEscapable_iff : isEscapable c = true ↔ c ∈ ['t', 'b', 'r', 'n', '"', '\\', '$'] := by
  simp [isEscapable, or_assoc]

theorem stringEnd_plain (hc : c ≠ '"' ∧ c ≠ '\\' ∧ Text.isLineBreak c = false) :
    stringEnd read (c :: cs) = stringEnd (read + 1) cs := by
  rw [stringEnd, if_neg (by simp [hc.2.2])]
  · exact fun h => hc.1 h
  · exact fun _ h _ => hc.2.1 h
  · exact fun _ _ h _ => hc.2.1 h

theorem stringEnd_hexDigits (h : ∀ d ∈ ds, Text.isHexDigit d = true) :
    stringEnd read (ds ++ cs) = stringEnd (read + ds.length) cs := by
  induction ds generalizing read with
  | nil => rfl
  | cons d ds ih =>
    obtain ⟨hd, hds⟩ := List.forall_mem_cons.mp h
    rw [List.cons_append, stringEnd_plain (plain_of_isHexDigit hd), ih hds, List.length_cons]
    congr 1
    omega

theorem countWhile_of_all {p : Char → Bool} (h : ∀ d ∈ ds, p d = true) (cs : List Char) :
    countWhile p (ds ++ cs) = ds.length + countWhile p cs := by
  rw [countWhile, List.takeWhile_append_of_pos h, List.length_append, countWhile]

theorem stringEnd_body (h : StringBody cs) (ds : List Char) :
    stringEnd read (cs ++ '"' :: ds) = (read + cs.length + 1, []) := by
  induction h generalizing read with
  | nil => rw [List.nil_append, stringEnd]; rfl
  | @char c cs hc _ ih =>
    rw [List.cons_append, stringEnd_plain hc, ih, List.length_cons]
    congr 1
    omega
  | @escape c cs hc _ ih =>
    have hu : c ≠ 'u' := by rintro rfl; simp at hc
    have hbreak : Text.isLineBreak c = false := by
      rcases (by simpa using hc) with rfl | rfl | rfl | rfl | rfl | rfl | rfl <;> rfl
    rw [List.cons_append, List.cons_append, stringEnd, if_neg (by simp [hbreak]),
      if_pos (isEscapable_iff.mpr hc), ih]
    · simp only [List.length_cons]
      congr 1
      omega
    · exact hu
  | @unicode es cs hlength hes _ ih =>
    have hfour : (es ++ cs ++ '"' :: ds).take 4 = es ++ [] := by
      rw [List.append_assoc, List.append_nil, ← hlength, List.take_left]
    have hdigits : countWhile Text.isHexDigit ((es ++ cs ++ '"' :: ds).take 4) = 4 := by
      rw [hfour, countWhile_of_all hes, hlength]
      rfl
    rw [List.cons_append, List.cons_append, stringEnd]
    simp only [hdigits, ↓reduceIte]
    rw [List.append_assoc, stringEnd_hexDigits hes, ih]
    simp only [List.length_cons, List.length_append]
    congr 1
    omega

theorem StringBody.lineFeed_not_mem (h : StringBody cs) : '\n' ∉ cs := by
  induction h with
  | nil => exact List.not_mem_nil
  | char hc _ ih =>
    rw [List.mem_cons, not_or]
    refine ⟨?_, ih⟩
    rintro rfl
    cases hc.2.2
  | escape hc _ ih =>
    simp only [List.mem_cons, not_or]
    refine ⟨by decide, ?_, ih⟩
    rintro rfl
    exact absurd hc (by decide)
  | unicode hlength hds _ ih =>
    simp only [List.mem_cons, List.mem_append, not_or]
    exact ⟨by decide, by decide, fun hmem => Bool.false_ne_true (hds _ hmem), ih⟩

theorem StringBody.of_hexDigit (hc : Text.isHexDigit c = true) (h : StringBody (c :: cs)) :
    StringBody cs := by
  cases h with
  | char _ h => exact h
  | escape => cases hc
  | unicode => cases hc

theorem StringBody.hexDigits (h : StringBody cs) (hn : countWhile Text.isHexDigit
    ((cs ++ '"' :: ds).take n) = n) :
    ∃ digits rest, cs = digits ++ rest ∧ digits.length = n ∧
      (∀ d ∈ digits, Text.isHexDigit d = true) ∧ StringBody rest := by
  induction n generalizing cs with
  | zero => exact ⟨[], cs, rfl, rfl, by simp, h⟩
  | succ n ih =>
    cases cs with
    | nil => simp [countWhile, show Text.isHexDigit '"' = false from rfl] at hn
    | cons c cs =>
      cases hc : Text.isHexDigit c with
      | false => simp [countWhile, hc] at hn
      | true =>
        have hrest : countWhile Text.isHexDigit ((cs ++ '"' :: ds).take n) = n := by
          simpa [countWhile, hc] using hn
        obtain ⟨digits, rest, rfl, rfl, hdigits, hr⟩ := ih (h.of_hexDigit hc) hrest
        exact ⟨c :: digits, rest, rfl, rfl, List.forall_mem_cons.mpr ⟨hc, hdigits⟩, hr⟩

theorem stringBody_of_stringEnd (h : stringEnd read cs = (n, [])) :
    ∃ ds es, cs = ds ++ '"' :: es ∧ n = read + ds.length + 1 ∧ StringBody ds := by
  fun_induction stringEnd read cs with
  | case1 => cases h
  | case2 read cs =>
    cases h
    exact ⟨[], cs, rfl, rfl, .nil⟩
  | case3 read cs digits hdigits ih =>
    obtain ⟨ds, es, rfl, rfl, hds⟩ := ih h
    obtain ⟨four, rest, rfl, hlength, hfour, hrest⟩ := hds.hexDigits hdigits
    exact ⟨'\\' :: 'u' :: (four ++ rest), es, rfl, by simp only [List.length_cons]; omega,
      .unicode hlength hfour hrest⟩
  | case4 => cases h
  | case5 => cases h
  | case6 read c cs hu hbreak hescape ih =>
    obtain ⟨ds, es, rfl, rfl, hds⟩ := ih h
    exact ⟨'\\' :: c :: ds, es, rfl, by simp only [List.length_cons]; omega,
      .escape (isEscapable_iff.mp hescape) hds⟩
  | case7 => cases h
  | case8 => cases h
  | case9 read c cs hquote hunicode hescape hbreak ih =>
    obtain ⟨ds, es, rfl, rfl, hds⟩ := ih h
    refine ⟨c :: ds, es, rfl, by simp only [List.length_cons]; omega, .char ⟨hquote, ?_, ?_⟩ hds⟩
    · rintro rfl
      -- A backslash is never the last character in front of a quote.
      cases ds with
      | nil => exact hescape '"' es rfl rfl
      | cons d ds => exact hescape d (ds ++ '"' :: es) rfl rfl
    · simpa using hbreak

-- ---------------------------------------------------------------------------
-- What is read is a lexeme
-- ---------------------------------------------------------------------------

theorem forall_takeWhile (p : Char → Bool) (cs : List Char) : ∀ d ∈ cs.takeWhile p, p d = true :=
  List.all_eq_true.mp List.all_takeWhile

/-- What is known of a scan without a flaw: it has read a lexeme of its kind. -/
def Spelled (c : Char) (cs : List Char) (s : Scan) : Prop :=
  s.flaws = [] → ∃ kind, s.kind = some kind ∧ Spells kind (c :: cs.take s.more)

theorem Spelled.good {more : Nat} (h : Spells kind (c :: cs.take more)) :
    Spelled c cs (.good kind more) := fun _ => ⟨kind, rfl, h⟩

theorem spelled_comment : Spelled '/' ('*' :: cs) (comment cs) := by
  unfold comment
  split
  · rename_i more hmore
    obtain ⟨ds, es, rfl, rfl, hds⟩ := closes_of_commentEnd? hmore
    cases hds with
    | last hbody =>
      refine .good ⟨_, ?_, hbody⟩
      rw [Nat.add_comm, List.take_succ_cons, List.take_left]
  · exact nofun

theorem spelled_string : Spelled '"' cs (string cs) := by
  unfold string
  rcases hend : stringEnd 1 cs with ⟨stop, flaws⟩
  rintro rfl
  obtain ⟨ds, es, rfl, rfl, hds⟩ := stringBody_of_stringEnd hend
  refine Spelled.good ⟨ds, ?_, hds⟩ rfl
  have hmore : 1 + ds.length + 1 - 1 = (ds ++ ['"']).length := by
    rw [List.length_append, List.length_singleton]
    omega
  rw [hmore, show ds ++ '"' :: es = (ds ++ ['"']) ++ es by simp, List.take_left]

theorem spelled_decimal (hc : c.isDigit = true) :
    Spelled c cs (.good .integer (countWhile (fun d => d.isDigit || d == '_') cs)) := by
  refine .good (.inl ⟨hc, ?_⟩)
  rw [take_countWhile]
  intro d hd
  simpa using forall_takeWhile _ cs d hd

theorem isBased_take {base : Char} {letters : List Char} {isDigit : Char → Bool}
    (hbase : base ∈ letters) (h : (based isDigit cs).flaws = []) :
    IsBased letters isDigit ('0' :: (base :: cs).take (based isDigit cs).more) := by
  have hdigit : (cs.takeWhile fun d => isDigit d || d == '_').any isDigit = true := by
    unfold based at h
    dsimp only at h
    split at h
    · assumption
    · cases h
  have htake : (base :: cs).take (based isDigit cs).more =
      base :: cs.takeWhile fun d => isDigit d || d == '_' :=
    congrArg (base :: ·) (take_countWhile _ cs)
  rw [htake]
  refine ⟨hbase, fun d hd => ?_, by simpa using hdigit⟩
  simpa using forall_takeWhile _ cs d hd

theorem spelled_integer (hc : c.isDigit = true) : Spelled c cs (integer c cs) := by
  unfold integer
  dsimp only
  split
  · rename_i base rest
    split
    · rename_i hbase
      simp only [Bool.and_eq_true, Bool.or_eq_true, beq_iff_eq] at hbase
      obtain ⟨rfl, hbase⟩ := hbase
      exact fun h => ⟨_, rfl, .inr (.inl (isBased_take (by simpa using hbase) h))⟩
    split
    · rename_i hbase
      simp only [Bool.and_eq_true, Bool.or_eq_true, beq_iff_eq] at hbase
      obtain ⟨rfl, hbase⟩ := hbase
      exact fun h => ⟨_, rfl, .inr (.inr (isBased_take (by simpa using hbase) h))⟩
    · exact spelled_decimal hc
  · exact spelled_decimal hc

theorem spelled_name (hc : Text.isNameStart c = true) : Spelled c cs (name c cs) := by
  have htake : cs.take (cs.takeWhile Text.isNameRest).length = cs.takeWhile Text.isNameRest :=
    take_countWhile _ cs
  unfold name
  dsimp only
  split
  · rename_i word hword
    refine .good ?_
    rw [htake]
    show word.spelling.toList = _
    rw [Keyword.ofString?_eq_some_iff.mp hword, String.toList_ofList]
  · rename_i hnone
    refine .good ?_
    rw [htake]
    refine ⟨⟨hc, forall_takeWhile _ cs⟩, fun word hword => ?_⟩
    rw [← hword, String.ofList_toList, Keyword.ofString?_spelling] at hnone
    cases hnone

theorem spelled_pair {second : Char} {two one : TokenKind} (h₂ : Spells two [c, second])
    (h₁ : Spells one [c]) : Spelled c cs (pair second two one cs) := by
  unfold pair
  split
  · cases cs with
    | nil => contradiction
    | cons d ds =>
      obtain rfl : d = second := Option.some.inj ‹_›
      exact .good h₂
  · exact .good h₁

theorem spelled_unexpected : Spelled c cs (unexpected c) := nofun

theorem spelled_scan (c : Char) (cs : List Char) : Spelled c cs (scan c cs) := by
  unfold scan
  split
  case h_2 =>
    refine .good ?_
    split
    · cases cs with
      | nil => contradiction
      | cons d ds =>
        obtain rfl : d = '\n' := Option.some.inj ‹_›
        exact .inr (.inl rfl)
    · exact .inr (.inr rfl)
  case h_3 =>
    split
    · refine .good ⟨_, rfl, ?_⟩
      rw [take_countWhile]
      intro d hd
      simpa using forall_takeWhile _ _ d hd
    · exact spelled_comment
    · exact .good rfl
  all_goals first
    | exact .good rfl
    | exact .good (.inl rfl)
    | exact spelled_pair rfl rfl
    | exact spelled_string
    | skip
  · split
    · cases cs with
      | nil => contradiction
      | cons d ds =>
        obtain rfl : d = '=' := Option.some.inj ‹_›
        exact .good rfl
    · exact spelled_unexpected
  · split
    · refine .good ⟨nofun, ?_⟩
      rw [take_countWhile]
      exact List.forall_mem_cons.mpr ⟨‹_›, forall_takeWhile _ cs⟩
    · split
      · exact spelled_integer ‹_›
      · split
        · exact spelled_name ‹_›
        · exact spelled_unexpected

-- ---------------------------------------------------------------------------
-- No longer lexeme stands there
-- ---------------------------------------------------------------------------

/-- Where a lexeme of a kind stands, a scan reads as much at least, and answers the kind if there is no more
text. -/
structure Reaches (kind : TokenKind) (c : Char) (ds : List Char) : Prop where
  length_le : ∀ es, ds.length ≤ (scan c (ds ++ es)).more
  kind_eq : (scan c ds).kind = some kind

theorem scan_class (h : Text.isBlank c = true ∨ c.isDigit = true ∨ Text.isNameStart c = true) :
    scan c cs =
      if Text.isBlank c then .good .whitespace (countWhile Text.isBlank cs)
      else if c.isDigit then integer c cs
      else if Text.isNameStart c then name c cs
      else unexpected c := by
  unfold scan
  split
  case h_25 => rfl
  all_goals exact absurd h (by decide)

theorem not_isBlank (h : c.isDigit = true ∨ Text.isNameStart c = true) : Text.isBlank c = false := by
  refine Bool.eq_false_iff.mpr fun hblank => ?_
  simp only [Text.isBlank, Bool.or_eq_true, beq_iff_eq] at hblank
  rcases hblank with (rfl | rfl) | rfl <;> exact absurd h (by decide)

theorem not_isDigit (h : Text.isNameStart c = true) : c.isDigit = false := by
  refine Bool.eq_false_iff.mpr fun hdigit => ?_
  have hstart : (decide (c.val ≥ 'A'.val ∧ c.val ≤ 'Z'.val) ||
      (decide (c.val ≥ 'a'.val) && decide (c.val ≤ 'z'.val)) || c == '_') = true := h
  simp only [Bool.or_eq_true, Bool.and_eq_true, decide_eq_true_eq, beq_iff_eq,
    UInt32.le_iff_toNat_le] at hstart
  rcases hstart with hstart | rfl
  · simp only [Char.isDigit, Bool.and_eq_true, decide_eq_true_eq, UInt32.le_iff_toNat_le] at hdigit
    simp at hstart hdigit
    omega
  · cases hdigit

theorem scan_blank (hc : Text.isBlank c = true) :
    scan c cs = .good .whitespace (countWhile Text.isBlank cs) := by
  rw [scan_class (.inl hc), if_pos hc]

theorem scan_digit (hc : c.isDigit = true) : scan c cs = integer c cs := by
  rw [scan_class (.inr (.inl hc)), not_isBlank (.inl hc), if_neg Bool.false_ne_true, if_pos hc]

theorem scan_nameStart (hc : Text.isNameStart c = true) : scan c cs = name c cs := by
  rw [scan_class (.inr (.inr hc)), not_isBlank (.inr hc), not_isDigit hc,
    if_neg Bool.false_ne_true, if_neg Bool.false_ne_true, if_pos hc]

theorem reaches_whitespace (h : ∀ d ∈ c :: ds, Text.isBlank d = true) : Reaches .whitespace c ds := by
  obtain ⟨hc, hds⟩ := List.forall_mem_cons.mp h
  refine ⟨fun es => ?_, by rw [scan_blank hc]; rfl⟩
  rw [scan_blank hc, Scan.good, countWhile_of_all hds]
  exact Nat.le_add_right _ _

theorem reaches_lineComment (h : ∀ d ∈ ds, Text.isLineBreak d = false) :
    Reaches .lineComment '/' ('/' :: ds) := by
  refine ⟨fun es => ?_, rfl⟩
  show ds.length + 1 ≤ countWhile (fun d => !Text.isLineBreak d) (ds ++ es) + 1
  rw [countWhile_of_all fun d hd => by rw [h d hd]; rfl]
  omega

theorem comment_body (h : CommentBody ds) (es : List Char) :
    comment (ds ++ '*' :: '/' :: es) = .good .blockComment (ds.length + 3) := by
  unfold comment
  rw [commentEnd?_body h, commentEnd?, Nat.add_comm 1]

theorem reaches_blockComment (h : CommentBody ds) :
    Reaches .blockComment '/' ('*' :: (ds ++ ['*', '/'])) := by
  refine ⟨fun es => ?_, congrArg Scan.kind (comment_body h [])⟩
  rw [List.cons_append, List.append_assoc]
  show (ds ++ ['*', '/']).length + 1 ≤ (comment (ds ++ '*' :: '/' :: es)).more
  rw [comment_body h, List.length_append]
  exact Nat.le_refl _

theorem string_body (h : StringBody ds) (es : List Char) :
    string (ds ++ '"' :: es) = .good .string (ds.length + 1) := by
  unfold string
  rw [stringEnd_body h, Nat.add_comm 1]
  rfl

theorem reaches_string (h : StringBody ds) : Reaches .string '"' (ds ++ ['"']) := by
  refine ⟨fun es => ?_, congrArg Scan.kind (string_body h [])⟩
  rw [List.append_assoc]
  show (ds ++ ['"']).length ≤ (string (ds ++ '"' :: es)).more
  rw [string_body h, List.length_append]
  exact Nat.le_refl _

theorem more_name (c : Char) (cs : List Char) : (name c cs).more = countWhile Text.isNameRest cs := by
  unfold name
  dsimp only
  split <;> rfl

theorem length_le_name (h : IsName (c :: ds)) (es : List Char) :
    ds.length ≤ (scan c (ds ++ es)).more := by
  rw [scan_nameStart h.1, more_name, countWhile_of_all h.2]
  exact Nat.le_add_right _ _

theorem kind_name (h : IsName (c :: ds)) :
    (scan c ds).kind =
      some ((Keyword.ofString? (String.ofList (c :: ds))).elim .identifier .keyword) := by
  have hall : ds.takeWhile Text.isNameRest = ds := by
    simpa using @List.takeWhile_append_of_pos _ _ ds [] h.2
  rw [scan_nameStart h.1, name, hall]
  split <;> (rename_i hword; rw [hword]; rfl)

theorem reaches_identifier (h : Spells .identifier (c :: ds)) : Reaches .identifier c ds := by
  refine ⟨length_le_name h.1, ?_⟩
  rw [kind_name h.1]
  cases hword : Keyword.ofString? (String.ofList (c :: ds)) with
  | none => rfl
  | some word =>
    refine absurd ?_ (h.2 word)
    rw [Keyword.ofString?_eq_some_iff.mp hword, String.toList_ofList]

theorem isName_spelling (word : Keyword) : IsName word.spelling.toList := by
  cases word <;> exact ⟨by decide, List.all_eq_true.mp (by decide)⟩

theorem reaches_keyword {word : Keyword} (h : word.spelling.toList = c :: ds) :
    Reaches (.keyword word) c ds := by
  have hname : IsName (c :: ds) := h ▸ isName_spelling word
  refine ⟨length_le_name hname, ?_⟩
  rw [kind_name hname, ← h, String.ofList_toList, Keyword.ofString?_spelling]
  rfl

theorem kind_integer (c : Char) (cs : List Char) : (integer c cs).kind = some .integer := by
  unfold integer
  dsimp only
  split
  · split
    · rfl
    · split <;> rfl
  · rfl

theorem reaches_decimal (h : IsDecimal (c :: ds)) : Reaches .integer c ds := by
  obtain ⟨hc, hds⟩ := h
  refine ⟨fun es => ?_, by rw [scan_digit hc, kind_integer]⟩
  rw [scan_digit hc]
  cases ds with
  | nil => exact Nat.zero_le _
  | cons d ds =>
    have hbase (base : Char) (hb : base.isDigit = false ∧ base ≠ '_') : (d == base) = false := by
      refine beq_eq_false_iff_ne.mpr ?_
      rintro rfl
      rcases hds d List.mem_cons_self with h | h
      · rw [hb.1] at h
        cases h
      · exact hb.2 h
    have hread : integer c (d :: ds ++ es) =
        .good .integer (countWhile (fun d => d.isDigit || d == '_') (d :: ds ++ es)) := by
      simp [integer, hbase]
    rw [hread, Scan.good, countWhile_of_all fun d hd => by simpa using hds d hd]
    exact Nat.le_add_right _ _

theorem reaches_based {letters : List Char} {isDigit : Char → Bool}
    (hread : ∀ base ∈ letters, ∀ cs, integer '0' (base :: cs) = based isDigit cs)
    (h : IsBased letters isDigit (c :: ds)) : Reaches .integer c ds := by
  unfold IsBased at h
  split at h
  · rename_i base es heq
    obtain ⟨rfl, rfl⟩ := List.cons.inj heq
    obtain ⟨hbase, hes, -⟩ := h
    refine ⟨fun fs => ?_, by rw [scan_digit rfl, kind_integer]⟩
    have hcount := countWhile_of_all (p := fun d => isDigit d || d == '_')
      (fun d hd => by simpa using hes d hd) fs
    rw [scan_digit rfl, List.cons_append, hread base hbase]
    show es.length + 1 ≤ countWhile (fun d => isDigit d || d == '_') (es ++ fs) + 1
    omega
  · exact h.elim

theorem reaches_lineBreak (h : Spells .lineBreak (c :: ds)) : Reaches .lineBreak c ds := by
  rcases h with h | h | h <;> cases h
  · exact ⟨fun _ => Nat.zero_le _, rfl⟩
  · exact ⟨fun _ => Nat.le_refl _, rfl⟩
  · exact ⟨fun _ => Nat.zero_le _, rfl⟩

theorem reaches_sign (h : kind.sign? = some (c :: ds)) : Reaches kind c ds := by
  cases kind <;> cases h <;>
    exact ⟨fun es => by first | exact Nat.zero_le _ | exact Nat.le_refl _, rfl⟩

theorem reaches_of_spells (h : Spells kind (c :: ds)) : Reaches kind c ds := by
  unfold Spells at h
  split at h
  · exact reaches_whitespace h.2
  · exact reaches_lineBreak h
  · obtain ⟨ds, heq, hds⟩ := h
    cases heq
    exact reaches_lineComment hds
  · obtain ⟨ds, heq, hds⟩ := h
    cases heq
    exact reaches_blockComment hds
  · exact reaches_identifier h
  · exact reaches_keyword h
  · rcases h with hdecimal | hhex | hbinary
    · exact reaches_decimal hdecimal
    · exact reaches_based (by simp [integer]) hhex
    · exact reaches_based (by simp [integer]) hbinary
  · obtain ⟨ds, heq, hds⟩ := h
    cases heq
    exact reaches_string hds
  · exact reaches_sign h

-- ---------------------------------------------------------------------------
-- What stands behind a comment or a literal
-- ---------------------------------------------------------------------------

theorem eq_append_of_length_le (xs : List Char) {ys : List Char} (h : cs ++ ds = xs ++ ys)
    (hle : xs.length ≤ cs.length) :
    ∃ zs, cs = xs ++ zs := by
  have hbegins : xs <+: cs :=
    List.prefix_of_prefix_length_le ⟨ys, h.symm⟩ (List.prefix_append cs ds) hle
  exact ⟨_, hbegins.choose_spec.symm⟩

theorem commentBody_of_comment (h : (comment cs).flaws = []) :
    ∃ body rest, cs = body ++ '*' :: '/' :: rest ∧ CommentBody body := by
  unfold comment at h
  split at h
  · rename_i more hmore
    obtain ⟨closed, rest, rfl, -, hclosed⟩ := closes_of_commentEnd? hmore
    cases hclosed with
    | last hbody => exact ⟨_, rest, List.append_assoc _ _ _, hbody⟩
  · cases h

theorem stringBody_of_string (h : (string cs).flaws = []) :
    ∃ body rest, cs = body ++ '"' :: rest ∧ StringBody body := by
  have hend : stringEnd 1 cs = ((stringEnd 1 cs).1, []) := Prod.ext rfl h
  obtain ⟨body, rest, htext, -, hbody⟩ := stringBody_of_stringEnd hend
  exact ⟨body, rest, htext, hbody⟩

theorem comment_congr (es : List Char) (h : (comment (cs ++ ds)).flaws = [])
    (hmore : (comment (cs ++ ds)).more ≤ cs.length + 1) : comment (cs ++ es) = comment (cs ++ ds) := by
  obtain ⟨body, rest, htext, hbody⟩ := commentBody_of_comment h
  have hread := comment_body hbody rest
  rw [htext, hread, Scan.good] at hmore
  obtain ⟨zs, rfl⟩ :=
    eq_append_of_length_le (body ++ ['*', '/']) (by simpa using htext) (by simpa using hmore)
  rw [htext, hread, List.append_assoc, List.append_assoc]
  exact comment_body hbody (zs ++ es)

theorem string_congr (es : List Char) (h : (string (cs ++ ds)).flaws = [])
    (hmore : (string (cs ++ ds)).more ≤ cs.length) : string (cs ++ es) = string (cs ++ ds) := by
  obtain ⟨body, rest, htext, hbody⟩ := stringBody_of_string h
  have hread := string_body hbody rest
  rw [htext, hread, Scan.good] at hmore
  obtain ⟨zs, rfl⟩ := eq_append_of_length_le (body ++ ['"']) (by simpa using htext) (by simpa using hmore)
  rw [htext, hread, List.append_assoc, List.append_assoc]
  exact string_body hbody (zs ++ es)

end Lexeme

end Linewise
