import Linewise.Proofs.Lexing.Faults
import Linewise.Proofs.Lexing.Lossless

/-!
# Other line endings

A text whose lines end otherwise falls into the same lexemes, with other line breaks in them. A lexeme that
ends in front of a line break does so whatever the line break is, and the others, comments that span lines,
ask for no line break at all.
-/

namespace Linewise

/-- What ends a line in place of a line feed. -/
inductive LineEnding where
  | pair | carriageReturn

namespace LineEnding

def chars : LineEnding → List Char
  | pair => ['\r', '\n']
  | carriageReturn => ['\r']

/-- A text with this in place of its line feeds. -/
def convert (e : LineEnding) (cs : List Char) : List Char :=
  cs.flatMap fun c => if c = '\n' then e.chars else [c]

def inText (e : LineEnding) (text : String) : String := String.ofList (e.convert text.toList)

variable {e : LineEnding} {c d : Char} {cs ds : List Char} {p : Char → Bool}

@[simp] theorem convert_nil : e.convert [] = [] := rfl

@[simp] theorem convert_lineFeed : e.convert ('\n' :: cs) = e.chars ++ e.convert cs := rfl

theorem convert_cons (hc : c ≠ '\n') : e.convert (c :: cs) = c :: e.convert cs := by
  rw [convert, List.flatMap_cons, if_neg hc]
  rfl

theorem convert_append : e.convert (cs ++ ds) = e.convert cs ++ e.convert ds := List.flatMap_append

theorem convert_of_not_mem (h : '\n' ∉ cs) : e.convert cs = cs := by
  induction cs with
  | nil => rfl
  | cons c cs ih =>
    rw [List.mem_cons, not_or] at h
    rw [convert_cons (Ne.symm h.1), ih h.2]

theorem convert_head (e : LineEnding) (c : Char) (cs : List Char) :
    (c = '\n' ∧ ∃ ds, e.convert (c :: cs) = '\r' :: ds) ∨
      (c ≠ '\n' ∧ e.convert (c :: cs) = c :: e.convert cs) := by
  by_cases hc : c = '\n'
  · subst hc
    cases e
    · exact .inl ⟨rfl, _, rfl⟩
    · exact .inl ⟨rfl, _, rfl⟩
  · exact .inr ⟨hc, convert_cons hc⟩

theorem takeWhile_convert (hfeed : p '\n' = false) (hreturn : p '\r' = false) (cs : List Char) :
    (e.convert cs).takeWhile p = cs.takeWhile p := by
  induction cs with
  | nil => rfl
  | cons c cs ih =>
    rcases e.convert_head c cs with ⟨rfl, ds, hds⟩ | ⟨-, hds⟩
    · rw [hds, List.takeWhile_cons, List.takeWhile_cons, hfeed, hreturn]
      rfl
    · rw [hds, List.takeWhile_cons, List.takeWhile_cons, ih]

theorem head?_convert (hd : Text.isLineBreak d = false) :
    (e.convert cs).head? = some d ↔ cs.head? = some d := by
  cases cs with
  | nil => exact Iff.rfl
  | cons c cs =>
    rcases e.convert_head c cs with ⟨rfl, ds, hds⟩ | ⟨-, hds⟩
    · rw [hds, List.head?_cons, List.head?_cons]
      constructor <;> (rintro ⟨⟩; cases hd)
    · rw [hds, List.head?_cons, List.head?_cons]

theorem any_convert : (e.convert cs).any Text.isLineBreak = cs.any Text.isLineBreak := by
  induction cs with
  | nil => rfl
  | cons c cs ih =>
    by_cases hc : c = '\n'
    · subst hc
      cases e <;> rfl
    · rw [convert_cons hc, List.any_cons, List.any_cons, ih]

theorem head?_carriageReturn (cs : List Char) : (carriageReturn.convert cs).head? ≠ some '\n' := by
  cases cs with
  | nil => exact nofun
  | cons c cs =>
    rcases carriageReturn.convert_head c cs with ⟨-, ds, hds⟩ | ⟨hc, hds⟩
    · rw [hds]
      exact nofun
    · rw [hds]
      exact fun h => hc (Option.some.inj h)

theorem advance_convert (hr : '\r' ∉ cs) (point : Point) :
    point.advance (e.convert cs) = point.advance cs := by
  induction cs generalizing point with
  | nil => rfl
  | cons c cs ih =>
    rw [List.mem_cons, not_or] at hr
    by_cases hc : c = '\n'
    · subst hc
      rw [Point.advance, ← ih hr.2]
      cases e with
      | pair => rfl
      | carriageReturn => exact Point.advance_break rfl fun _ => head?_carriageReturn cs
    · have hplain : Text.isLineBreak c = false := by
        simpa [Text.isLineBreak] using ⟨hc, Ne.symm hr.1⟩
      rw [convert_cons hc, Point.advance_plain hplain, Point.advance_plain hplain, ih hr.2]

end LineEnding

-- ---------------------------------------------------------------------------
-- One lexeme
-- ---------------------------------------------------------------------------

namespace Lexeme

variable {e : LineEnding} {c : Char} {cs : List Char} {s s' : Scan} {p : Char → Bool} {read : Nat}

/-- The scans of a text and of the text with other line endings: they answer the same, and read as far. -/
structure Alike (e : LineEnding) (cs : List Char) (s s' : Scan) : Prop where
  kind : s'.kind = s.kind
  more : s'.more = (e.convert (cs.take s.more)).length
  faults : s'.flaws.map Flaw.fault = s.flaws.map Flaw.fault

theorem Alike.take (h : Alike e cs s s') : (e.convert cs).take s'.more = e.convert (cs.take s.more) := by
  conv => lhs; rw [← List.take_append_drop s.more cs, LineEnding.convert_append, h.more]
  exact List.take_left

theorem Alike.drop (h : Alike e cs s s') : (e.convert cs).drop s'.more = e.convert (cs.drop s.more) := by
  conv => lhs; rw [← List.take_append_drop s.more cs, LineEnding.convert_append, h.more]
  exact List.drop_left

theorem Alike.of_eq (h : s' = s) (hle : s.more ≤ cs.length) (hno : '\n' ∉ cs.take s.more) :
    Alike e cs s s' := by
  subst h
  refine ⟨rfl, ?_, rfl⟩
  rw [LineEnding.convert_of_not_mem hno, List.length_take, Nat.min_eq_left hle]

theorem alike_sign {kind : Option TokenKind} {flaws : List Flaw} :
    Alike e cs ⟨kind, 0, flaws⟩ ⟨kind, 0, flaws⟩ :=
  .of_eq rfl (Nat.zero_le _) List.not_mem_nil

theorem lineFeed_not_mem_takeWhile (hp : p '\n' = false) (cs : List Char) : '\n' ∉ cs.takeWhile p :=
  fun h => Bool.false_ne_true (hp.symm.trans (forall_takeWhile p cs _ h))

theorem alike_countWhile {kind : TokenKind} (hfeed : p '\n' = false) (hreturn : p '\r' = false) :
    Alike e cs (.good kind (countWhile p cs)) (.good kind (countWhile p (e.convert cs))) := by
  refine .of_eq ?_ (countWhile_le p cs) ?_
  · rw [countWhile, LineEnding.takeWhile_convert hfeed hreturn, countWhile]
  · rw [Scan.good, take_countWhile]
    exact lineFeed_not_mem_takeWhile hfeed cs

theorem alike_pair {second : Char} {two one : TokenKind} (h : Text.isLineBreak second = false) :
    Alike e cs (pair second two one cs) (pair second two one (e.convert cs)) := by
  unfold pair
  simp only [LineEnding.head?_convert h]
  by_cases hhead : cs.head? = some second
  · obtain ⟨ds, rfl⟩ := List.head?_eq_some_iff.mp hhead
    rw [if_pos hhead]
    refine .of_eq rfl (Nat.le_add_left 1 _) fun hmem => ?_
    obtain rfl := List.mem_singleton.mp hmem
    cases h
  · rw [if_neg hhead]
    exact alike_sign

theorem Alike.cons {d : Char} {kind : Option TokenKind} {more more' : Nat} {flaws flaws' : List Flaw}
    (hd : d ≠ '\n') (h : Alike e cs ⟨kind, more, flaws⟩ ⟨kind, more', flaws'⟩) :
    Alike e (d :: cs) ⟨kind, more + 1, flaws⟩ ⟨kind, more' + 1, flaws'⟩ where
  kind := rfl
  more := by
    rw [List.take_succ_cons, LineEnding.convert_cons hd, List.length_cons]
    exact congrArg (· + 1) h.more
  faults := h.faults

theorem alike_name (c : Char) : Alike e cs (name c cs) (name c (e.convert cs)) := by
  have hsame : name c (e.convert cs) = name c cs := by
    unfold name
    rw [LineEnding.takeWhile_convert rfl rfl]
  refine .of_eq hsame (sound_name c).more_le ?_
  rw [more_name, take_countWhile]
  exact lineFeed_not_mem_takeWhile rfl cs

theorem alike_based {isDigit : Char → Bool} {d : Char} (hd : d ≠ '\n') (hfeed : isDigit '\n' = false)
    (hreturn : isDigit '\r' = false) :
    Alike e (d :: cs) (based isDigit cs) (based isDigit (e.convert cs)) := by
  have hsame : based isDigit (e.convert cs) = based isDigit cs := by
    unfold based
    rw [LineEnding.takeWhile_convert (by simp [hfeed]) (by simp [hreturn])]
  refine .of_eq hsame (sound_based isDigit d d).more_le ?_
  rw [based, List.take_succ_cons, List.mem_cons, not_or]
  refine ⟨Ne.symm hd, ?_⟩
  rw [← countWhile, take_countWhile]
  exact lineFeed_not_mem_takeWhile (by simp [hfeed]) cs

theorem alike_integer (first : Char) : Alike e cs (integer first cs) (integer first (e.convert cs)) := by
  have hdecimal : Alike e cs (.good .integer (countWhile (fun c => c.isDigit || c == '_') cs))
      (.good .integer (countWhile (fun c => c.isDigit || c == '_') (e.convert cs))) :=
    alike_countWhile rfl rfl
  cases cs with
  | nil => exact hdecimal
  | cons d cs =>
    rcases e.convert_head d cs with ⟨rfl, ds, hds⟩ | ⟨hd, hds⟩
    · rw [hds] at hdecimal ⊢
      unfold integer
      simpa using hdecimal
    · rw [hds] at hdecimal ⊢
      unfold integer
      dsimp only
      split
      · exact alike_based hd rfl rfl
      · split
        · exact alike_based hd rfl rfl
        · exact hdecimal

-- ---------------------------------------------------------------------------
-- Comments
-- ---------------------------------------------------------------------------

theorem commentEnd?_add (inner read : Nat) (cs : List Char) :
    commentEnd? inner read cs = (commentEnd? inner 0 cs).map (· + read) := by
  suffices hall : ∀ n, commentEnd? inner (n + read) cs = (commentEnd? inner n cs).map (· + read) by
    simpa using hall 0
  intro n
  fun_induction commentEnd? inner n cs with
  | case1 => rfl
  | case2 n cs => simp [commentEnd?, Nat.add_right_comm]
  | case3 n cs inner ih => rw [← ih, commentEnd?, Nat.add_right_comm]
  | case4 inner n cs ih => rw [← ih, commentEnd?, Nat.add_right_comm]
  | case5 inner n c cs hclose hopen ih => rw [← ih, commentEnd?, Nat.add_right_comm] <;> assumption

theorem beginsSign_cons : BeginsSign (c :: cs) ↔
    c = '/' ∧ cs.head? = some '*' ∨ c = '*' ∧ cs.head? = some '/' := by
  unfold BeginsSign
  cases cs <;> simp [List.cons_prefix_cons, eq_comm]

theorem beginsSign_convert (c : Char) (cs : List Char) :
    BeginsSign (c :: e.convert cs) ↔ BeginsSign (c :: cs) := by
  rw [beginsSign_cons, beginsSign_cons, LineEnding.head?_convert rfl, LineEnding.head?_convert rfl]

theorem map_convert_sign {a b : Char} (ha : a ≠ '\n') (hb : b ≠ '\n') (end? : Option Nat) :
    (end?.map fun n => (e.convert (cs.take n)).length).map (· + 2) =
      (end?.map (· + 2)).map fun n => (e.convert ((a :: b :: cs).take n)).length := by
  cases end? with
  | none => rfl
  | some n => simp [LineEnding.convert_cons ha, LineEnding.convert_cons hb]

theorem commentEnd?_convert (inner : Nat) (cs : List Char) :
    commentEnd? inner 0 (e.convert cs) =
      (commentEnd? inner 0 cs).map fun n => (e.convert (cs.take n)).length := by
  suffices hall : ∀ read, commentEnd? inner 0 (e.convert cs) =
      (commentEnd? inner 0 cs).map fun n => (e.convert (cs.take n)).length from hall 0
  intro read
  induction inner, read, cs using commentEnd?.induct with
  | case1 => rfl
  | case2 read cs =>
    rw [LineEnding.convert_cons (by decide), LineEnding.convert_cons (by decide)]
    simp [commentEnd?, LineEnding.convert_cons]
  | case3 read cs inner ih =>
    rw [LineEnding.convert_cons (by decide), LineEnding.convert_cons (by decide), commentEnd?,
      commentEnd?_add, ih, commentEnd?, commentEnd?_add inner (0 + 2) cs]
    exact map_convert_sign (by decide) (by decide) _
  | case4 inner read cs ih =>
    rw [LineEnding.convert_cons (by decide), LineEnding.convert_cons (by decide), commentEnd?,
      commentEnd?_add, ih, commentEnd?, commentEnd?_add (inner + 1) (0 + 2) cs]
    exact map_convert_sign (by decide) (by decide) _
  | case5 inner read c cs hclose hopen ih =>
    have hsign : ¬BeginsSign (c :: cs) := by
      rintro (⟨ds, hds⟩ | ⟨ds, hds⟩)
      · obtain ⟨rfl, rfl⟩ := List.cons.inj hds
        exact hopen ds rfl rfl
      · obtain ⟨rfl, rfl⟩ := List.cons.inj hds
        exact hclose ds rfl rfl
    rw [commentEnd?_char hsign, commentEnd?_add inner (0 + 1) cs, Option.map_map]
    by_cases hc : c = '\n'
    · subst hc
      -- The characters of a line break are passed one by one.
      have hbreak (ds : List Char) : commentEnd? inner 0 (e.chars ++ ds) =
          (commentEnd? inner 0 ds).map (· + e.chars.length) := by
        cases e
        · exact commentEnd?_add inner 2 ds
        · exact commentEnd?_add inner 1 ds
      rw [LineEnding.convert_lineFeed, hbreak, ih, Option.map_map]
      congr 1
      funext n
      simp [Nat.add_comm]
    · rw [LineEnding.convert_cons hc, commentEnd?_char (mt (beginsSign_convert c cs).mp hsign),
        commentEnd?_add, ih, Option.map_map]
      congr 1
      funext n
      simp [LineEnding.convert_cons hc]

theorem alike_comment : Alike e ('*' :: cs) (comment cs) (comment (e.convert cs)) := by
  have hend := commentEnd?_convert (e := e) 0 cs
  unfold comment
  rw [commentEnd?_add 0 1 cs, commentEnd?_add 0 1 (e.convert cs), hend]
  cases commentEnd? 0 0 cs with
  | none => exact ⟨rfl, by simp [LineEnding.convert_cons], rfl⟩
  | some n => exact ⟨rfl, by simp [Scan.good, LineEnding.convert_cons], rfl⟩

-- ---------------------------------------------------------------------------
-- String literals
-- ---------------------------------------------------------------------------

theorem countWhile_take_convert (hfeed : p '\n' = false) (hreturn : p '\r' = false) (n : Nat)
    (cs : List Char) : countWhile p ((e.convert cs).take n) = countWhile p (cs.take n) := by
  induction cs generalizing n with
  | nil => rfl
  | cons c cs ih =>
    cases n with
    | zero => rfl
    | succ n =>
      rcases e.convert_head c cs with ⟨rfl, ds, hds⟩ | ⟨-, hds⟩
      · simp [hds, countWhile, hfeed, hreturn]
      · simp only [countWhile, hds, List.take_succ_cons, List.takeWhile_cons] at ih ⊢
        split
        · rw [List.length_cons, List.length_cons, ih]
        · rfl

theorem ne_lineFeed (hc : ¬Text.isLineBreak c = true) : c ≠ '\n' := by
  rintro rfl
  exact hc rfl

theorem stringEnd_break (hc : Text.isLineBreak c = true) :
    stringEnd read (c :: cs) = (read, [⟨.unterminatedString, 0, read⟩]) := by
  have hslash : c ≠ '\\' := by rintro rfl; cases hc
  rw [stringEnd, if_pos hc]
  · rintro rfl
    cases hc
  · exact fun _ h _ => hslash h
  · exact fun _ _ h _ => hslash h

theorem stringEnd_escapedBreak (hc : Text.isLineBreak c = true) :
    stringEnd read ('\\' :: c :: cs) = (read + 1, [⟨.unterminatedString, 0, read + 1⟩]) := by
  rw [stringEnd, if_pos hc]
  rintro rfl
  cases hc

theorem stringEnd_convert (read : Nat) (cs : List Char) :
    stringEnd read (e.convert cs) = stringEnd read cs := by
  fun_induction stringEnd read cs with
  | case1 => rfl
  | case2 read cs =>
    rw [LineEnding.convert_cons (by decide)]
    rfl
  | case3 read cs digits hdigits ih =>
    have hcount := countWhile_take_convert (e := e) (p := Text.isHexDigit) rfl rfl 4 cs
    rw [LineEnding.convert_cons (by decide), LineEnding.convert_cons (by decide)]
    simp only [stringEnd, hcount]
    rw [if_pos hdigits, ih]
  | case4 read cs digits hdigits stop flaws hrest ih =>
    have hcount := countWhile_take_convert (e := e) (p := Text.isHexDigit) rfl rfl 4 cs
    rw [LineEnding.convert_cons (by decide), LineEnding.convert_cons (by decide)]
    simp only [stringEnd, hcount]
    rw [if_neg hdigits, ih, hrest]
  | case5 read c cs hu hbreak =>
    rw [LineEnding.convert_cons (by decide)]
    rcases e.convert_head c cs with ⟨rfl, ds, hds⟩ | ⟨-, hds⟩
    · rw [hds, stringEnd_escapedBreak rfl]
    · rw [hds, stringEnd_escapedBreak hbreak]
  | case6 read c cs hu hbreak hescape ih =>
    rw [LineEnding.convert_cons (by decide), LineEnding.convert_cons (ne_lineFeed hbreak), stringEnd,
      if_neg hbreak, if_pos hescape, ih]
    exact hu
  | case7 read c cs hu hbreak hescape stop flaws hrest ih =>
    rw [LineEnding.convert_cons (by decide), LineEnding.convert_cons (ne_lineFeed hbreak), stringEnd,
      if_neg hbreak, if_neg hescape, ih, hrest]
    exact hu
  | case8 read c cs hquote hunicode hescape hbreak =>
    rcases e.convert_head c cs with ⟨rfl, ds, hds⟩ | ⟨-, hds⟩
    · rw [hds, stringEnd_break rfl]
    · rw [hds, stringEnd_break hbreak]
  | case9 read c cs hquote hunicode hescape hbreak ih =>
    rw [LineEnding.convert_cons (ne_lineFeed hbreak)]
    by_cases hslash : c = '\\'
    · -- A backslash at the end of the text escapes nothing.
      cases cs with
      | nil =>
        subst hslash
        rfl
      | cons d cs => exact (hescape d cs hslash rfl).elim
    · rw [stringEnd_plain ⟨hquote, hslash, by simpa using hbreak⟩, ih]

theorem lineFeed_not_mem_string (read : Nat) (cs : List Char) :
    ∃ n, (stringEnd read cs).1 = read + n ∧ '\n' ∉ cs.take n := by
  fun_induction stringEnd read cs with
  | case1 read => exact ⟨0, rfl, List.not_mem_nil⟩
  | case2 read cs => exact ⟨1, rfl, by simp⟩
  | case3 read cs digits hdigits ih =>
    obtain ⟨n, hn, hmem⟩ := ih
    exact ⟨n + 2, by omega, by simpa using hmem⟩
  | case4 read cs digits hdigits stop flaws hrest ih =>
    obtain ⟨n, hn, hmem⟩ := ih
    rw [hrest] at hn
    exact ⟨n + 2, by simp only at hn ⊢; omega, by simpa using hmem⟩
  | case5 read c cs hu hbreak => exact ⟨1, rfl, by simp⟩
  | case6 read c cs hu hbreak hescape ih =>
    obtain ⟨n, hn, hmem⟩ := ih
    exact ⟨n + 2, by omega, by simpa [(ne_lineFeed hbreak).symm] using hmem⟩
  | case7 read c cs hu hbreak hescape stop flaws hrest ih =>
    obtain ⟨n, hn, hmem⟩ := ih
    rw [hrest] at hn
    exact ⟨n + 2, by simp only at hn ⊢; omega, by simpa [(ne_lineFeed hbreak).symm] using hmem⟩
  | case8 read c cs hquote hunicode hescape hbreak => exact ⟨0, rfl, List.not_mem_nil⟩
  | case9 read c cs hquote hunicode hescape hbreak ih =>
    obtain ⟨n, hn, hmem⟩ := ih
    exact ⟨n + 1, by omega, by simpa [(ne_lineFeed hbreak).symm] using hmem⟩

theorem alike_string : Alike e cs (string cs) (string (e.convert cs)) := by
  have hsame : string (e.convert cs) = string cs := by
    unfold string
    rw [stringEnd_convert]
  refine .of_eq hsame sound_string.more_le ?_
  obtain ⟨n, hn, hmem⟩ := lineFeed_not_mem_string 1 cs
  have hmore : (string cs).more = n := by
    show (stringEnd 1 cs).1 - 1 = n
    omega
  rwa [hmore]

-- ---------------------------------------------------------------------------
-- All lexemes
-- ---------------------------------------------------------------------------

theorem alike_slash (cs : List Char) : Alike e cs (scan '/' cs) (scan '/' (e.convert cs)) := by
  cases cs with
  | nil => exact alike_sign
  | cons d cs =>
    rcases e.convert_head d cs with ⟨rfl, ds, hds⟩ | ⟨-, hds⟩
    · rw [hds]
      exact alike_sign
    · rw [hds]
      by_cases hslash : d = '/'
      · subst hslash
        exact (alike_countWhile (p := fun c => !Text.isLineBreak c) rfl rfl).cons (by decide)
      · by_cases hstar : d = '*'
        · subst hstar
          exact alike_comment
        · have hdivide (ds : List Char) : scan '/' (d :: ds) = .good .divide 0 := by
            simp [scan, hslash, hstar]
          rw [hdivide, hdivide]
          exact alike_sign

theorem alike_scan (hc : Text.isLineBreak c = false) (cs : List Char) :
    Alike e cs (scan c cs) (scan c (e.convert cs)) := by
  by_cases hslash : c = '/'
  · subst hslash
    exact alike_slash cs
  unfold scan
  split
  case h_1 => cases hc
  case h_2 => cases hc
  case h_3 => exact absurd rfl hslash
  all_goals first
    | exact alike_sign
    | exact alike_pair rfl
    | exact alike_string
    | skip
  · have hsecond : (e.convert cs).head? = some '=' ↔ cs.head? = some '=' := LineEnding.head?_convert rfl
    by_cases hhead : cs.head? = some '='
    · obtain ⟨ds, rfl⟩ := List.head?_eq_some_iff.mp hhead
      rw [if_pos hhead, if_pos (hsecond.mpr hhead)]
      exact .of_eq rfl (Nat.le_add_left 1 _) (by decide : '\n' ∉ ['='])
    · rw [if_neg hhead, if_neg (mt hsecond.mp hhead)]
      exact alike_sign
  · split
    · exact alike_countWhile rfl rfl
    · split
      · exact alike_integer c
      · split
        · exact alike_name c
        · exact alike_sign

def unplaced (l : Lexeme) : Lexeme := { l with flaws := l.flaws.map fun flaw => ⟨flaw.fault, 0, 0⟩ }

theorem unplaced_ofScan (hc : c ≠ '\n') (h : Alike e cs s s') :
    (ofScan c (e.convert cs) s').unplaced =
      { (ofScan c cs s).unplaced with text := e.convert (ofScan c cs s).text } := by
  have hflaws : s'.flaws.map (fun flaw => (⟨flaw.fault, 0, 0⟩ : Flaw)) =
      s.flaws.map fun flaw => ⟨flaw.fault, 0, 0⟩ := by
    simpa [Function.comp_def] using congrArg (List.map fun fault => (⟨fault, 0, 0⟩ : Flaw)) h.faults
  simp only [ofScan, unplaced, h.take, h.kind, hflaws, LineEnding.convert_cons hc]

end Lexeme

open Lexeme

variable {e : LineEnding} {cs : List Char}

theorem lexemes_ending (e : LineEnding) (cs : List Char) :
    lexemes (e.chars ++ e.convert cs) = ⟨e.chars, some .lineBreak, []⟩ :: lexemes (e.convert cs) := by
  cases e with
  | pair => exact lexemes_cons '\r' _
  | carriageReturn =>
    have hscan : scan '\r' (LineEnding.carriageReturn.convert cs) = .good .lineBreak 0 := by
      rw [scan, if_neg (LineEnding.head?_carriageReturn cs)]
    show lexemes ('\r' :: LineEnding.carriageReturn.convert cs) = _
    rw [lexemes_cons, hscan]
    rfl

/-- The lexemes of a text with other line endings are its lexemes, with these endings in them. -/
theorem lexemes_convert (hr : '\r' ∉ cs) :
    (lexemes (e.convert cs)).map unplaced =
      (lexemes cs).map fun l => { l.unplaced with text := e.convert l.text } := by
  induction cs using lexemes_induction with
  | nil => rfl
  | cons c cs ih =>
    rw [List.mem_cons, not_or] at hr
    have hrest := ih fun h => hr.2 (List.mem_of_mem_drop h)
    by_cases hc : c = '\n'
    · subst hc
      have hhead : (Lexeme.mk e.chars (some .lineBreak) []).unplaced =
          { (ofScan '\n' cs (scan '\n' cs)).unplaced with text := e.convert ['\n'] } := by
        cases e <;> rfl
      rw [LineEnding.convert_lineFeed, lexemes_ending, lexemes_cons, List.map_cons, List.map_cons, hhead]
      exact congrArg _ hrest
    · have halike := alike_scan (e := e) (by simpa [Text.isLineBreak] using ⟨hc, Ne.symm hr.1⟩) cs
      rw [LineEnding.convert_cons hc, lexemes_cons, lexemes_cons, List.map_cons, List.map_cons,
        unplaced_ofScan hc halike, halike.drop, hrest]

-- ---------------------------------------------------------------------------
-- Faults and items
-- ---------------------------------------------------------------------------

theorem map_node_faultsFrom (offset : Nat) (ls : List Lexeme) :
    (faultsFrom offset ls).map (·.node) = (ls.map unplaced).flatMap fun l => l.flaws.map Flaw.fault := by
  induction ls generalizing offset with
  | nil => rfl
  | cons l ls ih =>
    rw [faultsFrom, List.map_append, ih, List.map_cons, List.flatMap_cons]
    simp [faultsAt, unplaced, Function.comp_def]

theorem map_node_faults_convert (hr : '\r' ∉ cs) :
    (faultsFrom 0 (lexemes (e.convert cs))).map (·.node) = (faultsFrom 0 (lexemes cs)).map (·.node) := by
  rw [map_node_faultsFrom, map_node_faultsFrom, lexemes_convert hr, List.flatMap_map, List.flatMap_map]

theorem clean_convert (hr : '\r' ∉ cs) : Clean (e.convert cs) ↔ Clean cs := by
  have hclean (cs : List Char) : Clean cs ↔ ∀ l ∈ (lexemes cs).map unplaced, l.flaws = [] := by
    simp [Clean, unplaced]
  rw [hclean, hclean, lexemes_convert hr]
  simp

def LineEnding.item (e : LineEnding) (i : Item) : Item := (i.1, e.inText i.2)

theorem items_convert (hr : '\r' ∉ cs) : items (e.convert cs) = (items cs).map e.item := by
  have hitems (cs : List Char) : items cs = ((lexemes cs).map unplaced).filterMap item? := by
    rw [items, List.filterMap_map]
    rfl
  rw [hitems, lexemes_convert hr, items, List.filterMap_map, List.map_filterMap]
  refine congrArg (List.filterMap · _) (funext fun l => ?_)
  cases hk : l.kind <;> simp [item?, unplaced, hk, LineEnding.item, LineEnding.inText]

-- ---------------------------------------------------------------------------
-- Visible lexemes
-- ---------------------------------------------------------------------------

theorem TokenKind.lineFeed_not_mem_sign? {kind : TokenKind} (h : kind.sign? = some cs) : '\n' ∉ cs := by
  cases kind <;> cases h <;> decide

namespace Lexeme

theorem Spells.lineFeed_not_mem {kind : TokenKind} (h : Spells kind cs) (hk : kind.isLayout = false) :
    '\n' ∉ cs := by
  intro hmem
  unfold Spells at h
  split at h
  case h_1 | h_2 | h_3 | h_4 => cases hk
  · cases h.1.forall_isNameRest _ hmem
  · cases (h ▸ isName_spelling _ : IsName cs).forall_isNameRest _ hmem
  · rcases h with hdecimal | hhex | hbinary
    · exact hdecimal.not_mem (by decide) hmem
    · exact hhex.not_mem (by decide) rfl hmem
    · exact hbinary.not_mem (by decide) rfl hmem
  · obtain ⟨ds, rfl, hds⟩ := h
    rcases List.mem_cons.mp hmem with hmem | hmem
    · exact absurd hmem (by decide)
    · rcases List.mem_append.mp hmem with hmem | hmem
      · exact hds.lineFeed_not_mem hmem
      · exact absurd hmem (by decide)
  · exact TokenKind.lineFeed_not_mem_sign? h hmem

end Lexeme

theorem lineFeed_not_mem_items (h : Clean cs) {i : Item} (hi : i ∈ items cs) (hk : i.1.isLayout = false) :
    '\n' ∉ i.2.toList := by
  obtain ⟨pre, post, hitems⟩ := List.append_of_mem hi
  exact (longest_items h hitems).spells.lineFeed_not_mem hk

end Linewise
