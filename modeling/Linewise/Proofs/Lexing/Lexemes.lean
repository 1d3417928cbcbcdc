import Linewise.Lexer

/-!
# The lexemes of a text

The lexemes of a text are the one at its head and those of what is left. Put together they are the text.
What later proofs need to know of a single lexeme is in `Sound`, proved for everything that `scan` reads.
-/

namespace Linewise

namespace Lexeme

variable {c : Char} {cs : List Char} {s : Scan}

theorem toList_collect (found : Array Lexeme) (skip : Nat) (cs : List Char) :
    (collect found skip cs).toList = found.toList ++ lexemes (cs.drop skip) := by
  induction cs generalizing found skip with
  | nil => cases skip <;> simp [collect, lexemes]
  | cons c cs ih =>
    cases skip with
    | succ skip => rw [collect, ih, List.drop_succ_cons]
    | zero =>
      simp only [collect, lexemes, List.drop_zero, ih, Array.toList_push, List.append_assoc]
      rfl

end Lexeme

open Lexeme

@[simp] theorem lexemes_nil : lexemes [] = [] := rfl

theorem lexemes_cons (c : Char) (cs : List Char) :
    lexemes (c :: cs) = ofScan c cs (scan c cs) :: lexemes (cs.drop (scan c cs).more) := by
  rw [lexemes, collect, toList_collect]
  rfl

theorem lexemes_induction {P : List Char → Prop} (nil : P [])
    (cons : ∀ c cs, P (cs.drop (scan c cs).more) → P (c :: cs)) (cs : List Char) : P cs := by
  suffices hall : ∀ n (cs : List Char), cs.length = n → P cs from hall _ cs rfl
  intro n
  induction n using Nat.strongRecOn with
  | ind n ih =>
    intro cs hn
    cases cs with
    | nil => exact nil
    | cons c cs =>
      simp only [List.length_cons] at hn
      exact cons c cs (ih _ (by rw [List.length_drop]; omega) _ rfl)

theorem flatMap_text_lexemes (cs : List Char) : (lexemes cs).flatMap Lexeme.text = cs := by
  induction cs using lexemes_induction with
  | nil => rfl
  | cons c cs ih => rw [lexemes_cons, List.flatMap_cons, ih, ofScan, List.cons_append, List.take_append_drop]

-- ---------------------------------------------------------------------------
-- What is known of a lexeme
-- ---------------------------------------------------------------------------

namespace Lexeme

/-- What a scan says about line breaks is true, it takes no more than there is, and it has a kind unless
it has a flaw. -/
structure Sound (c : Char) (cs : List Char) (s : Scan) : Prop where
  more_le : s.more ≤ cs.length
  kind : s.flaws = [] → ∃ kind, s.kind = some kind ∧ kind ≠ .eof
  lineBreak : s.kind = some .lineBreak → Text.isLineBreak c = true
  plain : s.kind = some .whitespace ∨ s.kind = some .lineComment →
    (c :: cs.take s.more).any Text.isLineBreak = false

def isFree : TokenKind → Bool
  | .lineBreak | .whitespace | .lineComment | .eof => false
  | _ => true

theorem Sound.free {kind : TokenKind} {more : Nat} (hk : isFree kind = true)
    (hm : more ≤ cs.length) (flaws : List Flaw) : Sound c cs ⟨some kind, more, flaws⟩ where
  more_le := hm
  kind _ := ⟨kind, rfl, by rintro rfl; cases hk⟩
  lineBreak h := by cases h; cases hk
  plain h := by rcases h with h | h <;> (cases h; cases hk)

theorem Sound.sign {kind : TokenKind} (hk : isFree kind = true) : Sound c cs (.good kind 0) :=
  .free hk (Nat.zero_le _) []

theorem countWhile_le (p : Char → Bool) (cs : List Char) : countWhile p cs ≤ cs.length :=
  (List.takeWhile_prefix p).length_le

theorem countWhile_cons (p : Char → Bool) (c : Char) (cs : List Char) :
    countWhile p (c :: cs) = if p c then countWhile p cs + 1 else 0 := by
  rw [countWhile, List.takeWhile_cons]
  split <;> rfl

theorem takeWhile_run {p : Char → Bool} {cs : List Char} {d : Char} (hcs : ∀ c ∈ cs, p c = true)
    (hd : p d = false) (ds : List Char) :
    (cs ++ d :: ds).takeWhile p = cs ∧ (cs ++ d :: ds).dropWhile p = d :: ds := by
  rw [List.takeWhile_append_of_pos hcs, List.dropWhile_append_of_pos hcs]
  simp [hd]

theorem take_countWhile (p : Char → Bool) (cs : List Char) :
    cs.take (countWhile p cs) = cs.takeWhile p :=
  (List.prefix_iff_eq_take.mp (List.takeWhile_prefix p)).symm

theorem any_takeWhile {p q : Char → Bool} (h : ∀ c, p c = true → q c = false) (cs : List Char) :
    (cs.takeWhile p).any q = false := by
  rw [List.any_eq_false]
  intro c hc
  simp [h c (List.all_eq_true.mp List.all_takeWhile c hc)]

theorem commentEnd?_le {inner read n : Nat} (h : commentEnd? inner read cs = some n) :
    n ≤ read + cs.length := by
  fun_induction commentEnd? inner read cs <;> simp_all <;> omega

theorem sound_comment : Sound '/' ('*' :: cs) (comment cs) := by
  unfold comment
  split
  · rename_i more h
    have := commentEnd?_le h
    exact .free rfl (by simp only [List.length_cons]; omega) []
  · exact .free rfl (Nat.le_refl _) _

theorem stringEnd_le (read : Nat) (cs : List Char) : (stringEnd read cs).1 ≤ read + cs.length := by
  fun_induction stringEnd read cs <;> simp_all <;> omega

theorem sound_string : Sound '"' cs (string cs) := by
  have := stringEnd_le 1 cs
  exact .free rfl (by omega) _

theorem sound_based (isDigit : Char → Bool) (c d : Char) :
    Sound c (d :: cs) (based isDigit cs) :=
  .free rfl (by simpa using (List.takeWhile_prefix _).length_le) _

theorem sound_integer (c : Char) : Sound c cs (integer c cs) := by
  have hdecimal : Sound c cs (.good .integer (countWhile (fun c => c.isDigit || c == '_') cs)) :=
    .free rfl (countWhile_le _ cs) []
  unfold integer
  split
  · split
    · exact sound_based _ _ _
    · split
      · exact sound_based _ _ _
      · exact hdecimal
  · exact hdecimal

theorem sound_name (c : Char) : Sound c cs (name c cs) := by
  have hle := (List.takeWhile_prefix (l := cs) Text.isNameRest).length_le
  unfold name
  dsimp only
  split
  · exact .free rfl hle []
  · exact .free rfl hle []

theorem sound_pair {second : Char} {two one : TokenKind} (h₂ : isFree two = true)
    (h₁ : isFree one = true) : Sound c cs (pair second two one cs) := by
  unfold pair
  split
  · cases cs with
    | nil => contradiction
    | cons d ds => exact .free h₂ (Nat.le_add_left 1 _) []
  · exact .sign h₁

theorem sound_unexpected : Sound c cs (unexpected c) where
  more_le := Nat.zero_le _
  kind h := by cases h
  lineBreak h := by cases h
  plain h := by rcases h with h | h <;> cases h

theorem sound_lineBreak {more : Nat} (hc : Text.isLineBreak c = true) (hm : more ≤ cs.length) :
    Sound c cs (.good .lineBreak more) where
  more_le := hm
  kind _ := ⟨_, rfl, by decide⟩
  lineBreak _ := hc
  plain h := by rcases h with h | h <;> cases h

theorem sound_lineComment :
    Sound '/' ('/' :: cs) (.good .lineComment (countWhile (fun c => !Text.isLineBreak c) cs + 1)) where
  more_le := Nat.add_le_add_right (countWhile_le _ cs) 1
  kind _ := ⟨_, rfl, by decide⟩
  lineBreak h := by cases h
  plain _ := by
    have hrest : (cs.takeWhile fun c => !Text.isLineBreak c).any Text.isLineBreak = false :=
      any_takeWhile (fun c h => by simpa using h) cs
    rw [Scan.good, List.take_succ_cons, take_countWhile, List.any_cons, List.any_cons, hrest]
    decide

theorem sound_whitespace (hc : Text.isBlank c = true) :
    Sound c cs (.good .whitespace (countWhile Text.isBlank cs)) where
  more_le := countWhile_le _ cs
  kind _ := ⟨_, rfl, by decide⟩
  lineBreak h := by cases h
  plain _ := by
    have hblank : ∀ c, Text.isBlank c = true → Text.isLineBreak c = false := by
      intro c h
      simp only [Text.isBlank, Bool.or_eq_true, beq_iff_eq] at h
      rcases h with (rfl | rfl) | rfl <;> decide
    rw [Scan.good, take_countWhile, List.any_cons, hblank c hc, any_takeWhile hblank, Bool.or_false]

theorem sound_scan (c : Char) (cs : List Char) : Sound c cs (scan c cs) := by
  unfold scan
  split
  case h_1 => exact sound_lineBreak rfl (Nat.zero_le _)
  case h_2 =>
    refine sound_lineBreak rfl ?_
    cases cs with
    | nil => exact Nat.le_refl 0
    | cons d ds => simp only [List.length_cons]; split <;> omega
  case h_3 =>
    split
    · exact sound_lineComment
    · exact sound_comment
    · exact .sign rfl
  all_goals first
    | exact .sign rfl
    | exact sound_pair rfl rfl
    | exact sound_string
    | skip
  · split
    · cases cs with
      | nil => contradiction
      | cons d ds => exact .free rfl (Nat.le_add_left 1 _) []
    · exact sound_unexpected
  · split
    · exact sound_whitespace ‹_›
    · split
      · exact sound_integer c
      · split
        · exact sound_name c
        · exact sound_unexpected

end Lexeme

-- ---------------------------------------------------------------------------
-- Texts without flaws
-- ---------------------------------------------------------------------------

/-- A text that is lexed without a fault. -/
def Clean (cs : List Char) : Prop := ∀ l ∈ lexemes cs, l.flaws = []

instance (cs : List Char) : Decidable (Clean cs) :=
  inferInstanceAs (Decidable (∀ l ∈ lexemes cs, l.flaws = []))

@[simp] theorem clean_nil : Clean [] := fun _ h => by cases h

theorem clean_cons {c : Char} {cs : List Char} :
    Clean (c :: cs) ↔ (scan c cs).flaws = [] ∧ Clean (cs.drop (scan c cs).more) := by
  simp [Clean, lexemes_cons, ofScan]

def Lexeme.item? (l : Lexeme) : Option (TokenKind × String) :=
  l.kind.map fun kind => (kind, String.ofList l.text)

def items (cs : List Char) : List (TokenKind × String) := (lexemes cs).filterMap Lexeme.item?

@[simp] theorem items_nil : items [] = [] := rfl

theorem items_cons {c : Char} {cs : List Char} (h : (scan c cs).flaws = []) :
    ∃ kind, (scan c cs).kind = some kind ∧ kind ≠ .eof ∧
      items (c :: cs) = (kind, String.ofList (c :: cs.take (scan c cs).more)) ::
        items (cs.drop (scan c cs).more) := by
  obtain ⟨kind, hkind, heof⟩ := (sound_scan c cs).kind h
  refine ⟨kind, hkind, heof, ?_⟩
  rw [items, lexemes_cons, List.filterMap_cons_some (b := (kind, _))]
  · rfl
  · rw [item?, ofScan, hkind]
    rfl

theorem toList_collectFaults_eq_nil (offset : Nat) (found : Array (Located LexicalFault))
    (ls : List Lexeme) :
    (collectFaults offset found ls).toList = [] ↔ found.toList = [] ∧ ∀ l ∈ ls, l.flaws = [] := by
  induction ls generalizing offset found with
  | nil => simp [collectFaults]
  | cons l ls ih => simp [collectFaults, ih, faultsAt, and_assoc]

theorem foldl_pushLexeme (ls : List Lexeme) (s : TokenStream) :
    ls.foldl TokenStream.pushLexeme s =
      (ls.filterMap Lexeme.item?).foldl (fun s item => s.push item.1 item.2) s := by
  induction ls generalizing s with
  | nil => rfl
  | cons l ls ih =>
    rw [List.foldl_cons, ih]
    cases hk : l.kind with
    | none => rw [List.filterMap_cons_none (by simp [item?, hk]), TokenStream.pushLexeme, hk]
    | some kind =>
      rw [List.filterMap_cons_some (b := (kind, String.ofList l.text)) (by rw [item?, hk]; rfl),
        List.foldl_cons, TokenStream.pushLexeme, hk]

/-- A source lexes if its text has no flaws, and its stream holds the tokens of the text and an end. -/
theorem lex_eq_ok {source : String} {s : TokenStream} :
    lex source = .ok s ↔
      Clean source.toList ∧ s = .ofList (items source.toList ++ [(.eof, "")]) := by
  have hstream : ((lexemes source.toList).foldl TokenStream.pushLexeme .empty).push .eof "" =
      .ofList (items source.toList ++ [(.eof, "")]) := by
    rw [foldl_pushLexeme, TokenStream.ofList, List.foldl_append]
    rfl
  have hfaults := toList_collectFaults_eq_nil 0 #[] (lexemes source.toList)
  unfold lex
  dsimp only
  split
  · rename_i heq
    rw [hstream, Except.ok.injEq, eq_comm]
    exact ⟨fun h => ⟨(hfaults.mp heq).2, h⟩, And.right⟩
  · rename_i hne
    exact ⟨nofun, fun h => absurd (hfaults.mpr ⟨rfl, h.1⟩) hne⟩

-- ---------------------------------------------------------------------------
-- Items
-- ---------------------------------------------------------------------------

def chars (is : List (TokenKind × String)) : List Char := is.flatMap fun i => i.2.toList

@[simp] theorem chars_nil : chars [] = [] := rfl

@[simp] theorem chars_cons (i : TokenKind × String) (is : List (TokenKind × String)) :
    chars (i :: is) = i.2.toList ++ chars is := rfl

@[simp] theorem chars_append (is js : List (TokenKind × String)) :
    chars (is ++ js) = chars is ++ chars js := List.flatMap_append

theorem chars_items {cs : List Char} (h : Clean cs) : chars (items cs) = cs := by
  induction cs using lexemes_induction with
  | nil => rfl
  | cons c cs ih =>
    obtain ⟨hflaws, hrest⟩ := clean_cons.mp h
    obtain ⟨kind, -, -, hitems⟩ := items_cons hflaws
    rw [hitems, chars_cons, ih hrest, String.toList_ofList, List.cons_append, List.take_append_drop]

/-- What the kind of an item says about line breaks in it is true. -/
structure SoundLayout (i : TokenKind × String) : Prop where
  lineBreak : i.1 = .lineBreak → Text.hasLineBreak i.2 = true
  plain : i.1 = .whitespace ∨ i.1 = .lineComment → Text.hasLineBreak i.2 = false

structure SoundItem (i : TokenKind × String) : Prop extends SoundLayout i where
  not_eof : i.1 ≠ .eof
  nonempty : i.2.toList ≠ []

theorem SoundItem.size_pos {i : TokenKind × String} (h : SoundItem i) : 0 < i.2.utf8ByteSize :=
  Nat.pos_of_ne_zero fun hzero => h.nonempty (by simpa using hzero)

theorem soundLayout_eof (text : String) : SoundLayout (.eof, text) where
  lineBreak h := by cases h
  plain h := by rcases h with h | h <;> cases h

theorem sound_items {cs : List Char} (h : Clean cs) : ∀ i ∈ items cs, SoundItem i := by
  induction cs using lexemes_induction with
  | nil => exact fun i hi => by cases hi
  | cons c cs ih =>
    obtain ⟨hflaws, hrest⟩ := clean_cons.mp h
    obtain ⟨kind, hkind, heof, hitems⟩ := items_cons hflaws
    have hsound := sound_scan c cs
    rw [hitems]
    refine List.forall_mem_cons.mpr ⟨⟨⟨fun hk => ?_, fun hk => ?_⟩, heof, by simp⟩, ih hrest⟩
    · have := hsound.lineBreak (hkind.trans (congrArg some hk))
      simp [Text.hasLineBreak, this]
    · rw [Text.hasLineBreak, String.toList_ofList]
      refine hsound.plain (hk.imp (fun hk => ?_) fun hk => ?_) <;> exact hkind.trans (congrArg some hk)

end Linewise
