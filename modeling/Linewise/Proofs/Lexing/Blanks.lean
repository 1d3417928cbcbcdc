import Linewise.Proofs.Lexing.Language
import Linewise.Proofs.Lexing.Lossless

/-!
# A blank between two lexemes

A lexeme is known from the characters up to its end and the one behind it, and a blank makes no difference
there: it ends what anything else would have ended. Only blanks and line comments take it in, so the visible
tokens of a text stay as they are.
-/

namespace Linewise

namespace Lexeme

variable {c : Char} {cs ds es : List Char} {p : Char → Bool}

-- ---------------------------------------------------------------------------
-- One lexeme
-- ---------------------------------------------------------------------------

theorem takeWhile_insert (hp : p ' ' = false) (h : countWhile p (cs ++ ds) ≤ cs.length) :
    (cs ++ ' ' :: ds).takeWhile p = (cs ++ ds).takeWhile p := by
  induction cs with
  | nil =>
    rw [List.nil_append, List.takeWhile_cons, hp]
    exact (List.eq_nil_of_length_eq_zero (Nat.le_zero.mp h)).symm
  | cons c cs ih =>
    rw [List.cons_append, List.cons_append, List.takeWhile_cons, List.takeWhile_cons]
    cases hc : p c with
    | false => rfl
    | true =>
      have hrest : countWhile p (cs ++ ds) ≤ cs.length := by
        simpa [countWhile, hc] using h
      simp only [if_true, ih hrest]

theorem countWhile_insert (hp : p ' ' = false) (h : countWhile p (cs ++ ds) ≤ cs.length) :
    countWhile p (cs ++ ' ' :: ds) = countWhile p (cs ++ ds) := congrArg List.length (takeWhile_insert hp h)

theorem countWhile_insert_of_blank (hp : p ' ' = true) (h : countWhile p (cs ++ ds) ≤ cs.length) :
    countWhile p (cs ++ ' ' :: ds) = countWhile p (cs ++ ds) ∨
      countWhile p (cs ++ ds) = cs.length ∧ countWhile p (cs ++ ' ' :: ds) = cs.length + 1 := by
  induction cs with
  | nil =>
    have hnone : countWhile p ds = 0 := Nat.le_zero.mp h
    refine .inr ⟨hnone, ?_⟩
    rw [List.nil_append, countWhile_cons, hp]
    exact congrArg Nat.succ hnone
  | cons c cs ih =>
    simp only [List.cons_append, countWhile_cons] at h ⊢
    cases hc : p c with
    | false => exact .inl rfl
    | true =>
      rw [hc] at h
      rcases ih (Nat.le_of_succ_le_succ h) with hsame | hend
      · exact .inl (congrArg Nat.succ hsame)
      · exact .inr ⟨congrArg Nat.succ hend.1, congrArg Nat.succ hend.2⟩

theorem based_insert {isDigit : Char → Bool} (hd : isDigit ' ' = false)
    (hmore : (based isDigit (cs ++ ds)).more ≤ cs.length + 1) :
    based isDigit (cs ++ ' ' :: ds) = based isDigit (cs ++ ds) := by
  have hdigits := takeWhile_insert (p := fun c => isDigit c || c == '_') (by rw [hd]; rfl)
    (Nat.le_of_succ_le_succ hmore)
  unfold based
  rw [hdigits]

theorem integer_insert (first : Char) (hmore : (integer first (cs ++ ds)).more ≤ cs.length) :
    integer first (cs ++ ' ' :: ds) = integer first (cs ++ ds) := by
  cases cs with
  | nil =>
    have hblank : integer first (' ' :: ds) = .good .integer 0 := by
      simp only [integer, show (' ' == 'x' || ' ' == 'X') = false from rfl,
        show (' ' == 'b' || ' ' == 'B') = false from rfl, Bool.and_false]
      rfl
    -- No base sign follows here: it would have been read.
    have hnone : integer first ds = .good .integer 0 := by
      unfold integer at hmore ⊢
      cases ds with
      | nil => rfl
      | cons base ds =>
        dsimp only [List.nil_append, List.length_nil] at hmore ⊢
        split at hmore
        · exact absurd hmore (Nat.not_succ_le_zero _)
        split at hmore
        · exact absurd hmore (Nat.not_succ_le_zero _)
        · rw [if_neg ‹_›, if_neg ‹_›]
          exact congrArg (Scan.good .integer) (Nat.le_zero.mp hmore)
    exact hblank.trans hnone.symm
  | cons d cs =>
    have hdecimal := @countWhile_insert (d :: cs) ds (fun c => c.isDigit || c == '_') rfl
    unfold integer at hmore ⊢
    simp only [List.cons_append] at hmore hdecimal ⊢
    by_cases hhex : (first == '0' && (d == 'x' || d == 'X')) = true
    · rw [if_pos hhex] at hmore
      rw [if_pos hhex, if_pos hhex]
      exact based_insert rfl hmore
    rw [if_neg hhex] at hmore
    rw [if_neg hhex, if_neg hhex]
    by_cases hbinary : (first == '0' && (d == 'b' || d == 'B')) = true
    · rw [if_pos hbinary] at hmore
      rw [if_pos hbinary, if_pos hbinary]
      exact based_insert rfl hmore
    rw [if_neg hbinary] at hmore
    rw [if_neg hbinary, if_neg hbinary, hdecimal hmore]

theorem name_insert (first : Char) (hmore : (name first (cs ++ ds)).more ≤ cs.length) :
    name first (cs ++ ' ' :: ds) = name first (cs ++ ds) := by
  rw [more_name] at hmore
  unfold name
  rw [takeWhile_insert rfl hmore]

theorem head?_insert {second : Char} (cs ds : List Char) (hs : second ≠ ' ')
    (h : (cs ++ ds).head? = some second → 1 ≤ cs.length) :
    (cs ++ ' ' :: ds).head? = some second ↔ (cs ++ ds).head? = some second := by
  cases cs with
  | nil =>
    have hhead : ds.head? ≠ some second := fun hhead => Nat.not_succ_le_zero 0 (h hhead)
    simp [hhead, hs.symm]
  | cons c cs => rfl

theorem pair_insert {second : Char} {two one : TokenKind} (hs : second ≠ ' ')
    (hmore : (pair second two one (cs ++ ds)).more ≤ cs.length) :
    pair second two one (cs ++ ' ' :: ds) = pair second two one (cs ++ ds) := by
  have hhead := head?_insert cs ds hs fun hhead => by
    rwa [pair, if_pos hhead] at hmore
  unfold pair
  simp only [hhead]

/-- The lexeme is of the layout and ends with the first part of a text, and it takes in a blank behind it. -/
def TakesBlank (c : Char) (cs ds : List Char) : Prop :=
  ∃ kind, kind.isLayout = true ∧ scan c (cs ++ ds) = .good kind cs.length ∧
    scan c (cs ++ ' ' :: ds) = .good kind (cs.length + 1)

theorem scan_slash (h : cs.head? ≠ some '/') (h' : cs.head? ≠ some '*') : scan '/' cs = .good .divide 0 := by
  cases cs with
  | nil => rfl
  | cons d cs =>
    have hslash : d ≠ '/' := fun hd => h (congrArg some hd)
    have hstar : d ≠ '*' := fun hd => h' (congrArg some hd)
    simp [scan, hslash, hstar]

theorem slash_insert (h : (scan '/' (cs ++ ds)).flaws = []) (hmore : (scan '/' (cs ++ ds)).more ≤ cs.length) :
    scan '/' (cs ++ ' ' :: ds) = scan '/' (cs ++ ds) ∨ TakesBlank '/' cs ds := by
  cases cs with
  | nil =>
    rw [List.nil_append] at h hmore
    refine .inl ((scan_slash (by simp) (by simp)).trans (scan_slash ?_ ?_).symm)
    · intro hhead
      obtain ⟨rest, rfl⟩ := List.head?_eq_some_iff.mp hhead
      exact Nat.not_succ_le_zero _ hmore
    · intro hhead
      obtain ⟨rest, rfl⟩ := List.head?_eq_some_iff.mp hhead
      obtain ⟨body, rest, rfl, hbody⟩ := commentBody_of_comment h
      have hread : scan '/' ('*' :: (body ++ '*' :: '/' :: rest)) = _ := comment_body hbody rest
      rw [hread] at hmore
      exact Nat.not_succ_le_zero _ hmore
  | cons d cs =>
    by_cases hslash : d = '/'
    · subst hslash
      have hcount := countWhile_insert_of_blank (p := fun c => !Text.isLineBreak c) rfl
        (Nat.le_of_succ_le_succ hmore)
      refine hcount.imp (fun hsame => ?_) fun ⟨hend, htaken⟩ => ⟨.lineComment, rfl, ?_, ?_⟩
      · exact congrArg (fun n => Scan.good .lineComment (n + 1)) hsame
      · exact congrArg (fun n => Scan.good .lineComment (n + 1)) hend
      · exact congrArg (fun n => Scan.good .lineComment (n + 1)) htaken
    by_cases hstar : d = '*'
    · subst hstar
      exact .inl (comment_congr _ h hmore)
    · refine .inl ((scan_slash ?_ ?_).trans (scan_slash ?_ ?_).symm) <;> simpa

/-- A blank behind a lexeme, or further behind, makes no difference to it, unless the lexeme is of the layout:
then it may take the blank in. -/
theorem scan_insert (h : (scan c (cs ++ ds)).flaws = []) (hmore : (scan c (cs ++ ds)).more ≤ cs.length) :
    scan c (cs ++ ' ' :: ds) = scan c (cs ++ ds) ∨ TakesBlank c cs ds := by
  by_cases hslash : c = '/'
  · subst hslash
    exact slash_insert h hmore
  by_cases hblank : Text.isBlank c = true
  · rw [scan_blank hblank] at hmore
    rw [TakesBlank, scan_blank hblank, scan_blank hblank]
    refine (countWhile_insert_of_blank rfl hmore).imp (congrArg _) fun ⟨hend, htaken⟩ =>
      ⟨.whitespace, rfl, ?_, ?_⟩
    · rw [hend]
    · rw [htaken]
  refine .inl ?_
  by_cases hdigit : c.isDigit = true
  · rw [scan_digit hdigit] at hmore
    rw [scan_digit hdigit, scan_digit hdigit, integer_insert c hmore]
  by_cases hname : Text.isNameStart c = true
  · rw [scan_nameStart hname] at hmore
    rw [scan_nameStart hname, scan_nameStart hname, name_insert c hmore]
  unfold scan at h hmore ⊢
  split
  case h_2 =>
    have hhead := head?_insert cs ds (show '\n' ≠ ' ' by decide) fun hhead => by
      rwa [if_pos hhead] at hmore
    simp only [hhead]
  case h_3 => exact absurd rfl hslash
  all_goals first
    | rfl
    | exact pair_insert (by decide) hmore
    | exact string_congr _ h hmore
    | skip
  · have hhead := head?_insert cs ds (show '=' ≠ ' ' by decide) fun hhead => by
      rwa [if_pos hhead] at hmore
    simp only [hhead]
  · rw [if_neg hblank, if_neg hdigit, if_neg hname]
    rw [if_neg hblank, if_neg hdigit, if_neg hname]

end Lexeme

-- ---------------------------------------------------------------------------
-- Texts
-- ---------------------------------------------------------------------------

open Lexeme

variable {c : Char} {cs ds text : List Char} {is js : List Item} {kind : TokenKind} {more : Nat}

theorem visibleItems_layout (h : scan c cs = .good kind more) (hk : kind.isLayout = true) :
    (Clean (c :: cs) ↔ Clean (cs.drop more)) ∧
      visibleItems (items (c :: cs)) = visibleItems (items (cs.drop more)) := by
  have hflaws : (scan c cs).flaws = [] := by rw [h]; rfl
  obtain ⟨kind', hkind, -, hitems⟩ := items_cons hflaws
  rw [h] at hkind hitems
  obtain rfl : kind = kind' := Option.some.inj hkind
  constructor
  · rw [clean_cons, h]
    exact and_iff_right rfl
  · rw [hitems, visibleItems, List.filter_cons_of_neg (by simp [hk])]
    rfl

theorem blank_cons (h : Clean ds) :
    Clean (' ' :: ds) ∧ visibleItems (items (' ' :: ds)) = visibleItems (items ds) := by
  have hblank : scan ' ' ds = .good .whitespace (countWhile Text.isBlank ds) := scan_blank rfl
  obtain ⟨hclean, hitems⟩ := visibleItems_layout hblank rfl
  rw [hclean, hitems]
  cases ds with
  | nil => exact ⟨h, rfl⟩
  | cons d ds =>
    cases hd : Text.isBlank d with
    | false =>
      have hnone : countWhile Text.isBlank (d :: ds) = 0 := by rw [countWhile_cons, hd]; rfl
      rw [hnone]
      exact ⟨h, rfl⟩
    | true =>
      -- The blank joins those that stand there.
      have hjoined : countWhile Text.isBlank (d :: ds) = countWhile Text.isBlank ds + 1 := by
        rw [countWhile_cons, hd]
        rfl
      obtain ⟨hclean', hitems'⟩ := visibleItems_layout (@scan_blank _ ds hd) rfl
      rw [hjoined, List.drop_succ_cons, ← hclean', hitems']
      exact ⟨h, rfl⟩

theorem insert_cons (h : Clean (c :: (cs ++ ds))) (hmore : (scan c (cs ++ ds)).more ≤ cs.length)
    (hrest : Clean (cs.drop (scan c (cs ++ ds)).more ++ ' ' :: ds) ∧
      visibleItems (items (cs.drop (scan c (cs ++ ds)).more ++ ' ' :: ds)) =
        visibleItems (items (cs.drop (scan c (cs ++ ds)).more ++ ds))) :
    Clean (c :: (cs ++ ' ' :: ds)) ∧
      visibleItems (items (c :: (cs ++ ' ' :: ds))) = visibleItems (items (c :: (cs ++ ds))) := by
  obtain ⟨hflaws, hclean⟩ := clean_cons.mp h
  rcases scan_insert hflaws hmore with hsame | ⟨kind, hk, hscan, hscan'⟩
  · obtain ⟨kind, hkind, -, hitems⟩ := items_cons hflaws
    obtain ⟨kind', hkind', -, hitems'⟩ := items_cons (hsame ▸ hflaws)
    rw [hsame] at hkind' hitems'
    obtain rfl : kind = kind' := Option.some.inj (hkind.symm.trans hkind')
    rw [List.drop_append_of_le_length hmore, List.take_append_of_le_length hmore] at hitems hitems'
    constructor
    · rw [clean_cons, hsame, List.drop_append_of_le_length hmore]
      exact ⟨hflaws, hrest.1⟩
    · rw [hitems, hitems', ← List.singleton_append, visibleItems_append, hrest.2, ← visibleItems_append]
      rfl
  · -- The lexeme takes the blank in, and behind it nothing has changed.
    obtain ⟨hold, hitems⟩ := visibleItems_layout hscan hk
    obtain ⟨hnew, hitems'⟩ := visibleItems_layout hscan' hk
    rw [List.drop_left] at hold hitems
    rw [List.drop_append, List.drop_of_length_le (Nat.le_succ _), Nat.add_sub_cancel_left] at hnew hitems'
    exact ⟨hnew.mpr (hold.mp h), hitems'.trans hitems.symm⟩

theorem visibleItems_insert (h : Clean text) (hi : items text = is ++ js) :
    Clean (chars is ++ ' ' :: chars js) ∧
      visibleItems (items (chars is ++ ' ' :: chars js)) = visibleItems (items text) := by
  induction text using lexemes_induction generalizing is with
  | nil =>
    obtain ⟨rfl, rfl⟩ := List.append_eq_nil_iff.mp hi.symm
    exact blank_cons clean_nil
  | cons c cs ih =>
    obtain ⟨hflaws, hrest⟩ := clean_cons.mp h
    obtain ⟨kind, hkind, -, hitems⟩ := items_cons hflaws
    cases is with
    | nil =>
      obtain rfl : items (c :: cs) = js := hi
      rw [chars_items h]
      exact blank_cons h
    | cons i is =>
      obtain ⟨rfl, hbehind⟩ := List.cons.inj (hitems.symm.trans hi)
      have hbehind : items (cs.drop (scan c cs).more) = is ++ js := hbehind
      have hinsert := ih hrest hbehind
      have hdrop : chars is ++ chars js = cs.drop (scan c cs).more := by
        rw [← chars_append, ← hbehind, chars_items hrest]
      have hcs : cs.take (scan c cs).more ++ chars is ++ chars js = cs := by
        rw [List.append_assoc, hdrop, List.take_append_drop]
      have hlength : (cs.take (scan c cs).more).length = (scan c cs).more :=
        List.length_take_of_le (sound_scan c cs).more_le
      have hfront : (cs.take (scan c cs).more ++ chars is).drop (scan c cs).more = chars is := by
        rw [List.drop_append, hlength]
        simp
      have hstep := @insert_cons c (cs.take (scan c cs).more ++ chars is) (chars js)
      rw [hcs, hfront, hdrop] at hstep
      rw [chars_cons, String.toList_ofList, List.cons_append]
      exact hstep h (by rw [List.length_append, hlength]; exact Nat.le_add_right _ _) hinsert

-- ---------------------------------------------------------------------------
-- Sources
-- ---------------------------------------------------------------------------

theorem visible_of_lex {source : String} {s : TokenStream} (h : lex source = .ok s) :
    s.visible.map Token.item = visibleItems (items source.toList) ++ [(.eof, "")] := by
  rw [TokenStream.visible, tokens_of_lex h, map_item_visible_placed, visibleItems_append]
  rfl

variable {a b : String} {s : TokenStream} {t : Token}

theorem eq_of_byteSize_eq {cs' ds' : List Char} (h : cs ++ ds = cs' ++ ds')
    (hsize : Text.byteSize cs = Text.byteSize cs') : cs = cs' ∧ ds = ds' := by
  have hshort {xs ys : List Char} (hsize : Text.byteSize (xs ++ ys) = Text.byteSize xs) : ys = [] := by
    cases ys with
    | nil => rfl
    | cons y ys =>
      have := Text.byteSize_pos (List.cons_ne_nil y ys)
      rw [Text.byteSize_append] at hsize
      omega
  rcases List.append_eq_append_iff.mp h with ⟨rest, rfl, rfl⟩ | ⟨rest, rfl, rfl⟩
  · obtain rfl := hshort hsize.symm
    simp
  · obtain rfl := hshort hsize
    simp

/-- In a source that lexes a blank may be put in front of any token, the first one and the end among them. The
source lexes as before, and the kinds and texts of its visible tokens are the same. -/
theorem lex_insert_blank (h : lex (a ++ b) = .ok s) (ht : t ∈ s.tokens.toList)
    (ha : a.utf8ByteSize = t.span.start) :
    ∃ u, lex (a ++ " " ++ b) = .ok u ∧
      u.visible.map (fun t => (t.kind, t.text)) = s.visible.map fun t => (t.kind, t.text) := by
  obtain ⟨pre, post, hs⟩ := List.append_of_mem ht
  obtain ⟨hclean, -⟩ := lex_eq_ok.mp h
  have hitems : items (a ++ b).toList = pre.map Token.item ++ ((t :: post).map Token.item).dropLast := by
    have hall := congrArg (List.map Token.item) ((tokens_of_lex h).symm.trans hs)
    rw [map_item_placed, List.map_append] at hall
    have hfront := congrArg List.dropLast hall
    rwa [List.dropLast_concat, List.dropLast_append_of_ne_nil (by simp)] at hfront
  have hchars := chars_items hclean
  have hsize : Text.byteSize a.toList = Text.byteSize (chars (pre.map Token.item)) := by
    rw [Text.byteSize_toList, ha, ((soundStream_of_lex h).split hs).2.1]
  rw [hitems, chars_append, String.toList_append] at hchars
  obtain ⟨hfront, hrest⟩ := eq_of_byteSize_eq hchars.symm hsize
  obtain ⟨hinserted, hvisible⟩ := visibleItems_insert hclean hitems
  have htext : (a ++ " " ++ b).toList = a.toList ++ ' ' :: b.toList := by simp
  rw [← hfront, ← hrest, ← htext] at hinserted hvisible
  have hu : lex (a ++ " " ++ b) = .ok _ := lex_eq_ok.mpr ⟨hinserted, rfl⟩
  refine ⟨_, hu, ?_⟩
  show List.map Token.item _ = List.map Token.item _
  rw [visible_of_lex hu, visible_of_lex h, hvisible]

theorem lex_insert_blank_comment :
    ∃ s t u, lex ("0x1//é" ++ "\r\"ß\"") = .ok s ∧ t ∈ s.tokens.toList ∧ t.kind = .lineBreak ∧
      "0x1//é".utf8ByteSize = t.span.start ∧ lex ("0x1//é" ++ " " ++ "\r\"ß\"") = .ok u ∧
      u.visible.map (fun t => (t.kind, t.text)) = s.visible.map fun t => (t.kind, t.text) := by
  have h : lex ("0x1//é" ++ "\r\"ß\"") = .ok _ := lex_eq_ok.mpr ⟨by decide +kernel, rfl⟩
  obtain ⟨u, hu, hvisible⟩ := lex_insert_blank (t := ⟨.lineBreak, .hidden, "\r", ⟨7, 8⟩, 2, ⟨1, 7⟩⟩) h
    (by decide +kernel) (by decide +kernel)
  exact ⟨_, ⟨.lineBreak, .hidden, "\r", ⟨7, 8⟩, 2, ⟨1, 7⟩⟩, u, h, by decide +kernel, rfl, by decide +kernel, hu,
    hvisible⟩

end Linewise
