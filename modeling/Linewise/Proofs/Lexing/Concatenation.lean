import Linewise.Proofs.Lexing.Language

/-!
# The lexemes of joined texts

No lexeme without a flaw goes on behind a line break, but for a carriage return that the break follows.
So the lexemes of two texts with a line feed between them are those of both, with a line break in the
middle.
-/

namespace Linewise

namespace Lexeme

variable {c : Char} {cs : List Char}

theorem takeWhile_append_lineFeed {p : Char → Bool} (hp : p '\n' = false) (cs ds : List Char) :
    (cs ++ '\n' :: ds).takeWhile p = cs.takeWhile p := by
  induction cs with
  | nil => simp [hp]
  | cons c cs ih => rw [List.cons_append, List.takeWhile_cons, ih, List.takeWhile_cons]

theorem countWhile_append {p : Char → Bool} (hp : p '\n' = false) (cs ds : List Char) :
    countWhile p (cs ++ '\n' :: ds) = countWhile p cs := by
  rw [countWhile, takeWhile_append_lineFeed hp, countWhile]

theorem comment_append (ds : List Char) (h : (comment cs).flaws = []) :
    comment (cs ++ ds) = comment cs := by
  have hmore : (comment cs).more ≤ cs.length + 1 := sound_comment.more_le
  rw [← List.append_nil cs] at h hmore
  rw [comment_congr ds h (by simpa using hmore), List.append_nil]

theorem string_append (ds : List Char) (h : (string cs).flaws = []) :
    string (cs ++ ds) = string cs := by
  have hmore : (string cs).more ≤ cs.length := sound_string.more_le
  rw [← List.append_nil cs] at h hmore
  rw [string_congr ds h (by simpa using hmore), List.append_nil]

theorem based_append {isDigit : Char → Bool} (h : isDigit '\n' = false) (ds : List Char) :
    based isDigit (cs ++ '\n' :: ds) = based isDigit cs := by
  unfold based
  rw [takeWhile_append_lineFeed (by rw [h]; rfl)]

theorem integer_append (first : Char) (ds : List Char) :
    integer first (cs ++ '\n' :: ds) = integer first cs := by
  have hdecimal := countWhile_append (p := fun c => c.isDigit || c == '_') rfl cs ds
  unfold integer
  rw [hdecimal]
  cases cs with
  | nil => simp
  | cons d cs =>
    rw [List.cons_append]
    dsimp only
    rw [based_append rfl, based_append rfl]

theorem name_append (first : Char) (ds : List Char) :
    name first (cs ++ '\n' :: ds) = name first cs := by
  unfold name
  rw [takeWhile_append_lineFeed rfl]

theorem head?_append (second : Char) (h : second ≠ '\n') (ds : List Char) :
    (cs ++ '\n' :: ds).head? = some second ↔ cs.head? = some second := by
  cases cs with
  | nil => simp [Ne.symm h]
  | cons d cs => rfl

theorem pair_append {second : Char} {two one : TokenKind} (h : second ≠ '\n') (ds : List Char) :
    pair second two one (cs ++ '\n' :: ds) = pair second two one cs := by
  unfold pair
  simp only [head?_append _ h]

/-- A lexeme without a flaw ends in front of a line feed, or before. Only a lone carriage return goes on
with it. -/
theorem scan_append (ds : List Char) (hc : c = '\r' → cs ≠ []) (h : (scan c cs).flaws = []) :
    scan c (cs ++ '\n' :: ds) = scan c cs := by
  unfold scan at h ⊢
  split
  case h_2 =>
    cases cs with
    | nil => exact absurd rfl (hc rfl)
    | cons d cs => rfl
  case h_3 =>
    cases cs with
    | nil => rfl
    | cons d cs =>
      rw [List.cons_append]
      by_cases hslash : d = '/'
      · subst hslash
        exact congrArg (fun n => Scan.good .lineComment (n + 1)) (countWhile_append rfl cs ds)
      · by_cases hstar : d = '*'
        · subst hstar
          exact comment_append _ h
        · simp [hslash, hstar]
  all_goals first
    | rfl
    | exact pair_append (by decide) ds
    | exact string_append _ h
    | skip
  · simp only [head?_append '=' (by decide)]
  · rw [countWhile_append rfl, integer_append, name_append]

-- ---------------------------------------------------------------------------
-- Lexemes in front of a line feed
-- ---------------------------------------------------------------------------

variable {ds : List Char}

theorem commentEnd?_of_append {inner read n : Nat} (hd : ∀ inner read, commentEnd? inner read ds = none)
    (h : commentEnd? inner read (cs ++ '\n' :: ds) = some n) : ∃ n, commentEnd? inner read cs = some n := by
  fun_induction commentEnd? inner read cs with
  | case1 =>
    rw [List.nil_append, commentEnd?, hd] at h
    · cases h
    · intro _ hc
      exact absurd hc (by decide)
    · intro _ hc
      exact absurd hc (by decide)
  | case2 read cs => exact ⟨_, rfl⟩
  | case3 _ _ _ ih => exact ih h
  | case4 _ _ _ ih => exact ih h
  | case5 inner read c cs hclose hopen ih =>
    refine ih ?_
    rw [List.cons_append, commentEnd?] at h
    · exact h
    · intro es hc he
      cases cs with
      | nil => cases he
      | cons d cs => exact hclose cs hc (by rw [List.cons_append] at he; rw [(List.cons.inj he).1])
    · intro es hc he
      cases cs with
      | nil => cases he
      | cons d cs => exact hopen cs hc (by rw [List.cons_append] at he; rw [(List.cons.inj he).1])

theorem flaws_pair (second : Char) (two one : TokenKind) (cs : List Char) :
    (pair second two one cs).flaws = [] := by
  unfold pair
  split <;> rfl

theorem flaws_comment_of_append (hd : ∀ inner read, commentEnd? inner read ds = none)
    (h : (comment (cs ++ '\n' :: ds)).flaws = []) : (comment cs).flaws = [] := by
  unfold comment at h
  split at h
  · rename_i more hmore
    obtain ⟨n, hn⟩ := commentEnd?_of_append hd hmore
    unfold comment
    rw [hn]
    rfl
  · cases h

theorem flaws_string_of_append (h : (string (cs ++ '\n' :: ds)).flaws = []) : (string cs).flaws = [] := by
  obtain ⟨body, rest, htext, hbody⟩ := stringBody_of_string h
  have hfeed : '\n' ∉ body ++ ['"'] := by simpa using hbody.lineFeed_not_mem
  have hsplit : cs ++ '\n' :: ds = body ++ ['"'] ++ rest := by simpa using htext
  rcases List.append_eq_append_iff.mp hsplit with ⟨as, hfront, hback⟩ | ⟨bs, rfl, -⟩
  · cases as with
    | nil =>
      rw [List.append_nil] at hfront
      rw [← hfront, string_body hbody]
      rfl
    | cons a as =>
      obtain ⟨rfl, -⟩ := List.cons.inj hback
      exact absurd (hfront ▸ List.mem_append_right cs List.mem_cons_self) hfeed
  · rw [List.append_assoc, List.singleton_append, string_body hbody]
    rfl

theorem flaws_of_append (hd : ∀ inner read, commentEnd? inner read ds = none) :
    (scan c (cs ++ '\n' :: ds)).flaws = [] → (scan c cs).flaws = [] := by
  unfold scan
  split
  case h_3 =>
    cases cs with
    | nil => exact fun _ => rfl
    | cons d cs =>
      rw [List.cons_append]
      by_cases hstar : d = '*'
      · subst hstar
        exact flaws_comment_of_append hd
      · intro _
        split
        · rfl
        · exact absurd (List.cons.inj ‹_›).1 hstar
        · rfl
  all_goals first
    | exact fun _ => rfl
    | exact fun _ => flaws_pair _ _ _ cs
    | exact flaws_string_of_append
    | skip
  · simp only [head?_append '=' (by decide)]
    exact id
  · rw [countWhile_append rfl, integer_append, name_append]
    exact id

end Lexeme

open Lexeme

variable {cs ds : List Char}

theorem clean_lineFeed (hd : Clean ds) : Clean ('\n' :: ds) := clean_cons.mpr ⟨rfl, hd⟩

theorem clean_append (hc : Clean cs) (hd : Clean ds) : Clean (cs ++ '\n' :: ds) := by
  induction cs using lexemes_induction with
  | nil => exact clean_lineFeed hd
  | cons c cs ih =>
    obtain ⟨hflaws, hrest⟩ := clean_cons.mp hc
    rw [List.cons_append]
    by_cases hlone : c = '\r' ∧ cs = []
    · obtain ⟨rfl, rfl⟩ := hlone
      exact clean_cons.mpr ⟨rfl, hd⟩
    · have hscan := scan_append ds (fun h h' => hlone ⟨h, h'⟩) hflaws
      rw [clean_cons, hscan, List.drop_append_of_le_length (sound_scan c cs).more_le]
      exact ⟨hflaws, ih hrest⟩

/-- The items of the two texts, with a line break between them, which a carriage return at the end of the
first text belongs to. -/
theorem items_append (ds : List Char) (hc : Clean cs) :
    ∃ is text, items (cs ++ '\n' :: ds) = is ++ (.lineBreak, text) :: items ds ∧
      (items cs = is ∨ items cs = is ++ [(.lineBreak, "\r")]) := by
  induction cs using lexemes_induction with
  | nil =>
    have hflaws : (scan '\n' ds).flaws = [] := rfl
    obtain ⟨kind, hkind, -, hitems⟩ := items_cons hflaws
    cases hkind
    exact ⟨[], _, hitems, .inl rfl⟩
  | cons c cs ih =>
    obtain ⟨hflaws, hrest⟩ := clean_cons.mp hc
    by_cases hlone : c = '\r' ∧ cs = []
    · obtain ⟨rfl, rfl⟩ := hlone
      have hflaws : (scan '\r' ('\n' :: ds)).flaws = [] := rfl
      obtain ⟨kind, hkind, -, hitems⟩ := items_cons hflaws
      cases hkind
      exact ⟨[], _, hitems, .inr rfl⟩
    · have hscan := scan_append ds (fun h h' => hlone ⟨h, h'⟩) hflaws
      have hle := (sound_scan c cs).more_le
      obtain ⟨kind, hkind, -, hitems⟩ := items_cons hflaws
      obtain ⟨kind', hkind', -, hitems'⟩ := items_cons (hscan ▸ hflaws)
      rw [hscan] at hkind' hitems'
      rw [List.drop_append_of_le_length hle, List.take_append_of_le_length hle] at hitems'
      obtain rfl : kind' = kind := Option.some.inj (hkind'.symm.trans hkind)
      obtain ⟨is, text, hjoined, hfirst⟩ := ih hrest
      rw [List.cons_append, hitems', hitems, hjoined]
      refine ⟨_ :: is, text, rfl, hfirst.imp (fun h => ?_) fun h => ?_⟩
      · rw [h]
      · rw [h, List.cons_append]

theorem clean_of_append (hc : Clean cs) (h : Clean (cs ++ '\n' :: ds)) : Clean ds := by
  induction cs using lexemes_induction with
  | nil => exact (clean_cons.mp h).2
  | cons c cs ih =>
    obtain ⟨hflaws, hrest⟩ := clean_cons.mp hc
    by_cases hlone : c = '\r' ∧ cs = []
    · obtain ⟨rfl, rfl⟩ := hlone
      exact (clean_cons.mp h).2
    · have hscan := scan_append ds (fun h h' => hlone ⟨h, h'⟩) hflaws
      rw [List.cons_append, clean_cons, hscan,
        List.drop_append_of_le_length (sound_scan c cs).more_le] at h
      exact ih hrest h.2

theorem clean_of_front (hd : ∀ inner read, commentEnd? inner read ds = none)
    (h : Clean (cs ++ '\n' :: ds)) : Clean cs := by
  induction cs using lexemes_induction with
  | nil => exact clean_nil
  | cons c cs ih =>
    have hflaws := flaws_of_append hd (clean_cons.mp h).1
    by_cases hlone : c = '\r' ∧ cs = []
    · obtain ⟨rfl, rfl⟩ := hlone
      exact clean_cons.mpr ⟨rfl, clean_nil⟩
    · have hscan := scan_append ds (fun h h' => hlone ⟨h, h'⟩) hflaws
      rw [List.cons_append, clean_cons, hscan,
        List.drop_append_of_le_length (sound_scan c cs).more_le] at h
      exact clean_cons.mpr ⟨hflaws, ih h.2⟩

end Linewise
