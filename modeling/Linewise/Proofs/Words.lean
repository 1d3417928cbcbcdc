import Linewise.Proofs.Parsing.GrammarGathering
import Linewise.Proofs.TokenSpans

/-!
# Nothing is lost or invented

The words of an accepted source are those of its tree, in the same order: each name, number and string that
stands in the source stands in the tree once, and the tree has no others.
-/

namespace Linewise

open Linewise.Parser

variable {source : String} {s : TokenStream} {t : Token} {f : Fallthrough} {limit : Nat} {file : SourceFile}

-- ---------------------------------------------------------------------------
-- The words of a source
-- ---------------------------------------------------------------------------

theorem Token.word?_of_hidden (hc : t.channel = t.kind.channel) (ht : t.isVisible = false) :
    t.word? = none := by
  unfold Token.word? Word.of?
  split
  case h_4 => rfl
  all_goals
    rename_i hk
    simp [Token.isVisible, hc, hk, TokenKind.channel, TokenKind.isLayout] at ht

theorem filterMap_visible {ts : List Token} (hts : ∀ t ∈ ts, t.channel = t.kind.channel) :
    (ts.filter Token.isVisible).filterMap Token.word? = ts.filterMap Token.word? := by
  induction ts with
  | nil => rfl
  | cons t ts ih =>
    obtain ⟨ht, hts⟩ := List.forall_mem_cons.mp hts
    cases hv : t.isVisible with
    | true => rw [List.filter_cons_of_pos hv, List.filterMap_cons, List.filterMap_cons, ih hts]
    | false =>
      rw [List.filter_cons_of_neg (by simp [hv]), List.filterMap_cons, Token.word?_of_hidden ht hv, ih hts]

theorem words_terminals (f : Fallthrough) (h : lex source = .ok s) :
    (s.terminals (.standard f)).filterMap (·.token.word?) = s.tokens.toList.filterMap Token.word? := by
  obtain ⟨front, last, htokens, hlast, -, hfront⟩ := split_of_lex h
  have hread : (s.visible.takeWhile fun t => t.kind != .eof) = front.filter Token.isVisible := by
    rw [TokenStream.visible, htokens, List.filter_append, List.takeWhile_append_of_pos]
    · cases hv : last.isVisible <;> simp [hv, hlast]
    · exact fun t ht => bne_iff_ne.mpr (hfront t (List.mem_filter.mp ht).1).1
  have hnone : last.word? = none := by simp [Token.word?, hlast, Word.of?]
  have hchannel : ∀ t ∈ front, t.channel = t.kind.channel := fun t ht =>
    ((soundStream_of_lex h).sound (by simp [htokens, ht])).channel
  calc (s.terminals (.standard f)).filterMap (·.token.word?)
    _ = (front.filter Token.isVisible).filterMap Token.word? := by
      rw [TokenStream.terminals, List.filterMap_map, hread]
      rfl
    _ = front.filterMap Token.word? := filterMap_visible hchannel
    _ = s.tokens.toList.filterMap Token.word? := by simp [htokens, List.filterMap_append, hnone]

theorem words_parseWithin (h : lex source = .ok s) (hp : parseWithin limit (.standard f) s = .ok file) :
    words file = s.tokens.toList.filterMap Token.word? := by
  obtain ⟨t, hread⟩ := parseWithin_eq_ok.mp hp
  have hrules := rulesGather_grammar limit limit
  obtain ⟨hrun, hfaults⟩ := (run_sequenceOf_iff hrules.reads.declaration).mpr hread
  have hstart : Gathered (s.tokens.toList.filterMap Token.word?) [] (.start s (.standard f)) :=
    ⟨orderly_terminals f h, fun _ => (words_terminals f h).symm⟩
  have hgathers := gathers_sequenceOf false hrules.reads.declaration.toMoves hrules.declaration
  have hall := (hgathers _ _ _ _ t hstart hrun).words hfaults
  have hrest : t.rest = [] := by
    have hstops := hread.stops
    rw [State.stops, Bool.false_and, Bool.or_false] at hstops
    exact List.isEmpty_iff.mp hstops
  rw [hall, State.words, hrest, List.nil_append, List.filterMap_nil, List.append_nil]
  rfl

-- ---------------------------------------------------------------------------
-- Names, numbers and strings
-- ---------------------------------------------------------------------------

theorem spelling_words (ts : List Token) :
    (ts.filterMap Token.word?).filterMap Word.spelling? =
      (ts.filter fun t => t.kind = .identifier ∨ t.kind = .integer).map Token.text := by
  induction ts with
  | nil => rfl
  | cons t ts ih =>
    rw [List.filterMap_cons, List.filter_cons]
    cases hk : t.kind <;>
      simpa [Token.word?, Word.of?, hk, Word.spelling?, List.filterMap_cons] using ih

theorem countP_words (ts : List Token) :
    (ts.filterMap Token.word?).countP Word.isString = ts.countP fun t => t.kind = .string := by
  induction ts with
  | nil => rfl
  | cons t ts ih =>
    rw [List.filterMap_cons, List.countP_cons]
    cases hk : t.kind <;>
      simpa [Token.word?, Word.of?, hk, Word.isString, List.countP_cons] using ih

/-- Nothing is lost or invented: the names and numbers of an accepted source are those of its tree, in the
same order, and it has as many strings as its tree has, those that name a library included. -/
theorem words_of_parse (h : lex source = .ok s) (hp : parse (.standard f) s = .ok file) :
    (s.tokens.toList.filter fun t => t.kind = .identifier ∨ t.kind = .integer).map Token.text =
        (words file).filterMap Word.spelling? ∧
      (s.tokens.toList.countP fun t => t.kind = .string) = (words file).countP Word.isString := by
  rw [words_parseWithin h hp, spelling_words, countP_words]
  exact ⟨rfl, rfl⟩

set_option maxRecDepth 4000 in
/-- An annotation in front of a modifier, a receiver that is read with the function's name, and a reference in
a string. -/
theorem words_of_parse_annotation :
    ∃ s file, lex "@abi(n = 16) extern(\"c\") fun A.f(p: B?) = g(\"$r\")" = .ok s ∧
      parse (.standard .reject) s = .ok file ∧
      (words file).filterMap Word.spelling? = ["abi", "n", "16", "A", "f", "p", "B", "g"] ∧
      (words file).countP Word.isString = 2 := by
  have hlex := lex_eq_ok.mpr ⟨(by decide +kernel :
    Clean "@abi(n = 16) extern(\"c\") fun A.f(p: B?) = g(\"$r\")".toList), rfl⟩
  have hfile : parse (.standard .reject) (.ofList
      (items "@abi(n = 16) extern(\"c\") fun A.f(p: B?) = g(\"$r\")".toList ++ [(.eof, "")])) = .ok _ := rfl
  obtain ⟨hnames, hstrings⟩ := words_of_parse hlex hfile
  refine ⟨_, _, hlex, hfile, hnames.symm.trans ?_, hstrings.symm.trans ?_⟩
  · decide +kernel
  · decide +kernel

end Linewise
