import Linewise.Proofs.Fallthrough
import Linewise.Proofs.Parsing.Beginnings
import Linewise.Proofs.Parsing.GrammarTelling
import Linewise.Proofs.Streams

/-!
# Where separators are missing

What a strict reader reports of a source that a lenient one accepts can be read off the source and its tree:
one fault for each gap between items that holds neither a semicolon nor a line break.
-/

namespace Linewise

open Linewise.Parser

/-- No semicolon and no line break stands in the gap. -/
def Gap.isOpen (source : String) (s : TokenStream) (g : Gap) : Bool :=
  !(Text.slice ⟨g.1.stop, g.2.start⟩ source).any Text.isLineBreak &&
    !s.tokens.toList.any fun t =>
      t.kind = .semicolon && g.1.stop ≤ t.span.start && t.span.stop ≤ g.2.start

/-- The fault of a missing separator, at the first token of the item behind the gap. -/
def missingAt? (s : TokenStream) (g : Gap) : Option (Located SyntaxFault) :=
  (s.visible.find? fun t => t.span.start = g.2.start).map fun t => ⟨.missingSeparator t.kind, t.span⟩

-- ---------------------------------------------------------------------------
-- Neighbours among the tokens
-- ---------------------------------------------------------------------------

theorem mem_between {pre mid post : List Token} {x y t : Token}
    (h : (pre ++ x :: mid ++ y :: post).Pairwise fun t u => t.span.stop ≤ u.span.start)
    (ht : t ∈ pre ++ x :: mid ++ y :: post) (hlt : t.span.start < t.span.stop)
    (hx : x.span.start < x.span.stop) (hy : y.span.start < y.span.stop)
    (hstart : x.span.stop ≤ t.span.start) (hstop : t.span.stop ≤ y.span.start) : t ∈ mid := by
  rw [List.append_assoc, List.cons_append] at h ht
  obtain ⟨-, hbehind, hfront⟩ := List.pairwise_append.mp h
  obtain ⟨-, hbehind⟩ := List.pairwise_cons.mp hbehind
  obtain ⟨-, hbehind, -⟩ := List.pairwise_append.mp hbehind
  obtain ⟨hlast, -⟩ := List.pairwise_cons.mp hbehind
  rcases List.mem_append.mp ht with hpre | ht
  · have := hfront t hpre x List.mem_cons_self
    omega
  · rcases List.mem_cons.mp ht with rfl | ht
    · omega
    · rcases List.mem_append.mp ht with hmid | ht
      · exact hmid
      · rcases List.mem_cons.mp ht with rfl | hpost
        · omega
        · have := hlast t hpost
          omega

section
variable {source : String} {s : TokenStream} {t : Token} {f : Fallthrough} {ws us vs : List Terminal}
  {x y : Terminal} {g : Gap}

theorem mem_terminals (h : x ∈ s.terminals (.standard f)) :
    x.token ∈ s.tokens.toList ∧ x.token.kind ≠ .eof ∧ x = s.terminal (.standard f) x.token := by
  obtain ⟨t, ht, rfl⟩ := List.mem_map.mp h
  have hkind : (t.kind != .eof) = true := List.all_eq_true.mp List.all_takeWhile t ht
  exact ⟨(List.mem_filter.mp ((List.takeWhile_sublist _).subset ht)).1, bne_iff_ne.mp hkind, rfl⟩

theorem covers_terminals (h : lex source = .ok s) (hx : x ∈ s.terminals (.standard f)) :
    x.token.span.start < x.token.span.stop :=
  covers_of_lex h (mem_terminals hx).1 (mem_terminals hx).2.1

theorem ordered_terminals (h : lex source = .ok s) :
    (s.terminals (.standard f)).Pairwise fun x y => x.token.span.stop ≤ y.token.span.start := by
  rw [TokenStream.terminals, List.pairwise_map]
  exact (ordered_of_lex h).sublist ((List.takeWhile_sublist _).trans List.filter_sublist)

theorem visible_of_isInfix (h : ws <:+: s.terminals (.standard f)) :
    ws.map Terminal.token <:+: s.visible := by
  have hrow := h.map Terminal.token
  rw [TokenStream.map_token_terminals] at hrow
  exact hrow.trans (List.takeWhile_prefix _).isInfix

theorem visible_of_terminals (h : s.terminals (.standard f) = ws ++ x :: y :: us) :
    ∃ xs ys, s.visible = xs ++ x.token :: y.token :: ys := by
  have hpair : [x, y] <:+: s.terminals (.standard f) := ⟨ws, us, by simp [h]⟩
  obtain ⟨xs, ys, hvisible⟩ := visible_of_isInfix hpair
  exact ⟨xs, ys, by simp [← hvisible]⟩

theorem Gap.isOpen_of_semicolon (ht : t ∈ s.tokens.toList) (hk : t.kind = .semicolon)
    (ha : g.1.stop ≤ t.span.start) (hb : t.span.stop ≤ g.2.start) : g.isOpen source s = false := by
  have hany : (s.tokens.toList.any fun t =>
      t.kind = .semicolon && g.1.stop ≤ t.span.start && t.span.stop ≤ g.2.start) = true :=
    List.any_eq_true.mpr ⟨t, ht, by simp [hk, ha, hb]⟩
  rw [Gap.isOpen, hany, Bool.not_true, Bool.and_false]

theorem Gap.isOpen_of_neighbours (h : lex source = .ok s)
    (hs : s.terminals (.standard .reject) = ws ++ x :: y :: us)
    (hx : g.1.stop = x.token.span.stop) (hy : g.2.start = y.token.span.start) :
    g.isOpen source s = !y.terminated := by
  have hxs : x ∈ s.terminals (.standard .reject) := by simp [hs]
  have hys : y ∈ s.terminals (.standard .reject) := by simp [hs]
  obtain ⟨xs, ys, hvisible⟩ := visible_of_terminals hs
  obtain ⟨pre, mid, post, htokens, hu, hmid⟩ := filter_split hvisible
  have hsound := soundStream_of_lex h
  have hterminated : y.terminated = mid.any Token.breaks := by
    rw [(mem_terminals hys).2.2]
    exact (hsound.preceding_behind (f := .reject) htokens hu hmid).2.trans (Bool.or_false _)
  have hnone : (s.tokens.toList.any fun t =>
      t.kind = .semicolon && g.1.stop ≤ t.span.start && t.span.stop ≤ g.2.start) = false := by
    refine List.any_eq_false.mpr fun t ht => ?_
    simp only [Bool.and_eq_true, decide_eq_true_eq, hx, hy]
    rintro ⟨⟨hk, hstart⟩, hstop⟩
    have hlt := covers_of_lex h ht (by simp [hk])
    have hhidden := hmid t (mem_between (htokens ▸ ordered_of_lex h) (htokens ▸ ht) hlt
      (covers_terminals h hxs) (covers_terminals h hys) hstart hstop)
    simp [Token.isVisible, (hsound.sound ht).channel, hk, TokenKind.channel,
      TokenKind.isLayout] at hhidden
  rw [Gap.isOpen, hnone, hx, hy, slice_between h htokens, any_chars_item, hterminated, Bool.not_false,
    Bool.and_true]

def sourceRow (h : lex source = .ok s) : Row where
  terminals := s.terminals (.standard .reject)
  lacks g := g.isOpen source s
  ordered := ordered_terminals h
  covers _ hx := covers_terminals h hx
  closes x hx := by
    obtain ⟨hmem, -, hterminal⟩ := mem_terminals hx
    obtain ⟨pre, post, hsplit⟩ := List.append_of_mem hmem
    rw [hterminal]
    exact (soundStream_of_lex h).closes hsplit
  adjacent ws x y us hs a b := Gap.isOpen_of_neighbours h hs rfl rfl
  semicolon ws x us y vs hs hz a b := by
    obtain ⟨z, hz, hk⟩ := hz
    have hpair := ordered_terminals (f := .reject) h
    rw [hs, List.append_assoc, List.cons_append] at hpair
    obtain ⟨-, hbehind, -⟩ := List.pairwise_append.mp hpair
    obtain ⟨hfirst, hrest⟩ := List.pairwise_cons.mp hbehind
    refine Gap.isOpen_of_semicolon (mem_terminals (f := .reject) (hs ▸ by simp [hz])).1 hk ?_ ?_
    · exact hfirst z (List.mem_append_left _ hz)
    · exact (List.pairwise_append.mp hrest).2.2 z hz y List.mem_cons_self

-- ---------------------------------------------------------------------------
-- Whole sources
-- ---------------------------------------------------------------------------

theorem missingAt?_of_fault? (h : lex source = .ok s) {x : Located SyntaxFault}
    (hx : (sourceRow h).fault? g = some x) : missingAt? s g = some x := by
  obtain ⟨y, hy, rfl⟩ := Option.map_eq_some_iff.mp hx
  have hrow : (sourceRow h).terminals =
      (s.visible.takeWhile fun t => t.kind != .eof).map (s.terminal (.standard .reject)) := rfl
  rw [hrow, List.find?_map] at hy
  obtain ⟨t, ht, rfl⟩ := Option.map_eq_some_iff.mp hy
  obtain ⟨zs, hzs⟩ := List.takeWhile_prefix (l := s.visible) fun t : Token => t.kind != .eof
  have hfind : s.visible.find? (fun t => t.span.start = g.2.start) = some t := by
    rw [← hzs, List.find?_append]
    exact Option.or_eq_some_iff.mpr (.inl ht)
  rw [missingAt?, hfind]
  rfl

theorem map_missingAt? (h : lex source = .ok s) {gs : List Gap} {faults : List (Located SyntaxFault)}
    (hfaults : faults.map some = gs.map (sourceRow h).fault?) :
    faults.map some = gs.map (missingAt? s) := by
  induction gs generalizing faults with
  | nil => exact hfaults
  | cons g gs ih =>
    obtain ⟨x, xs, rfl, hx, hxs⟩ := List.map_eq_cons_iff.mp hfaults
    rw [List.map_cons, List.map_cons, ih hxs, missingAt?_of_fault? h hx.symm]

theorem ordered_faults (h : lex source = .ok s) {faults : List (Located SyntaxFault)}
    (hws : ws <:+: s.terminals (.standard .reject))
    (hsub : (faults.map (·.span)).Sublist (ws.map (·.token.span))) :
    faults.Pairwise fun x y => x.span.start < y.span.start := by
  have hpair : (s.terminals (.standard .reject)).Pairwise fun x y =>
      x.token.span.start < y.token.span.start :=
    (ordered_terminals h).imp_of_mem fun hx _ hle =>
      Nat.lt_of_lt_of_le (covers_terminals h hx) hle
  have hspans : (ws.map (·.token.span)).Pairwise fun a b => a.start < b.start :=
    List.pairwise_map.mpr (hpair.sublist hws.sublist)
  simpa only [List.pairwise_map] using hspans.sublist hsub

end

/-- A source that is accepted leniently is read strictly with these faults and no others: for each gap
between two items that no semicolon and no line break stands in, that a separator is missing at the first
token of the second item, in the order of the source. -/
theorem missing_separators {source : String} {s : TokenStream} {file : SourceFile}
    (h : lex source = .ok s) (hfile : parse (.standard .accept) s = .ok file) :
    ∃ faults, parse (.standard .reject) s = verdict file.declarations faults ∧
      faults.map some = ((gaps file).filter (Gap.isOpen source s)).map (missingAt? s) ∧
      (faults.Pairwise fun x y => x.span.start < y.span.start) ∧
      (parse (.standard .reject) s = .ok file ↔ ∀ g ∈ gaps file, g.isOpen source s = false) := by
  obtain ⟨ds, strict, lenient, hstrict, hlenient, hfaults⟩ :=
    run_withFallthrough maxDepth (.standard .accept) s
  have hl : parse (.standard .accept) s = _ := parseWithin_of_run hlenient
  have hs : parse (.standard .reject) s = _ := parseWithin_of_run hstrict
  rw [hl, verdict_eq_ok] at hfile
  obtain ⟨hnone, rfl⟩ := hfile
  -- Nothing but separators is missing.
  have honly : OnlySeparators (.start s (.standard .reject)) strict := by
    rw [hnone, eq_comm, List.filter_eq_nil_iff] at hfaults
    exact ⟨strict.faults.toList, rfl, fun x hx => by simpa [asksForSeparator_eq] using hfaults x hx⟩
  have hrules := rulesTell_grammar (sourceRow h) maxDepth maxDepth
  have hopen : false = false → ∀ u d v, (grammar maxDepth maxDepth).declaration.run u = (.ok d, v) →
      u.kind ≠ .rightCurl := fun _ u d v hrun hkind => by
    have := begins_declaration maxDepth maxDepth u d v hrun
    simp [hkind, TokenKind.beginsDeclaration] at this
  obtain ⟨G, hG, new, ws, hws, hnew, hnames, hsub⟩ :=
    (tells_sequenceOf hrules.declaration hrules.covers hrules.reads.declaration hopen []).told
      _ _ _ (List.suffix_refl _) hstrict honly
  obtain rfl : gaps (⟨ds⟩ : SourceFile) = G := hG
  obtain rfl : strict.faults.toList = new := hnew
  have hmissing := map_missingAt? h hnames
  have hinfix : ws.drop 1 <:+: s.terminals (.standard .reject) :=
    (List.drop_suffix 1 ws).isInfix.trans ⟨[], strict.rest, hws.symm⟩
  refine ⟨strict.faults.toList, hs, hmissing, ordered_faults h hinfix hsub, ?_⟩
  rw [hs, verdict_eq_ok]
  have hlength := congrArg List.length hmissing
  rw [List.length_map, List.length_map] at hlength
  rw [← List.length_eq_zero_iff, hlength, List.length_eq_zero_iff, List.filter_eq_nil_iff]
  exact (and_iff_left rfl).trans (forall₂_congr fun g _ => iff_of_eq (Bool.not_eq_true _))

theorem missing_separators_semicolon :
    ∃ s file faults, lex "var a var b;var c" = .ok s ∧
      parse (.standard .accept) s = .ok file ∧
      parse (.standard .reject) s = verdict file.declarations faults ∧
      faults.map some = ((gaps file).filter
        (Gap.isOpen "var a var b;var c" s)).map (missingAt? s) := by
  have hlex := lex_eq_ok.mpr
    ⟨(by decide +kernel : Clean "var a var b;var c".toList), rfl⟩
  have hfile : parse (.standard .accept)
      (.ofList (items "var a var b;var c".toList ++ [(.eof, "")])) = .ok _ := rfl
  obtain ⟨faults, hfaults, hnames, -⟩ := missing_separators hlex hfile
  exact ⟨_, _, faults, hlex, hfile, hfaults, hnames⟩

end Linewise
