import Linewise.Proofs.Parsing.GrammarFollowing
import Linewise.Proofs.Texts

/-!
# Sources behind sources

Two sources that can be read make one that can be read, with a line feed between them. Its declarations
are those of the first source, and behind them those of the second one, each as far behind its old place
as the second source is.
-/

namespace Linewise

open Linewise.Parser Change

section
variable {s s' t t' j : State} {ds ds' : List (Located Declaration)} {ws : List Terminal}

theorem not_beginsDeclaration (sequel : Sequel) : ¬sequel.kind.beginsDeclaration = true := by
  cases sequel <;> decide

theorem sim_declaration_grafted (g : Graft) (hj : j.rest = g.seam.new) (hc : ClosedByCurl j.rest)
    (h : Faultless false (grammar maxDepth maxDepth).declaration j ds t) :
    (grafted g).Sim 0 s (grammar maxDepth maxDepth).declaration
      (grammar maxDepth maxDepth).declaration := by
  have hb := begins_declaration maxDepth maxDepth
  have hseam {u : State} (hu : (grafted g).Before 0 u) (hi : ¬(grafted g).Inside u) :
      ((grafted g).state u).rest = j.rest :=
    (rest_grafted hu hi).trans hj.symm
  refine sim_declaration_closed (fun _ _ _ _ _ _ _ _ _ => rfl) (inOrder_grafted g)
    (fun u hu hi sequel => ?_) (fun u hu hi => ?_) maxDepth
  · rw [State.offers_congr (hseam hu hi)]
    exact h.not_offers hb (not_beginsDeclaration sequel) hc
  · rw [State.kind_congr (hseam hu hi)]
    rcases h.leads hb hc with hk | hk | hk | hk
    · rw [hk]
      rfl
    · rw [hk]
      rfl
    · rw [hk]
      rfl
    · exact TokenKind.endsItem_of_beginsDeclaration hk

theorem itemRule_declaration :
    ItemRule (·.beginsDeclaration = true) (grammar maxDepth maxDepth).declaration where
  reads := (rulesRead_grammar maxDepth maxDepth).declaration
  finishes := finishes_declaration maxDepth maxDepth
  begins := begins_declaration maxDepth maxDepth
  unjoined _ := TokenKind.joins_of_beginsDeclaration
  sim _ hd := (rulesSim_grammar (.inl ⟨rfl, rfl⟩) hd).declaration

/-- No declaration goes on with what another one begins with. -/
theorem declarations_append
    (h : Faultless false (grammar maxDepth maxDepth).declaration s ds t)
    (h' : Faultless false (grammar maxDepth maxDepth).declaration s' ds' t')
    (hs : InRow s.rest) (hs' : InRow s'.rest) (hmeets : Meets t s') (hws : s.rest = ws ++ t.rest) :
    Faultless false (grammar maxDepth maxDepth).declaration (s.facing (ws ++ s'.rest) s'.finish)
      (ds ++ ds') t' := by
  have hlast (g : Graft) (j : State) (hj : j.rest = g.seam.new) (hc : ClosedByCurl j.rest)
      (hds : Faultless false (grammar maxDepth maxDepth).declaration j ds' t') (v : State) :
      (grafted g).Follows (fun _ _ => False) v (grammar maxDepth maxDepth).declaration
        (grammar maxDepth maxDepth).declaration :=
    (sim_declaration_grafted g hj hc hds).follows
  rcases h.append itemRule_declaration hlast h' hs hs' hmeets hws with hall | hopen
  · exact hall
  · obtain ⟨_, _, _, _, _, -, ⟨-, _, -, -, hfalse⟩, -⟩ := hopen
    exact hfalse.elim

end

/-- Two sources that are read as files are read as one, with a line feed between them: as the
declarations of the first one and, moved to where they stand now, those of the second one. -/
theorem parse_append {a b : String} {s t : TokenStream} {file other : SourceFile} (f : Fallthrough)
    (ha : lex a = .ok s) (hb : lex b = .ok t) (hfile : parse (.standard f) s = .ok file)
    (hother : parse (.standard f) t = .ok other) :
    ∃ joined, lex (a ++ "\n" ++ b) = .ok joined ∧
      parse (.standard f) joined =
        .ok ⟨file.declarations ++ mapSpans (shift (a.utf8ByteSize + 1)) other.declarations⟩ := by
  have hca := (lex_eq_ok.mp ha).1
  have hcb := (lex_eq_ok.mp hb).1
  have hchars : (a ++ "\n" ++ b).toList = a.toList ++ '\n' :: b.toList := by simp
  have hjoined : lex (a ++ "\n" ++ b) = .ok _ :=
    lex_eq_ok.mpr ⟨hchars ▸ clean_append hca hcb, rfl⟩
  refine ⟨_, hjoined, (parse_eq_ok hjoined).mpr ?_⟩
  obtain ⟨u, hu⟩ := (parse_eq_ok ha).mp hfile
  obtain ⟨v, hv⟩ := (parse_eq_ok hb).mp hother
  -- The second source is moved first, and then put behind the first one.
  obtain ⟨w, hw, -⟩ := faultless_moved itemRule_declaration hcb
    (fun h => absurd h Bool.false_ne_true) hv (Text.byteSize a.toList + 1) u.previous
  have hadv := hu.items.advances (rulesRead_grammar _ _).declaration.toMoves
  have hend : u.rest = [] := List.isEmpty_iff.mp (by simpa [State.stops] using hu.stops)
  rw [hchars, entry_append hca hcb u.previous, ← Text.byteSize_toList]
  refine ⟨w, declarations_append hu hw Lead.inRow_read Lead.inRow_read
    ⟨rfl, ?_, hu.faults.symm, ?_, ?_⟩ (by rw [hend, List.append_nil])⟩
  · exact hadv.depth.symm
  · exact Lead.head_terminated fun _ => rfl
  · exact Lead.head_onNewLine _

theorem parse_append_semicolons :
    ∃ s t file other joined, lex "val x = 1;" = .ok s ∧ lex ";fun T.g()" = .ok t ∧
      parse (.standard .reject) s = .ok file ∧ parse (.standard .reject) t = .ok other ∧
      lex ("val x = 1;" ++ "\n" ++ ";fun T.g()") = .ok joined ∧
      parse (.standard .reject) joined =
        .ok ⟨file.declarations ++
          mapSpans (shift ("val x = 1;".utf8ByteSize + 1)) other.declarations⟩ := by
  have ha := lex_eq_ok.mpr ⟨(by decide +kernel : Clean "val x = 1;".toList), rfl⟩
  have hb := lex_eq_ok.mpr ⟨(by decide +kernel : Clean ";fun T.g()".toList), rfl⟩
  have hfile : parse (.standard .reject) (.ofList (items "val x = 1;".toList ++ [(.eof, "")])) =
      .ok ⟨[⟨.property ⟨⟨[], []⟩, true, "x", none, some ⟨.integer "1", ⟨8, 9⟩⟩⟩, ⟨0, 9⟩⟩]⟩ := rfl
  have hother : parse (.standard .reject) (.ofList (items ";fun T.g()".toList ++ [(.eof, "")])) =
      .ok ⟨[⟨.function ⟨⟨[], []⟩, some ⟨.user (.simple "T" []), ⟨5, 6⟩⟩, "g", [], none, none⟩,
        ⟨1, 10⟩⟩]⟩ := rfl
  obtain ⟨joined, hjoined, hboth⟩ := parse_append .reject ha hb hfile hother
  exact ⟨_, _, _, _, joined, ha, hb, hfile, hother, hjoined, hboth⟩

end Linewise
