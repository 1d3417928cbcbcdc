import Linewise.Proofs.Parsing.GrammarFaultOrder
import Linewise.Proofs.Parsing.Sources
import Linewise.Proofs.Streams

/-!
# Where faults stand

The faults of a source lie within it and are listed in the order of their ends. They are not in the order of
their starts: a fault that covers a node comes after all that is reported inside of the node.
-/

namespace Linewise

open Linewise.Parser

variable {limit : Nat} {tags : LayoutTags TokenKind Channel} {s : TokenStream}
  {faults : List (Located SyntaxFault)}

theorem TokenStream.Built.inLine (hs : s.Built) :
    InLine s.offset (s.tokens.toList.map Token.span ++ [⟨s.offset, s.offset⟩]) where
  within x hx := by
    rcases List.mem_append.mp hx with hx | hx
    · obtain ⟨t, ht, rfl⟩ := List.mem_map.mp hx
      exact hs.within ht
    · rw [List.mem_singleton.mp hx]
      exact ⟨Nat.le_refl _, Nat.le_refl _⟩
  ordered := by
    refine List.pairwise_append.mpr ⟨List.pairwise_map.mpr ?_, List.pairwise_singleton _ _, fun x hx y hy => ?_⟩
    · refine hs.ordered.imp_of_mem fun ht hu hle => ?_
      exact Nat.le_trans hle (hs.within hu).1
    · obtain ⟨t, ht, rfl⟩ := List.mem_map.mp hx
      rw [List.mem_singleton.mp hy]
      exact (hs.within ht).2

theorem Parser.State.ahead_start (s : TokenStream) (tags : LayoutTags TokenKind Channel) :
    (State.start s tags).ahead.Sublist (s.tokens.toList.map Token.span ++ [⟨s.offset, s.offset⟩]) := by
  have hread : (State.start s tags).ahead =
      (s.visible.takeWhile fun t => t.kind != .eof).map Token.span ++ [s.finish] := by
    rw [State.ahead, State.start, TokenStream.terminals, List.map_map]
    rfl
  have hvisible : s.visible.Sublist s.tokens.toList := List.filter_sublist
  have hfinish : s.finish =
      ((s.visible.find? fun t => t.kind == .eof).map Token.span).getD ⟨s.offset, s.offset⟩ := by
    rw [TokenStream.finish]
    cases s.visible.find? fun t => t.kind == .eof <;> rfl
  rw [hread, hfinish]
  exact s.sublist_read Token.span _

theorem Parser.State.ready_start (hs : s.Built) (tags : LayoutTags TokenKind Channel) :
    (State.start s tags).Ready s.offset := by
  have hahead := hs.inLine
  have hsub := State.ahead_start s tags
  refine ⟨⟨fun x hx => ?_, ?_⟩, (fun x hx => by cases hx), .nil⟩
  · rcases List.mem_cons.mp hx with rfl | hx
    · exact ⟨Nat.le_refl _, Nat.zero_le _⟩
    · exact hahead.within x (hsub.subset hx)
  · exact List.pairwise_cons.mpr ⟨fun _ _ => Nat.zero_le _, hahead.ordered.sublist hsub⟩

/-- Every fault of a source lies within it, and none ends before the fault listed in front of it. -/
theorem parse_faults_ordered (hs : s.Built) (h : parse tags s = .error faults) :
    (∀ x ∈ faults, x.span.start ≤ x.span.stop ∧ x.span.stop ≤ s.offset) ∧
      faults.Pairwise fun x y => x.span.stop ≤ y.span.stop := by
  obtain ⟨ds, t, hrun⟩ := answers_declarations maxDepth (.start s tags)
  rw [parse, parseWithin_of_run hrun, verdict_eq_error] at h
  obtain ⟨rfl, -⟩ := h
  have ht : t.Ready s.offset := ready_sequenceOf false (rulesInTurn_grammar maxDepth maxDepth).declaration
    _ ds t (State.ready_start hs tags) hrun
  exact ⟨fun x hx => ⟨(ht.placed x hx).1, Nat.le_trans (ht.placed x hx).2 ht.line.here.2⟩, ht.ordered⟩

set_option maxRecDepth 4000 in
/-- A block that is assigned to: what is missing inside of it is listed first, although the block begins in
front of it. -/
theorem parse_faults_ordered_block :
    ∃ s faults, s.Built ∧ parse (.standard .reject) s = .error faults ∧
      faults.map Located.span = [⟨9, 10⟩, ⟨6, 11⟩] ∧
      (∀ x ∈ faults, x.span.start ≤ x.span.stop ∧ x.span.stop ≤ s.offset) ∧
      faults.Pairwise fun x y => x.span.stop ≤ y.span.stop := by
  have h : parse (.standard .reject) (.ofList [(.keyword .valWord, "val"), (.whitespace, " "),
      (.identifier, "x"), (.assign, "="), (.leftCurl, "\x7b"), (.integer, "1"), (.whitespace, " "),
      (.integer, "2"), (.rightCurl, "\x7d"), (.assign, "="), (.integer, "3")]) = .error _ := rfl
  exact ⟨_, _, TokenStream.built_ofList _, h, rfl, parse_faults_ordered (TokenStream.built_ofList _) h⟩

end Linewise
