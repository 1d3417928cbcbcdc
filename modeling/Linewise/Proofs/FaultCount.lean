import Linewise.Proofs.Parsing.GrammarCeiling
import Linewise.Proofs.Parsing.Sources

/-!
# How many faults a source can have

A source has one fault at most for each token that the grammar reads, whatever the channels, kinds and
tags of its tokens are, and wherever tokens of kind `eof` stand.
-/

namespace Linewise

open Linewise.Parser

variable {limit : Nat} {tags : LayoutTags TokenKind Channel} {s : TokenStream}
  {faults : List (Located SyntaxFault)}

theorem length_faults_le_terminals (h : parseWithin limit tags s = .error faults) :
    faults.length ≤ (s.terminals tags).length := by
  obtain ⟨ds, t, hrun⟩ := answers_declarations limit (.start s tags)
  rw [parseWithin_of_run hrun, verdict_eq_error] at h
  have hle := sequenceOf_ceiling (rulesRead_grammar limit limit).declaration
    (thrifty_grammar limit limit).declaration hrun
  have hsize : faults.length = t.faults.size := by rw [← h.1, Array.length_toList]
  simp only [State.ceiling, State.start, List.size_toArray, List.length_nil] at hle
  omega

theorem length_terminals_le (tags : LayoutTags TokenKind Channel) (s : TokenStream) :
    (s.terminals tags).length ≤ (s.visible.filter fun t => t.kind != .eof).length := by
  rw [TokenStream.terminals, List.length_map]
  have hall := List.all_eq_true.mp (List.all_takeWhile (l := s.visible) (p := fun t => t.kind != .eof))
  have hread := (List.takeWhile_prefix (l := s.visible) fun t => t.kind != .eof).sublist.filter
    fun t => t.kind != .eof
  rw [List.filter_eq_self.mpr hall] at hread
  exact hread.length_le

/-- A source has no more faults than visible tokens other than `eof`. -/
theorem parse_faults_le (h : parse tags s = .error faults) :
    faults.length ≤ (s.visible.filter fun t => t.kind != .eof).length :=
  Nat.le_trans (length_faults_le_terminals h) (length_terminals_le tags s)

theorem parse_faults_le_three :
    ∃ s faults, parse (.standard .reject) s = .error faults ∧ faults.length = 3 ∧
      (s.visible.filter fun t => t.kind != .eof).length = 3 ∧
      faults.length ≤ (s.visible.filter fun t => t.kind != .eof).length := by
  have h : parse (.standard .reject) (.ofList
      [(.rightParen, ")"), (.lineBreak, "\n"), (.comma, ","), (.lineBreak, "\n"), (.dot, ".")]) =
        .error _ := rfl
  exact ⟨_, _, h, rfl, rfl, parse_faults_le h⟩

end Linewise
