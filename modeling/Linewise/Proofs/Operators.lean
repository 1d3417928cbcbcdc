import Linewise.Proofs.Parsing.GrammarOperators
import Linewise.Proofs.Parsing.Properties

/-!
# Precedence and associativity

Names and integers with operators between them, in any layout, are read as the one grouped tree that has this
row for its reading.
-/

namespace Linewise

open Linewise.Parser

variable {tags : LayoutTags TokenKind Channel} {s : TokenStream} {t : OperatorTree} {is : List Item}

theorem items_chain_ne_eof (first : Operand) (others : List (BinaryOp × Operand)) :
    ∀ i ∈ chainItems first others, i.1 ≠ .eof := by
  have hoperand (a : Operand) : a.item.1 ≠ .eof := by cases a <;> exact nofun
  have hop (op : BinaryOp) : op.item.1 ≠ .eof := by cases op <;> exact nofun
  refine List.forall_mem_cons.mpr ⟨hoperand first, fun i hi => ?_⟩
  obtain ⟨x, -, hx⟩ := List.mem_flatMap.mp hi
  simp only [List.mem_cons, List.not_mem_nil, or_false] at hx
  rcases hx with rfl | rfl
  · exact hop x.1
  · exact hoperand x.2

theorem Parser.items_of_visible (hs : s.visible.map Token.item = is ++ [(.eof, "")])
    (his : ∀ i ∈ is, i.1 ≠ .eof) : (State.start s tags).items = is := by
  have hread : (State.start s tags).items = (s.visible.map Token.item).takeWhile fun i => i.1 != .eof := by
    rw [State.items, State.start, TokenStream.terminals, List.map_map, List.takeWhile_map]
    rfl
  rw [hread, hs, List.takeWhile_append_of_pos (by simpa using his)]
  exact List.append_nil is

theorem Parser.takes_treeValue (ht : t.Grouped) :
    Takes 1 (behind .assign (grammar maxDepth 127).expression) ((.assign, "=") :: t.reading) []
      (some ⟨t.expr, ⟨0, 0⟩⟩) := by
  have hvalue : Takes 1 (grammar maxDepth 127).expression t.reading [] ⟨t.expr, ⟨0, 0⟩⟩ :=
    .deeper (by decide) (takes_assignment (rulesRead_grammar maxDepth 126) ht)
  exact .accept_bind (hvalue.bind fun _ h => takes_pure h.some)

/-- A property whose value is a row of names and integers with operators between them, in any layout: there is
exactly one grouped tree with this reading, and its expression is the value. -/
theorem parse_operators (first : Operand) (others : List (BinaryOp × Operand)) (name : String)
    (tags : LayoutTags TokenKind Channel)
    (hs : s.visible.map Token.item = (.keyword .valWord, "val") :: (.identifier, name) :: (.assign, "=") ::
      chainItems first others ++ [(.eof, "")]) :
    ∃ t : OperatorTree, (t.Grouped ∧ t.reading = chainItems first others) ∧
      (∀ u : OperatorTree, u.Grouped → u.reading = chainItems first others → u = t) ∧
      ∃ value span,
        parse tags s = .ok ⟨[⟨.property ⟨⟨[], []⟩, true, name, none, some value⟩, span⟩]⟩ ∧
          mapSpans noSpan value.node = t.expr := by
  obtain ⟨hgrouped, hreading⟩ := OperatorTree.ofChain_spec first others
  refine ⟨_, ⟨hgrouped, hreading⟩, fun u hu h => grouped_unique hu hgrouped (h.trans hreading.symm), ?_⟩
  have hne : ∀ i ∈ (.keyword .valWord, "val") :: (.identifier, name) :: (.assign, "=") ::
      chainItems first others, i.1 ≠ TokenKind.eof := by
    simpa using items_chain_ne_eof first others
  have hitems : (State.start s tags).items = _ := items_of_visible hs hne
  have hvalue := takes_treeValue hgrouped
  rw [hreading] at hvalue
  have htype : Takes 1 (behind .colon (grammar maxDepth 127).type) ((.assign, "=") :: chainItems first others)
      ((.assign, "=") :: chainItems first others) none :=
    .accept_no_bind nofun (takes_pure (.refl _))
  obtain ⟨type, value, span, htype', hvalue', hparse⟩ := parse_property name htype hvalue hitems
  obtain rfl : type = none := Option.map_eq_none_iff.mp htype'
  cases value with
  | none => cases hvalue'
  | some value =>
    refine ⟨value, span, hparse, ?_⟩
    rw [← mapSpans_operators]
    exact SameShape.node (Option.some.inj hvalue')

/-- A row with operators of all four ranks, over several lines. -/
theorem parse_operators_lines :
    ∃ s value span, lex "val x=a==1//\n+b*c\n-2/*\n*/<d" = .ok s ∧
      parse (.standard .reject) s = .ok ⟨[⟨.property ⟨⟨[], []⟩, true, "x", none, some value⟩, span⟩]⟩ ∧
      mapSpans noSpan value.node = (OperatorTree.node .equals (.leaf (.name "a")) (.node .less
        (.node .minus
          (.node .plus (.leaf (.integer "1")) (.node .times (.leaf (.name "b")) (.leaf (.name "c"))))
          (.leaf (.integer "2")))
        (.leaf (.name "d")))).expr := by
  have hlex := lex_eq_ok.mpr ⟨(by decide +kernel : Clean "val x=a==1//\n+b*c\n-2/*\n*/<d".toList), rfl⟩
  obtain ⟨t, -, hunique, value, span, hparse, hvalue⟩ := parse_operators (.name "a") [(.equals, .integer "1"),
    (.plus, .name "b"), (.times, .name "c"), (.minus, .integer "2"), (.less, .name "d")] "x" (.standard .reject)
    (s := .ofList (items "val x=a==1//\n+b*c\n-2/*\n*/<d".toList ++ [(.eof, "")])) (by decide +kernel)
  refine ⟨_, value, span, hlex, hparse, hvalue.trans ?_⟩
  exact congrArg OperatorTree.expr (hunique _ (by decide) rfl).symm

end Linewise
