import Linewise.Proofs.LayoutIndependence
import Linewise.Proofs.Lexing.LineEndings

/-!
# What the line endings of a source say

A source whose lines end in carriage returns, or in pairs of a carriage return and a line feed, has the same
tokens as with line feeds, in the same lines and columns, and is read as the same file. If it has faults, they
are the same.
-/

namespace Linewise

open Linewise.Parser

variable {e : LineEnding} {f : Fallthrough} {source : String} {s t : TokenStream}

-- ---------------------------------------------------------------------------
-- Tokens
-- ---------------------------------------------------------------------------

/-- A token wherever its bytes are. -/
def Token.spanless (t : Token) : Token := { t with span := ⟨0, 0⟩ }

def LineEnding.token (e : LineEnding) (t : Token) : Token := { t with text := e.inText t.text }

theorem map_spanless_placed {offset offset' index : Nat} {point : Point} {is : List Item}
    (hr : '\r' ∉ chars is) :
    (placed offset' index point (is.map e.item)).map Token.spanless =
      (placed offset index point is).map fun t => (e.token t).spanless := by
  induction is generalizing offset offset' index point with
  | nil => rfl
  | cons i is ih =>
    rw [chars_cons, List.mem_append, not_or] at hr
    have hpoint : point.advance (e.item i).2.toList = point.advance i.2.toList := by
      rw [LineEnding.item, LineEnding.inText, String.toList_ofList, LineEnding.advance_convert hr.1]
    rw [List.map_cons, placed, placed, List.map_cons, List.map_cons, hpoint, ih hr.2]
    rfl

theorem map_spanless_of_lex (hr : '\r' ∉ source.toList) (hs : lex source = .ok s)
    (ht : lex (e.inText source) = .ok t) :
    t.tokens.toList.map Token.spanless = s.tokens.toList.map fun x => (e.token x).spanless := by
  have hclean := (lex_eq_ok.mp hs).1
  have hitems : items (e.inText source).toList ++ [(TokenKind.eof, "")] =
      (items source.toList ++ [(TokenKind.eof, "")]).map e.item := by
    rw [LineEnding.inText, String.toList_ofList, items_convert hr, List.map_append]
    rfl
  rw [tokens_of_lex hs, tokens_of_lex ht, hitems]
  refine map_spanless_placed ?_
  rw [chars_append, chars_items hclean]
  simpa using hr

theorem item_token_of_visible (h : lex source = .ok s) {x : Token} (hx : x ∈ s.visible) :
    (e.token x).spanless.item = x.item := by
  obtain ⟨hmem, hvisible⟩ := List.mem_filter.mp hx
  have hlayout : x.kind.isLayout = false := by
    have hchannel := ((soundStream_of_lex h).sound hmem).channel
    cases hk : x.kind.isLayout with
    | false => rfl
    | true => simp [Token.isVisible, hchannel, TokenKind.channel, hk] at hvisible
  have hitem : x.item ∈ items source.toList ++ [(TokenKind.eof, "")] := by
    rw [tokens_of_lex h] at hmem
    have := List.mem_map_of_mem (f := Token.item) hmem
    rwa [map_item_placed] at this
  have hno : '\n' ∉ x.text.toList := by
    rcases List.mem_append.mp hitem with hitem | hend
    · exact lineFeed_not_mem_items (lex_eq_ok.mp h).1 hitem hlayout
    · obtain ⟨-, htext⟩ := Prod.mk.inj (List.mem_singleton.mp hend)
      rw [htext]
      exact List.not_mem_nil
  simp only [Token.item, Token.spanless, LineEnding.token, LineEnding.inText,
    LineEnding.convert_of_not_mem hno, String.ofList_toList]

-- ---------------------------------------------------------------------------
-- The layout
-- ---------------------------------------------------------------------------

def Token.layout (t : Token) : TokenKind × Channel × Bool := (t.kind, t.channel, t.breaks)

theorem walkBack_congr {tokens tokens' : Array Token}
    (h : tokens.toList.map Token.layout = tokens'.toList.map Token.layout) (n : Nat) :
    (LayoutTags.standard f).walkBack tokens n = (LayoutTags.standard f).walkBack tokens' n := by
  induction n with
  | zero => rfl
  | succ n ih =>
    have hget := congrArg (·[n]?) h
    simp only [List.getElem?_map, Array.getElem?_toList] at hget
    cases hx : tokens[n]? with
    | none =>
      rw [hx] at hget
      rw [LayoutTags.walkBack, LayoutTags.walkBack, hx, Option.map_eq_none_iff.mp hget.symm]
    | some x =>
      rw [hx] at hget
      obtain ⟨y, hy, hxy⟩ := Option.map_eq_some_iff.mp hget.symm
      simp only [Token.layout, Prod.mk.injEq] at hxy
      rw [walkBack_succ hx, walkBack_succ hy, hxy.1, hxy.2.1, hxy.2.2, ih]

theorem map_layout_convert (hr : '\r' ∉ source.toList) (hs : lex source = .ok s)
    (ht : lex (e.inText source) = .ok t) :
    t.tokens.toList.map Token.layout = s.tokens.toList.map Token.layout := by
  have hbreaks (text : String) : Text.hasLineBreak (e.inText text) = Text.hasLineBreak text := by
    rw [Text.hasLineBreak, LineEnding.inText, String.toList_ofList, LineEnding.any_convert,
      Text.hasLineBreak]
  have hlayout := congrArg (List.map Token.layout) (map_spanless_of_lex hr hs ht)
  rw [List.map_map, List.map_map] at hlayout
  refine hlayout.trans (List.map_congr_left fun x _ => ?_)
  simp only [Function.comp_apply, Token.layout, Token.breaks, Token.spanless, LineEnding.token, hbreaks]

theorem preceding_convert (hr : '\r' ∉ source.toList) (hs : lex source = .ok s)
    (ht : lex (e.inText source) = .ok t) (i : Nat) :
    (LayoutTags.standard f).preceding t.tokens i = (LayoutTags.standard f).preceding s.tokens i := by
  have hlayout := map_layout_convert hr hs ht
  have hsize : t.tokens.size = s.tokens.size := by simpa using congrArg List.length hlayout
  rw [LayoutTags.preceding, LayoutTags.preceding, hsize, walkBack_congr hlayout]

theorem visible_convert (hr : '\r' ∉ source.toList) (hs : lex source = .ok s)
    (ht : lex (e.inText source) = .ok t) :
    t.visible.map Token.spanless = s.visible.map fun x => (e.token x).spanless := by
  have hvisible := congrArg (List.filter Token.isVisible) (map_spanless_of_lex hr hs ht)
  rwa [List.filter_map, List.filter_map] at hvisible

theorem lineBreaksBetween_convert (hr : '\r' ∉ source.toList) (hs : lex source = .ok s)
    (ht : lex (e.inText source) = .ok t) :
    t.visible.map Token.item = s.visible.map Token.item ∧
      lineBreaksBetween (e.inText source) t = lineBreaksBetween source s := by
  have hvisible := visible_convert hr hs ht
  constructor
  · have hitems := congrArg (List.map Token.item) hvisible
    have hspanless : Token.item ∘ Token.spanless = Token.item := rfl
    rw [List.map_map, List.map_map, hspanless] at hitems
    refine hitems.trans (List.map_congr_left fun x hx => ?_)
    rw [Function.comp_apply, item_token_of_visible hs hx]
  · have hindex : t.visible.tail.map Token.index = s.visible.tail.map Token.index := by
      have := congrArg (List.map Token.index) (congrArg List.tail hvisible)
      rw [← List.map_tail, ← List.map_tail, List.map_map, List.map_map] at this
      exact this
    rw [← map_onNewLine_tail hs (f := .reject), ← map_onNewLine_tail ht (f := .reject)]
    calc t.visible.tail.map (t.onNewLine .reject)
        = (t.visible.tail.map Token.index).map fun i =>
            ((LayoutTags.standard .reject).preceding s.tokens i).isLineBreak := by
          rw [List.map_map]
          exact List.map_congr_left fun x _ =>
            congrArg Preceding.isLineBreak (preceding_convert hr hs ht x.index)
      _ = s.visible.tail.map (s.onNewLine .reject) := by
          rw [hindex, List.map_map]
          rfl

-- ---------------------------------------------------------------------------
-- Sources
-- ---------------------------------------------------------------------------

/-- A source without carriage returns and the same one with other line endings: both lex or none of them. If
they do, the tokens have the same kinds, channels, indices and points, and the same texts but for the line
endings in them; they are read as the same tree or have the same faults. If they do not, the faults are the
same. -/
theorem lineEnding_independence (e : LineEnding) (hr : '\r' ∉ source.toList) :
    match lex source, lex (e.inText source) with
    | .ok s, .ok t =>
      t.tokens.toList.map Token.spanless = s.tokens.toList.map (fun x => (e.token x).spanless) ∧
        ∀ f, SameUpToSpans (parse (.standard f) s) (parse (.standard f) t)
    | .error faults, .error others => faults.map (·.node) = others.map (·.node)
    | _, _ => False := by
  have htext : (e.inText source).toList = e.convert source.toList := String.toList_ofList
  have hclean : Clean (e.inText source).toList ↔ Clean source.toList := by rw [htext, clean_convert hr]
  split
  · rename_i s t hs ht
    obtain ⟨hitems, hlines⟩ := lineBreaksBetween_convert hr hs ht
    exact ⟨map_spanless_of_lex hr hs ht, fun f =>
      sameUpToSpans_of_items f hs ht hitems.symm hlines.symm⟩
  · rename_i faults others hs ht
    obtain ⟨rfl, -⟩ := lex_eq_error.mp hs
    obtain ⟨rfl, -⟩ := lex_eq_error.mp ht
    rw [htext, map_node_faults_convert hr]
  · rename_i hok herror
    cases hs : lex source with
    | ok s =>
      exact hok s _ hs (lex_eq_ok.mpr ⟨hclean.mpr (lex_eq_ok.mp hs).1, rfl⟩)
    | error faults =>
      cases ht : lex (e.inText source) with
      | ok t =>
        have hback := lex_eq_ok.mpr ⟨hclean.mp (lex_eq_ok.mp ht).1, rfl⟩
        rw [hs] at hback
        cases hback
      | error others => exact herror faults others hs ht

theorem lineEnding_independence_comment :
    ∃ s t, lex "/*\n*/val x =\n1" = .ok s ∧ lex "/*\r\n*/val x =\r\n1" = .ok t ∧
      t.tokens.toList.map Token.spanless =
        s.tokens.toList.map (fun x => (LineEnding.pair.token x).spanless) ∧
      (∀ f, SameUpToSpans (parse (.standard f) s) (parse (.standard f) t)) ∧
      ∃ faults others, lex "\n\"é\\\n" = .error faults ∧ lex "\r\"é\\\r" = .error others ∧
        faults.map (·.node) = others.map (·.node) := by
  have hs := lex_eq_ok.mpr ⟨(by decide +kernel : Clean "/*\n*/val x =\n1".toList), rfl⟩
  have ht := lex_eq_ok.mpr ⟨(by decide +kernel : Clean "/*\r\n*/val x =\r\n1".toList), rfl⟩
  have hpair : LineEnding.pair.inText "/*\n*/val x =\n1" = "/*\r\n*/val x =\r\n1" := by decide +kernel
  have hreads := @lineEnding_independence "/*\n*/val x =\n1" .pair (by decide)
  rw [hpair, hs, ht] at hreads
  have hbad : lex "\n\"é\\\n" = .error [⟨.unterminatedString, ⟨1, 5⟩⟩] := lex_eq_error.mpr (by decide +kernel)
  have hother : lex "\r\"é\\\r" = .error [⟨.unterminatedString, ⟨1, 5⟩⟩] := lex_eq_error.mpr (by decide +kernel)
  have hreturn : LineEnding.carriageReturn.inText "\n\"é\\\n" = "\r\"é\\\r" := by decide +kernel
  have hfails := @lineEnding_independence "\n\"é\\\n" .carriageReturn (by decide)
  rw [hreturn, hbad, hother] at hfails
  exact ⟨_, _, hs, ht, hreads.1, hreads.2, _, _, hbad, hother, hfails⟩

end Linewise
