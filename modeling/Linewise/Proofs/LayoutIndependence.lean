import Linewise.Proofs.Parsing.Changes

/-!
# What the parser sees of the layout

Of the layout of a source the parser sees only whether a line break stands between two visible tokens.
Two sources that agree in this, and in the visible tokens, are read as the same tree, or have the same
faults.
-/

namespace Linewise

/-- Between which neighbours of the visible tokens, the end included, the source breaks the line. -/
def lineBreaksBetween (source : String) (s : TokenStream) : List Bool :=
  (s.visible.zip s.visible.tail).map fun (t, u) =>
    (Text.slice ⟨t.span.stop, u.span.start⟩ source).any Text.isLineBreak

open Linewise.Parser

/-- The same tree but for the spans, or the same faults in the same order. -/
def SameUpToSpans : Except (List (Located SyntaxFault)) SourceFile →
    Except (List (Located SyntaxFault)) SourceFile → Prop
  | .ok file, .ok other => mapSpans noSpan file = mapSpans noSpan other
  | .error faults, .error others => faults.map (·.node) = others.map (·.node)
  | _, _ => False

-- ---------------------------------------------------------------------------
-- Neighbours
-- ---------------------------------------------------------------------------

section
variable {α : Type} {l : List α} {a b : α}

theorem split_of_mem_tail (h : b ∈ l.tail) : ∃ xs a ys, l = xs ++ a :: b :: ys := by
  cases l with
  | nil => cases h
  | cons x l =>
    obtain ⟨xs, ys, rfl⟩ := List.append_of_mem h
    rcases List.eq_nil_or_concat xs with rfl | ⟨xs, a, rfl⟩
    · exact ⟨[], x, ys, rfl⟩
    · exact ⟨x :: xs, a, ys, by simp⟩

theorem split_of_mem_zip_tail (h : (a, b) ∈ l.zip l.tail) : ∃ xs ys, l = xs ++ a :: b :: ys := by
  induction l with
  | nil => cases h
  | cons x l ih =>
    cases l with
    | nil => cases h
    | cons y l =>
      rcases List.mem_cons.mp h with heq | h
      · cases heq
        exact ⟨[], l, rfl⟩
      · obtain ⟨xs, ys, hl⟩ := ih h
        exact ⟨x :: xs, ys, by rw [hl]; rfl⟩

end

-- ---------------------------------------------------------------------------
-- Terminals without their places
-- ---------------------------------------------------------------------------

def unplaced (i : Item) (onNewLine terminated : Bool) : Terminal :=
  ⟨⟨i.1, .visible, i.2, ⟨0, 0⟩, 0, .origin⟩, onNewLine, terminated, i.1 = .rightCurl⟩

section
variable {f : Fallthrough} {s : TokenStream} {source : String} {t u : Token} {xs ys : List Token}
  {terminals : List Terminal}

def TokenStream.onNewLine (s : TokenStream) (f : Fallthrough) (t : Token) : Bool :=
  ((LayoutTags.standard f).preceding s.tokens t.index).isLineBreak

theorem unplaced_behind (hs : SoundStream s) (h : s.visible = xs ++ u :: t :: ys) :
    (placesDropped terminals).terminal (s.terminal (.standard f) t) =
      unplaced t.item (s.onNewLine f t) (s.onNewLine f t || f == .accept) := by
  obtain ⟨pre, mid, post, htokens, hu, hmid⟩ := filter_split h
  obtain ⟨hline, hends⟩ := hs.preceding_behind (f := f) htokens hu hmid
  have hends' : (LayoutTags.standard f).endsStatement s.tokens t.index =
      (s.onNewLine f t || f == .accept) := hends.trans (by rw [← hline]; rfl)
  simp only [placesDropped, TokenStream.terminal, hends', hs.closes htokens]
  rfl

theorem unplaced_first (terminals : List Terminal) (hs : SoundStream s) (h : s.visible = t :: ys) :
    { (placesDropped terminals).terminal (s.terminal (.standard f) t) with onNewLine := false } =
      unplaced t.item false true := by
  obtain ⟨mid, post, htokens, hmid, -, -⟩ := List.filter_eq_cons_iff.mp h
  have hends : (LayoutTags.standard f).endsStatement s.tokens t.index = true :=
    (hs.preceding_first htokens fun x hx => by simpa using hmid x hx).2
  simp only [placesDropped, TokenStream.terminal, hends, hs.closes htokens]
  rfl

theorem map_onNewLine_tail (h : lex source = .ok s) :
    s.visible.tail.map (s.onNewLine f) = lineBreaksBetween source s := by
  have hs := soundStream_of_lex h
  have hgap : ∀ p ∈ s.visible.zip s.visible.tail,
      (Text.slice ⟨p.1.span.stop, p.2.span.start⟩ source).any Text.isLineBreak =
        s.onNewLine f p.2 := by
    intro p hp
    obtain ⟨xs, ys, hsplit⟩ := split_of_mem_zip_tail hp
    obtain ⟨pre, mid, post, htokens, hu, hmid⟩ := filter_split hsplit
    rw [slice_between h htokens, any_chars_item]
    exact (hs.preceding_behind htokens hu hmid).1.symm
  have hsnd : (s.visible.zip s.visible.tail).map Prod.snd = s.visible.tail :=
    List.map_snd_zip (by simp)
  calc s.visible.tail.map (s.onNewLine f)
      = ((s.visible.zip s.visible.tail).map Prod.snd).map (s.onNewLine f) := by rw [hsnd]
    _ = (s.visible.zip s.visible.tail).map fun p => s.onNewLine f p.2 := List.map_map
    _ = lineBreaksBetween source s := (List.map_congr_left hgap).symm

theorem unplaced_tail (f : Fallthrough) (terminals : List Terminal) (h : lex source = .ok s) :
    (s.visible.tail.map fun t => (placesDropped terminals).terminal (s.terminal (.standard f) t)) =
      List.zipWith (fun i b => unplaced i b (b || f == .accept))
        (s.visible.tail.map Token.item) (lineBreaksBetween source s) := by
  rw [← map_onNewLine_tail h (f := f), List.zipWith_map, List.zipWith_self]
  refine List.map_congr_left fun t ht => ?_
  obtain ⟨xs, u, ys, hsplit⟩ := split_of_mem_tail ht
  exact unplaced_behind (soundStream_of_lex h) hsplit

def unplacedTerminals (f : Fallthrough) (lines : List Bool) : List Item → List Terminal
  | [] => []
  | i :: is =>
    (unplaced i false true ::
      List.zipWith (fun i b => unplaced i b (b || f == .accept)) is lines).takeWhile
        fun t => t.token.kind != .eof

theorem placesDropped_rest (h : lex source = .ok s) :
    (placesDropped (s.terminals (.standard f))).rest (s.terminals (.standard f)) =
      unplacedTerminals f (lineBreaksBetween source s) (s.visible.map Token.item) := by
  have htail := unplaced_tail f (s.terminals (.standard f)) h
  cases hv : s.visible with
  | nil =>
    have hnone : s.terminals (.standard f) = [] := by simp [TokenStream.terminals, hv]
    rw [hnone]
    rfl
  | cons t ts =>
    rw [hv, List.tail_cons] at htail
    rw [List.map_cons, unplacedTerminals, ← htail, List.takeWhile_cons, List.takeWhile_map]
    by_cases ht : t.kind = .eof
    · have hnone : s.terminals (.standard f) = [] := by simp [TokenStream.terminals, hv, ht]
      rw [hnone, if_neg (by simp [unplaced, Token.item, ht])]
      rfl
    · have hcons : s.terminals (.standard f) = s.terminal (.standard f) t ::
          (ts.takeWhile fun t => t.kind != .eof).map (s.terminal (.standard f)) := by
        simp [TokenStream.terminals, hv, ht]
      have htotal : (placesDropped (s.terminals (.standard f))).total =
          ((ts.takeWhile fun t => t.kind != .eof).map (s.terminal (.standard f))).length + 1 :=
        congrArg List.length hcons
      have hrest := Change.rest_cons_of_total (x := s.terminal (.standard f) t) rfl htotal
      rw [← hcons] at hrest
      have hfirst := unplaced_first (f := f) (s.terminals (.standard f)) (soundStream_of_lex h) hv
      rw [hrest, if_pos (by simpa [unplaced, Token.item] using ht), List.map_map, ← hfirst]
      rfl

theorem placesDropped_start (h : lex source = .ok s) :
    (placesDropped (s.terminals (.standard f))).state (.start s (.standard f)) =
      ⟨unplacedTerminals f (lineBreaksBetween source s) (s.visible.map Token.item),
        ⟨0, 0⟩, ⟨0, 0⟩, 0, #[]⟩ := by
  rw [Change.state_start rfl rfl, placesDropped_rest h]
  rfl

theorem placesDropped_faults (terminals : List Terminal) (xs : Array (Located SyntaxFault)) :
    ((placesDropped terminals).faults xs).toList = xs.toList.map fun x => ⟨x.node, ⟨0, 0⟩⟩ := by
  rw [Change.faults_of_strict rfl, Array.toList_map]
  rfl

/-- What is built of a source and reported for it is, but for the places, what is built of its items and
lines and reported for them. -/
theorem run_unplaced (h : lex source = .ok s) :
    ∃ ds t t', (declarations maxDepth).run (.start s (.standard f)) = (.ok ds, t) ∧
      (declarations maxDepth).run ⟨unplacedTerminals f (lineBreaksBetween source s)
        (s.visible.map Token.item), ⟨0, 0⟩, ⟨0, 0⟩, 0, #[]⟩ = (.ok (mapSpans noSpan ds), t') ∧
      t'.faults.toList = t.faults.toList.map fun x => ⟨x.node, ⟨0, 0⟩⟩ := by
  obtain ⟨ds, t, hrun⟩ := answers_declarations maxDepth (.start s (.standard f))
  have hbare := Change.run_declarations (m := placesDropped (s.terminals (.standard f))) rfl rfl
    (fun _ _ _ _ _ _ _ _ _ => by simp [placesDropped, noSpan]) (Nat.le_refl _) hrun
  rw [placesDropped_start h] at hbare
  exact ⟨ds, t, _, hrun, hbare, placesDropped_faults _ _⟩

theorem sameUpToSpans_verdict {ds es : List (Located Declaration)} {xs ys : List (Located SyntaxFault)}
    (hd : mapSpans noSpan ds = mapSpans noSpan es) (hx : xs.map (·.node) = ys.map (·.node)) :
    SameUpToSpans (verdict ds xs) (verdict es ys) := by
  cases xs with
  | nil =>
    rw [List.map_nil, eq_comm, List.map_eq_nil_iff] at hx
    rw [hx]
    exact congrArg SourceFile.mk hd
  | cons x xs =>
    cases ys with
    | nil => cases hx
    | cons y ys => exact hx

end

theorem sameUpToSpans_of_items {a b : String} {s t : TokenStream} (f : Fallthrough)
    (ha : lex a = .ok s) (hb : lex b = .ok t)
    (hitems : s.visible.map Token.item = t.visible.map Token.item)
    (hlines : lineBreaksBetween a s = lineBreaksBetween b t) :
    SameUpToSpans (parse (.standard f) s) (parse (.standard f) t) := by
  obtain ⟨ds, u, u', hu, hu', hfaults⟩ := run_unplaced (f := f) ha
  obtain ⟨es, v, v', hv, hv', hfaults'⟩ := run_unplaced (f := f) hb
  -- Without places both sources are read from one state.
  rw [hitems, hlines, hv'] at hu'
  obtain ⟨hds, rfl⟩ := Prod.mk.inj hu'
  have hnodes : u.faults.toList.map (·.node) = v.faults.toList.map (·.node) := by
    simpa [Function.comp_def] using congrArg (List.map Located.node) (hfaults.symm.trans hfaults')
  have hfile : parse (.standard f) s = _ := parseWithin_of_run hu
  have hother : parse (.standard f) t = _ := parseWithin_of_run hv
  rw [hfile, hother]
  exact sameUpToSpans_verdict (Except.ok.inj hds).symm hnodes

/-- Two sources with the same visible tokens, and line breaks between the same of them, are read as the
same tree or have the same faults, wherever these stand. -/
theorem parse_sameUpToSpans {a b : String} {s t : TokenStream} (f : Fallthrough)
    (ha : lex a = .ok s) (hb : lex b = .ok t)
    (htokens : s.visible.map (fun t => (t.kind, t.text)) = t.visible.map fun t => (t.kind, t.text))
    (hlines : lineBreaksBetween a s = lineBreaksBetween b t) :
    SameUpToSpans (parse (.standard f) s) (parse (.standard f) t) :=
  sameUpToSpans_of_items f ha hb htokens hlines

theorem parse_sameUpToSpans_comments :
    ∃ s t, lex "val x =\n1" = .ok s ∧ lex "/* y */val x = // z\n  1" = .ok t ∧
      s.visible.map (fun t => (t.kind, t.text)) = t.visible.map (fun t => (t.kind, t.text)) ∧
      lineBreaksBetween "val x =\n1" s = lineBreaksBetween "/* y */val x = // z\n  1" t ∧
      SameUpToSpans (parse (.standard .reject) s) (parse (.standard .reject) t) := by
  have ha := lex_eq_ok.mpr ⟨(by decide +kernel : Clean "val x =\n1".toList), rfl⟩
  have hb := lex_eq_ok.mpr ⟨(by decide +kernel : Clean "/* y */val x = // z\n  1".toList), rfl⟩
  refine ⟨_, _, ha, hb, ?_, ?_, parse_sameUpToSpans .reject ha hb ?_ ?_⟩
  all_goals decide +kernel

end Linewise
