import Linewise.Proofs.Lexing.Concatenation
import Linewise.Proofs.Parsing.Concatenation
import Linewise.Proofs.Parsing.Greedy

/-!
# Reading texts

What the grammar reads of a text, as terminals that say nothing but what it looks at. Those of two texts with
a line feed between them are those of the first one and, on a line of their own, those of the second one.
-/

namespace Linewise

open Linewise.Parser

-- ---------------------------------------------------------------------------
-- The terminals of a text
-- ---------------------------------------------------------------------------

namespace Lead

variable {f : Fallthrough} {l : Lead} {is : List Item} {cs ds : List Char} {x : Terminal}

def line (offset : Nat) : Lead := ⟨offset, true, true⟩

/-- A statement may end in front of the text. -/
def Free (l : Lead) : Prop := l.visible = true → l.broken = true

theorem read_eof (h : ∀ i ∈ is, i.1 ≠ .eof) : l.read f (is ++ [(.eof, "")]) = l.read f is := by
  rw [read_append h]
  exact List.append_nil _

/-- The terminals of the second text stand behind a line break, and behind the first text. -/
theorem read_items_append (hc : Clean cs) (hd : Clean ds) :
    l.read f (items (cs ++ '\n' :: ds)) =
      l.read f (items cs) ++ (line (l.offset + (Text.byteSize cs + 1))).read f (items ds) := by
  obtain ⟨is, text, hitems, hfirst⟩ := items_append ds hc
  have hsound : ∀ i ∈ is, i.1 ≠ .eof := fun i hi =>
    (sound_items (clean_append hc hd) i (by rw [hitems]; exact List.mem_append_left _ hi)).not_eof
  have hread : l.read f (items cs) = l.read f is := by
    rcases hfirst with h | h
    · rw [h]
    · rw [h, read_append hsound]
      exact List.append_nil _
  have hsize : Text.byteSize (chars is) + text.utf8ByteSize = Text.byteSize cs + 1 := by
    have hchars := chars_items (clean_append hc hd)
    rw [hitems, chars_append, chars_cons, chars_items hd, ← List.append_assoc,
      List.append_cons cs] at hchars
    have hfront := congrArg Text.byteSize (List.append_cancel_right hchars)
    rw [Text.byteSize_append, Text.byteSize_append, Text.byteSize_toList] at hfront
    exact hfront
  have hbehind (l' : Lead) (ho : l'.offset = l.offset + (Text.byteSize cs + 1)) (hb : l'.broken = true) :
      l'.read f (items ds) = (line (l.offset + (Text.byteSize cs + 1))).read f (items ds) := by
    rcases l' with ⟨offset, visible, broken⟩
    simp only at ho hb
    rw [line, ho, hb, read_broken _ _ true, read_broken _ true true]
  rw [hread, hitems, read_append hsound]
  refine congrArg _ (hbehind ((is.foldl next l).next (.lineBreak, text)) ?_ (next_of_breaks rfl))
  rw [next, offset_foldl_next, Nat.add_assoc, hsize]

theorem offset_le_of_mem_read (h : x ∈ l.read f is) : l.offset ≤ x.token.span.start := by
  induction is generalizing l with
  | nil => cases h
  | cons i is ih =>
    have hrest (hx : x ∈ (l.next i).read f is) : l.offset ≤ x.token.span.start :=
      Nat.le_trans (Nat.le_add_right _ _) (ih hx)
    rw [read] at h
    split at h
    · exact hrest h
    · split at h
      · cases h
      · rcases List.mem_cons.mp h with rfl | hx
        · exact Nat.le_refl _
        · exact hrest hx

theorem eq_terminal_of_mem_read (h : x ∈ l.read f is) :
    ∃ (l' : Lead) (i : Item), i ∈ is ∧ x = l'.terminal f i := by
  induction is generalizing l with
  | nil => cases h
  | cons i is ih =>
    have hrest (hx : x ∈ (l.next i).read f is) : ∃ (l' : Lead) (j : Item), j ∈ i :: is ∧ x = l'.terminal f j :=
      have ⟨l', j, hj, hxj⟩ := ih hx
      ⟨l', j, List.mem_cons_of_mem i hj, hxj⟩
    rw [read] at h
    split at h
    · exact hrest h
    · split at h
      · cases h
      · rcases List.mem_cons.mp h with rfl | hx
        · exact ⟨l, i, List.mem_cons_self, rfl⟩
        · exact hrest hx

theorem inRow_read : InRow (l.read f is) where
  closed x hx hclosing := by
    obtain ⟨l', i, -, rfl⟩ := eq_terminal_of_mem_read hx
    exact of_decide_eq_true hclosing
  ordered := by
    induction is generalizing l with
    | nil => exact .nil
    | cons i is ih =>
      rw [read]
      split
      · exact ih
      · split
        · exact .nil
        · refine List.pairwise_cons.mpr ⟨fun y hy => ?_, ih⟩
          have hle : l.offset + i.2.utf8ByteSize ≤ y.token.span.start := offset_le_of_mem_read hy
          obtain ⟨l', i', -, rfl⟩ := eq_terminal_of_mem_read hy
          exact Nat.le_trans hle (Nat.le_add_right _ _)

theorem rising_read (h : ∀ i ∈ is, SoundItem i) : Rising (l.read f is) := by
  induction is generalizing l with
  | nil => exact .nil
  | cons i is ih =>
    obtain ⟨hi, hrest⟩ := List.forall_mem_cons.mp h
    rw [read]
    split
    · exact ih hrest
    · split
      · exact .nil
      · refine List.pairwise_cons.mpr ⟨fun y hy => ?_, ih hrest⟩
        have hle : l.offset + i.2.utf8ByteSize ≤ y.token.span.start := offset_le_of_mem_read hy
        obtain ⟨l', j, hj, rfl⟩ := eq_terminal_of_mem_read hy
        exact Nat.lt_of_le_of_lt hle (Nat.lt_add_of_pos_right (hrest j hj).size_pos)

theorem spaced_read (h : ∀ i ∈ is, SoundItem i) : Spaced (l.read f is) := by
  induction is generalizing l with
  | nil => exact ⟨fun _ h => absurd h List.not_mem_nil, fun _ h => absurd h List.not_mem_nil⟩
  | cons i is ih =>
    obtain ⟨hi, hrest⟩ := List.forall_mem_cons.mp h
    have hnext := ih (l := l.next i) hrest
    rw [read]
    split
    · exact hnext
    · rw [if_neg hi.not_eof]
      refine ⟨fun x hx => ?_, fun x hx => ?_⟩
      · rcases List.mem_cons.mp hx with rfl | hx
        · rfl
        · exact hnext.covers x hx
      · have hsize := hi.size_pos
        have hle : l.offset + i.2.utf8ByteSize ≤ x.token.span.start := offset_le_of_mem_read hx
        omega

theorem head_terminated (hl : l.Free) : (l.read f is).head?.all (·.terminated) = true := by
  induction is generalizing l with
  | nil => rfl
  | cons i is ih =>
    rw [read]
    cases hi : i.1.isLayout with
    | true =>
      rw [if_pos rfl]
      exact ih fun hv => by
        simp only [next, hi, Bool.not_true, Bool.or_false, Bool.true_and, Bool.or_eq_true] at hv ⊢
        exact .inl (hl hv)
    | false =>
      rw [if_neg Bool.false_ne_true]
      split
      · rfl
      · cases hv : l.visible with
        | false => simp [terminal, hv]
        | true => simp [terminal, hl hv]

theorem head_onNewLine (offset : Nat) : ((line offset).read f is).head?.all (·.onNewLine) = true := by
  rw [line, read_broken _ _ true]
  cases (Lead.mk offset false true).read f is <;> rfl

theorem read_line (hl : l.Free) (n : Nat) :
    (line (l.offset + n)).read f is = firstOnNewLine ((l.read f is).map (.shift n)) := by
  rcases l with ⟨offset, visible, broken⟩
  rw [← read_shift, line]
  cases visible with
  | false => exact read_broken _ _ _
  | true =>
    obtain rfl : broken = true := hl rfl
    rw [read_broken _ _ true]
    cases (Lead.mk (offset + n) false true).read f is <;> rfl

end Lead

-- ---------------------------------------------------------------------------
-- How texts begin and end
-- ---------------------------------------------------------------------------

def TokenStream.kinds (s : TokenStream) : List TokenKind :=
  (s.visible.map (·.kind)).takeWhile (· != .eof)

def semicolonsAtEnd (kinds : List TokenKind) : List TokenKind :=
  (kinds.reverse.takeWhile (· = .semicolon)).reverse

section
variable {f : Fallthrough} {source : String} {stream : TokenStream} {kind : TokenKind}
  {kinds semicolons : List TokenKind}

theorem semicolonsAtEnd_append (hk : kind ≠ .semicolon) (hs : ∀ k ∈ semicolons, k = .semicolon) :
    semicolonsAtEnd (kinds ++ kind :: semicolons) = semicolons := by
  have hall : ∀ k ∈ semicolons.reverse, decide (k = .semicolon) = true := fun k hmem =>
    decide_eq_true (hs k (List.mem_reverse.mp hmem))
  rw [semicolonsAtEnd, List.reverse_append, List.reverse_cons, List.append_assoc,
    List.takeWhile_append_of_pos hall]
  simp [hk]

theorem eq_of_mem_semicolonsAtEnd (h : kind ∈ semicolonsAtEnd kinds) : kind = .semicolon := by
  rw [semicolonsAtEnd, List.mem_reverse] at h
  simpa using List.all_eq_true.mp List.all_takeWhile kind h

theorem TokenStream.head_visible (h : stream.kinds.head? = some kind) :
    stream.visible.head?.map (·.kind) = some kind := by
  rw [kinds] at h
  cases hs : stream.visible with
  | nil => simp [hs] at h
  | cons t ts =>
    rw [hs, List.map_cons, List.takeWhile_cons] at h
    split at h
    · exact h
    · cases h

theorem Lead.kinds_read (l : Lead) (h : lex source = .ok stream) :
    (l.read f (items source.toList)).map (·.token.kind) = stream.kinds := by
  obtain ⟨hclean, rfl⟩ := lex_eq_ok.mp h
  have hany (is : List Item) (l l' : Lead) :
      (l.read f is).map (·.token.kind) = (l'.read f is).map (·.token.kind) := by
    induction is generalizing l l' with
    | nil => rfl
    | cons i is ih =>
      rw [Lead.read, Lead.read]
      split
      · exact ih _ _
      · split
        · rfl
        · exact congrArg (i.1 :: ·) (ih _ _)
  rw [hany _ l .start, ← Lead.read_eof fun i hi => (sound_items hclean i hi).not_eof,
    ← map_bare_terminals, TokenStream.terminals, TokenStream.kinds, List.takeWhile_map, List.map_map,
    List.map_map]
  rfl

end

-- ---------------------------------------------------------------------------
-- The state that a text is read from
-- ---------------------------------------------------------------------------

section
variable {f : Fallthrough} {l : Lead} {before : Span} {depth : Nat} {cs ds : List Char} {source : String}
  {s : TokenStream} {file : SourceFile}

/-- The state that a text is read from, behind other text. -/
def entry (f : Fallthrough) (l : Lead) (before : Span) (depth : Nat) (cs : List Char) : State where
  rest := l.read f (items cs)
  finish := ⟨l.offset + Text.byteSize cs, l.offset + Text.byteSize cs⟩
  previous := before
  depth := depth
  faults := #[]

theorem entry_append (hc : Clean cs) (hd : Clean ds) (behind : Span) :
    entry f l before depth (cs ++ '\n' :: ds) =
      (entry f l before depth cs).facing
        ((entry f l before depth cs).rest ++
          (entry f (.line (l.offset + (Text.byteSize cs + 1))) behind depth ds).rest)
        (entry f (.line (l.offset + (Text.byteSize cs + 1))) behind depth ds).finish := by
  have hsize : l.offset + Text.byteSize (cs ++ '\n' :: ds) =
      l.offset + (Text.byteSize cs + 1) + Text.byteSize ds := by
    have hbreak : '\n'.utf8Size = 1 := rfl
    rw [Text.byteSize_append, Text.byteSize_cons, hbreak]
    omega
  simp only [entry, State.facing, Lead.read_items_append hc hd, hsize, Lead.line]

theorem bared_start (f : Fallthrough) (h : lex source = .ok s) :
    (bared (s.terminals (.standard f)).length).state (.start s (.standard f)) =
      entry f .start ⟨0, 0⟩ 0 source.toList := by
  obtain ⟨hclean, rfl⟩ := lex_eq_ok.mp h
  have hitems : ∀ i ∈ items source.toList, i.1 ≠ .eof := fun i hi => (sound_items hclean i hi).not_eof
  have hmark (total n : Nat) (t : Terminal) : (bared total).mark n t = bare t := by
    unfold Change.mark
    split <;> rfl
  rw [Change.state_start rfl rfl, Change.rest_eq_map rfl fun n _ t _ => hmark _ n t,
    map_bare_terminals, Lead.read_eof hitems, finish_ofList hitems, chars_items hclean]
  simp [entry, Lead.start, bared, Change.nothing]

/-- A source is accepted if the declarations of its text are read without a fault. -/
theorem parse_eq_ok (h : lex source = .ok s) :
    parse (.standard f) s = .ok file ↔
      ∃ t, Faultless false (grammar maxDepth maxDepth).declaration
        (entry f .start ⟨0, 0⟩ 0 source.toList) file.declarations t := by
  let m : Change := bared (s.terminals (.standard f)).length
  have hr := (rulesRead_grammar maxDepth maxDepth).declaration
  have hd : m.DetachesAll maxDepth := fun _ _ _ _ _ _ _ _ _ => rfl
  have hl : m.Levels maxDepth maxDepth maxDepth maxDepth := .inl ⟨rfl, rfl⟩
  have hsim := (Change.rulesSim_grammar hl hd).declaration
  have hfits : m.fits (State.start s (.standard f)).rest := Nat.le_refl _
  have hid (ds : List (Located Declaration)) : mapSpans m.span ds = ds := LawfulSpans.mapSpans_id ds
  refine parseWithin_eq_ok.trans ⟨fun ⟨t, ht⟩ => ?_, fun ⟨u, hu⟩ => ?_⟩
  · have hbare := Change.faultless_state (m := m) rfl rfl hr.toMoves hsim hfits ht
    rw [bared_start f h, hid] at hbare
    exact ⟨_, hbare⟩
  · obtain ⟨ds, t, hrun⟩ := answers_declarations maxDepth (.start s (.standard f))
    have hbare := Change.run_declarations (m := m) rfl rfl hd hfits hrun
    obtain ⟨hentry, hfaults⟩ := (run_sequenceOf_iff hr).mpr hu
    rw [bared_start f h, declarations, hentry, hid] at hbare
    obtain ⟨hds, rfl⟩ := Prod.mk.inj hbare
    rw [Except.ok.inj hds]
    have hreported : m.faults t.faults = #[] := hfaults
    rw [Change.faults_of_id rfl rfl] at hreported
    exact ⟨t, (run_sequenceOf_iff hr).mp ⟨hrun, hreported⟩⟩

-- ---------------------------------------------------------------------------
-- Moving a text
-- ---------------------------------------------------------------------------

theorem moved_detachesAll (n : Nat) (before : Span) (total limit : Nat) :
    (moved n before total).DetachesAll limit := by
  intro levels s type t hs hrun parent name hnode
  have hle := (roomy_typeRule limit levels s type t hs.2 hrun).1 parent name hnode
  simp only [moved, shift, Span.mk.injEq, true_and]
  omega

theorem moved_entry (hl : l.Free) (n : Nat) (behind : Span) :
    (moved n behind (entry f l before depth ds).rest.length).state (entry f l before depth ds) =
      entry f (.line (l.offset + n)) behind depth ds := by
  have hread : ¬(entry f l before depth ds).rest.length <
      (moved n behind (entry f l before depth ds).rest.length).total := Nat.lt_irrefl _
  have hrest : (moved n behind (entry f l before depth ds).rest.length).rest
      (entry f l before depth ds).rest = (entry f (.line (l.offset + n)) behind depth ds).rest := by
    show _ = (Lead.line (l.offset + n)).read f (items ds)
    rw [Lead.read_line hl]
    show Change.rest _ (l.read f (items ds)) = _
    cases hts : l.read f (items ds) with
    | nil => rfl
    | cons x ts => exact Change.rest_cons_of_total rfl (by rw [entry, hts]; rfl)
  have hfinish : (moved n behind (entry f l before depth ds).rest.length).finish
      (entry f l before depth ds).finish = (entry f (.line (l.offset + n)) behind depth ds).finish := by
    simp only [Change.finish, moved, Change.nothing, entry, shift, Lead.line, Nat.add_right_comm]
  have hfaults : (moved n behind (entry f l before depth ds).rest.length).faults
      (entry f l before depth ds).faults = #[] := by
    simp [entry, Change.faults]
  rw [Change.state, if_neg hread, hrest, hfinish, hfaults]
  rfl

theorem faultless_moved {α : Type} [HasSpans α] {P : TokenKind → Prop} {p : Parser α} {inBlock : Bool}
    {nodes : List α} {t : State} (hp : ItemRule P p) (hd : Clean ds) (hl : l.Free)
    (h : Faultless inBlock p (entry f l before depth ds) nodes t) (n : Nat) (behind : Span) :
    ∃ u, Faultless inBlock p (entry f (.line (l.offset + n)) behind depth ds)
      (mapSpans (shift n) nodes) u ∧ u.rest.length = t.rest.length := by
  let m : Change := moved n behind (entry f l before depth ds).rest.length
  have hfits : m.fits (entry f l before depth ds).rest :=
    ⟨Nat.le_refl _, Lead.spaced_read (sound_items hd)⟩
  have hmoved := Change.faultless_state (m := m) rfl rfl hp.reads.toMoves
    (hp.sim m (moved_detachesAll _ _ _ _)) hfits h
  rw [moved_entry hl] at hmoved
  exact ⟨_, hmoved, Change.length_rest rfl _⟩

end

end Linewise
