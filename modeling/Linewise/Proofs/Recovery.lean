import Linewise.Proofs.Parsing.Sources
import Linewise.Proofs.Streams

/-!
# Recovery makes progress

The loops over declarations, statements and cases go forwards with each item, whether it can be read or not,
in any stream and for any tags. So they end without a bound, as does the loop that skips what is left of an
item.
-/

namespace Linewise

namespace TokenStream

variable {s : TokenStream} {tags : LayoutTags TokenKind Channel} {ts us : List Terminal}

/-- Where the reader stands that has these terminals left: the index of the first one or, behind all of them,
of the first visible token of kind `eof` or of the end of the stream. -/
def cursor (s : TokenStream) (ts : List Terminal) : Nat :=
  (ts.head?.map fun x => x.token.index).getD
    (((s.visible.find? fun t => t.kind == .eof).map Token.index).getD s.size)

theorem Built.cursor_ordered (h : s.Built) (tags : LayoutTags TokenKind Channel) :
    ((s.terminals tags).map (fun x => x.token.index) ++ [s.cursor []]).Pairwise (· < ·) := by
  have hplaces : (s.tokens.toList.map Token.index ++ [s.size]).Pairwise (· < ·) := by
    refine List.pairwise_append.mpr ⟨List.pairwise_map.mpr h.index_ordered, List.pairwise_singleton _ _, ?_⟩
    intro i hi j hj
    obtain ⟨t, ht, rfl⟩ := List.mem_map.mp hi
    rw [List.mem_singleton.mp hj]
    exact h.index_lt ht
  have hread := hplaces.sublist (s.sublist_read Token.index s.size)
  rwa [terminals, List.map_map]

theorem cursor_mem (s : TokenStream) (ts : List Terminal) :
    s.cursor ts ∈ ts.map (fun x => x.token.index) ++ [s.cursor []] := by
  cases ts with
  | nil => exact List.mem_singleton.mpr rfl
  | cons x ts => exact List.mem_cons_self

theorem Built.cursor_lt (h : s.Built) (hts : ts <:+ s.terminals tags) (hus : us <:+ ts)
    (hlt : us.length < ts.length) : s.cursor ts < s.cursor us := by
  have hplaces : (ts.map (fun x => x.token.index) ++ [s.cursor []]).Pairwise (· < ·) :=
    (h.cursor_ordered tags).sublist ((hts.sublist.map _).append (List.Sublist.refl _))
  obtain ⟨front, rfl⟩ := hus
  cases front with
  | nil => exact absurd hlt (Nat.lt_irrefl _)
  | cons x front =>
    have hmem : s.cursor us ∈ (front ++ us).map (fun x => x.token.index) ++ [s.cursor []] := by
      rw [List.map_append, List.append_assoc]
      exact List.mem_append_right _ (s.cursor_mem us)
    exact (List.pairwise_cons.mp hplaces).1 _ hmem

theorem Built.cursor_le (h : s.Built) (hts : ts <:+ s.terminals tags) (hus : us <:+ ts) :
    s.cursor ts ≤ s.cursor us := by
  rcases Nat.lt_or_eq_of_le hus.length_le with hlt | heq
  · exact Nat.le_of_lt (h.cursor_lt hts hus hlt)
  · exact Nat.le_of_eq (congrArg s.cursor (hus.eq_of_length heq).symm)

end TokenStream

namespace Parser

variable {α : Type} {item : Parser α} {inBlock : Bool} {items out : Array α} {s t : State}
  {stream : TokenStream}

-- ---------------------------------------------------------------------------
-- Rounds
-- ---------------------------------------------------------------------------

theorem run_itemRound (inBlock : Bool) (item : Parser α) (items : Array α) (s : State) :
    ∃ items' t, (itemRound inBlock item items).run s = (.ok (.yield items'), t) := by
  unfold itemRound
  rw [run_bind_ok (run_get s), run_bind_ok (run_attempt item s)]
  cases (item.run s).1 with
  | ok node =>
    dsimp only
    rw [run_bind_ok (run_separator _)]
    exact ⟨_, _, rfl⟩
  | error fault =>
    dsimp only
    rw [run_bind_ok (run_report fault _), run_bind_ok (run_get _)]
    obtain ⟨_, t, hrecover⟩ := answers_recover inBlock _ _
    rw [run_bind_ok hrecover]
    exact ⟨_, _, rfl⟩

theorem stops_of_loops (h : Loops (sequenceRound inBlock item) items s (.ok out, t)) :
    t.stops inBlock = true := by
  generalize hend : (Except.ok out, t) = result at h
  induction h with
  | fails hround => cases hend
  | done hround =>
    cases hend
    rw [run_sequenceRound] at hround
    split at hround
    · cases hround
      assumption
    · obtain ⟨items', u, hitem⟩ := run_itemRound inBlock item _ _
      cases hitem.symm.trans hround
  | again _ _ ih => exact ih hend

/-- How the sequences of an item go through a stream: a round that comes to an item goes forwards, and only the
last round comes to none. Without a bound on the rounds there is one run, which is that of `iterate`, and it
stops where the sequence may end. -/
structure Progresses (stream : TokenStream) (tags : LayoutTags TokenKind Channel) (inBlock : Bool)
    (item : Parser α) : Prop where
  forwards : ∀ items s, s.rest <:+ stream.terminals tags → s.skipped.stops inBlock = false →
    ∃ items' t, (sequenceRound inBlock item items).run s = (.ok (.yield items'), t) ∧
      t.rest <:+ stream.terminals tags ∧ stream.cursor s.rest ≤ stream.cursor s.skipped.rest ∧
      stream.cursor s.skipped.rest < stream.cursor t.rest
  last : ∀ items s, s.skipped.stops inBlock = true →
    (sequenceRound inBlock item items).run s = (.ok (.done items), s.skipped)
  ends : ∀ items s, ∃ out t, t.stops inBlock = true ∧
    (iterate (sequenceRound inBlock item) items).run s = (.ok out, t) ∧
    ∀ result, Loops (sequenceRound inBlock item) items s result ↔ result = (.ok out, t)

theorem Reads.progresses (hp : Reads item) (hs : stream.Built) (tags : LayoutTags TokenKind Channel)
    (inBlock : Bool) : Progresses stream tags inBlock item where
  forwards items s hrest hstop := by
    obtain ⟨items', t, hround⟩ := run_itemRound inBlock item items s.skipped
    have hskipped := s.advances_skipped.rest
    have hitem := ((moves_itemRound inBlock hp.toMoves items).advances_ok hround).rest
    have hlt := itemRound_shorter hp hround hstop
    refine ⟨items', t, ?_, (hitem.trans hskipped).trans hrest, hs.cursor_le hrest hskipped,
      hs.cursor_lt (hskipped.trans hrest) hitem hlt⟩
    rw [run_sequenceRound, hstop, if_neg Bool.false_ne_true, hround]
  last items s hstop := by rw [run_sequenceRound, hstop, if_pos rfl]
  ends items s := by
    have hrounds := rounds_sequenceRound inBlock hp
    obtain ⟨out, t, hrun⟩ := answers_sequence inBlock item items s
    have hloops := hrun ▸ hrounds.loops items s
    refine ⟨out, t, stops_of_loops hloops, hrun, fun result => ⟨fun h => ?_, fun h => h ▸ hloops⟩⟩
    rw [← h.run hrounds, hrun]

-- ---------------------------------------------------------------------------
-- Recovery
-- ---------------------------------------------------------------------------

theorem loops_recover (inBlock progressed : Bool) (s : State) :
    ∃ b t, Loops (recoverRound inBlock) progressed s (.ok b, t) ∧
      (recover inBlock progressed).run s = (.ok (), t) := by
  obtain ⟨_, t, hrun⟩ := answers_recover inBlock progressed s
  obtain ⟨b, u, hloop, h⟩ := bind_ok.mp hrun
  cases h
  exact ⟨b, t, hloop ▸ (rounds_recoverRound inBlock).loops progressed s, hrun⟩

end Parser

open Linewise.Parser

/-- In every stream and for all tags, each round of the three sequences of the grammar that comes to an item
ends further behind, whether the item can be read or not. So the sequences and what skips a faulty item end
without a bound, and a whole source is read by a loop without a bound up to its end. -/
theorem recovery_progresses {stream : TokenStream} (hs : stream.Built) (tags : LayoutTags TokenKind Channel) :
    (∀ limit levels inBlock,
      Progresses stream tags inBlock (grammar limit levels).declaration ∧
        Progresses stream tags inBlock (statement (grammar limit levels)) ∧
        Progresses stream tags inBlock (whenCase (grammar limit levels))) ∧
      (∀ inBlock progressed s, ∃ b t, Loops (recoverRound inBlock) progressed s (.ok b, t) ∧
        (recover inBlock progressed).run s = (.ok (), t)) ∧
      ∃ ds t, Loops (sequenceRound false (grammar maxDepth maxDepth).declaration) #[] (.start stream tags)
          (.ok ds, t) ∧
        t.rest = [] ∧ parse tags stream = verdict ds.toList t.faults.toList := by
  have hrules (limit levels : Nat) := rulesRead_grammar limit levels
  refine ⟨fun limit levels inBlock => ?_, loops_recover, ?_⟩
  · exact ⟨(hrules limit levels).declaration.progresses hs tags inBlock,
      (reads_statement (hrules limit levels)).progresses hs tags inBlock,
      (reads_whenCase (hrules limit levels)).progresses hs tags inBlock⟩
  · have hprogresses := (hrules maxDepth maxDepth).declaration.progresses hs tags false
    obtain ⟨ds, t, hstop, hrun, hloops⟩ := hprogresses.ends #[] (.start stream tags)
    refine ⟨ds, t, (hloops _).mpr rfl, by simpa [State.stops] using hstop, ?_⟩
    exact parseWithin_of_run (bind_ok.mpr ⟨ds, t, hrun, rfl⟩)

theorem recovery_progresses_hidden :
    ∃ (s : TokenStream) (tags : LayoutTags TokenKind Channel), s.Built ∧ tags.closing = .identifier ∧
      s.cursor (s.terminals tags) = 1 ∧ s.cursor [] = 3 ∧
      Progresses s tags true (statement (grammar maxDepth maxDepth)) ∧
      ∃ ds t, Loops (sequenceRound false (grammar maxDepth maxDepth).declaration) #[] (.start s tags)
          (.ok ds, t) ∧
        t.rest = [] ∧ verdict ds.toList t.faults.toList =
          .error [⟨.expected .declaration .identifier, ⟨0, 1⟩⟩] := by
  have hbuilt := ((((TokenStream.Built.empty.pushTo .hidden .eof "").push .identifier "x").push
    (.keyword .funWord) "fun").push .eof "").push .semicolon ";"
  let tags : LayoutTags TokenKind Channel := ⟨.comma, .plus, .identifier, .hidden, .reject⟩
  obtain ⟨hsequences, -, ds, t, hloops, hrest, hparse⟩ := recovery_progresses hbuilt tags
  refine ⟨_, tags, hbuilt, rfl, by decide, by decide, (hsequences _ _ true).2.1, ds, t, hloops, hrest, ?_⟩
  rw [← hparse]
  rfl

end Linewise
