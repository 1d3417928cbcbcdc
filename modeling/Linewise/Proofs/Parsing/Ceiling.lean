import Linewise.Proofs.Parsing.Items

/-!
# Every fault costs a token

The ceiling of a state is the number of faults that there can be in the end if each token that is left
costs one more. `Thrifty`: whatever a parser answers, it reports nothing or the ceiling gets lower. A
sequence only keeps the ceiling, since each of its items may cost a fault, the last one included; the
brace in front of a block makes up for it.
-/

namespace Linewise.Parser

variable {α β : Type} {p : Parser α} {f : α → Parser β} {step : β → Parser (ForInStep β)}
  {inBlock : Bool} {s t u : State}

def State.ceiling (s : State) : Nat := s.faults.size + s.rest.length

/-- Nothing is reported between two states, or more is read than is reported. -/
structure Spends (s t : State) : Prop where
  rest : t.rest.length ≤ s.rest.length
  faults : t.faults.size = s.faults.size ∨ t.ceiling < s.ceiling

theorem Spends.refl (s : State) : Spends s s := ⟨Nat.le_refl _, .inl rfl⟩

theorem Spends.ceiling_le (h : Spends s t) : t.ceiling ≤ s.ceiling := by
  rcases h with ⟨hrest, hfaults | hlt⟩
  · rw [State.ceiling, State.ceiling, hfaults]
    exact Nat.add_le_add_left hrest _
  · exact Nat.le_of_lt hlt

theorem Spends.ceiling_lt (h : Spends s t) (hlt : t.rest.length < s.rest.length) :
    t.ceiling < s.ceiling := by
  rcases h.faults with hfaults | hceiling
  · rw [State.ceiling, State.ceiling, hfaults]
    exact Nat.add_lt_add_left hlt _
  · exact hceiling

theorem Spends.trans (h : Spends s t) (h' : Spends t u) : Spends s u := by
  refine ⟨Nat.le_trans h'.rest h.rest, ?_⟩
  rcases h.faults with hst | hst
  · rcases h'.faults with htu | htu
    · exact .inl (htu.trans hst)
    · exact .inr (Nat.lt_of_lt_of_le htu h.ceiling_le)
  · exact .inr (Nat.lt_of_le_of_lt h'.ceiling_le hst)

theorem Advances.spends (h : Advances s t) (hf : t.faults = s.faults) : Spends s t :=
  ⟨h.length_le, .inl (congrArg Array.size hf)⟩

def Thrifty (p : Parser α) : Prop := ∀ s, Spends s (p.run s).2

theorem Thrifty.spends (h : Thrifty p) {r : Except (Located SyntaxFault) α}
    (hr : p.run s = (r, t)) : Spends s t := by
  simpa [hr] using h s

-- ---------------------------------------------------------------------------
-- Putting parsers together
-- ---------------------------------------------------------------------------

theorem Thrifty.bind (hp : Thrifty p) (hf : ∀ a, Thrifty (f a)) : Thrifty (p >>= f) := fun s => by
  rw [run_bind]
  split
  · exact (hp.spends ‹_›).trans (hf _ _)
  · exact hp.spends ‹_›

theorem Thrifty.ite {c : Prop} [Decidable c] {q : Parser α} (hp : Thrifty p) (hq : Thrifty q) :
    Thrifty (if c then p else q) := by
  split
  · exact hp
  · exact hq

theorem Thrifty.deeper (limit : Nat) (h : Thrifty p) : Thrifty (deeper limit p) := fun s => by
  rw [run_deeper]
  split
  · exact .refl s
  · -- A level that is opened or closed changes neither what is left nor what is reported.
    have hd := h s.down
    exact ⟨hd.rest, hd.faults⟩

theorem thrifty_pure (a : α) : Thrifty (pure a : Parser α) := Spends.refl

theorem Thrifty.iterate (h : ∀ b, Thrifty (step b)) (b : β) : Thrifty (iterate step b) := fun s =>
  iterateFor_induction (C := fun _ => Thrifty) thrifty_pure (fun b _ hrest => (h b).bind hrest) s.rest b s

-- ---------------------------------------------------------------------------
-- Primitives
-- ---------------------------------------------------------------------------

theorem Thrifty.of_look (h : ∀ s, ∃ a, p.run s = (.ok a, s)) : Thrifty p := fun s => by
  obtain ⟨a, hs⟩ := h s
  rw [hs]
  exact .refl s

theorem thrifty_peek : Thrifty peek := .of_look fun s => ⟨_, run_peek s⟩

theorem thrifty_nextIs (kind : TokenKind) : Thrifty (nextIs kind) :=
  .of_look fun s => ⟨_, run_nextIs kind s⟩

theorem thrifty_nextAre (first second : TokenKind) : Thrifty (nextAre first second) :=
  .of_look fun s => ⟨_, run_nextAre first second s⟩

theorem thrifty_nextOnLine (kind : TokenKind) : Thrifty (nextOnLine kind) :=
  .of_look fun s => ⟨_, run_nextOnLine kind s⟩

theorem thrifty_here : Thrifty here := Spends.refl

theorem thrifty_located (start : Span) (a : α) : Thrifty (located start a) := Spends.refl

theorem thrifty_fail (x : SyntaxFault) (span : Span) : Thrifty (fail x span : Parser α) := Spends.refl

theorem thrifty_unexpected (what : Expectation) : Thrifty (unexpected what : Parser α) :=
  thrifty_peek.bind fun _ => thrifty_here.bind fun _ => thrifty_fail _ _

theorem State.spends_next (s : State) : Spends s s.next := s.advances_next.spends s.faults_next

theorem thrifty_accept (kind : TokenKind) : Thrifty (accept kind) := fun s => by
  rw [run_accept]
  split
  · exact s.spends_next
  · exact .refl s

theorem thrifty_expectAs (what : Expectation) (kind : TokenKind) : Thrifty (expectAs what kind) :=
  fun s => by
    rw [run_expectAs]
    split
    · split
      · exact s.spends_next
      · exact .refl s
    · exact .refl s

theorem thrifty_expect (kind : TokenKind) : Thrifty (expect kind) :=
  (thrifty_expectAs _ kind).bind fun _ => thrifty_pure _

theorem thrifty_label? (sign : TokenKind) : Thrifty (label? sign) := by
  refine (thrifty_nextAre _ sign).bind fun _ => .ite ?_ (thrifty_pure _)
  exact (thrifty_expectAs _ _).bind fun _ => (thrifty_expect _).bind fun _ => thrifty_pure _

-- ---------------------------------------------------------------------------
-- Lists
-- ---------------------------------------------------------------------------

theorem thrifty_listRound (h : Thrifty p) (items : Array α) : Thrifty (listRound p items) :=
  h.bind fun _ => (thrifty_accept _).bind fun _ => .ite (thrifty_pure _) (thrifty_pure _)

theorem thrifty_listOf (h : Thrifty p) : Thrifty (listOf p) :=
  (Thrifty.iterate (thrifty_listRound h) _).bind fun _ => thrifty_pure _

theorem thrifty_listUntil (close : TokenKind) (h : Thrifty p) : Thrifty (listUntil close p) := by
  refine (Thrifty.iterate (fun items => ?_) _).bind fun _ => ?_
  · exact (thrifty_nextIs close).bind fun _ => .ite (thrifty_pure _) (thrifty_listRound h items)
  · exact (thrifty_expect close).bind fun _ => thrifty_pure _

-- ---------------------------------------------------------------------------
-- Sequences
-- ---------------------------------------------------------------------------

theorem thrifty_recover (inBlock progressed : Bool) : Thrifty (recover inBlock progressed) := by
  refine (Thrifty.iterate (fun _ => ?_) _).bind fun _ => thrifty_pure _
  refine (Thrifty.of_look fun s => ⟨_, run_atStop inBlock s⟩).bind fun _ => .ite (thrifty_pure _) ?_
  refine (thrifty_accept _).bind fun _ => .ite (thrifty_pure _) ?_
  refine (Thrifty.of_look fun s => ⟨_, run_onNewLine s⟩).bind fun _ => .ite (thrifty_pure _) ?_
  exact Thrifty.bind State.spends_next fun _ => thrifty_pure _

theorem State.ceiling_after (s : State) : s.after.ceiling ≤ s.ceiling + 1 := by
  unfold after
  split
  · exact Nat.le_succ_of_le (s.advances_skipped.spends s.faults_skipped).ceiling_le
  · simp only [ceiling, Array.size_push]
    omega

/-- An item that can be read costs the fault of a missing separator, and another one the fault that is
reported for it. Either way a token has been read for it. -/
theorem itemRound_ceiling {items : Array α} {r : ForInStep (Array α)} (hp : Reads p) (ht : Thrifty p)
    (h : (itemRound inBlock p items).run s = (.ok r, t)) (hs : s.stops inBlock = false) :
    t.ceiling ≤ s.ceiling := by
  rcases hitem : p.run s with ⟨fault | node, u⟩
  · have hspent := ht.spends hitem
    unfold itemRound at h
    rw [run_bind_ok (run_get s), run_bind_ok (run_attempt p s), hitem] at h
    rw [run_bind_ok (run_report fault u), run_bind_ok (run_get _)] at h
    obtain ⟨_, v, hv, h⟩ := bind_ok.mp h
    cases h
    have hrecover := (thrifty_recover inBlock _).spends hv
    by_cases hlen : u.rest.length = s.rest.length
    · have hsame : u.rest = s.rest := by
        have hu := hp.advances s
        rw [hitem] at hu
        exact hu.rest.eq_of_length hlen
      simp only [hlen, bne_self_eq_false] at hv
      have hlt := hrecover.ceiling_lt (recover_shorter hv (by simpa [State.stops, hsame] using hs))
      have hle := hspent.ceiling_le
      simp only [State.ceiling, Array.size_push] at hlt hle ⊢
      omega
    · have hlt := hspent.ceiling_lt (Nat.lt_of_le_of_ne hspent.rest hlen)
      have hle := hrecover.ceiling_le
      simp only [State.ceiling, Array.size_push] at hlt hle ⊢
      omega
  · rw [run_itemRound_ok hitem] at h
    obtain ⟨-, rfl⟩ := Prod.mk.inj h
    have hlt := (ht.spends hitem).ceiling_lt (hp.shorter hitem)
    have hle := u.ceiling_after
    omega

theorem iterate_sequence_ceiling {items out : Array α} (hp : Reads p) (ht : Thrifty p)
    (h : (iterate (sequenceRound inBlock p) items).run s = (.ok out, t)) : t.ceiling ≤ s.ceiling := by
  induction s using State.rest_induction generalizing items with
  | shorter s ih =>
    have hskipped := s.advances_skipped.spends s.faults_skipped
    rw [run_sequence hp] at h
    cases hs : s.skipped.stops inBlock with
    | true =>
      rw [hs, if_pos rfl] at h
      cases h
      exact hskipped.ceiling_le
    | false =>
      rw [hs, if_neg Bool.false_ne_true] at h
      obtain ⟨r, v, hround, hrest⟩ := bind_ok.mp h
      have hv := Nat.le_trans (itemRound_ceiling hp ht hround hs) hskipped.ceiling_le
      cases r with
      | done items' =>
        cases hrest
        exact hv
      | yield items' =>
        have hlt := Nat.lt_of_lt_of_le (itemRound_shorter hp hround hs) hskipped.rest
        exact Nat.le_trans (ih v hlt hrest) hv

/-- A sequence reports one fault at most for each token that it reads. -/
theorem sequenceOf_ceiling {nodes : List α} (hp : Reads p) (ht : Thrifty p)
    (h : (sequenceOf inBlock p).run s = (.ok nodes, t)) : t.ceiling ≤ s.ceiling := by
  obtain ⟨out, u, hrun, h⟩ := bind_ok.mp h
  cases h
  exact iterate_sequence_ceiling hp ht hrun

theorem spends_sequenceOf {g : List α → Parser β} (hp : Reads p) (ht : Thrifty p)
    (hg : ∀ nodes, Thrifty (g nodes)) (hs : s.kind = .leftCurl) :
    Spends s ((sequenceOf inBlock p >>= g).run s.next).2 := by
  obtain ⟨x, ts, hx⟩ := State.rest_of_kind hs (by decide)
  obtain ⟨nodes, t, hrun⟩ := answers_sequenceOf inBlock p s.next
  have hlt := State.length_next hx
  have hle := ((moves_sequenceOf inBlock hp.toMoves).advances_ok hrun).length_le
  have hst : Spends s t :=
    ⟨Nat.le_of_lt (Nat.lt_of_le_of_lt hle hlt),
      .inr (Nat.lt_of_le_of_lt (sequenceOf_ceiling hp ht hrun) (s.spends_next.ceiling_lt hlt))⟩
  rw [run_bind_ok hrun]
  exact hst.trans (hg nodes t)

theorem thrifty_braces {g : List α → Parser β} (hp : Reads p) (ht : Thrifty p)
    (hg : ∀ nodes, Thrifty (g nodes)) :
    Thrifty (expect .leftCurl >>= fun _ => sequenceOf inBlock p >>= g) := fun s => by
  rw [run_bind, run_expect (by decide)]
  by_cases hs : s.kind = .leftCurl
  · rw [if_pos hs]
    exact spends_sequenceOf hp ht hg hs
  · rw [if_neg hs]
    exact .refl s

end Linewise.Parser
