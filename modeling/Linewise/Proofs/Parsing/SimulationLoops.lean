import Linewise.Proofs.Parsing.Simulation

/-!
# Loops on changed input

A loop does not notice a change that its rounds do not notice. The sequences of the grammar do not,
whatever is skipped or reported on the way.
-/

namespace Linewise.Change

open Linewise.Parser

variable {α β : Type} [HasSpans α] [HasSpans β] {m : Change} {s t : State} {j k : Nat}
  {p q : Parser α} {step step' : β → Parser (ForInStep β)}

/-- Every round begins at the start of the loop or behind a token of it. -/
theorem sim_iterate (hr : Rounds step) (hr' : Rounds step') {b c : β} (hb : c = mapSpans m.span b)
    (h : ∀ b' t, b' = b ∧ t = s ∨ t.rest.length < s.rest.length →
      m.Sim k t (step b') (step' (mapSpans m.span b'))) :
    m.Sim k s (iterate step b) (iterate step' c) := by
  subst hb
  induction s using State.rest_induction generalizing b with
  | shorter s ih =>
    refine .congr (run_iterate hr b s) (run_iterate hr' _ _) ?_
    refine (h b s (.inl ⟨rfl, rfl⟩)).bind fun r t ht => ?_
    cases r with
    | done b' => exact sim_pure rfl
    | yield b' =>
      have hlt := (hr b).reads s _ t ht trivial
      refine ih t hlt fun b'' u hu => h b'' u (.inr ?_)
      rcases hu with ⟨-, rfl⟩ | hu
      · exact hlt
      · omega

-- ---------------------------------------------------------------------------
-- Lists
-- ---------------------------------------------------------------------------

theorem sim_goOnAt {sign : TokenKind} (ha : m.Sim k s (accept sign) (accept sign)) (b : β) :
    m.Sim k s (goOnAt sign b) (goOnAt sign (mapSpans m.span b)) := by
  refine ha.bind fun _ _ _ => .ite (fun _ => sim_pure rfl) fun _ => sim_pure rfl

theorem sim_skipSemicolons : m.Sim 1 s skipSemicolons skipSemicolons :=
  sim_iterate (rounds_goOnAt (by decide)) (rounds_goOnAt (by decide)) rfl fun _ t _ =>
    .wlog (rounds_goOnAt (by decide) _).toMoves fun _ hi =>
      sim_goOnAt (sim_accept_inside hi (by decide)) ()

theorem sim_listRound (hp : ∀ t, m.Sim k t p q) (items : Array α) :
    m.Sim k s (listRound p items) (listRound q (mapSpans m.span items)) := by
  refine (hp s).bind fun a t _ => ?_
  rw [← mapSpans_push]
  exact sim_goOnAt (sim_accept rfl) _

theorem sim_listOf (hp : Reads p) (hq : Reads q) (h : ∀ t, m.Sim k t p q) :
    m.Sim k s (listOf p) (listOf q) := by
  refine Sim.bind ?_ fun items t _ => sim_pure (toList_mapSpans items)
  exact sim_iterate (rounds_listRound hp) (rounds_listRound hq) mapSpans_empty.symm fun items t _ =>
    sim_listRound h items

theorem sim_listUntil {close : TokenKind} (hp : Reads p) (hq : Reads q)
    (h : ∀ t, m.Sim 1 t p q) : m.Sim k s (listUntil close p) (listUntil close q) := by
  refine Sim.bind_reads ?_ (fun _ => (reads_expect close).bind fun _ => moves_pure _)
    fun items t _ => (sim_expect close).bind fun _ _ _ => sim_pure (toList_mapSpans items)
  refine sim_iterate (rounds_listUntilRound close hp) (rounds_listUntilRound close hq)
    mapSpans_empty.symm fun items t _ => .wlog (rounds_listUntilRound close hp items).toMoves fun _ hi => ?_
  exact .nextIs_bind_inside hi (.ite (fun _ => sim_pure rfl) fun _ => sim_listRound h items)

-- ---------------------------------------------------------------------------
-- Sequences
-- ---------------------------------------------------------------------------

theorem separated_state (hi : m.Inside s) :
    ((m.state s).rest.isEmpty || (m.state s).rest.head?.any (·.closing) ||
        (m.state s).rest.head?.all (·.terminated)) =
      (s.rest.isEmpty || s.rest.head?.any (·.closing) || s.rest.head?.all (·.terminated) ||
        !m.strict) := by
  rw [isEmpty_state hi, head?_state hi]
  cases s.rest with
  | nil => rfl
  | cons x ts => simp [Bool.or_assoc]

theorem sim_separator : m.Sim 1 s separator separator := by
  refine .wlog moves_separator fun _ hi => ?_
  refine .nextIs_bind_inside hi (.ite (fun _ => sim_skipSemicolons) fun _ => ?_)
  refine .look_bind run_atEnd (.look_bind run_atClosing (.look_bind run_atTerminator ?_))
  rw [separated_state hi]
  cases hm : m.strict with
  | true =>
    rw [Bool.not_true, Bool.or_false]
    refine .ite (fun _ => sim_pure rfl) fun _ => .peek_bind hi (.here_bind fun start hstart => ?_)
    rw [hstart hi]
    exact sim_report (by simp [keeps, hm])
  | false =>
    rw [Bool.not_false, Bool.or_true, if_pos rfl]
    split
    · exact sim_pure rfl
    · have hrun : (do Parser.report ⟨.missingSeparator (← peek), ← here⟩ : Parser Unit).run s =
          (Parser.report ⟨.missingSeparator s.kind, s.here⟩).run s := by
        rw [run_bind_ok (run_peek s), run_bind_ok (run_here s)]
      exact (sim_report_drop (by simp [keeps, hm, SyntaxFault.isMissingSeparator])).congr hrun rfl

/-- Recovery looks for the line of a token only behind a token. -/
theorem sim_recoverRound (hn : m.seam = none) {inBlock progressed : Bool}
    (hp : progressed = true → m.Read s) :
    m.Sim k s (recoverRound inBlock progressed) (recoverRound inBlock progressed) := by
  have hi {t : State} : m.Inside t := inside_of_none hn
  refine .look_bind (run_atStop inBlock) ?_
  rw [stops_state hi]
  refine .ite (fun _ => sim_pure rfl) fun _ => ?_
  refine (sim_accept_inside hi (by decide)).bind fun semicolon t ht => ?_
  refine .ite (fun _ => sim_pure rfl) fun _ => ?_
  have hadv := (reads_accept (by decide)).advances_ok ht
  have hlast : m.Sim k t (do advance; return ForInStep.yield true : Parser (ForInStep Bool))
      (do advance; return .yield true) :=
    (sim_advance hi).bind fun _ _ _ => sim_pure rfl
  refine .look_bind run_onNewLine ?_
  have hline : (progressed && (m.state t).rest.head?.all (·.onNewLine)) =
      (progressed && t.rest.head?.all (·.onNewLine)) := by
    cases progressed with
    | false => rfl
    | true =>
      rw [head?_state hi]
      cases t.rest.head? with
      | none => rfl
      | some x => simp [mark_onNewLine ((hp rfl).advances hadv)]
  rw [hline]
  exact .ite (fun _ => sim_pure rfl) fun _ => hlast

theorem sim_recover (hn : m.seam = none) {inBlock progressed : Bool}
    (hp : m.fits s.rest → progressed = true → m.Read s) :
    m.Sim k s (recover inBlock progressed) (recover inBlock progressed) := by
  refine .wlog (moves_recover inBlock progressed) fun hs _ => ?_
  refine Sim.bind ?_ fun _ _ _ => sim_pure rfl
  refine sim_iterate (rounds_recoverRound inBlock) (rounds_recoverRound inBlock) rfl
    fun b t hbt => sim_recoverRound hn fun hb => ?_
  rcases hbt with ⟨rfl, rfl⟩ | hlt
  · exact hp hs hb
  · exact .of_lt hs hlt

theorem length_rest (hn : m.seam = none) (ts : List Terminal) : (m.rest ts).length = ts.length := by
  induction ts with
  | nil => rw [rest_nil hn]
  | cons x ts ih => simp only [rest, hn, List.length_cons, ih]

theorem sim_itemRound {inBlock : Bool} (hp : Moves p) (h : ∀ t, m.Sim 1 t p q) (items : Array α) :
    m.Sim 1 s (itemRound inBlock p items) (itemRound inBlock q (mapSpans m.span items)) := by
  refine .wlog (moves_itemRound inBlock hp items) fun hs _ => ?_
  have hrecover (before : Nat) (x : Located SyntaxFault) : Moves (do
      recover inBlock ((← get).rest.length != before)
      return .yield items : Parser (ForInStep (Array α))) :=
    moves_get.bind fun _ => (moves_recover inBlock _).bind fun _ => moves_pure _
  refine .look_bind run_get (.attempt_bind (h s) (fun a t _ => ?_)
    (fun x t ht => ?_) (fun _ => rfl) (hrecover _))
  · refine sim_separator.bind fun _ _ _ => sim_pure ?_
    rw [← mapSpans_push]
    rfl
  · refine .report_bind (hrecover _ x) fun hn => ?_
    refine (sim_report (keeps_of_node (hp.thrown _ _ _ ht))).bind fun _ u hu => ?_
    cases hu
    refine .look_bind run_get ?_
    show m.Sim 1 _ _ (recover inBlock ((m.rest t.rest).length != (m.rest s.rest).length) >>= _)
    rw [length_rest hn, length_rest hn]
    refine (sim_recover hn fun _ hlen => ?_).bind fun _ _ _ => sim_pure rfl
    -- Recovery knows that the item has read when its end is not its start.
    have hle := (hp.advances s).length_le
    rw [ht] at hle
    simp only [bne_iff_ne, ne_eq] at hlen hle
    exact .of_lt (t := t) hs (by omega)

theorem sim_sequenceRound {inBlock : Bool} (hp : Moves p) (h : ∀ t, m.Sim 1 t p q)
    (items : Array α) :
    m.Sim 1 s (sequenceRound inBlock p items)
      (sequenceRound inBlock q (mapSpans m.span items)) := by
  refine sim_skipSemicolons.bind fun _ t _ => .wlog ?_ fun ht hi => ?_
  · exact (moves_atStop inBlock).bind fun _ => .ite (moves_pure _) (moves_itemRound inBlock hp items)
  · refine .look_bind (run_atStop inBlock) ?_
    rw [stops_state hi]
    exact .ite (fun _ => sim_pure rfl) fun _ => sim_itemRound hp h items

theorem sim_sequenceOf {inBlock : Bool} (hp : Reads p) (hq : Reads q) (h : ∀ t, m.Sim 1 t p q) :
    m.Sim 1 s (sequenceOf inBlock p) (sequenceOf inBlock q) := by
  refine Sim.bind ?_ fun items _ _ => sim_pure (toList_mapSpans items)
  exact sim_iterate (rounds_sequenceRound inBlock hp) (rounds_sequenceRound inBlock hq)
    mapSpans_empty.symm fun items _ _ => sim_sequenceRound hp.toMoves h items

end Linewise.Change
