import Linewise.Proofs.Parsing.Progress

/-!
# Loops

A loop whose rounds read a token before they ask for another one obeys the equation `run_iterate`:
its first round, and then the loop again. The loops of the grammar are of that kind, recovery and the
sequences that use it included.
-/

namespace Linewise.Parser

variable {α β : Type} {p : Parser α} {step : β → Parser (ForInStep β)} {s t : State}

def Goes : ForInStep β → Prop
  | .yield _ => True
  | .done _ => False

/-- Every round that asks for another one has read a token. -/
def Rounds (step : β → Parser (ForInStep β)) : Prop := ∀ b, ReadsOn Goes (step b)

def goOn (step : β → Parser (ForInStep β)) : ForInStep β → Parser β
  | .done b => pure b
  | .yield b => iterate step b

theorem moves_iterateFor (h : ∀ b, Moves (step b)) (bound : List Terminal) (b : β) :
    Moves (iterateFor step bound b) :=
  iterateFor_induction (C := fun _ => Moves) moves_pure (fun b _ hrest => (h b).bind hrest) bound b

theorem moves_iterate (h : ∀ b, Moves (step b)) (b : β) : Moves (iterate step b) :=
  moves_get.bind fun s => moves_iterateFor h s.rest b

theorem Rounds.moves (h : Rounds step) (b : β) : Moves (iterate step b) :=
  moves_iterate (fun b => (h b).toMoves) b

/-- No more rounds are run than there are tokens. -/
theorem run_iterateFor (h : Rounds step) (bound : List Terminal) (b : β) (s : State)
    (hs : s.rest.length ≤ bound.length) :
    (iterateFor step bound b).run s = (iterate step b).run s := by
  show _ = (iterateFor step s.rest b).run s
  -- Both sides run the same rounds, so the statement is about any two bounds that are long enough.
  suffices hall : ∀ (xs ys : List Terminal) (b : β), s.rest.length ≤ xs.length →
      s.rest.length ≤ ys.length → (iterateFor step xs b).run s = (iterateFor step ys b).run s from
    hall _ _ b hs (Nat.le_refl _)
  clear hs
  induction s using State.rest_induction with
  | shorter s ih =>
    intro xs ys b hx hy
    have hyield {b' t} (hr : (step b).run s = (.ok (.yield b'), t)) : t.rest.length < s.rest.length :=
      (h b).reads s _ t hr trivial
    have hempty {zs : List Terminal} (hz : s.rest.length ≤ zs.length) (hzs : zs = []) {b' t}
        (hr : (step b).run s = (.ok (.yield b'), t)) : False := by
      have hlt := hyield hr
      rw [hzs, List.length_nil] at hz
      omega
    rcases hr : (step b).run s with ⟨_ | r, t⟩
    · cases xs <;> cases ys <;> simp only [iterateFor, run_bind_error hr]
    · cases r with
      | done b' => cases xs <;> cases ys <;> simp only [iterateFor, run_bind_ok hr] <;> rfl
      | yield b' =>
        have ht := hyield hr
        cases xs with
        | nil => exact (hempty hx rfl hr).elim
        | cons x xs =>
          cases ys with
          | nil => exact (hempty hy rfl hr).elim
          | cons y ys =>
            simp only [iterateFor, run_bind_ok hr]
            simp only [List.length_cons] at hx hy
            exact ih t ht xs ys b' (by omega) (by omega)

theorem run_iterate (h : Rounds step) (b : β) (s : State) :
    (iterate step b).run s = (step b >>= goOn step).run s := by
  show (iterateFor step s.rest b).run s = _
  rcases hr : (step b).run s with ⟨_ | r, t⟩
  · cases hs : s.rest <;> simp only [iterateFor, run_bind_error hr]
  · rw [run_bind_ok hr]
    cases hs : s.rest with
    | nil =>
      cases r with
      | done b' => simp only [iterateFor, run_bind_ok hr]; rfl
      | yield b' =>
        have ht := (h b).reads s _ t hr trivial
        simp [hs] at ht
    | cons x xs =>
      cases r with
      | done b' => simp only [iterateFor, run_bind_ok hr]; rfl
      | yield b' =>
        have ht := (h b).reads s _ t hr trivial
        simp only [iterateFor, run_bind_ok hr]
        simp only [hs, List.length_cons] at ht
        exact run_iterateFor h xs b' t (by omega)

-- ---------------------------------------------------------------------------
-- Loops without a bound
-- ---------------------------------------------------------------------------

/-- Rounds are run until one fails or is the last, however many that may be. -/
inductive Loops (step : β → Parser (ForInStep β)) : β → State → Outcome β → Prop
  | fails {b : β} {s t : State} {x : Located SyntaxFault} (h : (step b).run s = (.error x, t)) :
      Loops step b s (.error x, t)
  | done {b b' : β} {s t : State} (h : (step b).run s = (.ok (.done b'), t)) : Loops step b s (.ok b', t)
  | again {b b' : β} {s t : State} {out : Outcome β} (h : (step b).run s = (.ok (.yield b'), t))
      (hrest : Loops step b' t out) : Loops step b s out

theorem Loops.run {b : β} {out : Outcome β} (h : Loops step b s out) (hr : Rounds step) :
    (iterate step b).run s = out := by
  induction h with
  | fails hround => rw [run_iterate hr, run_bind_error hround]
  | done hround =>
    rw [run_iterate hr, run_bind_ok hround]
    rfl
  | again hround _ ih => rw [run_iterate hr, run_bind_ok hround, goOn, ih]

theorem Rounds.loops (h : Rounds step) (b : β) (s : State) : Loops step b s ((iterate step b).run s) := by
  induction s using State.rest_induction generalizing b with
  | shorter s ih =>
    rw [run_iterate h]
    rcases hr : (step b).run s with ⟨x | r, t⟩
    · rw [run_bind_error hr]
      exact .fails hr
    · rw [run_bind_ok hr]
      cases r with
      | done b' => exact .done hr
      | yield b' => exact .again hr (ih t ((h b).reads s _ t hr trivial) b')

-- ---------------------------------------------------------------------------
-- Lists
-- ---------------------------------------------------------------------------

theorem rounds_goOnAt {sign : TokenKind} (hs : sign ≠ .eof) : Rounds (goOnAt sign : β → _) :=
  fun _ => (reads_accept hs).bind (fun _ => .ite (moves_pure _) (moves_pure _)) fun _ h => by
    rw [if_neg h]
    exact readsOn_pure id

theorem moves_skipSemicolons : Moves skipSemicolons :=
  (rounds_goOnAt (by decide)).moves ()

theorem rounds_listRound (h : Reads p) : Rounds (listRound p) :=
  fun _ => h.bind fun _ => (rounds_goOnAt (by decide) _).toMoves

theorem moves_listOf (h : Reads p) : Moves (listOf p) :=
  ((rounds_listRound h).moves _).bind fun _ => moves_pure _

theorem rounds_listUntilRound (close : TokenKind) (h : Reads p) : Rounds (listUntilRound close p) :=
  fun items => (moves_nextIs close).bind_reads fun _ =>
    .ite (readsOn_pure id) (rounds_listRound h items)

theorem reads_listUntil (close : TokenKind) (h : Reads p) : Reads (listUntil close p) := by
  refine ((rounds_listUntilRound close h).moves _).bind_reads fun _ => ?_
  exact (reads_expect close).bind fun _ => moves_pure _

-- ---------------------------------------------------------------------------
-- Sequences
-- ---------------------------------------------------------------------------

theorem moves_separator : Moves separator := by
  refine (moves_nextIs _).bind fun _ => .ite moves_skipSemicolons ?_
  refine moves_atEnd.bind fun _ => moves_atClosing.bind fun _ => moves_atTerminator.bind fun _ => ?_
  refine .ite (moves_pure _) ?_
  exact moves_peek.bind fun _ => moves_here.bind fun _ => moves_report _

theorem moves_atStop (inBlock : Bool) : Moves (atStop inBlock) :=
  .of_look fun s => ⟨_, run_atStop inBlock s⟩

theorem State.rest_of_stops {inBlock : Bool} (h : s.stops inBlock = false) :
    ∃ x ts, s.rest = x :: ts := by
  cases hs : s.rest with
  | nil => simp [stops, hs] at h
  | cons x ts => exact ⟨x, ts, rfl⟩

theorem moves_recoverRound (inBlock progressed : Bool) :
    Moves (recoverRound inBlock progressed) := by
  refine (moves_atStop inBlock).bind fun _ => .ite (moves_pure _) ?_
  refine (reads_accept (by decide)).toMoves.bind fun _ => .ite (moves_pure _) ?_
  refine moves_onNewLine.bind fun _ => .ite (moves_pure _) ?_
  exact moves_advance.bind fun _ => moves_pure _

theorem recoverRound_shorter {inBlock progressed : Bool} {r : ForInStep Bool}
    (h : (recoverRound inBlock progressed).run s = (.ok r, t)) (hs : s.stops inBlock = false)
    (hr : Goes r ∨ progressed = false) : t.rest.length < s.rest.length := by
  obtain ⟨x, ts, hx⟩ := State.rest_of_stops hs
  unfold recoverRound at h
  rw [run_bind_ok (run_atStop inBlock s), hs, if_neg Bool.false_ne_true] at h
  obtain ⟨semicolon, u, hu, hrest⟩ := bind_ok.mp h
  rcases accept_ok hu with ⟨rfl, -, -⟩ | ⟨rfl, -, rfl⟩
  · cases hrest
    exact (reads_accept (by decide)).reads s _ t hu rfl
  · rw [if_neg Bool.false_ne_true, run_bind_ok (run_onNewLine u)] at hrest
    split at hrest
    · cases hrest
      rcases hr with hr | rfl
      · exact hr.elim
      · simp at *
    · rw [run_bind_ok (run_advance u)] at hrest
      cases hrest
      exact State.length_next hx

theorem rounds_recoverRound (inBlock : Bool) : Rounds (recoverRound inBlock) := fun progressed =>
  { toMoves := moves_recoverRound inBlock progressed
    reads := fun s r t h hr => by
      cases hs : s.stops inBlock with
      | false => exact recoverRound_shorter h hs (.inl hr)
      | true =>
        unfold recoverRound at h
        rw [run_bind_ok (run_atStop inBlock s), hs] at h
        cases h
        exact hr.elim }

theorem moves_recover (inBlock progressed : Bool) : Moves (recover inBlock progressed) :=
  (moves_iterate (moves_recoverRound inBlock) progressed).bind fun _ => moves_pure _

/-- Recovery from an item that read nothing reads a token, unless the sequence ends there. -/
theorem recover_shorter {inBlock : Bool} (h : (recover inBlock false).run s = (.ok (), t))
    (hs : s.stops inBlock = false) : t.rest.length < s.rest.length := by
  obtain ⟨b, u, hu, h⟩ := bind_ok.mp h
  cases h
  rw [run_iterate (rounds_recoverRound inBlock)] at hu
  obtain ⟨r, v, hr, hv⟩ := bind_ok.mp hu
  have hlt := recoverRound_shorter hr hs (.inr rfl)
  cases r with
  | done b' =>
    cases hv
    exact hlt
  | yield b' =>
    have hle := ((moves_iterate (moves_recoverRound inBlock) b').advances_ok hv).length_le
    omega

theorem moves_itemRound (inBlock : Bool) (h : Moves p) (items : Array α) :
    Moves (itemRound inBlock p items) := by
  refine moves_get.bind fun before => h.attempt.bind fun r => ?_
  cases r with
  | ok node => exact moves_separator.bind fun _ => moves_pure _
  | error fault =>
    refine (moves_report fault).bind fun _ => moves_get.bind fun _ => ?_
    exact (moves_recover inBlock _).bind fun _ => moves_pure _

theorem itemRound_shorter {inBlock : Bool} {items : Array α} {r : ForInStep (Array α)}
    (hp : Reads p) (h : (itemRound inBlock p items).run s = (.ok r, t))
    (hs : s.stops inBlock = false) : t.rest.length < s.rest.length := by
  unfold itemRound at h
  rw [run_bind_ok (run_get s), run_bind_ok (run_attempt p s)] at h
  rcases hitem : p.run s with ⟨fault | node, u⟩ <;> simp only [hitem] at h
  · rw [run_bind_ok (run_report fault u), run_bind_ok (run_get _)] at h
    obtain ⟨_, v, hv, h⟩ := bind_ok.mp h
    cases h
    have hu := hp.advances s
    rw [hitem] at hu
    have hle := ((moves_recover inBlock _).advances_ok hv).length_le
    by_cases hlen : u.rest.length = s.rest.length
    · have hsame : u.rest = s.rest := hu.rest.eq_of_length hlen
      simp only [hlen, bne_self_eq_false] at hv
      have := recover_shorter hv (by simpa [State.stops, hsame] using hs)
      simp only [hlen] at this
      omega
    · have := hu.length_le
      simp only at this hle
      omega
  · obtain ⟨_, v, hv, h⟩ := bind_ok.mp h
    cases h
    have hlt := hp.shorter hitem
    have hle := (moves_separator.advances_ok hv).length_le
    omega

theorem moves_sequenceRound (inBlock : Bool) (h : Moves p) (items : Array α) :
    Moves (sequenceRound inBlock p items) :=
  moves_skipSemicolons.bind fun _ => (moves_atStop inBlock).bind fun _ =>
    .ite (moves_pure _) (moves_itemRound inBlock h items)

theorem rounds_sequenceRound (inBlock : Bool) (hp : Reads p) : Rounds (sequenceRound inBlock p) :=
  fun items =>
  { toMoves := moves_sequenceRound inBlock hp.toMoves items
    reads := fun s r t h hr => by
      unfold sequenceRound at h
      obtain ⟨_, u, hu, h⟩ := bind_ok.mp h
      have hsu := (moves_skipSemicolons.advances_ok hu).length_le
      rw [run_bind_ok (run_atStop inBlock u)] at h
      cases hstop : u.stops inBlock with
      | true =>
        rw [hstop, if_pos rfl] at h
        cases h
        exact hr.elim
      | false =>
        rw [hstop, if_neg Bool.false_ne_true] at h
        have := itemRound_shorter hp h hstop
        omega }

theorem moves_sequenceOf (inBlock : Bool) (h : Moves p) : Moves (sequenceOf inBlock p) :=
  (moves_iterate (moves_sequenceRound inBlock h) _).bind fun _ => moves_pure _

-- ---------------------------------------------------------------------------
-- A sequence always answers
-- ---------------------------------------------------------------------------

def Answers (p : Parser α) : Prop := ∀ s, ∃ a t, p.run s = (.ok a, t)

theorem Answers.bind {f : α → Parser β} (hp : Answers p) (hf : ∀ a, Answers (f a)) :
    Answers (p >>= f) := fun s => by
  obtain ⟨a, t, h⟩ := hp s
  rw [run_bind_ok h]
  exact hf a t

theorem Answers.ite {c : Prop} [Decidable c] {q : Parser α} (hp : Answers p) (hq : Answers q) :
    Answers (if c then p else q) := by
  split
  · exact hp
  · exact hq

theorem answers_pure (a : α) : Answers (pure a : Parser α) := fun s => ⟨a, s, rfl⟩

theorem answers_accept (kind : TokenKind) : Answers (accept kind) := fun s => by
  rw [run_accept]
  split
  · exact ⟨_, _, rfl⟩
  · exact ⟨_, _, rfl⟩

theorem answers_iterateFor (h : ∀ b, Answers (step b)) (bound : List Terminal) (b : β) :
    Answers (iterateFor step bound b) :=
  iterateFor_induction (C := fun _ => Answers) answers_pure (fun b _ hrest => (h b).bind hrest) bound b

theorem answers_iterate (h : ∀ b, Answers (step b)) (b : β) : Answers (iterate step b) :=
  fun s => answers_iterateFor h s.rest b s

theorem answers_skipSemicolons : Answers skipSemicolons :=
  answers_iterate (fun _ => (answers_accept _).bind fun _ =>
    .ite (answers_pure _) (answers_pure _)) _

theorem answers_atStop (inBlock : Bool) : Answers (atStop inBlock) :=
  fun s => ⟨_, _, run_atStop inBlock s⟩

theorem answers_separator : Answers separator := by
  refine .bind (fun s => ⟨_, _, run_nextIs _ s⟩) fun _ => .ite answers_skipSemicolons ?_
  refine .bind (fun s => ⟨_, _, run_atEnd s⟩) fun _ => .bind (fun s => ⟨_, _, run_atClosing s⟩)
    fun _ => .bind (fun s => ⟨_, _, run_atTerminator s⟩) fun _ => .ite (answers_pure _) ?_
  exact .bind (fun s => ⟨_, _, run_peek s⟩) fun _ => .bind (fun s => ⟨_, _, run_here s⟩)
    fun _ s => ⟨_, _, run_report _ s⟩

theorem answers_recover (inBlock progressed : Bool) : Answers (recover inBlock progressed) := by
  refine .bind (answers_iterate (fun _ => ?_) _) fun _ => answers_pure _
  refine (answers_atStop inBlock).bind fun _ => .ite (answers_pure _) ?_
  refine (answers_accept _).bind fun _ => .ite (answers_pure _) ?_
  refine .bind (fun s => ⟨_, _, run_onNewLine s⟩) fun _ => .ite (answers_pure _) ?_
  exact .bind (fun s => ⟨_, _, run_advance s⟩) fun _ => answers_pure _

theorem answers_itemRound (inBlock : Bool) (item : Parser α) (items : Array α) :
    Answers (itemRound inBlock item items) := by
  refine .bind (fun s => ⟨_, _, run_get s⟩) fun _ => .bind (fun s => ⟨_, _, run_attempt item s⟩)
    fun r => ?_
  cases r with
  | ok node => exact answers_separator.bind fun _ => answers_pure _
  | error fault =>
    refine .bind (fun s => ⟨_, _, run_report fault s⟩) fun _ => .bind (fun s => ⟨_, _, run_get s⟩)
      fun _ => (answers_recover inBlock _).bind fun _ => answers_pure _

theorem answers_sequence (inBlock : Bool) (item : Parser α) (items : Array α) :
    Answers (iterate (sequenceRound inBlock item) items) :=
  answers_iterate (fun items => answers_skipSemicolons.bind fun _ =>
    (answers_atStop inBlock).bind fun _ => .ite (answers_pure _) (answers_itemRound inBlock item items)) _

theorem answers_sequenceOf (inBlock : Bool) (item : Parser α) : Answers (sequenceOf inBlock item) :=
  (answers_sequence inBlock item #[]).bind fun _ => answers_pure _

end Linewise.Parser
