import Linewise.Proofs.Parsing.Items
import Linewise.Proofs.Parsing.Triple

/-!
# Faults in the order of their ends

The tokens of a stream stand in a line, and a run moves along it. `State.Ready`: no fault reported so far ends
behind the next token. `State.Settled`: none ends behind the token read last. A parser that is `InTurn` leaves
a ready state as it is or settled, and the fault that it fails with may be reported next. A sequence leaves a
state that is only ready, since it reports what is missing at a token that it does not read; the brace behind
it settles the state.
-/

namespace Linewise.Parser

variable {α β : Type} {p : Parser α} {f : α → Parser β} {step : β → Parser (ForInStep β)}
  {size stop : Nat} {s t u : State} {span start : Span} {x : Located SyntaxFault}

-- ---------------------------------------------------------------------------
-- The line of tokens
-- ---------------------------------------------------------------------------

/-- Spans within a text of this size, none of which ends before the one in front of it. -/
structure InLine (size : Nat) (spans : List Span) : Prop where
  within : ∀ x ∈ spans, x.start ≤ x.stop ∧ x.stop ≤ size
  ordered : spans.Pairwise fun x y => x.stop ≤ y.stop

namespace State

def ahead (s : State) : List Span := s.rest.map (fun x => x.token.span) ++ [s.finish]

/-- All spans that a run from here can still look at. -/
def line (s : State) : List Span := s.previous :: s.ahead

theorem ahead_eq (s : State) : ∃ spans, s.ahead = s.here :: spans := by
  unfold ahead here
  cases s.rest with
  | nil => exact ⟨_, rfl⟩
  | cons x xs => exact ⟨_, rfl⟩

theorem here_of_line (h : t.line = s.line) : t.here = s.here := by
  obtain ⟨xs, hx⟩ := t.ahead_eq
  obtain ⟨ys, hy⟩ := s.ahead_eq
  rw [line, line, hx, hy] at h
  exact (List.cons.inj (List.cons.inj h).2).1

theorem previous_of_line (h : t.line = s.line) : t.previous = s.previous := (List.cons.inj h).1

theorem length_of_line (h : t.line = s.line) : t.rest.length = s.rest.length := by
  simpa [line, ahead] using congrArg List.length h

end State

theorem Advances.line (h : Advances s t) : t.line = s.line ∨ t.line <:+ s.ahead := by
  rcases h.between with ⟨hrest, hprevious⟩ | ⟨ws, x, hrest, hprevious⟩
  · exact .inl (by rw [State.line, State.line, State.ahead, State.ahead, hrest, hprevious, h.finish])
  · refine .inr ⟨ws.map fun x => x.token.span, ?_⟩
    simp [State.line, State.ahead, hrest, hprevious, h.finish]

namespace InLine

theorem suffix {xs ys : List Span} (h : InLine size ys) (hs : xs <:+ ys) : InLine size xs :=
  ⟨fun x hx => h.within x (hs.subset hx), h.ordered.sublist hs.sublist⟩

theorem here_le (h : InLine size s.line) (hs : span ∈ s.ahead) : s.here.stop ≤ span.stop := by
  obtain ⟨spans, hahead⟩ := s.ahead_eq
  have hordered := (List.pairwise_cons.mp h.ordered).2
  rw [hahead] at hs hordered
  rcases List.mem_cons.mp hs with rfl | hs
  · exact Nat.le_refl _
  · exact List.rel_of_pairwise_cons hordered hs

theorem here (h : InLine size s.line) : s.here.start ≤ s.here.stop ∧ s.here.stop ≤ size := by
  obtain ⟨spans, hahead⟩ := s.ahead_eq
  exact h.within _ (by simp [State.line, hahead])

theorem previous_le (h : InLine size s.line) : s.previous.stop ≤ s.here.stop := by
  obtain ⟨spans, hahead⟩ := s.ahead_eq
  exact List.rel_of_pairwise_cons h.ordered (by simp [hahead])

theorem advance (h : InLine size s.line) (hst : Advances s t) : InLine size t.line := by
  rcases hst.line with hline | hline
  · exact hline ▸ h
  · exact h.suffix (hline.trans (List.suffix_cons _ _))

theorem here_le_here (h : InLine size s.line) (hst : Advances s t) : s.here.stop ≤ t.here.stop := by
  rcases hst.line with hline | hline
  · exact Nat.le_of_eq (congrArg Span.stop (State.here_of_line hline).symm)
  · exact Nat.le_trans (h.here_le (hline.subset List.mem_cons_self)) (h.advance hst).previous_le

end InLine

-- ---------------------------------------------------------------------------
-- States and their faults
-- ---------------------------------------------------------------------------

/-- The tokens stand in line, and the faults reported so far are in order and do not end behind `stop`. -/
structure State.Upto (size stop : Nat) (s : State) : Prop where
  line : InLine size s.line
  placed : ∀ x ∈ s.faults.toList, x.span.start ≤ x.span.stop ∧ x.span.stop ≤ stop
  ordered : s.faults.toList.Pairwise fun x y => x.span.stop ≤ y.span.stop

/-- A fault at the next token may be reported. -/
def State.Ready (size : Nat) (s : State) : Prop := s.Upto size s.here.stop

def State.Settled (size : Nat) (s : State) : Prop := s.Upto size s.previous.stop

/-- A fault with this span may be reported, and then one at the next token. -/
structure State.Fits (size : Nat) (span : Span) (s : State) : Prop where
  upto : s.Upto size span.stop
  le : span.start ≤ span.stop
  here : span.stop ≤ s.here.stop

namespace State

theorem Upto.mono {stop' : Nat} (h : s.Upto size stop) (hle : stop ≤ stop') : s.Upto size stop' :=
  ⟨h.line, fun x hx => ⟨(h.placed x hx).1, Nat.le_trans (h.placed x hx).2 hle⟩, h.ordered⟩

theorem Upto.congr (h : s.Upto size stop) (hl : t.line = s.line) (hf : t.faults = s.faults) :
    t.Upto size stop :=
  ⟨hl ▸ h.line, hf ▸ h.placed, hf ▸ h.ordered⟩

theorem Upto.advance (h : s.Upto size stop) (hst : Advances s t) (hf : t.faults = s.faults) :
    t.Upto size stop :=
  ⟨h.line.advance hst, hf ▸ h.placed, hf ▸ h.ordered⟩

theorem Ready.congr (h : s.Ready size) (hl : t.line = s.line) (hf : t.faults = s.faults) :
    t.Ready size := by
  rw [Ready, here_of_line hl]
  exact Upto.congr h hl hf

theorem Settled.congr (h : s.Settled size) (hl : t.line = s.line) (hf : t.faults = s.faults) :
    t.Settled size := by
  rw [Settled, previous_of_line hl]
  exact Upto.congr h hl hf

theorem Settled.ready (h : s.Settled size) : s.Ready size := Upto.mono h (InLine.previous_le h.line)

theorem Fits.ready (h : s.Fits size span) : s.Ready size := h.upto.mono h.here

theorem Ready.fits (h : s.Ready size) : s.Fits size s.here := ⟨h, h.line.here.1, Nat.le_refl _⟩

theorem Ready.advance (h : s.Ready size) (hst : Advances s t) (hf : t.faults = s.faults) :
    t.Ready size :=
  (Upto.advance h hst hf).mono (InLine.here_le_here h.line hst)

/-- A fault stays one that may be reported as long as no other one is. -/
theorem Fits.advance (h : s.Fits size span) (hst : Advances s t) (hf : t.faults = s.faults) :
    t.Fits size span :=
  ⟨h.upto.advance hst hf, h.le, Nat.le_trans h.here (h.upto.line.here_le_here hst)⟩

theorem Ready.report (h : s.Fits size x.span) :
    ({ s with faults := s.faults.push x } : State).Ready size where
  line := h.upto.line
  placed y hy := by
    rw [Array.toList_push, List.mem_append, List.mem_singleton] at hy
    rcases hy with hy | rfl
    · exact (h.upto.mono h.here).placed y hy
    · exact ⟨h.le, h.here⟩
  ordered := by
    rw [Array.toList_push]
    refine List.pairwise_append.mpr ⟨h.upto.ordered, List.pairwise_singleton _ _, fun y hy z hz => ?_⟩
    rw [List.mem_singleton.mp hz]
    exact (h.upto.placed y hy).2

/-- A node may begin with this span. -/
structure Began (start : Span) (s : State) : Prop where
  le : start.start ≤ start.stop
  here : start.stop ≤ s.here.stop

theorem Ready.began (h : s.Ready size) : Began s.here s := ⟨h.line.here.1, Nat.le_refl _⟩

theorem Fits.began (h : s.Fits size span) : Began span s := ⟨h.le, h.here⟩

theorem Began.advance (h : Began start s) (hl : InLine size s.line) (hst : Advances s t) : Began start t :=
  ⟨h.le, Nat.le_trans h.here (hl.here_le_here hst)⟩

theorem Fits.merge (h : s.Fits size span) (hb : Began start s) : s.Fits size (start.merge span) where
  upto := h.upto.mono (Nat.le_max_right _ _)
  le := Nat.le_trans (Nat.min_le_right _ _) (Nat.le_trans h.le (Nat.le_max_right _ _))
  here := Nat.max_le.mpr ⟨hb.here, h.here⟩

theorem Settled.fits (h : s.Settled size) (hb : Began start s) : s.Fits size (start.merge s.previous) :=
  .merge ⟨h, (h.line.within _ List.mem_cons_self).1, h.line.previous_le⟩ hb

end State

/-- Nothing has happened between two states, or the second one is settled. -/
def Passes (size : Nat) (s t : State) : Prop :=
  t.line = s.line ∧ t.faults = s.faults ∨ t.Settled size

namespace Passes

theorem refl (s : State) : Passes size s s := .inl ⟨rfl, rfl⟩

theorem trans (h : Passes size s t) (h' : Passes size t u) : Passes size s u := by
  rcases h' with ⟨hline', hfaults'⟩ | hsettled
  · rcases h with ⟨hline, hfaults⟩ | hsettled
    · exact .inl ⟨hline'.trans hline, hfaults'.trans hfaults⟩
    · exact .inr (hsettled.congr hline' hfaults')
  · exact .inr hsettled

theorem ready (h : Passes size s t) (hs : s.Ready size) : t.Ready size := by
  rcases h with ⟨hline, hfaults⟩ | hsettled
  · exact hs.congr hline hfaults
  · exact hsettled.ready

theorem settled (h : Passes size s t) (hlt : t.rest.length < s.rest.length) : t.Settled size := by
  rcases h with ⟨hline, -⟩ | hsettled
  · exact absurd (State.length_of_line hline) (Nat.ne_of_lt hlt)
  · exact hsettled

end Passes

theorem Advances.passes (h : Advances s t) (hf : t.faults = s.faults) (hs : s.Ready size) :
    Passes size s t := by
  rcases h.line with hline | hline
  · exact .inl ⟨hline, hf⟩
  · exact .inr ((State.Upto.advance hs h hf).mono (hs.line.here_le (hline.subset List.mem_cons_self)))

-- ---------------------------------------------------------------------------
-- Parsers in turn
-- ---------------------------------------------------------------------------

/-- What a run from a ready state leaves. -/
structure InTurnAt (size : Nat) (p : Parser α) (s : State) : Prop where
  passes : ∀ a t, p.run s = (.ok a, t) → Passes size s t
  fits : ∀ x t, p.run s = (.error x, t) → t.Fits size x.span

def InTurn (p : Parser α) : Prop := ∀ size s, s.Ready size → InTurnAt size p s

theorem InTurn.ready (h : InTurn p) (hs : s.Ready size) (hr : p.run s = (.ok a, t)) : t.Ready size :=
  ((h size s hs).passes a t hr).ready hs

theorem InTurn.settled (h : InTurn p) (hp : Reads p) (hs : s.Ready size) (hr : p.run s = (.ok a, t)) :
    t.Settled size :=
  ((h size s hs).passes a t hr).settled (hp.shorter hr)

theorem InTurnAt.bind (hp : InTurnAt size p s)
    (hf : ∀ a t, p.run s = (.ok a, t) → InTurnAt size (f a) t) : InTurnAt size (p >>= f) s where
  passes b u h := by
    obtain ⟨a, t, ha, hb⟩ := bind_ok.mp h
    exact (hp.passes a t ha).trans ((hf a t ha).passes b u hb)
  fits x u h := by
    rcases ha : p.run s with ⟨e | a, t⟩
    · rw [run_bind_error ha] at h
      cases h
      exact hp.fits x u ha
    · rw [run_bind_ok ha] at h
      exact (hf a t ha).fits x u h

theorem InTurn.bind (hp : InTurn p) (hf : ∀ a, InTurn (f a)) : InTurn (p >>= f) := fun size s hs =>
  (hp size s hs).bind fun a t ha => hf a size t (hp.ready hs ha)

theorem InTurn.ite {c : Prop} [Decidable c] {q : Parser α} (hp : InTurn p) (hq : InTurn q) :
    InTurn (if c then p else q) := by
  split
  · exact hp
  · exact hq

theorem InTurn.deeper (limit : Nat) (h : InTurn p) : InTurn (deeper limit p) := fun size s hs => by
  have hdown : InTurnAt size p s.down := h size _ (hs.congr rfl rfl)
  constructor
  · intro a t hr
    obtain ⟨-, u, hu, rfl⟩ := deeper_ok.mp hr
    rcases hdown.passes a u hu with hsame | hsettled
    · exact .inl hsame
    · exact .inr (hsettled.congr rfl rfl)
  · intro x t hr
    rcases deeper_error hr with ⟨rfl, rfl⟩ | ⟨u, hu, rfl⟩
    · exact hs.fits
    · have hfits := hdown.fits x u hu
      exact ⟨hfits.upto.congr rfl rfl, hfits.le, hfits.here⟩

theorem inTurn_pure (a : α) : InTurn (pure a : Parser α) := fun _ s _ =>
  ⟨fun _ _ h => by cases h; exact .refl s, fun _ _ h => by cases h⟩

theorem InTurn.iterate (h : ∀ b, InTurn (step b)) (b : β) : InTurn (iterate step b) := by
  have hall : ∀ bound b, InTurn (iterateFor step bound b) :=
    iterateFor_induction (C := fun _ => InTurn) inTurn_pure fun b _ hrest => (h b).bind hrest
  exact fun size s hs => ⟨(hall s.rest b size s hs).passes, (hall s.rest b size s hs).fits⟩

-- ---------------------------------------------------------------------------
-- Parsers that report nothing
-- ---------------------------------------------------------------------------

/-- The parser reports nothing, and it fails at the next token if it does. -/
structure Mute (p : Parser α) : Prop extends Moves p where
  faults : ∀ s r t, p.run s = (r, t) → t.faults = s.faults
  fails : ∀ s x t, p.run s = (.error x, t) → x.span = t.here

theorem Mute.inTurn (h : Mute p) : InTurn p := fun size s hs => by
  have hpasses {r : Except (Located SyntaxFault) α} {t : State} (hr : p.run s = (r, t)) :
      Passes size s t := by
    have hadv := h.advances s
    rw [hr] at hadv
    exact hadv.passes (h.faults s r t hr) hs
  refine ⟨fun a t hr => hpasses hr, fun x t hr => ?_⟩
  rw [h.fails s x t hr]
  exact ((hpasses hr).ready hs).fits

theorem Mute.andThen (hp : Mute p) (hf : ∀ a, InTurn (f a)) : InTurn (p >>= f) := hp.inTurn.bind hf

theorem Mute.bind (hp : Mute p) (hf : ∀ a, Mute (f a)) : Mute (p >>= f) where
  toMoves := hp.toMoves.bind fun a => (hf a).toMoves
  faults s r u h := by
    rcases ha : p.run s with ⟨e | a, t⟩
    · rw [run_bind_error ha] at h
      cases h
      exact hp.faults s _ _ ha
    · rw [run_bind_ok ha] at h
      exact ((hf a).faults t r u h).trans (hp.faults s _ _ ha)
  fails s x u h := by
    rcases ha : p.run s with ⟨e | a, t⟩
    · rw [run_bind_error ha] at h
      cases h
      exact hp.fails s _ _ ha
    · rw [run_bind_ok ha] at h
      exact (hf a).fails t x u h

theorem Mute.ite {c : Prop} [Decidable c] {q : Parser α} (hp : Mute p) (hq : Mute q) :
    Mute (if c then p else q) := by
  split
  · exact hp
  · exact hq

theorem Mute.deeper (limit : Nat) (h : Mute p) : Mute (deeper limit p) where
  toMoves := h.toMoves.deeper limit
  faults s r t hr := by
    rw [run_deeper] at hr
    split at hr
    · cases hr
      rfl
    · obtain ⟨-, rfl⟩ := Prod.mk.inj hr
      exact h.faults s.down _ (p.run s.down).2 rfl
  fails s x t hr := by
    rcases deeper_error hr with ⟨rfl, rfl⟩ | ⟨u, hu, rfl⟩
    · rfl
    · exact h.fails s.down x u hu

theorem Mute.of_look (h : ∀ s, ∃ a, p.run s = (.ok a, s)) : Mute p where
  toMoves := .of_look h
  faults s r t hr := by
    obtain ⟨a, hs⟩ := h s
    rw [hs] at hr
    cases hr
    rfl
  fails s x t hr := by
    obtain ⟨a, hs⟩ := h s
    rw [hs] at hr
    cases hr

theorem mute_pure (a : α) : Mute (pure a : Parser α) := .of_look fun _ => ⟨_, rfl⟩

theorem mute_peek : Mute peek := .of_look fun s => ⟨_, run_peek s⟩

theorem mute_nextIs (kind : TokenKind) : Mute (nextIs kind) := .of_look fun s => ⟨_, run_nextIs kind s⟩

theorem mute_nextAre (first second : TokenKind) : Mute (nextAre first second) :=
  .of_look fun s => ⟨_, run_nextAre first second s⟩

theorem mute_nextOnLine (kind : TokenKind) : Mute (nextOnLine kind) :=
  .of_look fun s => ⟨_, run_nextOnLine kind s⟩

theorem mute_here : Mute here := .of_look fun _ => ⟨_, rfl⟩

theorem mute_located (start : Span) (a : α) : Mute (located start a) := .of_look fun _ => ⟨_, rfl⟩

theorem mute_unexpected (what : Expectation) : Mute (unexpected what : Parser α) where
  toMoves := (reads_unexpected what : Reads _).toMoves
  faults s r t h := by
    rw [run_unexpected] at h
    cases h
    rfl
  fails s x t h := by
    rw [run_unexpected] at h
    cases h
    rfl

theorem mute_failHere {x : SyntaxFault} (hx : x.isMissingSeparator = false) :
    Mute (do fail x (← here) : Parser α) where
  toMoves := moves_here.bind fun _ => (reads_fail hx : Reads _).toMoves
  faults s r t h := by
    cases h
    rfl
  fails s x t h := by
    cases h
    rfl

theorem mute_accept {kind : TokenKind} (hk : kind ≠ .eof) : Mute (accept kind) where
  toMoves := (reads_accept hk).toMoves
  faults s r t h := by
    rw [run_accept] at h
    split at h <;> cases h
    · exact s.faults_next
    · rfl
  fails s x t h := by
    rw [run_accept] at h
    split at h <;> cases h

theorem mute_expectAs (what : Expectation) (kind : TokenKind) : Mute (expectAs what kind) where
  toMoves := (reads_expectAs what kind).toMoves
  faults s r t h := by
    rw [run_expectAs] at h
    split at h
    · split at h <;> cases h
      · exact s.faults_next
      · rfl
    · cases h
      rfl
  fails s x t h := by
    rw [run_expectAs] at h
    split at h
    · split at h <;> cases h
      rfl
    · cases h
      rfl

theorem mute_expect (kind : TokenKind) : Mute (expect kind) :=
  (mute_expectAs _ kind).bind fun _ => mute_pure _

theorem mute_identifier : Mute identifier := mute_expectAs _ _

theorem mute_label? (sign : TokenKind) : Mute (label? sign) := by
  refine (mute_nextAre _ sign).bind fun _ => .ite ?_ (mute_pure _)
  exact mute_identifier.bind fun _ => (mute_expect _).bind fun _ => mute_pure _

-- ---------------------------------------------------------------------------
-- Lists
-- ---------------------------------------------------------------------------

theorem Mute.iterate (h : ∀ b, Mute (step b)) (b : β) : Mute (iterate step b) := by
  have hall : ∀ bound b, Mute (iterateFor step bound b) :=
    iterateFor_induction (C := fun _ => Mute) mute_pure fun b _ hrest => (h b).bind hrest
  exact
    { toMoves := moves_iterate (fun b => (h b).toMoves) b
      faults := fun s => (hall s.rest b).faults s
      fails := fun s => (hall s.rest b).fails s }

theorem mute_goOnAt {sign : TokenKind} (hs : sign ≠ .eof) (b : β) : Mute (goOnAt sign b) :=
  (mute_accept hs).bind fun _ => .ite (mute_pure _) (mute_pure _)

theorem mute_skipSemicolons : Mute skipSemicolons := .iterate (mute_goOnAt (by decide)) ()

theorem mute_listOf (h : Mute p) : Mute (listOf p) :=
  (Mute.iterate (fun _ => h.bind fun _ => mute_goOnAt (by decide) _) _).bind fun _ => mute_pure _

theorem mute_listUntil (close : TokenKind) (h : Mute p) : Mute (listUntil close p) := by
  refine (Mute.iterate (fun items => ?_) _).bind fun _ => (mute_expect close).bind fun _ => mute_pure _
  exact (mute_nextIs close).bind fun _ => .ite (mute_pure _) (h.bind fun _ => mute_goOnAt (by decide) _)

theorem inTurn_listRound (h : InTurn p) (items : Array α) : InTurn (listRound p items) :=
  h.bind fun _ => (mute_goOnAt (by decide) _).inTurn

theorem inTurn_listOf (h : InTurn p) : InTurn (listOf p) :=
  (InTurn.iterate (inTurn_listRound h) _).bind fun _ => inTurn_pure _

theorem inTurn_listUntil (close : TokenKind) (h : InTurn p) : InTurn (listUntil close p) := by
  refine (InTurn.iterate (fun items => ?_) _).bind fun _ => (mute_expect close).andThen fun _ =>
    inTurn_pure _
  exact (mute_nextIs close).andThen fun _ => .ite (inTurn_pure _) (inTurn_listRound h items)

theorem mem_listUntil {close : TokenKind} {a : α} {as : List α} (h : Reads p)
    (hr : (listUntil close p).run s = (.ok as, t)) (ha : a ∈ as) :
    ∃ u v, Advances s u ∧ p.run u = (.ok a, v) ∧ Advances v t := by
  let read (items : Array α) (t : State) : Prop := Advances s t ∧
    ∀ a ∈ items, ∃ u v, Advances s u ∧ p.run u = (.ok a, v) ∧ Advances v t
  have hround (items : Array α) : Triple (read items) (listUntilRound close p items) fun r =>
      read r.value := by
    rintro u r v ⟨hsu, hitems⟩ hround
    have huv := (rounds_listUntilRound close h items).advances_ok hround
    have hkeep (a : α) (ha : a ∈ items) : ∃ u w, Advances s u ∧ p.run u = (.ok a, w) ∧ Advances w v := by
      obtain ⟨u', w, hu', hw, hwu⟩ := hitems a ha
      exact ⟨u', w, hu', hw, hwu.trans huv⟩
    refine ⟨hsu.trans huv, ?_⟩
    unfold listUntilRound at hround
    rw [run_bind_ok (run_nextIs close u)] at hround
    split at hround
    · cases hround
      exact hkeep
    · obtain ⟨item, w, hitem, hsign⟩ := bind_ok.mp hround
      have hwv := (rounds_goOnAt (by decide) (items.push item)).advances_ok hsign
      have hvalue : r.value = items.push item := by
        rw [run_goOnAt] at hsign
        split at hsign <;> cases hsign <;> rfl
      rw [hvalue]
      intro a ha
      rcases Array.mem_push.mp ha with ha | rfl
      · exact hkeep a ha
      · exact ⟨u, w, hsu, hitem, hwv⟩
  obtain ⟨items, v, hloop, hr⟩ := bind_ok.mp hr
  obtain ⟨_, w, hclose, hr⟩ := bind_ok.mp hr
  cases hr
  obtain ⟨-, hitems⟩ := Triple.loop hround #[] s items v ⟨.refl s, nofun⟩ hloop
  obtain ⟨u, w, hu, hw, hwv⟩ := hitems a (Array.mem_toList_iff.mp ha)
  exact ⟨u, w, hu, hw, hwv.trans ((reads_expect close).advances_ok hclose)⟩

-- ---------------------------------------------------------------------------
-- Sequences
-- ---------------------------------------------------------------------------

theorem Mute.ready (h : Mute p) : Triple (State.Ready size) p fun _ => State.Ready size :=
  fun _ _ _ hs hr => h.inTurn.ready hs hr

theorem mute_atStop (inBlock : Bool) : Mute (atStop inBlock) :=
  .of_look fun s => ⟨_, run_atStop inBlock s⟩

theorem mute_recover (inBlock progressed : Bool) : Mute (recover inBlock progressed) := by
  have hadvance : Mute advance :=
    ⟨moves_advance, fun s r t h => by cases h; exact s.faults_next, fun s x t h => by cases h⟩
  refine (Mute.iterate (fun _ => ?_) _).bind fun _ => mute_pure _
  refine (mute_atStop inBlock).bind fun _ => .ite (mute_pure _) ?_
  refine (mute_accept (by decide)).bind fun _ => .ite (mute_pure _) ?_
  refine (Mute.of_look fun s => ⟨_, run_onNewLine s⟩).bind fun _ => .ite (mute_pure _) ?_
  exact hadvance.bind fun _ => mute_pure _

theorem ready_separator : Triple (State.Ready size) separator fun _ => State.Ready size := by
  intro s a t hs h
  rw [run_separator] at h
  cases h
  unfold State.after
  split
  · exact mute_skipSemicolons.ready s () _ hs (run_skipSemicolons s)
  · exact .report hs.fits

theorem ready_itemRound {inBlock : Bool} (h : InTurn p) (items : Array α) :
    Triple (State.Ready size) (itemRound inBlock p items) fun _ => State.Ready size := by
  have hattempt : Triple (State.Ready size) (attempt p) fun r t =>
      (∀ a, r = .ok a → t.Ready size) ∧ ∀ x, r = .error x → t.Fits size x.span := by
    intro s r t hs hr
    rw [run_attempt] at hr
    obtain ⟨hr, rfl⟩ := Prod.mk.inj hr
    cases hr
    exact ⟨fun a ha => h.ready hs (Prod.ext ha rfl), fun x hx => (h size s hs).fits x _ (Prod.ext hx rfl)⟩
  refine Triple.bind (Q := fun _ => State.Ready size) (fun s a t hs hr => by cases hr; exact hs)
    fun before => hattempt.bind fun r => ?_
  cases r with
  | ok node =>
    refine Triple.bind (Q := fun _ => State.Ready size) (fun s a t hs => ?_) fun _ => .pure fun _ hs => hs
    exact ready_separator s a t (hs.1 node rfl)
  | error x =>
    refine Triple.bind (Q := fun _ => State.Ready size) (fun s a t hs hr => ?_) fun _ => ?_
    · cases hr
      exact .report (hs.2 x rfl)
    · refine Triple.bind (Q := fun _ => State.Ready size) (fun s a t hs hr => by cases hr; exact hs)
        fun _ => ?_
      exact (mute_recover inBlock _).ready.bind fun _ => .pure fun _ hs => hs

theorem ready_sequenceOf (inBlock : Bool) (h : InTurn p) :
    Triple (State.Ready size) (sequenceOf inBlock p) fun _ => State.Ready size := by
  refine (Triple.loop (I := fun _ => State.Ready size) (fun items => ?_) _).bind fun _ =>
    .pure fun _ hs => hs
  refine mute_skipSemicolons.ready.bind fun _ => (mute_atStop inBlock).ready.bind fun _ => ?_
  exact .ite (fun _ => .pure fun _ hs => hs) fun _ => ready_itemRound h items

theorem inTurn_closed {close : TokenKind} {g : List α → Parser β} (inBlock : Bool) (h : InTurn p)
    (hg : ∀ nodes, InTurn (g nodes)) :
    InTurn (sequenceOf inBlock p >>= fun nodes => expect close >>= fun _ => g nodes) := fun size s hs => by
  obtain ⟨nodes, t, hrun⟩ := answers_sequenceOf inBlock p s
  have ht := ready_sequenceOf inBlock h s nodes t hs hrun
  have hclosed := (mute_expect close).andThen fun _ => hg nodes
  refine ⟨fun b u hr => ?_, fun x u hr => ?_⟩ <;> rw [run_bind_ok hrun] at hr
  · obtain ⟨_, v, hv, hr⟩ := bind_ok.mp hr
    have hsettled := (mute_expect close).inTurn.settled (reads_expect close) ht hv
    exact .trans (.inr hsettled) ((hg nodes size v hsettled.ready).passes b u hr)
  · exact (hclosed size t ht).fits x u hr

-- ---------------------------------------------------------------------------
-- Nodes
-- ---------------------------------------------------------------------------

/-- A fault that covers the answer of the parser may be reported behind it. -/
def Ends (p : Parser (Located α)) : Prop :=
  ∀ size s a t, s.Ready size → p.run s = (.ok a, t) → t.Fits size a.span

theorem fits_iterate {step : Located α → Parser (ForInStep (Located α))} {a b : Located α}
    (hr : Rounds step) (hi : ∀ a, InTurn (step a))
    (hround : ∀ a s r t, (step a).run s = (.ok r, t) →
      r = .done a ∧ t = s ∨ ∃ node, r = .yield ⟨node, start.merge t.previous⟩)
    (hs : s.Fits size a.span) (hb : State.Began start s)
    (h : (iterate step a).run s = (.ok b, t)) : t.Fits size b.span := by
  have hkept (a : Located α) : Triple (fun s => s.Fits size a.span ∧ State.Began start s) (step a)
      fun r t => t.Fits size r.value.span ∧ State.Began start t := by
    rintro s r t ⟨hs, hb⟩ hrun
    rcases hround a s r t hrun with ⟨rfl, rfl⟩ | ⟨node, rfl⟩
    · exact ⟨hs, hb⟩
    · have hsettled := ((hi a size s hs.ready).passes _ t hrun).settled ((hr a).reads s _ t hrun trivial)
      have hbegan := hb.advance hs.upto.line ((hr a).advances_ok hrun)
      exact ⟨hsettled.fits hbegan, hbegan⟩
  exact (Triple.loop (I := fun a s => s.Fits size a.span ∧ State.Began start s) hkept a s b t ⟨hs, hb⟩ h).1

end Linewise.Parser
