import Linewise.Proofs.Parsing.Loops

/-!
# What parsers accept

`Accepts d p ks ks' Q`: with `d` levels open and tokens of the kinds `ks` left, `p` answers without a
fault, with a value of `Q`, and leaves the kinds `ks'`. So a text is accepted whatever its names and
layout are.
-/

namespace Linewise.Parser

variable {α β : Type} {d : Nat} {ks ks₁ ks' : List TokenKind} {kind : TokenKind} {s : State}

def State.kinds (s : State) : List TokenKind := s.rest.map (·.token.kind)

theorem State.kind_of_kinds (h : s.kinds = ks) : s.kind = ks.headD .eof := by
  subst h
  unfold State.kind State.kinds
  cases s.rest <;> rfl

theorem State.second_of_kinds (h : s.kinds = ks) : s.second = ks.tail.headD .eof := by
  subst h
  unfold State.second State.kinds
  rcases s.rest with _ | ⟨x, _ | ⟨y, ts⟩⟩ <;> rfl

theorem State.kinds_next (h : s.kinds = kind :: ks) : s.next.kinds = ks := by
  unfold State.kinds at h
  cases hs : s.rest with
  | nil => simp [hs] at h
  | cons x ts =>
    rw [hs, List.map_cons] at h
    rw [State.next_of_cons hs]
    exact (List.cons.inj h).2

theorem State.depth_next (s : State) : s.next.depth = s.depth := s.advances_next.depth

def Accepts (d : Nat) (p : Parser α) (ks ks' : List TokenKind) (Q : α → Prop) : Prop :=
  ∀ s, s.depth = d → s.kinds = ks →
    ∃ a t, p.run s = (.ok a, t) ∧ Q a ∧ t.depth = d ∧ t.kinds = ks' ∧ t.faults = s.faults

variable {p q : Parser α} {f : α → Parser β} {Q R : α → Prop} {S : β → Prop}

-- ---------------------------------------------------------------------------
-- Putting parsers together
-- ---------------------------------------------------------------------------

theorem Accepts.mono (h : Accepts d p ks ks' R) (hQ : ∀ a, R a → Q a) : Accepts d p ks ks' Q :=
  fun s hd hk => by
    obtain ⟨a, t, hr, ha, ht⟩ := h s hd hk
    exact ⟨a, t, hr, hQ a ha, ht⟩

theorem Accepts.congr (hpq : ∀ s, p.run s = q.run s) (h : Accepts d q ks ks' Q) :
    Accepts d p ks ks' Q := fun s hd hk => by
  rw [hpq s]
  exact h s hd hk

theorem accepts_pure {a : α} (h : Q a) : Accepts d (pure a) ks ks Q :=
  fun s hd hk => ⟨a, s, rfl, h, hd, hk, rfl⟩

theorem Accepts.bind (hp : Accepts d p ks ks₁ Q) (hf : ∀ a, Q a → Accepts d (f a) ks₁ ks' S) :
    Accepts d (p >>= f) ks ks' S := fun s hd hk => by
  obtain ⟨a, t, hr, ha, htd, htk, htf⟩ := hp s hd hk
  obtain ⟨b, u, hr', hb, hud, huk, huf⟩ := hf a ha t htd htk
  exact ⟨b, u, by rw [run_bind_ok hr, hr'], hb, hud, huk, huf.trans htf⟩

theorem Accepts.look_bind {look : State → α} (hp : ∀ s, p.run s = (.ok (look s), s))
    (hf : ∀ s, s.kinds = ks → Accepts d (f (look s)) ks ks' S) : Accepts d (p >>= f) ks ks' S :=
  fun s hd hk => by
    rw [run_bind_ok (hp s)]
    exact hf s hk s hd hk

theorem Accepts.get_bind {f : State → Parser β} (hf : ∀ s, Accepts d (f s) ks ks' S) :
    Accepts d (get >>= f) ks ks' S :=
  .look_bind run_get fun s _ => hf s

theorem Accepts.here_bind {f : Span → Parser β} (hf : ∀ span, Accepts d (f span) ks ks' S) :
    Accepts d (here >>= f) ks ks' S :=
  .look_bind run_here fun s _ => hf s.here

theorem Accepts.peek_bind {f : TokenKind → Parser β}
    (hf : Accepts d (f (ks.headD .eof)) ks ks' S) : Accepts d (peek >>= f) ks ks' S :=
  .look_bind run_peek fun s hs => by
    rw [State.kind_of_kinds hs]
    exact hf

theorem Accepts.nextIs_bind {f : Bool → Parser β}
    (hf : Accepts d (f (ks.headD .eof = kind)) ks ks' S) : Accepts d (nextIs kind >>= f) ks ks' S :=
  .look_bind (run_nextIs kind) fun s hs => by
    rw [State.kind_of_kinds hs]
    exact hf

theorem Accepts.nextAre_bind {f : Bool → Parser β} {second : TokenKind}
    (hf : Accepts d (f (ks.headD .eof = kind ∧ ks.tail.headD .eof = second)) ks ks' S) :
    Accepts d (nextAre kind second >>= f) ks ks' S :=
  .look_bind (run_nextAre kind second) fun s hs => by
    rw [State.kind_of_kinds hs, State.second_of_kinds hs]
    exact hf

theorem Accepts.nextOnLine_bind {f : Bool → Parser β} (h : ks.headD .eof ≠ kind)
    (hf : Accepts d (f false) ks ks' S) : Accepts d (nextOnLine kind >>= f) ks ks' S :=
  .look_bind (run_nextOnLine kind) fun s hs => by
    rw [State.kind_of_kinds hs, decide_eq_false h]
    exact hf

theorem Accepts.atStop_bind {f : Bool → Parser β} (hf : Accepts d (f ks.isEmpty) ks ks' S) :
    Accepts d (atStop false >>= f) ks ks' S :=
  .look_bind (run_atStop false) fun s hs => by
    have hstops : s.stops false = ks.isEmpty := by
      simp [State.stops, ← hs, State.kinds]
    rw [hstops]
    exact hf

theorem accepts_located {start : Span} {a : α} {Q : Located α → Prop} (h : ∀ span, Q ⟨a, span⟩) :
    Accepts d (located start a) ks ks Q :=
  fun s hd hk => ⟨_, s, run_located start a s, h _, hd, hk, rfl⟩

theorem accepts_expectAs (what : Expectation) :
    Accepts d (expectAs what kind) (kind :: ks) ks fun _ => True := fun s hd hk => by
  have hnext := State.kinds_next hk
  cases hs : s.rest with
  | nil => simp [State.kinds, hs] at hk
  | cons x ts =>
    have hx : x.token.kind = kind := by
      rw [State.kinds, hs, List.map_cons] at hk
      exact (List.cons.inj hk).1
    refine ⟨x.token.text, s.next, ?_, trivial, s.depth_next.trans hd, hnext, s.faults_next⟩
    rw [run_expectAs, hs]
    exact if_pos hx

theorem accepts_expect : Accepts d (expect kind) (kind :: ks) ks fun _ => True :=
  (accepts_expectAs _).bind fun _ _ => accepts_pure trivial

theorem accepts_accept : Accepts d (accept kind) (kind :: ks) ks (· = true) := fun s hd hk => by
  refine ⟨true, s.next, ?_, rfl, s.depth_next.trans hd, State.kinds_next hk, s.faults_next⟩
  rw [run_accept, State.kind_of_kinds hk]
  exact if_pos rfl

theorem accepts_accept_no (h : ks.headD .eof ≠ kind) :
    Accepts d (accept kind) ks ks (· = false) := fun s hd hk => by
  refine ⟨false, s, ?_, rfl, hd, hk, rfl⟩
  rw [run_accept, State.kind_of_kinds hk]
  exact if_neg h

theorem Accepts.attempt (h : Accepts d p ks ks' Q) :
    Accepts d (attempt p) ks ks' fun r => ∃ a, r = .ok a ∧ Q a := fun s hd hk => by
  obtain ⟨a, t, hr, ha, ht⟩ := h s hd hk
  exact ⟨.ok a, t, by rw [run_attempt, hr], ⟨a, rfl, ha⟩, ht⟩

theorem Accepts.deeper {limit : Nat} (hd : d < limit) (h : Accepts (d + 1) p ks ks' Q) :
    Accepts d (deeper limit p) ks ks' Q := fun s hs hk => by
  obtain ⟨a, t, hr, ha, htd, htk, htf⟩ := h s.down (congrArg (· + 1) hs) hk
  exact ⟨a, t.up, deeper_ok.mpr ⟨hs ▸ hd, t, hr, rfl⟩, ha, by simp [State.up, htd], htk, htf⟩

theorem Accepts.iterate {step : β → Parser (ForInStep β)} {b : β} (hr : Rounds step)
    (h : Accepts d (step b >>= goOn step) ks ks' S) : Accepts d (iterate step b) ks ks' S :=
  .congr (run_iterate hr b) h

theorem accepts_skipSemicolons (h : ks.headD .eof ≠ .semicolon) :
    Accepts d skipSemicolons ks ks fun _ => True := by
  have hdone : Accepts d (goOnAt .semicolon ()) ks ks (· = .done ()) := by
    refine (accepts_accept_no h).bind ?_
    rintro _ rfl
    exact accepts_pure rfl
  refine .iterate (rounds_goOnAt (by decide)) (hdone.bind ?_)
  rintro _ rfl
  exact accepts_pure trivial

/-- One item that reaches to the end is a sequence. -/
theorem accepts_sequenceOf_single (hp : Reads p) (h : Accepts d p ks [] Q) (hk : ks ≠ [])
    (hs : ks.headD .eof ≠ .semicolon) :
    Accepts d (sequenceOf false p) ks [] fun as => ∃ a, as = [a] ∧ Q a := by
  have hround := rounds_sequenceRound false hp
  have hone : Accepts d (sequenceRound false p #[]) ks [] fun r => ∃ a, r = .yield #[a] ∧ Q a := by
    refine (accepts_skipSemicolons hs).bind fun _ _ => .atStop_bind ?_
    rw [List.isEmpty_eq_false_iff.mpr hk, if_neg Bool.false_ne_true]
    refine .get_bind fun before => h.attempt.bind ?_
    rintro _ ⟨a, rfl, ha⟩
    refine Accepts.bind (Q := fun _ => True) ?_ fun _ _ => accepts_pure ⟨a, rfl, ha⟩
    exact .nextIs_bind (.look_bind run_atEnd fun t ht => by
      have hend : t.rest.isEmpty = true := by simpa [State.kinds] using ht
      rw [hend]
      exact .look_bind run_atClosing fun _ _ => .look_bind run_atTerminator fun _ _ =>
        accepts_pure trivial)
  have hnone (as : Array α) : Accepts d (sequenceRound false p as) [] [] (· = .done as) := by
    refine (accepts_skipSemicolons (by decide)).bind fun _ _ => .atStop_bind ?_
    exact accepts_pure rfl
  have hloop : Accepts d (iterate (sequenceRound false p) #[]) ks [] fun as =>
      ∃ a, as = #[a] ∧ Q a := by
    refine .iterate hround (hone.bind ?_)
    rintro _ ⟨a, rfl, ha⟩
    refine .iterate hround ((hnone #[a]).bind ?_)
    rintro _ rfl
    exact accepts_pure ⟨a, rfl, ha⟩
  refine hloop.bind ?_
  rintro _ ⟨a, rfl, ha⟩
  exact accepts_pure ⟨a, rfl, ha⟩

end Linewise.Parser
