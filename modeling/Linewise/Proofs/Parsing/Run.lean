import Linewise.Parser.Repetition

/-!
# Running a parser

What each parser of `Parser.State` does to a state, as one equation. Proofs about the grammar step
through a production with these and never open the monad.
-/

namespace Linewise.Parser

variable {α β : Type} {p : Parser α} {f : α → Parser β} {s s' : State}

def State.kind (s : State) : TokenKind :=
  match s.rest with
  | t :: _ => t.token.kind
  | [] => .eof

def State.second (s : State) : TokenKind :=
  match s.rest with
  | _ :: t :: _ => t.token.kind
  | _ => .eof

-- ---------------------------------------------------------------------------
-- The monad
-- ---------------------------------------------------------------------------

theorem run_bind (p : Parser α) (f : α → Parser β) (s : State) :
    (p >>= f).run s =
      match p.run s with
      | (.ok a, s') => (f a).run s'
      | (.error e, s') => (.error e, s') := by
  show ExceptT.bindCont f (p.run s).1 (p.run s).2 = _
  rcases p.run s with ⟨_ | _, _⟩ <;> rfl

theorem run_bind_ok (h : p.run s = (.ok a, s')) : (p >>= f).run s = (f a).run s' := by
  rw [run_bind, h]

theorem run_bind_error (h : p.run s = (.error e, s')) : (p >>= f).run s = (.error e, s') := by
  rw [run_bind, h]

/-- A sequence that answers is two runs that answer, one after the other. -/
theorem bind_ok :
    (p >>= f).run s = (.ok b, s') ↔ ∃ a t, p.run s = (.ok a, t) ∧ (f a).run t = (.ok b, s') := by
  rw [run_bind]
  rcases p.run s with ⟨_ | a, t⟩
  · simp
  · exact ⟨fun h => ⟨a, t, rfl, h⟩, fun ⟨_, _, h, h'⟩ => by cases h; exact h'⟩

theorem run_bind_assoc {γ : Type} {g : β → Parser γ} :
    ((p >>= f) >>= g).run s = (p >>= fun a => f a >>= g).run s := by
  rw [run_bind, run_bind, run_bind]
  rcases p.run s with ⟨_ | a, t⟩
  · rfl
  · exact (run_bind (f a) g t).symm

theorem run_bind_congr {g : α → Parser β}
    (h : ∀ a t, p.run s = (.ok a, t) → (f a).run t = (g a).run t) :
    (p >>= f).run s = (p >>= g).run s := by
  rw [run_bind, run_bind]
  rcases hp : p.run s with ⟨_ | a, t⟩
  · rfl
  · exact h a t hp

theorem run_pure (a : α) (s : State) : (pure a : Parser α).run s = (.ok a, s) := rfl

theorem run_get (s : State) : (get : Parser State).run s = (.ok s, s) := rfl

theorem run_modify (g : State → State) (s : State) :
    (modify g : Parser Unit).run s = (.ok (), g s) := rfl

theorem run_fail (x : SyntaxFault) (span : Span) (s : State) :
    (fail x span : Parser α).run s = (.error ⟨x, span⟩, s) := rfl

theorem run_attempt (p : Parser α) (s : State) :
    (attempt p).run s = (.ok (p.run s).1, (p.run s).2) := rfl

-- ---------------------------------------------------------------------------
-- Looking ahead
-- ---------------------------------------------------------------------------

theorem run_peek (s : State) : peek.run s = (.ok s.kind, s) := by
  unfold peek
  rw [run_bind_ok (run_get s), State.kind]
  cases s.rest <;> rfl

theorem run_peekSecond (s : State) : peekSecond.run s = (.ok s.second, s) := by
  unfold peekSecond
  rw [run_bind_ok (run_get s), State.second]
  rcases s.rest with _ | ⟨_, _ | _⟩ <;> rfl

theorem run_nextIs (kind : TokenKind) (s : State) :
    (nextIs kind).run s = (.ok (s.kind = kind), s) := by
  unfold nextIs
  rw [run_bind_ok (run_peek s), run_pure]

theorem run_nextAre (first second : TokenKind) (s : State) :
    (nextAre first second).run s = (.ok (s.kind = first ∧ s.second = second), s) := by
  unfold nextAre
  rw [run_bind_ok (run_peek s), run_bind_ok (run_peekSecond s), run_pure]

theorem run_here (s : State) : here.run s = (.ok s.here, s) := rfl

theorem run_atEnd (s : State) : atEnd.run s = (.ok s.rest.isEmpty, s) := rfl

theorem run_atClosing (s : State) : atClosing.run s = (.ok (s.rest.head?.any (·.closing)), s) := rfl

theorem run_onNewLine (s : State) : onNewLine.run s = (.ok (s.rest.head?.all (·.onNewLine)), s) := rfl

theorem run_atTerminator (s : State) :
    atTerminator.run s = (.ok (s.rest.head?.all (·.terminated)), s) := rfl

theorem run_nextOnLine (kind : TokenKind) (s : State) :
    (nextOnLine kind).run s =
      (.ok (decide (s.kind = kind) && !s.rest.head?.all (·.onNewLine)), s) := by
  unfold nextOnLine
  rw [run_bind_ok (run_nextIs kind s), run_bind_ok (run_onNewLine s), run_pure]

def State.stops (s : State) (inBlock : Bool) : Bool :=
  s.rest.isEmpty || (inBlock && s.rest.head?.any (·.closing))

theorem run_atStop (inBlock : Bool) (s : State) :
    (atStop inBlock).run s = (.ok (s.stops inBlock), s) := by
  unfold atStop
  rw [run_bind_ok (run_atEnd s), run_bind_ok (run_atClosing s), run_pure, State.stops]

theorem run_located (start : Span) (node : α) (s : State) :
    (located start node).run s = (.ok ⟨node, start.merge s.previous⟩, s) := rfl

theorem run_unexpected (what : Expectation) (s : State) :
    (unexpected what : Parser α).run s = (.error ⟨.expected what s.kind, s.here⟩, s) := by
  unfold unexpected
  rw [run_bind_ok (run_peek s), run_bind_ok (run_here s), run_fail]

-- ---------------------------------------------------------------------------
-- Reading and reporting
-- ---------------------------------------------------------------------------

def State.next (s : State) : State :=
  match s.rest with
  | t :: ts => { s with rest := ts, previous := t.token.span }
  | [] => s

theorem State.next_of_cons (h : s.rest = t :: ts) :
    s.next = { s with rest := ts, previous := t.token.span } := by
  simp [next, h]

theorem State.faults_next (s : State) : s.next.faults = s.faults := by
  unfold State.next
  split <;> rfl

theorem run_advance (s : State) : advance.run s = (.ok (), s.next) := rfl

theorem run_report (fault : Located SyntaxFault) (s : State) :
    (report fault).run s = (.ok (), { s with faults := s.faults.push fault }) := rfl

theorem run_accept (kind : TokenKind) (s : State) :
    (accept kind).run s = if s.kind = kind then (.ok true, s.next) else (.ok false, s) := by
  unfold accept
  rw [run_bind_ok (run_nextIs kind s)]
  by_cases h : s.kind = kind
  · simp only [h, decide_true, ↓reduceIte]
    rw [run_bind_ok (run_advance s), run_pure]
  · simp only [h, decide_false, Bool.false_eq_true, ↓reduceIte, run_pure]

theorem accept_ok {kind : TokenKind} {found : Bool} {s t : State}
    (h : (accept kind).run s = (.ok found, t)) :
    found = true ∧ s.kind = kind ∧ t = s.next ∨ found = false ∧ s.kind ≠ kind ∧ t = s := by
  rw [run_accept] at h
  split at h
  · next hk =>
    cases h
    exact .inl ⟨rfl, hk, rfl⟩
  · next hk =>
    cases h
    exact .inr ⟨rfl, hk, rfl⟩

theorem run_expectAs (what : Expectation) (kind : TokenKind) (s : State) :
    (expectAs what kind).run s =
      match s.rest with
      | t :: _ =>
        if t.token.kind = kind then (.ok t.token.text, s.next)
        else (.error ⟨.expected what s.kind, s.here⟩, s)
      | [] => (.error ⟨.expected what s.kind, s.here⟩, s) := by
  unfold expectAs
  rw [run_bind_ok (run_get s)]
  rcases s.rest with _ | ⟨t, ts⟩
  · exact run_unexpected what s
  · dsimp only
    split
    · rw [run_bind_ok (run_advance s), run_pure]
    · exact run_unexpected what s

def State.down (s : State) : State := { s with depth := s.depth + 1 }

def State.up (s : State) : State := { s with depth := s.depth - 1 }

theorem run_deeper (limit : Nat) (p : Parser α) (s : State) :
    (deeper limit p).run s =
      if s.depth ≥ limit then (.error ⟨.nestingTooDeep, s.here⟩, s)
      else ((p.run s.down).1, (p.run s.down).2.up) := by
  unfold deeper
  rw [run_bind_ok (run_get s)]
  split
  · rfl
  · rw [run_bind_ok (run_modify ..), run_bind_ok (run_attempt ..), run_bind_ok (run_modify ..)]
    have hdown : State.down s = { s with depth := s.depth + 1 } := rfl
    rw [← hdown]
    rcases p.run s.down with ⟨_ | _, _⟩ <;> rfl

section
variable {limit : Nat} {p : Parser α} {s t : State}

/-- What is built one level deeper is built, if the level can be opened. -/
theorem deeper_ok {a : α} : (deeper limit p).run s = (.ok a, t) ↔
    s.depth < limit ∧ ∃ u, p.run s.down = (.ok a, u) ∧ t = u.up := by
  rw [run_deeper]
  constructor
  · intro h
    split at h
    · cases h
    · next hs =>
      obtain ⟨ha, rfl⟩ := Prod.mk.inj h
      exact ⟨Nat.not_le.mp hs, _, Prod.ext ha rfl, rfl⟩
  · rintro ⟨hs, u, h, rfl⟩
    rw [if_neg (Nat.not_le.mpr hs), h]

theorem deeper_error {x : Located SyntaxFault} (h : (deeper limit p).run s = (.error x, t)) :
    x = ⟨.nestingTooDeep, s.here⟩ ∧ t = s ∨ ∃ u, p.run s.down = (.error x, u) ∧ t = u.up := by
  rw [run_deeper] at h
  split at h
  · cases h
    exact .inl ⟨rfl, rfl⟩
  · obtain ⟨hx, rfl⟩ := Prod.mk.inj h
    exact .inr ⟨_, Prod.ext hx rfl, rfl⟩

end

/-- Induction along the rounds of a loop: behind the last round nothing is left, and behind another one a loop
with fewer rounds. -/
theorem iterateFor_induction {C : β → Parser β → Prop} {step : β → Parser (ForInStep β)}
    (last : ∀ b, C b (pure b)) (round : ∀ b g, (∀ r, C r.value (g r)) → C b (step b >>= g))
    (bound : List Terminal) (b : β) : C b (iterateFor step bound b) := by
  induction bound generalizing b with
  | nil => exact round b _ fun r => last r.value
  | cons _ bound ih =>
    refine round b _ fun r => ?_
    cases r with
    | done b => exact last b
    | yield b => exact ih b

end Linewise.Parser
