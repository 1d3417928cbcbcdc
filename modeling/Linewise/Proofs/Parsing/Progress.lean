import Linewise.Proofs.Parsing.Run

/-!
# Parsers move forwards

`Moves`: whatever a parser answers, it reads on from where it is, it keeps what was reported and the
open levels, and it never fails for a missing separator, which is only ever reported. `ReadsOn P`: it
also reads a token whenever its answer is one of `P`. Both are kept by every way of putting parsers
together, loops included, and give a loop its equation (`run_iterate`): the bound that makes it
terminate is never reached.
-/

namespace Linewise

def SyntaxFault.isMissingSeparator : SyntaxFault → Bool
  | missingSeparator _ => true
  | _ => false

namespace Parser

variable {α β : Type} {p : Parser α} {f : α → Parser β} {P : α → Prop} {Q : β → Prop}
  {s t u : State}

/-- What stands between two states: nothing, or tokens of which the last one is read last. -/
def Between (s t : State) : Prop :=
  t.rest = s.rest ∧ t.previous = s.previous ∨
    ∃ ws x, s.rest = ws ++ x :: t.rest ∧ t.previous = x.token.span

/-- The second state is one that a run from the first may leave behind. -/
structure Advances (s t : State) : Prop where
  between : Between s t
  finish : t.finish = s.finish
  depth : t.depth = s.depth
  faults : s.faults.toList <+: t.faults.toList

theorem Advances.refl (s : State) : Advances s s :=
  ⟨.inl ⟨rfl, rfl⟩, rfl, rfl, List.prefix_refl _⟩

theorem Between.trans (h : Between s t) (h' : Between t u) : Between s u := by
  rcases h' with ⟨hr', hp'⟩ | ⟨ws', y, hr', hp'⟩
  · rcases h with ⟨hr, hp⟩ | ⟨ws, x, hr, hp⟩
    · exact .inl ⟨hr'.trans hr, hp'.trans hp⟩
    · exact .inr ⟨ws, x, hr' ▸ hr, hp'.trans hp⟩
  · rcases h with ⟨hr, -⟩ | ⟨ws, x, hr, -⟩
    · exact .inr ⟨ws', y, hr ▸ hr', hp'⟩
    · exact .inr ⟨ws ++ x :: ws', y, by simp [hr, hr'], hp'⟩

theorem Advances.trans (h : Advances s t) (h' : Advances t u) : Advances s u :=
  ⟨h.between.trans h'.between, h'.finish.trans h.finish, h'.depth.trans h.depth,
    h.faults.trans h'.faults⟩

theorem Advances.rest (h : Advances s t) : t.rest <:+ s.rest := by
  rcases h.between with ⟨hr, -⟩ | ⟨ws, x, hr, -⟩
  · exact hr ▸ List.suffix_refl _
  · exact ⟨ws ++ [x], by simp [hr]⟩

theorem Advances.length_le (h : Advances s t) : t.rest.length ≤ s.rest.length :=
  h.rest.length_le

theorem faults_between (h : Advances s t) (h' : Advances t u) (hu : u.faults = s.faults) :
    t.faults = s.faults := by
  have hle := h'.faults.length_le
  rw [hu] at hle
  exact Array.toList_inj.mp (h.faults.eq_of_length_le hle).symm

structure Moves (p : Parser α) : Prop where
  advances : ∀ s, Advances s (p.run s).2
  thrown : ∀ s x t, p.run s = (.error x, t) → x.node.isMissingSeparator = false

structure ReadsOn (P : α → Prop) (p : Parser α) : Prop extends Moves p where
  reads : ∀ s a t, p.run s = (.ok a, t) → P a → t.rest.length < s.rest.length

/-- The parser reads a token whenever it answers. -/
abbrev Reads (p : Parser α) : Prop := ReadsOn (fun _ => True) p

theorem Moves.advances_ok (h : Moves p) (hs : p.run s = (.ok a, t)) : Advances s t := by
  simpa [hs] using h.advances s

theorem Reads.shorter (h : Reads p) (hs : p.run s = (.ok a, t)) :
    t.rest.length < s.rest.length :=
  h.reads s a t hs trivial

theorem Reads.split (h : Reads p) (hs : p.run s = (.ok a, t)) :
    ∃ ws x, s.rest = ws ++ x :: t.rest ∧ t.previous = x.token.span := by
  rcases (h.advances_ok hs).between with ⟨hsame, -⟩ | hread
  · have hlt := h.shorter hs
    rw [hsame] at hlt
    exact absurd hlt (Nat.lt_irrefl _)
  · exact hread

theorem Reads.on (h : Reads p) : ReadsOn P p := ⟨h.toMoves, fun s a t hs _ => h.reads s a t hs trivial⟩

-- ---------------------------------------------------------------------------
-- Putting parsers together
-- ---------------------------------------------------------------------------

theorem Moves.bind (hp : Moves p) (hf : ∀ a, Moves (f a)) : Moves (p >>= f) where
  advances s := by
    have h := hp.advances s
    rw [run_bind]
    split <;> rename_i heq <;> rw [heq] at h
    · exact h.trans ((hf _).advances _)
    · exact h
  thrown s x t h := by
    rw [run_bind] at h
    split at h <;> rename_i heq
    · exact (hf _).thrown _ _ _ h
    · cases h
      exact hp.thrown _ _ _ heq

theorem ReadsOn.bind (hp : ReadsOn P p) (hf : ∀ a, Moves (f a))
    (hn : ∀ a, ¬P a → ReadsOn Q (f a)) : ReadsOn Q (p >>= f) where
  toMoves := hp.toMoves.bind hf
  reads s b t h hb := by
    obtain ⟨a, u, hs, hu⟩ := bind_ok.mp h
    have hle := ((hf a).advances_ok hu).length_le
    by_cases ha : P a
    · exact Nat.lt_of_le_of_lt hle (hp.reads s a u hs ha)
    · exact Nat.lt_of_lt_of_le ((hn a ha).reads u b t hu hb) (hp.advances_ok hs).length_le

theorem Reads.bind (hp : Reads p) (hf : ∀ a, Moves (f a)) : ReadsOn Q (p >>= f) :=
  ReadsOn.bind hp hf fun _ h => absurd trivial h

theorem Moves.bind_reads (hp : Moves p) (hf : ∀ a, ReadsOn Q (f a)) : ReadsOn Q (p >>= f) :=
  ReadsOn.bind (P := fun _ => False) ⟨hp, fun _ _ _ _ h => h.elim⟩ (fun a => (hf a).toMoves)
    fun a _ => hf a

theorem Moves.ite {c : Prop} [Decidable c] {q : Parser α} (hp : Moves p) (hq : Moves q) :
    Moves (if c then p else q) := by
  split
  · exact hp
  · exact hq

theorem ReadsOn.ite {c : Prop} [Decidable c] {q : Parser α} (hp : ReadsOn P p) (hq : ReadsOn P q) :
    ReadsOn P (if c then p else q) := by
  split
  · exact hp
  · exact hq

-- ---------------------------------------------------------------------------
-- Primitives
-- ---------------------------------------------------------------------------

theorem Moves.of_look (h : ∀ s, ∃ a, p.run s = (.ok a, s)) : Moves p where
  advances s := by
    obtain ⟨a, hs⟩ := h s
    rw [hs]
    exact .refl s
  thrown s x t hs := by
    obtain ⟨a, ha⟩ := h s
    rw [ha] at hs
    cases hs

theorem moves_pure (a : α) : Moves (pure a : Parser α) := .of_look fun _ => ⟨_, rfl⟩

theorem readsOn_pure (h : ¬P a) : ReadsOn P (pure a : Parser α) where
  toMoves := moves_pure a
  reads s b t hs hb := by
    cases hs
    exact absurd hb h

theorem moves_get : Moves (get : Parser State) := .of_look fun _ => ⟨_, rfl⟩

theorem moves_peek : Moves peek := .of_look fun s => ⟨_, run_peek s⟩

theorem moves_nextIs (kind : TokenKind) : Moves (nextIs kind) :=
  .of_look fun s => ⟨_, run_nextIs kind s⟩

theorem moves_nextAre (first second : TokenKind) : Moves (nextAre first second) :=
  .of_look fun s => ⟨_, run_nextAre first second s⟩

theorem moves_nextOnLine (kind : TokenKind) : Moves (nextOnLine kind) :=
  .of_look fun s => ⟨_, run_nextOnLine kind s⟩

theorem moves_here : Moves here := .of_look fun _ => ⟨_, rfl⟩

theorem moves_atEnd : Moves atEnd := .of_look fun _ => ⟨_, rfl⟩

theorem moves_atClosing : Moves atClosing := .of_look fun _ => ⟨_, rfl⟩

theorem moves_onNewLine : Moves onNewLine := .of_look fun _ => ⟨_, rfl⟩

theorem moves_atTerminator : Moves atTerminator := .of_look fun _ => ⟨_, rfl⟩

theorem moves_located (start : Span) (node : α) : Moves (located start node) :=
  .of_look fun _ => ⟨_, rfl⟩

theorem reads_fail {x : SyntaxFault} {span : Span} (hx : x.isMissingSeparator = false) :
    ReadsOn P (fail x span : Parser α) where
  advances s := .refl s
  thrown s e t h := by
    cases h
    exact hx
  reads s a t h := by cases h

theorem reads_unexpected (what : Expectation) : ReadsOn P (unexpected what : Parser α) :=
  moves_peek.bind_reads fun _ => moves_here.bind_reads fun _ => reads_fail rfl

theorem State.advances_next (s : State) : Advances s s.next := by
  rcases h : s.rest with _ | ⟨t, ts⟩
  · simpa [next, h] using .refl s
  · rw [next_of_cons h]
    exact ⟨.inr ⟨[], t, h, rfl⟩, rfl, rfl, List.prefix_refl _⟩

theorem State.length_next (h : s.rest = x :: ts) : s.next.rest.length < s.rest.length := by
  simp [next_of_cons h, h]

theorem State.rest_induction {P : State → Prop}
    (shorter : ∀ s, (∀ t, t.rest.length < s.rest.length → P t) → P s) (s : State) : P s := by
  suffices hall : ∀ n (s : State), s.rest.length = n → P s from hall _ s rfl
  intro n
  induction n using Nat.strongRecOn with
  | ind n ih =>
    intro s hn
    exact shorter s fun t ht => ih _ (hn ▸ ht) t rfl

theorem moves_advance : Moves advance where
  advances s := s.advances_next
  thrown s x t h := by cases h

theorem moves_report (fault : Located SyntaxFault) : Moves (report fault) where
  advances s := ⟨.inl ⟨rfl, rfl⟩, rfl, rfl, by simp [run_report]⟩
  thrown s x t h := by cases h

theorem State.rest_of_kind {kind : TokenKind} (h : s.kind = kind) (hk : kind ≠ .eof) :
    ∃ x ts, s.rest = x :: ts := by
  unfold State.kind at h
  split at h
  · exact ⟨_, _, ‹_›⟩
  · exact absurd h.symm hk

theorem run_expect {kind : TokenKind} (hk : kind ≠ .eof) (s : State) :
    (expect kind).run s =
      if s.kind = kind then (.ok (), s.next)
      else (.error ⟨.expected (.token kind) s.kind, s.here⟩, s) := by
  unfold expect
  rw [run_bind, run_expectAs]
  cases hs : s.rest with
  | nil =>
    have hne : s.kind ≠ kind := by
      rw [State.kind, hs]
      exact hk.symm
    rw [if_neg hne]
  | cons x ts =>
    have hkind : s.kind = x.token.kind := by rw [State.kind, hs]
    rw [hkind]
    by_cases h : x.token.kind = kind
    · simp only [h, if_true]
      rfl
    · simp only [h, if_false]

theorem expect_ok {kind : TokenKind} (hk : kind ≠ .eof) :
    (expect kind).run s = (.ok (), t) ↔ s.kind = kind ∧ t = s.next := by
  rw [run_expect hk]
  split
  · simp [*, eq_comm]
  · simp [*]

theorem expectAs_ok {what : Expectation} {kind : TokenKind} {text : String}
    (h : (expectAs what kind).run s = (.ok text, t)) :
    ∃ x, s.rest = x :: t.rest ∧ t.previous = x.token.span ∧ x.token.kind = kind ∧ x.token.text = text := by
  rw [run_expectAs] at h
  cases hrest : s.rest with
  | nil => simp [hrest] at h
  | cons x xs =>
    simp only [hrest] at h
    split at h
    · obtain ⟨htext, rfl⟩ := Prod.mk.inj h
      rw [State.next_of_cons hrest]
      exact ⟨x, rfl, rfl, ‹_›, Except.ok.inj htext⟩
    · cases h

theorem expectAs_of_expect {kind : TokenKind} {a : Unit} (h : (expect kind).run s = (.ok a, t)) :
    ∃ text, (expectAs (.token kind) kind).run s = (.ok text, t) := by
  obtain ⟨text, u, hsign, h⟩ := bind_ok.mp h
  cases h
  exact ⟨text, hsign⟩

theorem reads_accept {kind : TokenKind} (hk : kind ≠ .eof) :
    ReadsOn (· = true) (accept kind) where
  advances s := by
    rw [run_accept]
    split
    · exact s.advances_next
    · exact .refl s
  thrown s x t h := by
    rw [run_accept] at h
    split at h <;> cases h
  reads s b t h hb := by
    rw [run_accept] at h
    split at h <;> cases h
    · obtain ⟨u, us, hs⟩ := State.rest_of_kind ‹_› hk
      exact State.length_next hs
    · cases hb

theorem reads_expectAs (what : Expectation) (kind : TokenKind) : Reads (expectAs what kind) where
  advances s := by
    rw [run_expectAs]
    split
    · split
      · exact s.advances_next
      · exact .refl s
    · exact .refl s
  thrown s x t h := by
    rw [run_expectAs] at h
    split at h
    · split at h <;> cases h
      rfl
    · cases h
      rfl
  reads s a t h _ := by
    rw [run_expectAs] at h
    split at h
    · split at h <;> cases h
      exact State.length_next ‹_›
    · cases h

theorem reads_expect (kind : TokenKind) : Reads (expect kind) :=
  (reads_expectAs _ kind).bind fun _ => moves_pure _

theorem reads_expectWord (word : Keyword) : Reads (expectWord word) := reads_expect _

theorem reads_identifier : Reads identifier := reads_expectAs _ _

theorem moves_label? (sign : TokenKind) : Moves (label? sign) := by
  refine (moves_nextAre _ sign).bind fun _ => .ite ?_ (moves_pure _)
  exact reads_identifier.toMoves.bind fun _ => (reads_expect sign).toMoves.bind fun _ => moves_pure _

theorem Moves.attempt (h : Moves p) : Moves (attempt p) where
  advances s := h.advances s
  thrown s x t hs := by cases hs

theorem Advances.deeper (limit : Nat) (h : Advances s.down (p.run s.down).2) :
    Advances s ((deeper limit p).run s).2 := by
  rw [run_deeper]
  split
  · exact .refl s
  · exact ⟨h.between, h.finish, congrArg (· - 1) h.depth, h.faults⟩

theorem Moves.deeper (limit : Nat) (h : Moves p) : Moves (deeper limit p) where
  advances s := (h.advances s.down).deeper limit
  thrown s x t hs := by
    rcases deeper_error hs with ⟨rfl, -⟩ | ⟨u, hu, -⟩
    · rfl
    · exact h.thrown s.down x u hu

theorem Reads.deeper (limit : Nat) (h : Reads p) : Reads (deeper limit p) where
  toMoves := h.toMoves.deeper limit
  reads s a t hs _ := by
    obtain ⟨-, u, hu, rfl⟩ := deeper_ok.mp hs
    exact h.reads s.down a u hu trivial

end Parser

end Linewise
