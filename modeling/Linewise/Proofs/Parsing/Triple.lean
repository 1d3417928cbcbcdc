import Linewise.Proofs.Parsing.Loops

/-!
# What parsers answer

`Triple P p Q`: from a state of `P` on, an answer of `p` and the state it leaves are of `Q`. Nothing is
said of runs that fail. `Yields I p Q` is about answers alone: they are of `Q` where the states are of `I`
throughout.
-/

namespace Linewise.Parser

variable {α β : Type} {p : Parser α} {f : α → Parser β} {step : β → Parser (ForInStep β)}

def Triple (P : State → Prop) (p : Parser α) (Q : α → State → Prop) : Prop :=
  ∀ s a t, P s → p.run s = (.ok a, t) → Q a t

section
variable {P : State → Prop} {Q R : α → State → Prop} {S : β → State → Prop}

theorem Triple.mono (h : Triple P p R) (hQ : ∀ a t, R a t → Q a t) : Triple P p Q :=
  fun s a t hs hr => hQ a t (h s a t hs hr)

theorem Triple.bind (hp : Triple P p Q) (hf : ∀ a, Triple (Q a) (f a) S) :
    Triple P (p >>= f) S := fun s b t hs h => by
  obtain ⟨a, u, ha, hb⟩ := bind_ok.mp h
  exact hf a u b t (hp s a u hs ha) hb

theorem Triple.pure {a : α} (h : ∀ s, P s → Q a s) : Triple P (pure a) Q := fun s b t hs hr => by
  cases hr
  exact h s hs

theorem Triple.fail {x : SyntaxFault} {span : Span} : Triple P (fail x span : Parser α) Q :=
  fun s a t _ h => by cases h

theorem Triple.unexpected (what : Expectation) : Triple P (unexpected what : Parser α) Q :=
  fun s a t _ h => by
    rw [run_unexpected] at h
    cases h

theorem Triple.ite {c : Prop} [Decidable c] {q : Parser α} (hp : c → Triple P p Q)
    (hq : ¬c → Triple P q Q) : Triple P (if c then p else q) Q := by
  split
  · exact hp ‹_›
  · exact hq ‹_›

/-- Every round keeps the invariant, and what it passes on is a good answer too, whether it asks for
another round or not. -/
theorem Triple.iterateFor {I J : β → State → Prop}
    (h : ∀ b, Triple (I b) (step b) fun r t => I r.value t ∧ J r.value t)
    (bound : List Terminal) (b : β) : Triple (I b) (iterateFor step bound b) J := by
  induction bound generalizing b with
  | nil => exact (h b).bind fun r => .pure fun _ ht => ht.2
  | cons _ bound ih =>
    refine (h b).bind fun r => ?_
    cases r with
    | done b => exact .pure fun _ ht => ht.2
    | yield b => exact fun s a t hs => ih b s a t hs.1

theorem Triple.iterate {I J : β → State → Prop}
    (h : ∀ b, Triple (I b) (step b) fun r t => I r.value t ∧ J r.value t) (b : β) :
    Triple (I b) (iterate step b) J :=
  fun s => Triple.iterateFor h s.rest b s

theorem Triple.loop {I : β → State → Prop} (h : ∀ b, Triple (I b) (step b) fun r => I r.value) (b : β) :
    Triple (I b) (Parser.iterate step b) I :=
  .iterate (fun b => (h b).mono fun _ _ hr => ⟨hr, hr⟩) b

theorem Triple.and {P' : State → Prop} {Q' : α → State → Prop} (h : Triple P p Q) (h' : Triple P' p Q') :
    Triple (fun s => P s ∧ P' s) p fun a t => Q a t ∧ Q' a t :=
  fun s a t hs hr => ⟨h s a t hs.1 hr, h' s a t hs.2 hr⟩

end

-- ---------------------------------------------------------------------------
-- Answers alone
-- ---------------------------------------------------------------------------

def Yields (I : State → Prop) (p : Parser α) (Q : α → Prop) : Prop :=
  Triple I p fun a t => Q a ∧ I t

abbrev Always : State → Prop := fun _ => True

/-- Moving forwards keeps this. -/
def Stable (I : State → Prop) : Prop := ∀ s t, Advances s t → I s → I t

theorem stable_always : Stable Always := fun _ _ _ _ => trivial

section
variable {I : State → Prop} {Q R : α → Prop} {S : β → Prop}

theorem Yields.any : Yields Always p fun _ => True := fun _ _ _ _ _ => ⟨trivial, trivial⟩

theorem Moves.yields (h : Moves p) (hI : Stable I) : Yields I p fun _ => True :=
  fun s _ t hs hr => ⟨trivial, hI s t (h.advances_ok hr) hs⟩

theorem Yields.mono (h : Yields I p R) (hQ : ∀ a, R a → Q a) : Yields I p Q :=
  Triple.mono h fun a _ ha => ⟨hQ a ha.1, ha.2⟩

theorem Yields.bind (hp : Yields I p Q) (hf : ∀ a, Q a → Yields I (f a) S) : Yields I (p >>= f) S :=
  Triple.bind hp fun a s b t ha => hf a ha.1 s b t ha.2

theorem Yields.after (hf : ∀ a, Yields Always (f a) S) : Yields Always (p >>= f) S :=
  Yields.any.bind fun a _ => hf a

theorem Triple.behind {Q : β → State → Prop} (hI : Stable I) (hp : Moves p) (hf : ∀ a, Triple I (f a) Q) :
    Triple I (p >>= f) Q :=
  Triple.bind (hp.yields hI) fun a s b t hs => hf a s b t hs.2

theorem Yields.behind (hI : Stable I) (hp : Moves p) (hf : ∀ a, Yields I (f a) S) :
    Yields I (p >>= f) S :=
  Triple.behind hI hp hf

theorem Yields.pure {a : α} (h : Q a) : Yields I (pure a) Q := Triple.pure fun _ hs => ⟨h, hs⟩

theorem Yields.ite {c : Prop} [Decidable c] {q : Parser α} (hp : Yields I p Q)
    (hq : Yields I q Q) : Yields I (if c then p else q) Q :=
  Triple.ite (fun _ => hp) fun _ => hq

theorem Yields.located {a : α} {start : Span} (h : Q a) :
    Yields I (located start a) fun x => Q x.node := fun s x t hs hr => by
  cases hr
  exact ⟨h, hs⟩

theorem Yields.attempt (hkeep : ∀ s, I s → I (p.run s).2) (h : Yields I p Q) :
    Yields I (attempt p) fun r => ∀ a, r = .ok a → Q a := fun s r t hs hr => by
  rw [run_attempt] at hr
  obtain ⟨hfirst, rfl⟩ := Prod.mk.inj hr
  injection hfirst with hfirst
  exact ⟨fun a ha => (h s a (p.run s).2 hs (Prod.ext (hfirst.trans ha) rfl)).1, hkeep s hs⟩

theorem Yields.deeper (limit : Nat) (hdown : ∀ s, I s → I s.down) (hup : ∀ s, I s → I s.up)
    (h : Yields I p Q) : Yields I (deeper limit p) Q := fun s a t hs hr => by
  obtain ⟨-, u, hu, rfl⟩ := deeper_ok.mp hr
  obtain ⟨hQ, ht⟩ := h s.down a u (hdown s hs) hu
  exact ⟨hQ, hup _ ht⟩

theorem Yields.iterate {b : β} (h : ∀ b, S b → Yields I (step b) fun r => S r.value) (hb : S b) :
    Yields I (iterate step b) S := fun s a t hs hr => by
  refine Triple.iterate (I := fun b t => S b ∧ I t) (J := fun b t => S b ∧ I t)
    (fun b s r t hs hr => ?_) b s a t ⟨hb, hs⟩ hr
  exact ⟨h b hs.1 s r t hs.2 hr, h b hs.1 s r t hs.2 hr⟩

end

-- ---------------------------------------------------------------------------
-- Lists and sequences
-- ---------------------------------------------------------------------------

section
variable {I : State → Prop} {Q : α → Prop}

theorem yields_goOnAt (hI : Stable I) {sign : TokenKind} (hs : sign ≠ .eof) {b : β} {S : β → Prop}
    (h : S b) : Yields I (goOnAt sign b) fun r => S r.value :=
  .behind hI (reads_accept hs).toMoves fun _ => .ite (.pure h) (.pure h)

theorem yields_listRound (hI : Stable I) (h : Yields I p Q) {items : Array α}
    (hi : ∀ a ∈ items, Q a) : Yields I (listRound p items) fun r => ∀ a ∈ r.value, Q a := by
  refine h.bind fun a ha =>
    yields_goOnAt hI (by decide) (S := fun as : Array α => ∀ a ∈ as, Q a) fun b hb => ?_
  rcases Array.mem_push.mp hb with hb | rfl
  · exact hi b hb
  · exact ha

theorem yields_listOf (hI : Stable I) (h : Yields I p Q) :
    Yields I (listOf p) fun as => ∀ a ∈ as, Q a := by
  refine (Yields.iterate (S := fun as : Array α => ∀ a ∈ as, Q a)
    (fun _ hi => yields_listRound hI h hi) (by simp)).bind fun items hi => .pure fun a ha => ?_
  exact hi a (Array.mem_toList_iff.mp ha)

theorem yields_listUntilRound (hI : Stable I) {close : TokenKind} (h : Yields I p Q)
    {items : Array α} (hi : ∀ a ∈ items, Q a) :
    Yields I (listUntilRound close p items) fun r => ∀ a ∈ r.value, Q a :=
  .behind hI (moves_nextIs close) fun _ =>
    .ite (.pure (a := ForInStep.done items) hi) (yields_listRound hI h hi)

theorem yields_listUntil (hI : Stable I) {close : TokenKind} (h : Yields I p Q) :
    Yields I (listUntil close p) fun as => ∀ a ∈ as, Q a := by
  refine (Yields.iterate (S := fun as : Array α => ∀ a ∈ as, Q a)
    (fun _ hi => yields_listUntilRound hI h hi) (by simp)).bind fun items hi =>
    .behind hI (reads_expect close).toMoves fun _ => .pure fun a ha => ?_
  exact hi a (Array.mem_toList_iff.mp ha)

theorem yields_listOf_ne_nil : Yields Always (listOf p) (· ≠ []) := by
  have hround (items : Array α) : Yields Always (listRound p items) fun r => r.value.toList ≠ [] :=
    .after fun a => yields_goOnAt stable_always (by decide) (S := fun as : Array α => as.toList ≠ [])
      (by simp)
  have hloop : Yields Always (iterate (listRound p) #[]) fun items => items.toList ≠ [] :=
    Triple.iterate (I := fun _ => Always) (J := fun (as : Array α) t => as.toList ≠ [] ∧ Always t)
      (fun items s r t hs hr => ⟨trivial, hround items s r t hs hr⟩) #[]
  exact hloop.bind fun items hi => .pure hi

section
variable (hI : Stable I) (hkeep : ∀ s, I s → I (p.run s).2) (h : Yields I p Q)
include hI hkeep h

theorem yields_itemRound {inBlock : Bool} {items : Array α} (hi : ∀ a ∈ items, Q a) :
    Yields I (itemRound inBlock p items) fun r => ∀ a ∈ r.value, Q a := by
  refine .behind hI moves_get fun before => (h.attempt hkeep).bind fun r hr => ?_
  cases r with
  | ok node =>
    refine .behind hI moves_separator fun _ => .pure fun a ha => ?_
    rcases Array.mem_push.mp ha with ha | rfl
    · exact hi a ha
    · exact hr _ rfl
  | error fault =>
    exact .behind hI (moves_report fault) fun _ => .behind hI moves_get fun _ =>
      .behind hI (moves_recover _ _) fun _ => .pure hi

theorem yields_sequenceRound {inBlock : Bool} {items : Array α} (hi : ∀ a ∈ items, Q a) :
    Yields I (sequenceRound inBlock p items) fun r => ∀ a ∈ r.value, Q a :=
  .behind hI moves_skipSemicolons fun _ => .behind hI (moves_atStop _) fun _ =>
    .ite (.pure (a := ForInStep.done items) hi) (yields_itemRound hI hkeep h hi)

theorem yields_sequenceOf {inBlock : Bool} :
    Yields I (sequenceOf inBlock p) fun as => ∀ a ∈ as, Q a := by
  refine (Yields.iterate (S := fun as : Array α => ∀ a ∈ as, Q a)
    (fun _ hi => yields_sequenceRound hI hkeep h hi) (by simp)).bind fun items hi => .pure fun a ha => ?_
  exact hi a (Array.mem_toList_iff.mp ha)

end

end

end Linewise.Parser
