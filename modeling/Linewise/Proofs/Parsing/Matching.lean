import Linewise.Proofs.Parsing.Takes

/-!
# What parsers have read

`Matches p L`: where `p` answers, the items that it has read and its answer are of `L`. What a production has
read is put together from what its parts have read, so a language for each part gives one for the production.
-/

namespace Linewise.Parser

variable {α β : Type} {p : Parser α} {f : α → Parser β} {L L' : List Item → α → Prop} {M : List Item → β → Prop}
  {kind : TokenKind} {s : State}

def Matches (p : Parser α) (L : List Item → α → Prop) : Prop :=
  ∀ s a t, p.run s = (.ok a, t) → ∃ is, s.items = is ++ t.items ∧ L is a

theorem Matches.mono (h : Matches p L) (hL : ∀ is a, L is a → L' is a) : Matches p L' := fun s a t hr => by
  obtain ⟨is, hs, ha⟩ := h s a t hr
  exact ⟨is, hs, hL is a ha⟩

theorem Matches.bind (hp : Matches p L) (hf : ∀ a is, L is a → Matches (f a) fun js => M (is ++ js)) :
    Matches (p >>= f) M := fun s b t hr => by
  obtain ⟨a, u, ha, hb⟩ := bind_ok.mp hr
  obtain ⟨is, hs, hL⟩ := hp s a u ha
  obtain ⟨js, hu, hM⟩ := hf a is hL u b t hb
  exact ⟨is ++ js, by rw [hs, hu, List.append_assoc], hM⟩

theorem Matches.pure {a : α} (h : L [] a) : Matches (pure a) L := fun s b t hr => by
  cases hr
  exact ⟨[], rfl, h⟩

theorem matches_fail {x : SyntaxFault} {span : Span} : Matches (fail x span) L := fun s a t hr => by cases hr

theorem matches_unexpected (what : Expectation) : Matches (unexpected what) L := fun s a t hr => by
  rw [run_unexpected] at hr
  cases hr

theorem Matches.ite {c : Prop} [Decidable c] {q : Parser α} (hp : Matches p L) (hq : Matches q L) :
    Matches (if c then p else q) L := by
  split
  · exact hp
  · exact hq

theorem Matches.look_bind (hp : ∀ s, ∃ a, p.run s = (.ok a, s)) (hf : ∀ a, Matches (f a) M) :
    Matches (p >>= f) M := fun s b t hr => by
  obtain ⟨a, ha⟩ := hp s
  rw [run_bind_ok ha] at hr
  exact hf a s b t hr

theorem matches_located {start : Span} {a : α} {L : List Item → Located α → Prop} (h : ∀ span, L [] ⟨a, span⟩) :
    Matches (located start a) L := fun s x t hr => by
  cases hr
  exact ⟨[], rfl, h _⟩

theorem Matches.located_bind {start : Span} {a : α} {f : Located α → Parser β}
    (hf : ∀ span, Matches (f ⟨a, span⟩) M) : Matches (located start a >>= f) M := fun s b t hr => by
  rw [run_bind_ok (run_located start a s)] at hr
  exact hf _ s b t hr

theorem Matches.deeper (limit : Nat) (h : Matches p L) : Matches (deeper limit p) L := fun s a t hr => by
  obtain ⟨-, u, hu, rfl⟩ := deeper_ok.mp hr
  exact h s.down a u hu

-- ---------------------------------------------------------------------------
-- Reading
-- ---------------------------------------------------------------------------

theorem State.items_of_kind (h : s.kind = kind) (hk : kind ≠ .eof) :
    ∃ x, s.items = (kind, x) :: s.next.items := by
  obtain ⟨t, ts, hrest⟩ := State.rest_of_kind h hk
  refine ⟨t.token.text, ?_⟩
  have hkind : t.token.kind = kind := by rw [← h, State.kind, hrest]
  rw [State.items, State.items, hrest, State.next_of_cons hrest, List.map_cons, Token.item, hkind]

theorem matches_expectAs (what : Expectation) :
    Matches (expectAs what kind) fun is text => is = [(kind, text)] :=
  fun s text t hr => by
    obtain ⟨x, hrest, -, rfl, rfl⟩ := expectAs_ok hr
    exact ⟨[x.token.item], congrArg (List.map _) hrest, rfl⟩

theorem matches_identifier : Matches identifier fun is name => is = [(.identifier, name)] := matches_expectAs _

theorem matches_expect : Matches (expect kind) fun is _ => ∃ x, is = [(kind, x)] :=
  (matches_expectAs _).bind fun x is his => .pure ⟨x, by rw [his, List.append_nil]⟩

theorem Matches.expect_bind {f : Unit → Parser β} (hf : ∀ x, Matches (f ()) fun is => M ((kind, x) :: is)) :
    Matches (expect kind >>= f) M :=
  matches_expect.bind fun _ is his => by
    obtain ⟨x, rfl⟩ := his
    exact hf x

theorem Matches.identifier_bind {f : String → Parser β}
    (hf : ∀ name, Matches (f name) fun is => M ((.identifier, name) :: is)) : Matches (identifier >>= f) M :=
  matches_identifier.bind fun name is his => by
    obtain rfl := his
    exact hf name

theorem matches_accept (hk : kind ≠ .eof) :
    Matches (accept kind) fun is found => (found = true ∧ ∃ x, is = [(kind, x)]) ∨ (found = false ∧ is = []) :=
  fun s found t hr => by
    rcases accept_ok hr with ⟨rfl, hkind, rfl⟩ | ⟨rfl, -, rfl⟩
    · obtain ⟨x, hx⟩ := State.items_of_kind hkind hk
      exact ⟨[(kind, x)], hx, .inl ⟨rfl, x, rfl⟩⟩
    · exact ⟨[], rfl, .inr ⟨rfl, rfl⟩⟩

theorem Matches.accept_bind {p q : Parser β} (hk : kind ≠ .eof)
    (hp : ∀ x, Matches p fun is => M ((kind, x) :: is)) (hq : Matches q M) :
    Matches (accept kind >>= fun found => if found then p else q) M :=
  (matches_accept hk).bind fun found is his => by
    rcases his with ⟨rfl, x, rfl⟩ | ⟨rfl, rfl⟩
    · exact hp x
    · exact hq

-- ---------------------------------------------------------------------------
-- Loops
-- ---------------------------------------------------------------------------

/-- What a round leaves: something to go on with, or the answer of the loop. -/
def Round (I J : List Item → β → Prop) (is : List Item) : ForInStep β → Prop
  | .yield b => I is b
  | .done b => J is b

/-- What every round keeps a loop keeps, and its last round ends it. -/
theorem Matches.iterate {step : β → Parser (ForInStep β)} {I J : List Item → β → Prop} (hr : Rounds step)
    (h : ∀ b is, I is b → Matches (step b) fun js => Round I J (is ++ js)) {b : β} (hb : I [] b) :
    Matches (iterate step b) J := by
  -- The induction is on what is left to read; what has been read is put in front of it round by round.
  suffices hall : ∀ s b is, I is b → ∀ a t, (Parser.iterate step b).run s = (.ok a, t) →
      ∃ js, s.items = js ++ t.items ∧ J (is ++ js) a from
    fun s a t hrun => hall s b [] hb a t hrun
  intro s
  induction s using State.rest_induction with
  | shorter s ih =>
    intro b is hb a t hrun
    rw [run_iterate hr] at hrun
    obtain ⟨r, u, hround, hrest⟩ := bind_ok.mp hrun
    obtain ⟨js, hs, hr'⟩ := h b is hb s r u hround
    cases r with
    | done c =>
      cases hrest
      exact ⟨js, hs, hr'⟩
    | yield c =>
      have hlt := (hr b).reads s _ u hround trivial
      obtain ⟨ks, hu, hJ⟩ := ih u hlt c (is ++ js) hr' a t hrest
      exact ⟨js ++ ks, by rw [hs, hu, List.append_assoc], by rwa [List.append_assoc] at hJ⟩

-- ---------------------------------------------------------------------------
-- Lists
-- ---------------------------------------------------------------------------

/-- Items of a language with commas between them; the flag says whether another one may follow. -/
inductive Separated (L : List Item → α → Prop) : Bool → List Item → List α → Prop
  | nil : Separated L true [] []
  | item {is js : List Item} {as : List α} {a : α} (h : Separated L true is as) (ha : L js a) :
      Separated L false (is ++ js) (as ++ [a])
  | comma {is : List Item} {as : List α} {x : String} (h : Separated L false is as) :
      Separated L true (is ++ [(.comma, x)]) as

theorem matches_listRound {is : List Item} {items : Array α} (hp : Matches p L)
    (h : Separated L true is items.toList) :
    Matches (listRound p items) fun js => Round (fun is items => Separated L true is items.toList)
      (fun is items => Separated L false is items.toList) (is ++ js) := by
  refine hp.bind fun a js ha => ?_
  have hitem : Separated L false (is ++ js) (items.push a).toList := by
    rw [Array.toList_push]
    exact .item h ha
  refine .accept_bind (by decide) (fun x => .pure ?_) (.pure ?_)
  · show Separated L true _ _
    rw [← List.append_assoc]
    exact .comma hitem
  · show Separated L false _ _
    rwa [List.append_nil]

theorem matches_listOf (hr : Reads p) (hp : Matches p L) : Matches (listOf p) (Separated L false) := by
  have hloop : Matches (iterate (listRound p) #[]) fun is items => Separated L false is items.toList :=
    .iterate (rounds_listRound hr) (fun _ _ => matches_listRound hp) .nil
  refine hloop.bind fun items is h => .pure ?_
  rwa [List.append_nil]

theorem matches_listUntil {close : TokenKind} (hr : Reads p) (hp : Matches p L) :
    Matches (listUntil close p) fun is as => ∃ more js x, is = js ++ [(close, x)] ∧ Separated L more js as := by
  have hloop : Matches (iterate (listUntilRound close p) #[]) fun is items =>
      ∃ more, Separated L more is items.toList := by
    refine .iterate (I := fun is items => Separated L true is items.toList) (rounds_listUntilRound close hr)
      (fun items is h => ?_) .nil
    refine .look_bind (fun s => ⟨_, run_nextIs close s⟩) fun _ => .ite (.pure ?_) ?_
    · exact ⟨true, by rwa [List.append_nil]⟩
    · refine (matches_listRound hp h).mono fun js r hround => ?_
      cases r with
      | yield items => exact hround
      | done items => exact ⟨false, hround⟩
  refine hloop.bind fun items is h => .expect_bind fun x => .pure ?_
  obtain ⟨more, h⟩ := h
  exact ⟨more, is, x, rfl, h⟩

end Linewise.Parser
