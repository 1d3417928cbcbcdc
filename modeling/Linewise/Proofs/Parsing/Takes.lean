import Linewise.Proofs.Parsing.Changes
import Linewise.Proofs.Parsing.Loops

/-!
# What parsers take

`Takes d p is js a`: with `d` levels open and the items `is` left, `p` answers `a`, but for spans, without a
fault, and leaves the items `js`. So the same items are taken alike wherever they stand.
-/

namespace Linewise.Parser

variable {α β : Type} {d : Nat} {i : Item} {is is₁ js : List Item} {s : State}

-- ---------------------------------------------------------------------------
-- The items that are left
-- ---------------------------------------------------------------------------

def State.items (s : State) : List Item := s.rest.map (·.token.item)

def headKind (is : List Item) : TokenKind := (is.headD (.eof, "")).1

@[simp] theorem headKind_cons (kind : TokenKind) (text : String) (is : List Item) :
    headKind ((kind, text) :: is) = kind := rfl

theorem State.kind_of_items (h : s.items = is) : s.kind = headKind is := by
  subst h
  unfold State.kind State.items
  cases s.rest <;> rfl

theorem State.second_of_items (h : s.items = is) : s.second = headKind is.tail := by
  subst h
  unfold State.second State.items
  rcases s.rest with _ | ⟨x, _ | ⟨y, ts⟩⟩ <;> rfl

theorem State.rest_of_items (h : s.items = i :: is) :
    ∃ x ts, s.rest = x :: ts ∧ x.token.item = i ∧ s.next.items = is := by
  unfold State.items at h
  obtain ⟨x, ts, hrest, hx, hts⟩ := List.map_eq_cons_iff.mp h
  exact ⟨x, ts, hrest, hx, by rw [State.next_of_cons hrest]; exact hts⟩

theorem exists_items (is : List Item) : ∃ s : State, s.depth = 0 ∧ s.items = is := by
  let terminal (i : Item) : Terminal := ⟨⟨i.1, .visible, i.2, ⟨0, 0⟩, 0, .origin⟩, false, false, false⟩
  refine ⟨⟨is.map terminal, ⟨0, 0⟩, ⟨0, 0⟩, 0, #[]⟩, rfl, ?_⟩
  rw [State.items, List.map_map]
  exact List.map_id is

-- ---------------------------------------------------------------------------
-- Putting parsers together
-- ---------------------------------------------------------------------------

/-- The same but for the spans. -/
def SameShape [HasSpans α] (a b : α) : Prop := mapSpans noSpan a = mapSpans noSpan b

def Takes [HasSpans α] (d : Nat) (p : Parser α) (is js : List Item) (a : α) : Prop :=
  ∀ s, s.depth = d → s.items = is →
    ∃ b t, p.run s = (.ok b, t) ∧ SameShape b a ∧ t.depth = d ∧ t.items = js ∧ t.faults = s.faults

section
variable [HasSpans α] [HasSpans β] {a b : α} {c : β} {p q : Parser α} {f : α → Parser β}

theorem SameShape.refl (a : α) : SameShape a a := rfl

theorem SameShape.trans {e : α} (h : SameShape a b) (h' : SameShape b e) : SameShape a e := Eq.trans h h'

theorem SameShape.located {x y : Located α} (h : SameShape x.node y.node) : SameShape x y :=
  congrArg (Located.mk · ⟨0, 0⟩) h

theorem SameShape.node {x y : Located α} (h : SameShape x y) : SameShape x.node y.node :=
  congrArg Located.node h

theorem SameShape.some (h : SameShape a b) : SameShape (some a) (some b) := congrArg Option.some h

theorem SameShape.yield (h : SameShape a b) : SameShape (ForInStep.yield a) (ForInStep.yield b) :=
  congrArg ForInStep.yield h

theorem SameShape.pair {e : β} (h : SameShape a b) (h' : SameShape c e) : SameShape (a, c) (b, e) :=
  Prod.ext h h'

theorem Takes.congr (hpq : ∀ s, p.run s = q.run s) (h : Takes d q is js a) : Takes d p is js a :=
  fun s hd hi => by
    rw [hpq s]
    exact h s hd hi

theorem Takes.trans (h : Takes d p is js a) (hab : SameShape a b) : Takes d p is js b := fun s hd hi => by
  obtain ⟨e, t, hr, he, ht⟩ := h s hd hi
  exact ⟨e, t, hr, he.trans hab, ht⟩

theorem takes_pure (h : SameShape a b) : Takes d (pure a) is is b := fun s hd hi => ⟨a, s, rfl, h, hd, hi, rfl⟩

theorem Takes.bind (hp : Takes d p is is₁ a) (hf : ∀ b, SameShape b a → Takes d (f b) is₁ js c) :
    Takes d (p >>= f) is js c := fun s hd hi => by
  obtain ⟨b, t, hr, hb, htd, hti, htf⟩ := hp s hd hi
  obtain ⟨e, u, hr', he, hud, hui, huf⟩ := hf b hb t htd hti
  exact ⟨e, u, by rw [run_bind_ok hr, hr'], he, hud, hui, huf.trans htf⟩

theorem takes_located {start : Span} {x : Located α} (h : SameShape a x.node) :
    Takes d (located start a) is is x :=
  fun s hd hi => ⟨_, s, run_located start a s, h.located, hd, hi, rfl⟩

theorem Takes.deeper {limit : Nat} (hd : d < limit) (h : Takes (d + 1) p is js a) :
    Takes d (deeper limit p) is js a := fun s hs hi => by
  obtain ⟨b, t, hr, hb, htd, hti, htf⟩ := h s.down (congrArg (· + 1) hs) hi
  exact ⟨b, t.up, deeper_ok.mpr ⟨hs ▸ hd, t, hr, rfl⟩, hb, by simp [State.up, htd], hti, htf⟩

section
variable {step : α → Parser (ForInStep α)} (hr : Rounds step)
include hr

theorem Takes.iterate_done (h : Takes d (step a) is js (.done b)) : Takes d (iterate step a) is js b := by
  refine .congr (run_iterate hr a) (h.bind fun r hround => ?_)
  cases r with
  | yield b => cases hround
  | done b => exact takes_pure (ForInStep.done.inj hround)

theorem Takes.iterate_yield {e : α} (h : Takes d (step a) is is₁ (.yield b))
    (hrest : ∀ b', SameShape b' b → Takes d (iterate step b') is₁ js e) : Takes d (iterate step a) is js e := by
  refine .congr (run_iterate hr a) (h.bind fun r hround => ?_)
  cases r with
  | yield b' => exact hrest b' (ForInStep.yield.inj hround)
  | done b' => cases hround

end

end

-- ---------------------------------------------------------------------------
-- Looking ahead
-- ---------------------------------------------------------------------------

section
variable [HasSpans β] {c : β} {kind : TokenKind}

theorem Takes.look_bind {p : Parser α} {f : α → Parser β} {look : State → α}
    (hp : ∀ s, p.run s = (.ok (look s), s)) (hf : ∀ s, s.items = is → Takes d (f (look s)) is js c) :
    Takes d (p >>= f) is js c := fun s hd hi => by
  rw [run_bind_ok (hp s)]
  exact hf s hi s hd hi

theorem Takes.here_bind {f : Span → Parser β} (hf : ∀ span, Takes d (f span) is js c) :
    Takes d (here >>= f) is js c :=
  .look_bind run_here fun s _ => hf s.here

theorem Takes.peek_bind {f : TokenKind → Parser β} (hf : Takes d (f (headKind is)) is js c) :
    Takes d (peek >>= f) is js c :=
  .look_bind run_peek fun _ hs => State.kind_of_items hs ▸ hf

theorem Takes.nextIs_bind {f : Bool → Parser β} {b : Bool} (h : decide (headKind is = kind) = b)
    (hf : Takes d (f b) is js c) : Takes d (nextIs kind >>= f) is js c :=
  .look_bind (run_nextIs kind) fun _ hs => by
    rw [State.kind_of_items hs, h]
    exact hf

theorem Takes.nextAre_bind {f : Bool → Parser β} {second : TokenKind} {b : Bool}
    (h : decide (headKind is = kind ∧ headKind is.tail = second) = b) (hf : Takes d (f b) is js c) :
    Takes d (nextAre kind second >>= f) is js c :=
  .look_bind (run_nextAre kind second) fun _ hs => by
    rw [State.kind_of_items hs, State.second_of_items hs, h]
    exact hf

theorem Takes.nextOnLine_no_bind {f : Bool → Parser β} (h : headKind is ≠ kind)
    (hf : Takes d (f false) is js c) : Takes d (nextOnLine kind >>= f) is js c :=
  .look_bind (run_nextOnLine kind) fun _ hs => by
    rw [State.kind_of_items hs, decide_eq_false h, Bool.false_and]
    exact hf

-- ---------------------------------------------------------------------------
-- Reading
-- ---------------------------------------------------------------------------

theorem takes_expectAs (what : Expectation) (text : String) :
    Takes d (expectAs what kind) ((kind, text) :: is) is text := fun s hd hi => by
  obtain ⟨x, ts, hrest, hx, hnext⟩ := State.rest_of_items hi
  obtain ⟨hkind, rfl⟩ := Prod.mk.inj hx
  refine ⟨x.token.text, s.next, ?_, .refl _, s.advances_next.depth.trans hd, hnext, s.faults_next⟩
  rw [run_expectAs, hrest]
  exact if_pos hkind

theorem takes_expect {text : String} : Takes d (expect kind) ((kind, text) :: is) is () :=
  (takes_expectAs _ text).bind fun _ _ => takes_pure (.refl ())

theorem takes_identifier (name : String) : Takes d identifier ((.identifier, name) :: is) is name :=
  takes_expectAs _ name

theorem takes_accept {text : String} : Takes d (accept kind) ((kind, text) :: is) is true := fun s hd hi => by
  obtain ⟨x, ts, hrest, hx, hnext⟩ := State.rest_of_items hi
  refine ⟨true, s.next, ?_, .refl _, s.advances_next.depth.trans hd, hnext, s.faults_next⟩
  rw [run_accept, State.kind_of_items hi]
  exact if_pos rfl

theorem takes_accept_no (h : headKind is ≠ kind) : Takes d (accept kind) is is false := fun s hd hi => by
  refine ⟨false, s, ?_, .refl _, hd, hi, rfl⟩
  rw [run_accept, State.kind_of_items hi]
  exact if_neg h

theorem Takes.accept_bind {f : Bool → Parser β} {text : String} (hf : Takes d (f true) is js c) :
    Takes d (accept kind >>= f) ((kind, text) :: is) js c :=
  takes_accept.bind fun b (hb : b = true) => hb ▸ hf

theorem Takes.accept_no_bind {f : Bool → Parser β} (h : headKind is ≠ kind) (hf : Takes d (f false) is js c) :
    Takes d (accept kind >>= f) is js c :=
  (takes_accept_no h).bind fun b (hb : b = false) => hb ▸ hf

theorem Takes.expect_bind {f : Unit → Parser β} {text : String} (hf : Takes d (f ()) is js c) :
    Takes d (expect kind >>= f) ((kind, text) :: is) js c :=
  takes_expect.bind fun _ _ => hf

theorem Takes.identifier_bind {f : String → Parser β} {name : String} (hf : Takes d (f name) is js c) :
    Takes d (identifier >>= f) ((.identifier, name) :: is) js c :=
  (takes_identifier name).bind fun b (hb : b = name) => hb ▸ hf

end

end Linewise.Parser
