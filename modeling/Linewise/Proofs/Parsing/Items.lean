import Linewise.Proofs.Parsing.Loops

/-!
# Sequences item by item

`Items` is a run over items that can all be read, whether what separates them is missing or not. It
depends on where it begins only up to the semicolons that stand there. A sequence that reports nothing but
missing separators is such a run.
-/

namespace Linewise.Parser

variable {α β : Type} {p : Parser α} {node : α} {nodes nodes' : List α} {items out : Array α}
  {inBlock : Bool} {s s' t u : State}

-- ---------------------------------------------------------------------------
-- Semicolons
-- ---------------------------------------------------------------------------

def State.skipped (s : State) : State := (skipSemicolons.run s).2

theorem run_skipSemicolons (s : State) : skipSemicolons.run s = (.ok (), s.skipped) := by
  obtain ⟨_, t, h⟩ := answers_skipSemicolons s
  rw [State.skipped, h]

theorem run_goOnAt (sign : TokenKind) (b : β) (s : State) :
    (goOnAt sign b).run s =
      if s.kind = sign then (.ok (.yield b), s.next) else (.ok (.done b), s) := by
  unfold goOnAt
  rw [run_bind, run_accept]
  by_cases h : s.kind = sign
  · rw [if_pos h, if_pos h]
    rfl
  · rw [if_neg h, if_neg h]
    rfl

namespace State

theorem skipped_eq (s : State) :
    s.skipped = if s.kind = .semicolon then s.next.skipped else s := by
  have hrounds : Rounds (goOnAt .semicolon : Unit → _) := rounds_goOnAt (by decide)
  rw [skipped, skipSemicolons, run_iterate hrounds, run_bind, run_goOnAt]
  by_cases h : s.kind = .semicolon
  · rw [if_pos h, if_pos h]
    rfl
  · rw [if_neg h, if_neg h]
    rfl

theorem skipped_of_ne (h : s.kind ≠ .semicolon) : s.skipped = s := by rw [skipped_eq, if_neg h]

theorem skipped_of_semicolon (h : s.kind = .semicolon) : s.skipped = s.next.skipped := by
  rw [skipped_eq, if_pos h]

theorem skipped_induction {P : State → Prop} (stay : ∀ s, s.kind ≠ .semicolon → P s)
    (skip : ∀ s, s.kind = .semicolon → P s.next → P s) (s : State) : P s := by
  induction s using rest_induction with
  | shorter s ih =>
    by_cases hk : s.kind = .semicolon
    · obtain ⟨x, ts, hs⟩ := rest_of_kind hk (by decide)
      exact skip s hk (ih _ (length_next hs))
    · exact stay s hk

theorem kind_skipped (s : State) : s.skipped.kind ≠ .semicolon := by
  induction s using skipped_induction with
  | stay s h => rwa [skipped_of_ne h]
  | skip s h ih => rwa [skipped_of_semicolon h]

theorem skipped_skipped (s : State) : s.skipped.skipped = s.skipped := skipped_of_ne s.kind_skipped

theorem advances_skipped (s : State) : Advances s s.skipped := moves_skipSemicolons.advances s

theorem faults_skipped (s : State) : s.skipped.faults = s.faults := by
  induction s using skipped_induction with
  | stay s h => rw [skipped_of_ne h]
  | skip s h ih =>
    obtain ⟨x, ts, hs⟩ := rest_of_kind h (by decide)
    rw [skipped_of_semicolon h, ih, next_of_cons hs]

-- ---------------------------------------------------------------------------
-- Separators
-- ---------------------------------------------------------------------------

def separated (s : State) : Bool :=
  s.kind = .semicolon || (s.rest.isEmpty || s.rest.head?.any (·.closing) ||
    s.rest.head?.all (·.terminated))

/-- The state behind what separates an item from the next one, which is reported if it is missing. -/
def after (s : State) : State :=
  if s.separated then s.skipped
  else { s with faults := s.faults.push ⟨.missingSeparator s.kind, s.here⟩ }

theorem after_of_separated (h : s.separated = true) : s.after = s.skipped := if_pos h

theorem advances_after (s : State) : Advances s s.after := by
  unfold after
  split
  · exact s.advances_skipped
  · exact moves_report _ |>.advances s

end State

theorem run_separator (s : State) : separator.run s = (.ok (), s.after) := by
  unfold separator
  rw [run_bind_ok (run_nextIs _ s), State.after, State.separated]
  by_cases hk : s.kind = .semicolon
  · simp only [hk, decide_true, ↓reduceIte, Bool.true_or, run_skipSemicolons]
  · simp only [hk, decide_false, Bool.false_eq_true, ↓reduceIte, Bool.false_or]
    rw [run_bind_ok (run_atEnd s), run_bind_ok (run_atClosing s), run_bind_ok (run_atTerminator s),
      State.skipped_of_ne hk]
    split
    · rfl
    · rw [run_bind_ok (run_peek s), run_bind_ok (run_here s), run_report]

-- ---------------------------------------------------------------------------
-- What is reported
-- ---------------------------------------------------------------------------

def OnlySeparators (s t : State) : Prop :=
  ∃ new, t.faults.toList = s.faults.toList ++ new ∧ ∀ x ∈ new, x.node.isMissingSeparator = true

theorem OnlySeparators.of_eq (h : t.faults = s.faults) : OnlySeparators s t :=
  ⟨[], by simp [h], fun _ hx => absurd hx List.not_mem_nil⟩

theorem OnlySeparators.split (h : OnlySeparators s t) (hsu : Advances s u) (hut : Advances u t) :
    OnlySeparators s u ∧ OnlySeparators u t := by
  obtain ⟨new, hnew, hx⟩ := h
  obtain ⟨xs, hxs⟩ := hsu.faults
  obtain ⟨ys, hys⟩ := hut.faults
  have hboth : xs ++ ys = new := by
    rw [← hys, ← hxs, List.append_assoc] at hnew
    exact List.append_cancel_left hnew
  exact ⟨⟨xs, hxs.symm, fun x h => hx x (hboth ▸ List.mem_append_left ys h)⟩,
    ⟨ys, hys.symm, fun x h => hx x (hboth ▸ List.mem_append_right xs h)⟩⟩

theorem OnlySeparators.not_push {x : Located SyntaxFault} (hx : x.node.isMissingSeparator = false)
    (h : OnlySeparators s { s with faults := s.faults.push x }) : False := by
  obtain ⟨new, hnew, hall⟩ := h
  rw [Array.toList_push] at hnew
  obtain rfl := List.append_cancel_left hnew
  simp [hall x] at hx

-- ---------------------------------------------------------------------------
-- Items
-- ---------------------------------------------------------------------------

/-- Items that can be read one after the other, up to behind what separates the last one. -/
inductive Items (inBlock : Bool) (p : Parser α) : State → List α → State → Prop
  | nil (s : State) : Items inBlock p s [] s.skipped
  | cons {s u t : State} {node : α} {nodes : List α} (hs : s.skipped.stops inBlock = false)
      (hnode : p.run s.skipped = (.ok node, u)) (hrest : Items inBlock p u.after nodes t) :
      Items inBlock p s (node :: nodes) t

namespace Items

theorem congr (h : Items inBlock p s nodes t) (hs : s.skipped = s'.skipped) :
    Items inBlock p s' nodes t := by
  cases h with
  | nil => exact hs ▸ .nil s'
  | cons hmore hnode hrest =>
    rw [hs] at hmore hnode
    exact .cons hmore hnode hrest

theorem advances (hp : Moves p) (h : Items inBlock p s nodes t) : Advances s t := by
  induction h with
  | nil s => exact s.advances_skipped
  | @cons s u t node nodes _ hnode _ ih =>
    exact (s.advances_skipped.trans (hp.advances_ok hnode)).trans (u.advances_after.trans ih)

theorem append (h : Items inBlock p s nodes t) (h' : Items inBlock p t nodes' u) :
    Items inBlock p s (nodes ++ nodes') u := by
  induction h with
  | nil s => exact h'.congr s.skipped_skipped
  | cons hmore hnode _ ih => exact .cons hmore hnode (ih h')

theorem exists_run (hp : Moves p) (h : Items inBlock p s nodes t) (hnode : node ∈ nodes) :
    ∃ v w, v.rest <:+ s.rest ∧ p.run v = (.ok node, w) := by
  induction h with
  | nil s => cases hnode
  | @cons s u t first nodes _ hfirst _ ih =>
    have hfront := s.advances_skipped.rest
    rcases List.mem_cons.mp hnode with rfl | hmem
    · exact ⟨_, u, hfront, hfirst⟩
    · obtain ⟨v, w, hv, hrun⟩ := ih hmem
      have hread := (hp.advances_ok hfirst).trans u.advances_after
      exact ⟨v, w, hv.trans (hread.rest.trans hfront), hrun⟩

theorem last (h : Items inBlock p s (nodes ++ [node]) t) :
    ∃ v w, Items inBlock p s nodes v ∧ v.skipped.stops inBlock = false ∧
      p.run v.skipped = (.ok node, w) ∧ t = w.after.skipped := by
  induction nodes generalizing s with
  | nil =>
    cases h with
    | cons hmore hnode hrest =>
      cases hrest
      exact ⟨_, _, .nil s, by rwa [s.skipped_skipped], by rwa [s.skipped_skipped], rfl⟩
  | cons first nodes ih =>
    cases h with
    | cons hmore hnode hrest =>
      obtain ⟨v, w, hv, hstop, hlast, ht⟩ := ih hrest
      exact ⟨v, w, .cons hmore hnode hv, hstop, hlast, ht⟩

end Items

theorem run_itemRound_ok (h : p.run s = (.ok node, u)) :
    (itemRound inBlock p items).run s = (.ok (.yield (items.push node)), u.after) := by
  unfold itemRound
  rw [run_bind_ok (run_get s), run_bind_ok (run_attempt p s), h]
  dsimp only
  rw [run_bind_ok (run_separator u)]
  rfl

theorem itemRound_ok {r : ForInStep (Array α)} (hp : Moves p)
    (h : (itemRound inBlock p items).run s = (.ok r, t)) (honly : OnlySeparators s t) :
    ∃ node u, p.run s = (.ok node, u) ∧ r = .yield (items.push node) ∧ t = u.after := by
  rcases hitem : p.run s with ⟨fault | node, u⟩
  · exfalso
    have hadv := hp.advances s
    rw [hitem] at hadv
    unfold itemRound at h
    rw [run_bind_ok (run_get s), run_bind_ok (run_attempt p s), hitem] at h
    rw [run_bind_ok (run_report fault u), run_bind_ok (run_get _)] at h
    obtain ⟨_, v, hv, h⟩ := bind_ok.mp h
    cases h
    have hrecover := (moves_recover inBlock _).advances_ok hv
    have hreport := (moves_report fault).advances u
    rw [run_report] at hreport
    have hpushed := (honly.split hadv (hreport.trans hrecover)).2
    exact (hpushed.split hreport hrecover).1.not_push (hp.thrown _ _ _ hitem)
  · rw [run_itemRound_ok hitem] at h
    obtain ⟨hr, rfl⟩ := Prod.mk.inj h
    exact ⟨node, u, rfl, (Except.ok.inj hr).symm, rfl⟩

theorem run_sequenceRound (items : Array α) (s : State) :
    (sequenceRound inBlock p items).run s =
      if s.skipped.stops inBlock then (.ok (.done items), s.skipped)
      else (itemRound inBlock p items).run s.skipped := by
  rw [sequenceRound, run_bind_ok (run_skipSemicolons s), run_bind_ok (run_atStop inBlock s.skipped)]
  split
  · rfl
  · rfl

theorem run_sequence (hp : Reads p) (items : Array α) (s : State) :
    (iterate (sequenceRound inBlock p) items).run s =
      if s.skipped.stops inBlock then (.ok items, s.skipped)
      else (itemRound inBlock p items >>= goOn (sequenceRound inBlock p)).run s.skipped := by
  rw [run_iterate (rounds_sequenceRound inBlock hp), run_bind, run_sequenceRound]
  cases s.skipped.stops inBlock with
  | true => rfl
  | false => rw [if_neg Bool.false_ne_true, if_neg Bool.false_ne_true, run_bind]

theorem Items.iterate (hp : Reads p) (h : Items inBlock p s nodes t)
    (ht : t.stops inBlock = true) (items : Array α) :
    (iterate (sequenceRound inBlock p) items).run s = (.ok (items.toList ++ nodes).toArray, t) := by
  induction h generalizing items with
  | nil s => rw [run_sequence hp, if_pos ht, List.append_nil, Array.toArray_toList]
  | @cons s u t node nodes hs hnode _ ih =>
    rw [run_sequence hp, hs, if_neg Bool.false_ne_true, run_bind_ok (run_itemRound_ok hnode), goOn,
      ih ht]
    simp

theorem items_of_iterate (hp : Reads p)
    (h : (iterate (sequenceRound inBlock p) items).run s = (.ok out, t))
    (honly : OnlySeparators s t) :
    ∃ nodes, out.toList = items.toList ++ nodes ∧ Items inBlock p s nodes t ∧
      t.stops inBlock = true := by
  induction s using State.rest_induction generalizing items with
  | shorter s ih =>
    rw [run_sequence hp] at h
    cases hs : s.skipped.stops inBlock with
    | true =>
      rw [hs, if_pos rfl] at h
      cases h
      exact ⟨[], by simp, .nil s, hs⟩
    | false =>
      rw [hs, if_neg Bool.false_ne_true] at h
      obtain ⟨r, v, hround, hrest⟩ := bind_ok.mp h
      have hmoves := moves_iterate (moves_sequenceRound inBlock hp.toMoves)
      have hvt : Advances v t := by
        cases r with
        | done items' =>
          cases hrest
          exact .refl t
        | yield items' => exact (hmoves items').advances_ok hrest
      have hsv := (moves_itemRound inBlock hp.toMoves items).advances_ok hround
      have hskipped := (honly.split s.advances_skipped (hsv.trans hvt)).2
      obtain ⟨honly', hafter⟩ := hskipped.split hsv hvt
      obtain ⟨node, u, hnode, rfl, rfl⟩ := itemRound_ok hp.toMoves hround honly'
      have hlt := hp.shorter hnode
      have hle := s.advances_skipped.length_le
      have hle' := u.advances_after.length_le
      obtain ⟨nodes, hout, hnodes, ht⟩ := ih u.after (by omega) hrest hafter
      exact ⟨node :: nodes, by simp [hout], .cons hs hnode hnodes, ht⟩

theorem Items.run (hp : Reads p) (h : Items inBlock p s nodes t) (ht : t.stops inBlock = true) :
    (sequenceOf inBlock p).run s = (.ok nodes, t) :=
  bind_ok.mpr ⟨_, t, h.iterate hp ht #[], by simp [run_pure]⟩

/-- A sequence that reports nothing but missing separators has read all of its items. -/
theorem items_of_run (hp : Reads p) (h : (sequenceOf inBlock p).run s = (.ok nodes, t))
    (honly : OnlySeparators s t) : Items inBlock p s nodes t ∧ t.stops inBlock = true := by
  obtain ⟨out, u, hrun, h⟩ := bind_ok.mp h
  cases h
  obtain ⟨nodes, hout, hitems⟩ := items_of_iterate hp hrun honly
  rw [List.nil_append] at hout
  exact hout ▸ hitems

-- ---------------------------------------------------------------------------
-- Sequences without faults
-- ---------------------------------------------------------------------------

/-- All items up to where the sequence ends, without a fault. -/
structure Faultless (inBlock : Bool) (p : Parser α) (s : State) (nodes : List α) (t : State) : Prop where
  items : Items inBlock p s nodes t
  stops : t.stops inBlock = true
  faults : t.faults = s.faults

theorem run_sequenceOf_iff (hp : Reads p) :
    (sequenceOf inBlock p).run s = (.ok nodes, t) ∧ t.faults = s.faults ↔
      Faultless inBlock p s nodes t := by
  constructor
  · rintro ⟨h, hfaults⟩
    obtain ⟨hitems, hstop⟩ := items_of_run hp h (.of_eq hfaults)
    exact ⟨hitems, hstop, hfaults⟩
  · intro h
    exact ⟨h.items.run hp h.stops, h.faults⟩

theorem State.separated_of_faults (h : s.after.faults = s.faults) : s.separated = true := by
  by_cases hs : s.separated = true
  · exact hs
  · rw [after, if_neg hs] at h
    have := congrArg Array.size h
    simp at this

end Linewise.Parser
