import Linewise.Proofs.Parsing.Change

/-!
# Runs on changed input

`Sim` is what it means that a run does not notice a change: the run on the changed state is the changed
run. It is kept by sequencing, so a change is carried through the grammar production by production.
-/

namespace Linewise.Change

open Linewise.Parser

variable {α β : Type} {m : Change} {s t u : State} {j k : Nat}

def TooDeep (r : Outcome α) : Prop :=
  (∃ x, r.1 = .error x ∧ x.node = .nestingTooDeep) ∨
    ∃ x ∈ r.2.faults.toList, x.node = .nestingTooDeep

/-- The runs that a change is carried through. Where the limit of nesting is changed, it must not have
been met. Where tokens are changed, the run has to answer, without faults and `k` terminals at least in
front of the seam. -/
structure Regular (m : Change) (k : Nat) (s : State) (r : Outcome α) : Prop where
  capped : m.capped = true → ¬TooDeep r
  clean : ∀ sm, m.seam = some sm →
    (∃ a, r.1 = .ok a) ∧ r.2.faults = s.faults ∧ sm.kept + k ≤ r.2.rest.length

/-- From the state `s` on, the second parser does to the changed input what the first one does to the
input, if it does it in a regular way. -/
structure Sim [HasSpans α] (m : Change) (k : Nat) (s : State) (p q : Parser α) : Prop where
  advances : Advances s (p.run s).2
  thrown : ∀ x t, p.run s = (.error x, t) → x.node.isMissingSeparator = false
  run : m.fits s.rest → m.Regular k s (p.run s) → q.run (m.state s) = m.outcome (p.run s)

-- ---------------------------------------------------------------------------
-- Sequencing
-- ---------------------------------------------------------------------------

theorem Regular.before (h : m.Regular k s r) (hs : Advances s r.2) : m.Before k s :=
  fun sm hsm => Nat.le_trans (h.clean sm hsm).2.2 hs.length_le

theorem Read.of_lt (hs : m.fits s.rest) (h : t.rest.length < s.rest.length) : m.Read t :=
  Nat.lt_of_lt_of_le h (m.fits_total _ hs)

theorem Regular.first {r : Outcome β} {a : α} (h : m.Regular k s r) (hst : Advances s t)
    (htr : Advances t r.2)
    (hj : ∀ sm, m.seam = some sm → sm.kept + k ≤ r.2.rest.length → sm.kept + j ≤ t.rest.length) :
    m.Regular j s (.ok a, t) where
  capped hc hdeep := by
    rcases hdeep with ⟨x, hx, -⟩ | ⟨x, hx, hn⟩
    · cases hx
    · exact h.capped hc (.inr ⟨x, htr.faults.subset hx, hn⟩)
  clean sm hsm := by
    obtain ⟨-, hfaults, hle⟩ := h.clean sm hsm
    exact ⟨⟨a, rfl⟩, faults_between hst htr hfaults, hj sm hsm hle⟩

theorem Regular.second {r : Outcome β} (h : m.Regular k s r) (hst : Advances s t)
    (htr : Advances t r.2) : m.Regular k t r where
  capped := h.capped
  clean sm hsm := by
    obtain ⟨hok, hfaults, hle⟩ := h.clean sm hsm
    exact ⟨hok, hfaults.trans (faults_between hst htr hfaults).symm, hle⟩

theorem Regular.of_error {x : Located SyntaxFault} (h : m.Regular k s ((.error x, t) : Outcome β)) :
    m.Regular j s ((.error x, t) : Outcome α) where
  capped hc hdeep := by
    rcases hdeep with ⟨y, hy, hn⟩ | hdeep
    · cases hy
      exact h.capped hc (.inl ⟨x, rfl, hn⟩)
    · exact h.capped hc (.inr hdeep)
  clean sm hsm := by
    obtain ⟨⟨a, ha⟩, -⟩ := h.clean sm hsm
    cases ha

section
variable [HasSpans α] [HasSpans β] {p q p' q' : Parser α} {f g : α → Parser β}

theorem Sim.of_moves (hp : Moves p)
    (h : m.fits s.rest → m.Regular k s (p.run s) → q.run (m.state s) = m.outcome (p.run s)) :
    m.Sim k s p q :=
  ⟨hp.advances s, hp.thrown s, h⟩

theorem Sim.congr (hp : p.run s = p'.run s) (hq : q.run (m.state s) = q'.run (m.state s))
    (h : m.Sim k s p' q') : m.Sim k s p q :=
  ⟨hp ▸ h.advances, hp ▸ h.thrown, fun hs hr => hq ▸ hp ▸ h.run hs (hp ▸ hr)⟩

theorem Sim.wlog (hp : Moves p) (h : m.fits s.rest → m.Before k s → m.Sim k s p q) :
    m.Sim k s p q :=
  .of_moves hp fun hs hr => (h hs (hr.before (hp.advances s))).run hs hr

/-- A parser that reads begins further in front of the seam than it ends. -/
theorem Sim.within (hp : Reads p) (h : m.fits s.rest → m.Before (k + 1) s → m.Sim k s p q) :
    m.Sim k s p q :=
  .of_moves hp.toMoves fun hs hr => by
    refine (h hs fun sm hsm => ?_).run hs hr
    obtain ⟨⟨a, ha⟩, -, hle⟩ := hr.clean sm hsm
    have := hp.shorter (Prod.ext ha rfl : p.run s = (.ok a, (p.run s).2))
    omega

theorem Sim.inside (hp : Reads p) (h : m.fits s.rest → m.Inside s → m.Sim k s p q) :
    m.Sim k s p q :=
  .within hp fun hs hb => h hs (hb.mono (Nat.le_add_left 1 k))

/-- What the second parser reads counts for the margin that the first one has to keep. -/
theorem Sim.bind_of (hp : m.Sim j s p q)
    (hf : ∀ a t, p.run s = (.ok a, t) → m.Sim k t (f a) (g (mapSpans m.span a)))
    (hj : ∀ a t b u, p.run s = (.ok a, t) → (f a).run t = (.ok b, u) →
      u.rest.length + j ≤ t.rest.length + k) :
    m.Sim k s (p >>= f) (q >>= g) where
  advances := by
    have h := hp.advances
    rw [run_bind]
    rcases heq : p.run s with ⟨_ | a, t⟩ <;> rw [heq] at h
    · exact h
    · exact h.trans (hf a t heq).advances
  thrown x t h := by
    rw [run_bind] at h
    rcases heq : p.run s with ⟨_ | a, u⟩ <;> rw [heq] at h
    · cases h
      exact hp.thrown _ _ heq
    · exact (hf a u heq).thrown x t h
  run hs hr := by
    have h := hp.advances
    rcases heq : p.run s with ⟨x | a, t⟩ <;> rw [heq] at h
    · rw [run_bind_error heq] at hr ⊢
      refine run_bind_error ?_
      rw [hp.run hs (heq ▸ hr.of_error), heq]
      rfl
    · have hat := hf a t heq
      rw [run_bind_ok heq] at hr ⊢
      have hfirst : m.Regular j s (.ok a, t) := hr.first h hat.advances fun sm hsm hle => by
        obtain ⟨⟨b, hb⟩, -⟩ := hr.clean sm hsm
        have := hj a t b ((f a).run t).2 heq (Prod.ext hb rfl)
        omega
      have hq : q.run (m.state s) = (.ok (mapSpans m.span a), m.state t) := by
        rw [hp.run hs (heq ▸ hfirst), heq]
        rfl
      rw [run_bind_ok hq]
      exact hat.run (m.fits_suffix _ _ h.rest hs) (hr.second h hat.advances)

theorem Sim.bind (hp : m.Sim k s p q)
    (hf : ∀ a t, p.run s = (.ok a, t) → m.Sim k t (f a) (g (mapSpans m.span a))) :
    m.Sim k s (p >>= f) (q >>= g) :=
  hp.bind_of hf fun a t b u ha hb => by
    have := (hf a t ha).advances.length_le
    rw [hb] at this
    simp only at this
    omega

theorem Sim.bind_reads (hp : m.Sim 1 s p q) (hr : ∀ a, Reads (f a))
    (hf : ∀ a t, p.run s = (.ok a, t) → m.Sim k t (f a) (g (mapSpans m.span a))) :
    m.Sim k s (p >>= f) (q >>= g) :=
  hp.bind_of hf fun a t b u _ hb => by
    have := (hr a).shorter hb
    omega

/-- Once a token is read, it stays read. -/
theorem Sim.bind_read (hr : m.Read s) (hp : m.Sim k s p q)
    (hf : ∀ a t, m.Read t → m.Sim k t (f a) (g (mapSpans m.span a))) :
    m.Sim k s (p >>= f) (q >>= g) :=
  hp.bind fun a t ht => hf a t (hr.advances (by simpa [ht] using hp.advances))

theorem Sim.bind_first (hs : m.fits s.rest) (hr : Reads p) (hp : m.Sim k s p q)
    (hf : ∀ a t, m.Read t → m.Sim k t (f a) (g (mapSpans m.span a))) :
    m.Sim k s (p >>= f) (q >>= g) :=
  hp.bind fun a t ht => hf a t (.of_lt hs (hr.shorter ht))

theorem Sim.ite {c : Prop} [Decidable c] (hp : c → m.Sim k s p q) (hn : ¬c → m.Sim k s p' q') :
    m.Sim k s (if c then p else p') (if c then q else q') := by
  split
  · exact hp ‹_›
  · exact hn ‹_›

-- ---------------------------------------------------------------------------
-- Looking ahead
-- ---------------------------------------------------------------------------

theorem sim_pure {a b : α} (h : b = mapSpans m.span a) :
    m.Sim k s (pure a) (pure b) :=
  .of_moves (moves_pure a) fun _ _ => by rw [h]; rfl

theorem Sim.look_bind {γ : Type} {p : Parser γ} {look : State → γ} {f g : γ → Parser β}
    (hp : ∀ s, p.run s = (.ok (look s), s)) (h : m.Sim k s (f (look s)) (g (look (m.state s)))) :
    m.Sim k s (p >>= f) (p >>= g) :=
  h.congr (run_bind_ok (hp s)) (run_bind_ok (hp (m.state s)))

theorem Sim.same_look_bind {γ : Type} {p : Parser γ} {look : State → γ} {f g : γ → Parser β}
    (hp : ∀ s, p.run s = (.ok (look s), s))
    (hlook : m.fits s.rest → m.Before 0 s → look (m.state s) = look s)
    (h : m.Sim k s (f (look s)) (g (look s))) : m.Sim k s (p >>= f) (p >>= g) := by
  have hrun := run_bind_ok (f := f) (hp s)
  refine ⟨hrun ▸ h.advances, hrun ▸ h.thrown, fun hs hr => ?_⟩
  rw [hrun] at hr ⊢
  rw [run_bind_ok (hp _), hlook hs ((hr.before h.advances).mono (Nat.zero_le k))]
  exact h.run hs hr

theorem Sim.peek_bind {f g : TokenKind → Parser β} (hi : m.Inside s)
    (h : m.Sim k s (f s.kind) (g s.kind)) : m.Sim k s (peek >>= f) (peek >>= g) :=
  .same_look_bind run_peek (fun _ _ => kind_state hi) h

theorem Sim.nextIs_bind_inside {f g : Bool → Parser β} {kind : TokenKind} (hi : m.Inside s)
    (h : m.Sim k s (f (s.kind = kind)) (g (s.kind = kind))) :
    m.Sim k s (nextIs kind >>= f) (nextIs kind >>= g) :=
  .same_look_bind (run_nextIs kind) (fun _ _ => by rw [kind_state hi]) h

theorem Sim.nextIs_bind {f g : Bool → Parser β} {kind : TokenKind} (hk : kind.joins = true)
    (h : m.Sim k s (f (s.kind = kind)) (g (s.kind = kind))) :
    m.Sim k s (nextIs kind >>= f) (nextIs kind >>= g) :=
  .same_look_bind (run_nextIs kind)
    (fun hs hb => decide_eq_decide.mpr (kind_eq_state hk hb hs)) h

theorem Sim.nextAre_bind_of {f g : Bool → Parser β} {first second : TokenKind}
    (hlook : m.fits s.rest → m.Before 0 s →
      ((m.state s).kind = first ∧ (m.state s).second = second ↔ s.kind = first ∧ s.second = second))
    (h : m.Sim k s (f (s.kind = first ∧ s.second = second))
      (g (s.kind = first ∧ s.second = second))) :
    m.Sim k s (nextAre first second >>= f) (nextAre first second >>= g) :=
  .same_look_bind (run_nextAre first second)
    (fun hs hb => decide_eq_decide.mpr (hlook hs hb)) h

theorem Sim.nextAre_bind_inside {f g : Bool → Parser β} {first second : TokenKind}
    (hsecond : second.joins = true) (hi : m.Inside s)
    (h : m.Sim k s (f (s.kind = first ∧ s.second = second))
      (g (s.kind = first ∧ s.second = second))) :
    m.Sim k s (nextAre first second >>= f) (nextAre first second >>= g) :=
  .nextAre_bind_of (fun hs _ => by rw [kind_state hi, second_eq_state hsecond hi hs]) h

theorem Sim.nextAre_bind_within {f g : Bool → Parser β} {first second : TokenKind}
    (hb : m.Before 2 s)
    (h : m.Sim k s (f (s.kind = first ∧ s.second = second))
      (g (s.kind = first ∧ s.second = second))) :
    m.Sim k s (nextAre first second >>= f) (nextAre first second >>= g) := by
  have hi : m.Inside s := hb.mono (Nat.le_succ 1)
  exact .nextAre_bind_of (fun hs _ => by rw [kind_state hi, second_eq_of_front hi hs (.inl hb)]) h

theorem Sim.nextAre_bind_dot {f g : Bool → Parser β} {second : TokenKind}
    (h : m.Sim k s (f (s.kind = .dot ∧ s.second = second))
      (g (s.kind = .dot ∧ s.second = second))) :
    m.Sim k s (nextAre .dot second >>= f) (nextAre .dot second >>= g) := by
  refine .nextAre_bind_of (fun hs hb => ?_) h
  rw [kind_eq_state rfl hb hs]
  by_cases hi : m.Inside s
  · exact and_congr_right fun hk => by rw [second_eq_of_front hi hs (.inr (.inl hk))]
  · refine iff_of_false (fun hdot => ?_) fun hdot => ?_
    all_goals
      have hends := endsItem_at_seam hb hs hi
      rw [hdot.1] at hends
      cases hends

theorem Sim.nextOnLine_bind {f g : Bool → Parser β} {kind : TokenKind} (hk : kind.opens = true)
    (hr : m.Read s) (h : ∀ b : Bool, m.Sim k s (f b) (g b)) :
    m.Sim k s (nextOnLine kind >>= f) (nextOnLine kind >>= g) := by
  refine .same_look_bind (run_nextOnLine kind) (fun hs hb => ?_) (h _)
  by_cases hi : m.Inside s
  · rw [kind_state hi, head?_state hi]
    cases s.rest.head? with
    | none => rfl
    | some x => simp only [Option.map_some, Option.all_some, mark_onNewLine hr]
  · have hne : s.kind ≠ kind := by
      rintro rfl
      have hends := endsItem_at_seam hb hs hi
      simp [TokenKind.endsItem_of_opens hk] at hends
    rw [decide_eq_false hne, Bool.false_and]
    by_cases hnew : (m.state s).kind = kind
    · rw [apart_at_seam hb hi (hnew ▸ hk), Bool.not_true, Bool.and_false]
    · rw [decide_eq_false hnew, Bool.false_and]

theorem sim_here (hi : m.Inside s) : m.Sim k s here here :=
  .of_moves moves_here fun _ _ => by
    rw [run_here, run_here, here_state hi]
    rfl

theorem Sim.here_bind {f g : Span → Parser β}
    (h : ∀ start, (m.Inside s → start = m.span s.here) → m.Sim k s (f s.here) (g start)) :
    m.Sim k s (here >>= f) (here >>= g) :=
  .look_bind run_here (h _ here_state)

theorem sim_located {start start' : Span} {a b : α} (hr : m.Read s)
    (hs : start' = m.span start) (hb : b = mapSpans m.span a) :
    m.Sim k s (located start a) (located start' b) :=
  .of_moves (moves_located _ _) fun _ _ => by
    have hprevious : (m.state s).previous = m.span s.previous := if_pos hr
    rw [run_located, run_located, hprevious, hs, hb, ← m.span_merge]
    rfl

-- ---------------------------------------------------------------------------
-- Failing
-- ---------------------------------------------------------------------------

omit [HasSpans α] in
theorem Regular.seam_none (h : m.Regular k s ((.error x, t) : Outcome α)) : m.seam = none := by
  cases hsm : m.seam with
  | none => rfl
  | some sm =>
    obtain ⟨⟨a, ha⟩, -⟩ := h.clean sm hsm
    cases ha

theorem inside_of_none (h : m.seam = none) : m.Before k s := fun sm hsm => by
  rw [h] at hsm
  cases hsm

theorem sim_fail {x : SyntaxFault} {span span' : Span} (hx : x.isMissingSeparator = false)
    (hs : m.seam = none → span' = m.span span) :
    m.Sim k s (fail x span : Parser α) (fail x span') :=
  .of_moves (reads_fail (P := fun _ => True) hx).toMoves fun _ hr => by
    rw [run_fail] at hr ⊢
    rw [run_fail, hs hr.seam_none]
    rfl

theorem sim_fail_here {x : SyntaxFault} (hx : x.isMissingSeparator = false) :
    m.Sim k s (do fail x (← here) : Parser α) (do fail x (← here)) :=
  .here_bind fun _ hstart => sim_fail hx fun hn => hstart (inside_of_none hn)

theorem sim_unexpected (what : Expectation) :
    m.Sim k s (unexpected what : Parser α) (unexpected what) :=
  .of_moves (reads_unexpected (P := fun _ => True) what).toMoves fun _ hr => by
    rw [run_unexpected] at hr ⊢
    have hi : m.Inside s := inside_of_none hr.seam_none
    rw [run_unexpected, kind_state hi, here_state hi]
    rfl

theorem keeps_of_node {x : Located SyntaxFault} (hx : x.node.isMissingSeparator = false) :
    m.keeps x = true := by
  simp [keeps, hx]

theorem sim_report {x : Located SyntaxFault} (hx : m.keeps x = true) :
    m.Sim k s (Parser.report x) (Parser.report (m.fault x)) :=
  .of_moves (moves_report x) fun _ _ => by
    rw [run_report, run_report]
    simp [outcome, answer, state, faults, hx]

theorem sim_report_drop {x : Located SyntaxFault} (hx : m.keeps x = false) :
    m.Sim k s (Parser.report x) (pure ()) :=
  .of_moves (moves_report x) fun _ _ => by
    rw [run_report, run_pure]
    simp [outcome, answer, state, faults, hx]

omit [HasSpans α] in
theorem Regular.seam_none_of_reported {x : Located SyntaxFault} {r : Outcome α}
    (h : m.Regular k s r) (hx : (s.faults.push x).toList <+: r.2.faults.toList) : m.seam = none := by
  cases hsm : m.seam with
  | none => rfl
  | some sm =>
    have hle := hx.length_le
    rw [(h.clean sm hsm).2.1, Array.toList_push, List.length_append, List.length_singleton] at hle
    omega

theorem Sim.report_bind {x y : Located SyntaxFault} {f g : Unit → Parser β} (hf : Moves (f ()))
    (h : m.seam = none → m.Sim k s (Parser.report x >>= f) (Parser.report y >>= g)) :
    m.Sim k s (Parser.report x >>= f) (Parser.report y >>= g) :=
  .of_moves ((moves_report x).bind fun _ => hf) fun hs hr => by
    refine (h (hr.seam_none_of_reported (x := x) ?_)).run hs hr
    rw [run_bind_ok (run_report x s)]
    exact (hf.advances { s with faults := s.faults.push x }).faults

/-- A fault that is caught has to be reported at once. -/
theorem Sim.attempt_bind {f g : Except (Located SyntaxFault) α → Parser β}
    {f' : Located SyntaxFault → Unit → Parser β} (hp : m.Sim k s p q)
    (hok : ∀ a t, p.run s = (.ok a, t) → m.Sim k t (f (.ok a)) (g (.ok (mapSpans m.span a))))
    (herror : ∀ x t, p.run s = (.error x, t) → m.Sim k t (f (.error x)) (g (.error (m.fault x))))
    (hreport : ∀ x, f (.error x) = Parser.report x >>= f' x) (hmoves : ∀ x, Moves (f' x ())) :
    m.Sim k s (attempt p >>= f) (attempt q >>= g) := by
  have hadv := hp.advances
  rcases heq : p.run s with ⟨x | a, t⟩ <;> rw [heq] at hadv
  all_goals
    have hrun {r : Except _ α} (h : q.run (m.state s) = (m.answer r, m.state t)) :
        (attempt q >>= g).run (m.state s) = (g (m.answer r)).run (m.state t) := by
      rw [run_bind_ok (run_attempt q _), h]
    have hrun' : (attempt p >>= f).run s = (f (p.run s).1).run (p.run s).2 :=
      run_bind_ok (run_attempt p s)
    rw [heq] at hrun'
  · have hx := herror x t heq
    refine ⟨hrun' ▸ hadv.trans hx.advances, fun y u => hrun' ▸ hx.thrown y u, fun hs hr => ?_⟩
    rw [hrun'] at hr ⊢
    have hfound : (t.faults.push x).toList <+: ((f (.error x)).run t).2.faults.toList := by
      rw [hreport x, run_bind_ok (run_report x t)]
      exact ((hmoves x).advances { t with faults := t.faults.push x }).faults
    have hregular : m.Regular k s ((.error x, t) : Outcome α) := by
      refine ⟨fun hc hdeep => hr.capped hc (.inr ?_), fun sm hsm => ?_⟩
      · rcases hdeep with ⟨y, hy, hn⟩ | ⟨y, hy, hn⟩
        · cases hy
          exact ⟨x, hfound.subset (by simp), hn⟩
        · exact ⟨y, hx.advances.faults.subset hy, hn⟩
      · rw [(hr.second hadv hx.advances).seam_none_of_reported hfound] at hsm
        cases hsm
    rw [hrun (heq ▸ hp.run hs (heq ▸ hregular))]
    exact hx.run (m.fits_suffix _ _ hadv.rest hs) (hr.second hadv hx.advances)
  · have ha := hok a t heq
    refine ⟨hrun' ▸ hadv.trans ha.advances, fun y u => hrun' ▸ ha.thrown y u, fun hs hr => ?_⟩
    rw [hrun'] at hr ⊢
    have hregular : m.Regular k s (.ok a, t) := hr.first hadv ha.advances fun sm hsm hle =>
      Nat.le_trans hle ha.advances.length_le
    rw [hrun (heq ▸ hp.run hs (heq ▸ hregular))]
    exact ha.run (m.fits_suffix _ _ hadv.rest hs) (hr.second hadv ha.advances)

-- ---------------------------------------------------------------------------
-- Reading
-- ---------------------------------------------------------------------------

theorem sim_advance (hi : m.Inside s) : m.Sim k s advance advance :=
  .of_moves moves_advance fun hf _ => by
    rw [run_advance, run_advance, next_state hi hf]
    rfl

theorem sim_accept_inside {kind : TokenKind} (hi : m.Inside s) (hk : kind ≠ .eof) :
    m.Sim k s (accept kind) (accept kind) :=
  .of_moves (reads_accept hk).toMoves fun hf _ => by
    rw [run_accept, run_accept, kind_state hi]
    split
    · rw [next_state hi hf]
      rfl
    · rfl

theorem sim_accept {kind : TokenKind} (hk : kind.joins = true) :
    m.Sim k s (accept kind) (accept kind) := by
  have hne : kind ≠ .eof := by
    rintro rfl
    cases hk
  refine .wlog (reads_accept hne).toMoves fun hs hb => ?_
  by_cases hi : m.Inside s
  · exact sim_accept_inside hi hne
  · refine .of_moves (reads_accept hne).toMoves fun _ _ => ?_
    have hb0 : m.Before 0 s := hb.mono (Nat.zero_le k)
    have hends := endsItem_at_seam hb0 hs hi
    have hne' : s.kind ≠ kind := by
      rintro rfl
      simp [TokenKind.endsItem_of_joins hk] at hends
    rw [run_accept, run_accept, if_neg hne', if_neg (mt (kind_eq_state hk hb0 hs).mp hne')]
    rfl

theorem sim_expectAs (what : Expectation) (kind : TokenKind) :
    m.Sim k s (expectAs what kind) (expectAs what kind) := by
  refine .inside (reads_expectAs what kind) fun hf hi => ?_
  refine .of_moves (reads_expectAs what kind).toMoves fun _ _ => ?_
  have hrest : (m.state s).rest = m.rest s.rest := rfl
  rw [run_expectAs, run_expectAs, hrest, kind_state hi, here_state hi]
  cases hs : s.rest with
  | nil =>
    rw [rest_nil (hi.seam_none hs)]
    rfl
  | cons x ts =>
    rw [rest_cons hs hi, next_state hi hf]
    simp only [mark_kind, mark_text]
    split <;> rfl

theorem sim_expect (kind : TokenKind) : m.Sim k s (expect kind) (expect kind) :=
  (sim_expectAs _ kind).bind fun _ _ _ => sim_pure rfl

theorem Sim.bind_expect {f g : α → Parser β} {kind : TokenKind} (hp : m.Sim 1 s p q)
    (hf : ∀ a t, m.Sim k t (f a) (g (mapSpans m.span a))) :
    m.Sim k s (p >>= fun a => expect kind >>= fun _ => f a)
      (q >>= fun a => expect kind >>= fun _ => g a) :=
  hp.bind_of (fun a t _ => (sim_expect kind).bind fun _ u _ => hf a u) fun a t b u _ hb => by
    obtain ⟨_, v, hv, hu⟩ := bind_ok.mp hb
    have hlt := (reads_expect kind).shorter hv
    have hle := (hf a v).advances.length_le
    rw [hu] at hle
    simp only at hle
    omega

theorem sim_expectWord (word : Keyword) : m.Sim k s (expectWord word) (expectWord word) :=
  sim_expect _

theorem sim_identifier : m.Sim k s identifier identifier := sim_expectAs _ _

theorem Sim.deeper {limit limit' : Nat}
    (hl : limit = limit' ∨ m.capped = true ∧ limit ≤ limit') (hp : m.Sim k s.down p q) :
    m.Sim k s (deeper limit p) (deeper limit' q) where
  advances := hp.advances.deeper limit
  thrown x t h := by
    rcases deeper_error h with ⟨rfl, -⟩ | ⟨u, hu, -⟩
    · rfl
    · exact hp.thrown x u hu
  run hs hr := by
    have hdepth : (m.state s).depth = s.depth := rfl
    rw [run_deeper] at hr ⊢
    rw [run_deeper, hdepth]
    by_cases hd : s.depth ≥ limit
    · rw [if_pos hd] at hr ⊢
      rcases hl with rfl | ⟨hc, -⟩
      · rw [if_pos hd, here_state (inside_of_none hr.seam_none)]
        rfl
      · exact absurd (.inl ⟨_, rfl, rfl⟩) (hr.capped hc)
    · rw [if_neg hd] at hr ⊢
      rw [if_neg (by omega)]
      have hdown : q.run (m.state s).down = m.outcome (p.run s.down) := hp.run hs ⟨hr.capped, hr.clean⟩
      rw [hdown]
      rfl

end

end Linewise.Change
