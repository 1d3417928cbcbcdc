import Linewise.Proofs.Ast.OpenEnds
import Linewise.Proofs.Parsing.SimulationLoops

/-!
# Runs up to a seam

A production that ends right in front of a seam may have looked at the tokens behind it. `Follows` says that
its run does not notice them, unless its answer is open for them. It is kept by sequencing like `Sim`, and
what is known of the answers is handed on by the productions that end with them.
-/

namespace Linewise

open Linewise.Parser

/-- The next token begins a sequel. One semicolon in front of a branch does not count. -/
def Parser.State.offers (s : State) (sequel : Sequel) : Prop :=
  s.kind = sequel.kind ∨ sequel = .branch ∧ s.kind = .semicolon ∧ s.second = sequel.kind

theorem Parser.State.offers_branch (s : State) :
    s.offers .branch ↔ s.kind = .keyword .elseWord ∨
      s.kind = .semicolon ∧ s.second = .keyword .elseWord := by
  simp [offers, Sequel.kind]

theorem Parser.State.offers_body (s : State) : s.offers .body ↔ s.kind = .leftCurl := by
  simp [offers, Sequel.kind]

theorem Parser.State.kind_congr {s t : State} (h : s.rest = t.rest) : s.kind = t.kind := by
  rw [State.kind, State.kind, h]

theorem Parser.State.offers_congr {s t : State} (h : s.rest = t.rest) {sequel : Sequel} :
    s.offers sequel ↔ t.offers sequel := by
  rw [State.offers, State.offers, State.kind_congr h, State.second, State.second, h]

theorem Parser.State.offers_iff {s : State} {sequel : Sequel} :
    s.offers sequel ↔ sequel.Begins (s.rest.map (·.token.kind)) := by
  have hkind (k : TokenKind) (hk : k ≠ .eof) : s.kind = k ↔ [k] <+: s.rest.map (·.token.kind) := by
    rw [State.kind]
    cases s.rest <;> simp [hk.symm, eq_comm]
  have hsecond (k : TokenKind) (hk : k ≠ .eof) : s.kind = .semicolon ∧ s.second = k ↔
      [.semicolon, k] <+: s.rest.map (·.token.kind) := by
    rw [State.kind, State.second]
    cases hs : s.rest with
    | nil => simp
    | cons x ts => cases ts <;> simp [hk.symm, eq_comm]
  have hne : sequel.kind ≠ .eof := by cases sequel <;> decide
  rw [State.offers, Sequel.Begins, hkind _ hne, hsecond _ hne]

section
variable {sequel : Sequel} {kind : TokenKind} {kinds : List TokenKind}

theorem Sequel.Begins.append (h : sequel.Begins kinds) (more : List TokenKind) :
    sequel.Begins (kinds ++ more) :=
  have hfront : kinds <+: kinds ++ more := List.prefix_append _ _
  h.imp (·.trans hfront) fun ⟨hbranch, hfirst⟩ => ⟨hbranch, hfirst.trans hfront⟩

theorem Sequel.Begins.of_append (hk : kind ≠ sequel.kind) (h : sequel.Begins (kinds ++ [kind])) :
    sequel.Begins kinds := by
  rcases h with h | ⟨hbranch, h⟩
  · cases kinds with
    | nil => simp [hk.symm] at h
    | cons k ks => exact .inl (by simpa using h)
  · rcases kinds with _ | ⟨k, _ | ⟨k', ks⟩⟩
    · simp at h
    · simp [hk.symm] at h
    · exact .inr ⟨hbranch, by simpa using h⟩

end

def Parser.Still (s t : State) : Prop := t.rest = s.rest ∧ t.previous = s.previous

theorem Parser.Advances.still {s t : State} (h : Advances s t) (hle : s.rest.length ≤ t.rest.length) :
    Still s t := by
  rcases h.between with hst | ⟨ws, x, hs, -⟩
  · exact hst
  · rw [hs, List.length_append, List.length_cons] at hle
    omega

theorem Parser.iterate_still {β : Type} {step : β → Parser (ForInStep β)} {b c : β} {s t : State}
    (hr : Rounds step) (hdone : ∀ b s c t, (step b).run s = (.ok (.done c), t) → c = b)
    (h : (iterate step b).run s = (.ok c, t)) (hst : Still s t) : c = b := by
  rw [run_iterate hr] at h
  obtain ⟨r, u, hround, hrest⟩ := bind_ok.mp h
  cases r with
  | done c' =>
    cases hrest
    exact hdone _ _ _ _ hround
  | yield b' =>
    have hlt := (hr b).reads _ _ _ hround trivial
    have hle := ((hr.moves b').advances_ok hrest).length_le
    rw [hst.1] at hle
    omega

namespace Change

variable {α β : Type} {m : Change} {s t u : State}

/-- The answer is open for what stands here after the change. -/
def Opens [HasOpenEnd α] (m : Change) (a : α) (t : State) : Prop :=
  ∃ sequel, (m.state t).offers sequel ∧ openFor sequel t.previous.stop a = true

theorem offers_still {sequel : Sequel} (h : (m.state t).offers sequel) (htu : Still t u) :
    (m.state u).offers sequel :=
  (State.offers_congr (congrArg m.rest htu.1)).mpr h

theorem Opens.still [HasOpenEnd α] {a : α} (h : m.Opens a t) (htu : Still t u) : m.Opens a u := by
  obtain ⟨sequel, hoffers, hopen⟩ := h
  exact ⟨sequel, offers_still hoffers htu, htu.2 ▸ hopen⟩

def Closed (m : Change) : Prop :=
  ∀ t, m.Before 0 t → ¬m.Inside t → ∀ sequel, ¬(m.state t).offers sequel

/-- From the state `s` on, the second parser does to the changed input what the first one does to the
input, unless the run ends at the seam with an answer of which `O` holds there. -/
structure Follows [HasSpans α] (m : Change) (O : α → State → Prop) (s : State) (p q : Parser α) :
    Prop where
  advances : Advances s (p.run s).2
  run : m.fits s.rest → m.Regular 0 s (p.run s) → q.run (m.state s) = m.outcome (p.run s) ∨
    ∃ a t, p.run s = (.ok a, t) ∧ ¬m.Inside t ∧ O a t

section
variable [HasSpans α] [HasSpans β] {O : α → State → Prop} {O' : β → State → Prop}
  {p q p' q' : Parser α} {f g : α → Parser β}

theorem Sim.follows (h : m.Sim 0 s p q) : m.Follows O s p q :=
  ⟨h.advances, fun hs hr => .inl (h.run hs hr)⟩

theorem Sim.follows_of_margin (h : m.Sim 1 s p q) : m.Follows (fun _ _ => True) s p q where
  advances := h.advances
  run hs hr := by
    rcases heq : p.run s with ⟨x | a, t⟩ <;> rw [heq] at hr
    · rw [← heq] at hr ⊢
      exact .inl (h.run hs (heq ▸ (heq ▸ hr : m.Regular 0 s ((.error x, t) : Outcome α)).of_error))
    · by_cases hi : m.Inside t
      · refine .inl ?_
        rw [← heq]
        exact h.run hs (heq ▸ ⟨hr.capped, fun sm hsm => ⟨⟨a, rfl⟩, (hr.clean sm hsm).2.1, hi sm hsm⟩⟩)
      · exact .inr ⟨a, t, rfl, hi, trivial⟩

theorem Follows.sim (h : m.Follows O s p q) (hp : Moves p)
    (hO : ∀ a t, m.Before 0 t → ¬m.Inside t → ¬O a t) : m.Sim 0 s p q :=
  .of_moves hp fun hs hr => by
    rcases h.run hs hr with hrun | ⟨a, t, ht, hi, ha⟩
    · exact hrun
    · rw [ht] at hr
      exact absurd ha (hO a t (fun sm hsm => (hr.clean sm hsm).2.2) hi)

theorem Follows.sim_of_closed [HasOpenEnd α] (h : m.Follows m.Opens s p q) (hp : Moves p)
    (hc : m.Closed) : m.Sim 0 s p q :=
  h.sim hp fun _ t hb hi ⟨sequel, hoffers, _⟩ => hc t hb hi sequel hoffers

theorem Follows.of_moves (hp : Moves p)
    (h : m.fits s.rest → m.Regular 0 s (p.run s) → q.run (m.state s) = m.outcome (p.run s) ∨
      ∃ a t, p.run s = (.ok a, t) ∧ ¬m.Inside t ∧ O a t) : m.Follows O s p q :=
  ⟨hp.advances s, h⟩

theorem Follows.congr (hp : p.run s = p'.run s) (hq : q.run (m.state s) = q'.run (m.state s))
    (h : m.Follows O s p' q') : m.Follows O s p q :=
  ⟨hp ▸ h.advances, fun hs hr => hq ▸ hp ▸ h.run hs (hp ▸ hr)⟩

theorem Follows.wlog (hp : Moves p) (h : m.fits s.rest → m.Before 0 s → m.Follows O s p q) :
    m.Follows O s p q :=
  .of_moves hp fun hs hr => (h hs (hr.before (hp.advances s))).run hs hr

theorem Follows.inside (hp : Reads p) (h : m.fits s.rest → m.Inside s → m.Follows O s p q) :
    m.Follows O s p q :=
  .of_moves hp.toMoves fun hs hr => by
    refine (h hs fun sm hsm => ?_).run hs hr
    obtain ⟨⟨a, ha⟩, -, hle⟩ := hr.clean sm hsm
    have := hp.shorter (Prod.ext ha rfl : p.run s = (.ok a, (p.run s).2))
    omega

theorem still_at_seam (hi : ¬m.Inside t) (h0 : m.Before 0 u) (h : Advances t u) : Still t u := by
  simp only [Before, Classical.not_forall] at hi
  obtain ⟨sm, hsm, hlt⟩ := hi
  have := h0 sm hsm
  exact h.still (by omega)

/-- What is open where the first parser ends has to be open still where the second one ends without having
read anything. -/
theorem Follows.bind (hp : m.Follows O s p q)
    (hf : ∀ a t, p.run s = (.ok a, t) → m.Follows O' t (f a) (g (mapSpans m.span a)))
    (hO : ∀ a t b u, p.run s = (.ok a, t) → O a t → (f a).run t = (.ok b, u) → Still t u → O' b u) :
    m.Follows O' s (p >>= f) (q >>= g) where
  advances := by
    have h := hp.advances
    rw [run_bind]
    rcases heq : p.run s with ⟨_ | a, t⟩ <;> rw [heq] at h
    · exact h
    · exact h.trans (hf a t heq).advances
  run hs hr := by
    have h := hp.advances
    rcases heq : p.run s with ⟨x | a, t⟩ <;> rw [heq] at h
    · rw [run_bind_error heq] at hr ⊢
      rcases hp.run hs (heq ▸ hr.of_error) with hq | ⟨a, t, ha, -⟩
      · refine .inl (run_bind_error ?_)
        rw [hq, heq]
        rfl
      · rw [ha] at heq
        cases heq
    · have hat := hf a t heq
      rw [run_bind_ok heq] at hr ⊢
      have hfirst : m.Regular 0 s (.ok a, t) := hr.first h hat.advances fun sm _ hle =>
        Nat.le_trans hle hat.advances.length_le
      rcases hp.run hs (heq ▸ hfirst) with hq | ⟨a', t', ha, hi, hopen⟩
      · rw [heq] at hq
        rw [run_bind_ok hq]
        exact hat.run (m.fits_suffix _ _ h.rest hs) (hr.second h hat.advances)
      · rw [heq] at ha
        cases ha
        rcases hrun : (f a).run t with ⟨y | b, u⟩
        · rw [hrun] at hr
          exact absurd (inside_of_none hr.seam_none) hi
        · have hadv := hat.advances
          rw [hrun] at hr hadv
          have h0 : m.Before 0 u := fun sm hsm => (hr.clean sm hsm).2.2
          have hstill := still_at_seam hi h0 hadv
          have hu : ¬m.Inside u := fun hin => hi fun sm hsm => hstill.1 ▸ hin sm hsm
          exact .inr ⟨b, u, rfl, hu, hO a t b u heq hopen hrun hstill⟩

theorem Follows.bind_sim (hp : m.Sim 0 s p q)
    (hf : ∀ a t, p.run s = (.ok a, t) → m.Follows O' t (f a) (g (mapSpans m.span a))) :
    m.Follows O' s (p >>= f) (q >>= g) :=
  hp.follows.bind (O := fun _ _ => False) hf fun _ _ _ _ _ h => h.elim

theorem Follows.bind_reads (hp : m.Sim 1 s p q) (hr : ∀ a, Reads (f a))
    (hf : ∀ a t, p.run s = (.ok a, t) → m.Follows O' t (f a) (g (mapSpans m.span a))) :
    m.Follows O' s (p >>= f) (q >>= g) :=
  hp.follows_of_margin.bind hf fun a t b u _ _ hb hst => by
    have := (hr a).shorter hb
    rw [hst.1] at this
    exact absurd this (Nat.lt_irrefl _)

theorem Follows.map {h : α → β} {h' : α → β} (hp : m.Follows O s p q)
    (hm : ∀ a, h' (mapSpans m.span a) = mapSpans m.span (h a))
    (hO : ∀ a t, p.run s = (.ok a, t) → O a t → O' (h a) t) :
    m.Follows O' s (p >>= fun a => pure (h a)) (q >>= fun a => pure (h' a)) :=
  hp.bind (fun a _ _ => (sim_pure (hm a)).follows) fun a t b u ha hopen hb _ => by
    cases hb
    exact hO a t ha hopen

theorem Follows.ite {c : Prop} [Decidable c] (hp : c → m.Follows O s p q)
    (hn : ¬c → m.Follows O s p' q') : m.Follows O s (if c then p else p') (if c then q else q') := by
  split
  · exact hp ‹_›
  · exact hn ‹_›

theorem Follows.same_look_bind {γ : Type} {p : Parser γ} {look : State → γ} {f g : γ → Parser β}
    (hp : ∀ s, p.run s = (.ok (look s), s))
    (hlook : m.fits s.rest → m.Before 0 s → look (m.state s) = look s)
    (h : m.Follows O' s (f (look s)) (g (look s))) : m.Follows O' s (p >>= f) (p >>= g) := by
  have hrun := run_bind_ok (f := f) (hp s)
  refine ⟨hrun ▸ h.advances, fun hs hr => ?_⟩
  rw [hrun] at hr ⊢
  rw [run_bind_ok (hp _), hlook hs (hr.before h.advances)]
  exact h.run hs hr

theorem Follows.peek_bind {f g : TokenKind → Parser β} (hi : m.Inside s)
    (h : m.Follows O' s (f s.kind) (g s.kind)) : m.Follows O' s (peek >>= f) (peek >>= g) :=
  .same_look_bind run_peek (fun _ _ => kind_state hi) h

theorem Follows.nextIs_bind_inside {f g : Bool → Parser β} {kind : TokenKind} (hi : m.Inside s)
    (h : m.Follows O' s (f (s.kind = kind)) (g (s.kind = kind))) :
    m.Follows O' s (nextIs kind >>= f) (nextIs kind >>= g) :=
  .same_look_bind (run_nextIs kind) (fun _ _ => by rw [kind_state hi]) h

theorem Follows.nextIs_bind {f g : Bool → Parser β} {kind : TokenKind} (hk : kind.joins = true)
    (h : m.Follows O' s (f (s.kind = kind)) (g (s.kind = kind))) :
    m.Follows O' s (nextIs kind >>= f) (nextIs kind >>= g) :=
  .same_look_bind (run_nextIs kind)
    (fun hs hb => decide_eq_decide.mpr (kind_eq_state hk hb hs)) h

theorem Follows.here_bind {f g : Span → Parser β}
    (h : ∀ start, (m.Inside s → start = m.span s.here) → m.Follows O' s (f s.here) (g start)) :
    m.Follows O' s (here >>= f) (here >>= g) :=
  (h _ here_state).congr (run_bind_ok (run_here s)) (run_bind_ok (run_here (m.state s)))

theorem Follows.deeper {limit limit' : Nat}
    (hl : limit = limit' ∨ m.capped = true ∧ limit ≤ limit')
    (hp : m.Follows O s.down p q) (hO : ∀ a t, O a t → O a t.up) :
    m.Follows O s (deeper limit p) (deeper limit' q) where
  advances := hp.advances.deeper limit
  run hs hr := by
    have hdepth : (m.state s).depth = s.depth := rfl
    rw [run_deeper] at hr ⊢
    rw [run_deeper, hdepth]
    by_cases hd : s.depth ≥ limit
    · rw [if_pos hd] at hr ⊢
      rcases hl with rfl | ⟨hc, -⟩
      · rw [if_pos hd, here_state (inside_of_none hr.seam_none)]
        exact .inl rfl
      · exact absurd (.inl ⟨_, rfl, rfl⟩) (hr.capped hc)
    · rw [if_neg hd] at hr ⊢
      rw [if_neg (by omega)]
      rcases hp.run hs ⟨hr.capped, hr.clean⟩ with hdown | ⟨a, t, ha, hi, hopen⟩
      · have hrun : q.run (m.state s).down = m.outcome (p.run s.down) := hdown
        rw [hrun]
        exact .inl rfl
      · rw [ha]
        exact .inr ⟨a, t.up, rfl, hi, hO a t hopen⟩

omit [HasSpans α] in
theorem Follows.iterate {step step' : β → Parser (ForInStep β)} (hr : Rounds step)
    (hr' : Rounds step') {b c : β} (hb : c = mapSpans m.span b)
    (hdone : ∀ b s c t, (step b).run s = (.ok (.done c), t) → c = b)
    (hstill : ∀ b t u, O' b t → Still t u → O' b u)
    (h : ∀ b' t, b' = b ∧ t = s ∨ t.rest.length < s.rest.length →
      m.Follows (fun r u => O' r.value u) t (step b') (step' (mapSpans m.span b'))) :
    m.Follows O' s (iterate step b) (iterate step' c) := by
  subst hb
  induction s using State.rest_induction generalizing b with
  | shorter s ih =>
    refine .congr (run_iterate hr b s) (run_iterate hr' _ _) ?_
    refine (h b s (.inl ⟨rfl, rfl⟩)).bind (fun r t ht => ?_) fun r t b' u _ hopen hrest hst => ?_
    · cases r with
      | done b' => exact (sim_pure rfl).follows
      | yield b' =>
        have hlt := (hr b).reads s _ t ht trivial
        refine ih t hlt fun b'' u hu => h b'' u (.inr ?_)
        rcases hu with ⟨-, rfl⟩ | hu
        · exact hlt
        · omega
    · cases r with
      | done c' =>
        cases hrest
        exact hopen
      | yield c' =>
        obtain rfl := iterate_still hr hdone hrest hst
        exact hstill _ _ _ hopen hst

end

end Change

end Linewise
