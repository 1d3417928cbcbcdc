import Linewise.Proofs.Parsing.Endings
import Linewise.Proofs.Parsing.Following
import Linewise.Proofs.Parsing.GrammarSimulation

/-!
# The grammar up to a seam

Statements and cases follow up to a seam, unless what they end with is open for what stands behind it. Two
productions look further than they read: a function for its body, and an `if` for its second branch.
-/

namespace Linewise.Change

open Linewise.Parser

variable {α : Type} {m : Change} {s t u : State}

def InOrder (m : Change) : Prop :=
  ∀ ts, m.fits ts → ts.Pairwise fun x y => x.token.span.stop ≤ y.token.span.stop

theorem InOrder.stop_eq (ho : m.InOrder) {p : Parser (Located α)} (hc : Covers p) (hr : Reads p)
    (hs : m.fits s.rest) {a : Located α} (h : p.run s = (.ok a, t)) :
    a.span.stop = t.previous.stop :=
  hc.stop_eq hr (ho _ hs) h

/-- The rules for what nests are simulated, and what may be open at its end follows. -/
structure RulesFollow (m : Change) (rules rules' : Rules) : Prop where
  sim : m.RulesSim rules rules'
  expression : ∀ s, m.Follows m.Opens s rules.expression rules'.expression
  operand : ∀ s, m.Follows m.Opens s rules.operand rules'.operand
  block : Covers rules.block

theorem follows_node {β : Type} [HasSpans α] [HasSpans β] [HasOpenEnd α] [HasOpenEnd β] {p q : Parser α}
    {node node' : α → β} {start start' : Span} (hr : Reads p) (hs : m.fits s.rest)
    (hstart : start' = m.span start) (hnode : ∀ a, node' (mapSpans m.span a) = mapSpans m.span (node a))
    (hopen : ∀ sequel stop a, openFor sequel stop a = true → openFor sequel stop (node a) = true)
    (h : m.Follows m.Opens s p q) :
    m.Follows m.Opens s (do located start (node (← p))) (do located start' (node' (← q))) := by
  refine h.bind (fun a t ht => ?_) fun a t b u _ ⟨sequel, hoffers, ha⟩ hb hst => ?_
  · exact (sim_located (.of_lt hs (hr.shorter ht)) hstart (hnode a)).follows
  · cases hb
    exact ⟨sequel, hoffers, hopen sequel _ a ha⟩

-- ---------------------------------------------------------------------------
-- Second branches
-- ---------------------------------------------------------------------------

section
variable {rules : Rules}

theorem run_elseBranch_none (hs : ¬s.offers .branch) :
    (skipBeforeElse >>= fun _ => behind (.keyword .elseWord) (body rules)).run s = (.ok none, s) := by
  rw [State.offers_branch, not_or] at hs
  have hskip : skipBeforeElse.run s = (.ok (), s) := by rw [run_skipBeforeElse, if_neg hs.2]
  rw [run_bind_ok hskip, run_behind_no hs.1]

/-- The token behind the semicolon goes on with the `if`, so the seam does not stand there. -/
theorem inside_skipBeforeElse (hi : m.Inside s) (hrun : skipBeforeElse.run s = (.ok (), t))
    (hb : m.Before 0 t) (hf : m.fits t.rest) : m.Inside t := by
  rw [run_skipBeforeElse] at hrun
  split at hrun
  · rename_i hnext
    refine Classical.byContradiction fun hit => ?_
    have hends := endsItem_at_seam hb hf hit
    obtain ⟨x, ts, hx⟩ := State.rest_of_kind hnext.1 (by decide)
    rw [run_expect (by decide), if_pos hnext.1] at hrun
    cases hrun
    rw [← second_eq_next hx, hnext.2] at hends
    cases hends
  · cases hrun
    exact hi

theorem not_offers_branch_at_seam (hbranch : Moves (behind (.keyword .elseWord) (body rules)))
    (hb : m.Before 0 s) (hf : m.fits s.rest) (hi : ¬m.Inside s)
    (hr : m.Regular 0 s ((skipBeforeElse >>= fun _ => behind (.keyword .elseWord) (body rules)).run s)) :
    ¬s.offers .branch := by
  rw [State.offers_branch]
  rintro (hk | hk)
  · have hends := endsItem_at_seam hb hf hi
    rw [hk] at hends
    cases hends
  · -- The semicolon in front of the branch would be read, and with it the seam.
    obtain ⟨sm, hsm, hlen⟩ := hb.at_seam hi
    obtain ⟨⟨e, he⟩, -, hle⟩ := hr.clean sm hsm
    rw [run_bind, run_skipBeforeElse, if_pos hk, ← run_bind] at he hle
    have hreads : Reads (expect .semicolon >>= fun _ => behind (.keyword .elseWord) (body rules)) :=
      (reads_expect _).bind fun _ => hbranch
    have := Nat.lt_of_le_of_lt hle (hreads.shorter (Prod.ext he rfl))
    omega

end

-- ---------------------------------------------------------------------------
-- Properties and functions
-- ---------------------------------------------------------------------------

section
variable {rules rules' : Rules} (h : m.RulesFollow rules rules')
include h

theorem follows_property (ms : Modifiers) :
    m.Follows m.Opens s (property rules ms) (property rules' (mapSpans m.span ms)) := by
  refine .bind_sim sim_binding fun _ _ _ => .bind_sim sim_identifier fun _ _ _ => ?_
  refine .bind_sim (sim_behind rfl (h.sim.type 0)) fun type t _ => ?_
  refine Follows.map (O := m.Opens) ?_ (fun _ => by simp) fun value u _ hopen => ?_
  · refine .bind_sim (sim_accept rfl) fun _ _ _ => .ite (fun _ => ?_) fun _ => (sim_pure rfl).follows
    exact (h.expression _).map (fun _ => rfl) fun _ _ _ hopen => hopen
  · obtain ⟨sequel, hoffers, hopen⟩ := hopen
    cases value with
    | none => cases hopen
    | some value => exact ⟨sequel, hoffers, hopen⟩

theorem follows_functionBody :
    m.Follows (fun body u => body = none ∧ (m.state u).offers .body ∨
        ∃ b, body = some b ∧ m.Opens b u) s (functionBody rules) (functionBody rules') := by
  refine .wlog (moves_functionBody h.sim.left) fun hs hb => ?_
  by_cases hi : m.Inside s
  · refine .nextIs_bind_inside hi (.ite (fun _ => ?_) fun _ => ?_)
    · exact .bind_sim (h.sim.block 0 s) fun _ _ _ => (sim_pure rfl).follows
    refine .bind_sim (sim_accept rfl) fun _ _ _ => .ite (fun _ => ?_) fun _ => (sim_pure rfl).follows
    refine (h.expression _).map (fun _ => by simp [Block.single]) fun value u _ hopen => ?_
    exact .inr ⟨_, rfl, hopen⟩
  · -- At the seam there is no body before the change.
    have hends := endsItem_at_seam hb hs hi
    have hcurl : s.kind ≠ .leftCurl := fun hk => by simp [hk, TokenKind.endsItem] at hends
    have hassign : s.kind ≠ .assign := fun hk => by simp [hk, TokenKind.endsItem] at hends
    have hnone {v : State} (hv : v.kind ≠ .leftCurl) (hv' : v.kind ≠ .assign) (rules : Rules) :
        (functionBody rules).run v = (.ok none, v) := by
      unfold functionBody
      rw [run_bind_ok (run_nextIs _ v), if_neg (by simpa using hv), run_bind, run_accept, if_neg hv']
      rfl
    refine .of_moves (moves_functionBody h.sim.left) fun _ _ => ?_
    rw [hnone hcurl hassign]
    by_cases hnew : (m.state s).kind = .leftCurl
    · exact .inr ⟨none, s, rfl, hi, .inl ⟨rfl, (m.state s).offers_body.mpr hnew⟩⟩
    · refine .inl (hnone hnew (fun hk => ?_) rules')
      have hunjoined := unjoined_at_seam hb hi
      simp [hk, TokenKind.joins] at hunjoined

theorem follows_function (ms : Modifiers) :
    m.Follows m.Opens s (function rules ms) (function rules' (mapSpans m.span ms)) := by
  refine .bind_sim (sim_expectWord _) fun _ _ _ => .bind_reads (sim_functionName h.sim)
    (fun _ => ?_) fun name _ _ => ?_
  · exact (reads_expect _).bind fun _ => (reads_listUntil _ (reads_param h.sim.left)).toMoves.bind
      fun _ => (moves_behind (by decide) h.sim.left.type.toMoves).bind fun _ =>
        (moves_functionBody h.sim.left).bind fun _ => moves_pure _
  refine .bind_sim (sim_expect _) fun _ _ _ => .bind_sim (sim_listUntil (reads_param h.sim.left)
    (reads_param h.sim.right) fun _ => sim_param h.sim) fun params _ _ => ?_
  refine .bind_sim (sim_behind rfl (h.sim.type 0)) fun result _ _ => ?_
  refine (follows_functionBody h).map (fun _ => by simp) fun body u _ hopen => ?_
  rcases hopen with ⟨rfl, hoffers⟩ | ⟨b, rfl, sequel, hoffers, hopen⟩
  · exact ⟨_, hoffers, by simp [openFor, FunctionDef.openFor]⟩
  · exact ⟨sequel, hoffers, hopen⟩

-- ---------------------------------------------------------------------------
-- Statements
-- ---------------------------------------------------------------------------

theorem follows_localAfter (ms : Modifiers) :
    m.Follows m.Opens s (localAfter rules ms) (localAfter rules' (mapSpans m.span ms)) := by
  refine .inside (reads_localAfter h.sim.left ms) fun _ hi => .peek_bind hi ?_
  split
  · exact (follows_function h ms).map (fun _ => rfl) fun _ _ _ hopen => hopen
  · exact (follows_property h ms).map (fun _ => rfl) fun _ _ _ hopen => hopen
  · exact (follows_property h ms).map (fun _ => rfl) fun _ _ _ hopen => hopen
  · exact (sim_unexpected _).follows

theorem follows_simpleStatement :
    m.Follows m.Opens s (simpleStatement rules) (simpleStatement rules') := by
  refine .inside (reads_simpleStatement h.sim.left) fun _ hi => .peek_bind hi ?_
  split
  case h_8 => exact (h.expression s).map (fun _ => rfl) fun _ _ _ hopen => hopen
  all_goals
    exact .bind_reads (sim_modifiers h.sim) (reads_localAfter h.sim.left) fun ms _ _ =>
      follows_localAfter h ms

section
variable {statement statement' : Parser (Located Statement)} (ho : m.InOrder)
  (hc : Covers statement) (hr : Reads statement)

include ho hc hr in
theorem follows_bodyOf (hs : m.Follows m.Opens s statement statement') :
    m.Follows m.Opens s (bodyOf rules statement) (bodyOf rules' statement') := by
  refine .inside (reads_bodyOf h.sim.left hr) fun hf hi => .nextIs_bind_inside hi ?_
  refine .ite (fun _ => (h.sim.block 0 s).follows) fun _ => ?_
  refine hs.map (fun _ => rfl) fun a u ha hopen => ?_
  obtain ⟨sequel, hoffers, hopen⟩ := hopen
  refine ⟨sequel, hoffers, ?_⟩
  have hstop := ho.stop_eq hc hr hf ha
  simpa only [openFor, Block.single, Block.openFor, hstop] using hopen

include ho hc hr in
theorem follows_whileLoop
    (hs : ∀ t, t.rest.length < s.rest.length → m.Follows m.Opens t statement statement') :
    m.Follows m.Opens s (whileLoop rules statement) (whileLoop rules' statement') := by
  refine .bind_sim (sim_expectWord _) fun _ t₁ h₁ => .bind_sim (sim_expect _) fun _ t₂ h₂ => ?_
  refine .bind_reads (h.sim.expression _) (fun _ => (reads_expect _).bind fun _ =>
    (reads_bodyOf h.sim.left hr).toMoves.bind fun _ => moves_pure _) fun _ t₃ h₃ => ?_
  refine .bind_sim (sim_expect _) fun _ t₄ h₄ => ?_
  have hlt := (reads_expectWord _).shorter h₁
  have hle₂ := ((reads_expect _).advances_ok h₂).length_le
  have hle₃ := (h.sim.left.expression.advances_ok h₃).length_le
  have hle₄ := ((reads_expect _).advances_ok h₄).length_le
  refine (follows_bodyOf h ho hc hr (hs t₄ (by omega))).map (fun _ => rfl) fun _ _ _ hopen => ?_
  exact hopen

include ho hc hr in
theorem follows_statementWith
    (hs : ∀ t, t.rest.length < s.rest.length → m.Follows m.Opens t statement statement') :
    m.Follows m.Opens s (statementWith rules statement) (statementWith rules' statement') := by
  refine .inside (reads_statementWith h.sim.left hr) fun hf hi => .here_bind fun start hstart => ?_
  refine follows_node (reads_statementNode h.sim.left hr) hf (hstart hi) (fun _ => rfl)
    (fun _ _ _ hopen => hopen) ?_
  exact .nextIs_bind_inside hi (.ite (fun _ => follows_whileLoop h ho hc hr hs) fun _ =>
    follows_simpleStatement h)

end

variable (ho : m.InOrder)
include ho

theorem follows_statement : m.Follows m.Opens s (statement rules) (statement rules') := by
  induction s using State.rest_induction with
  | shorter s ih =>
    refine .congr (run_statement h.sim.left s) (run_statement h.sim.right _) ?_
    exact follows_statementWith h ho covers_statement (reads_statement h.sim.left) ih

theorem follows_body : m.Follows m.Opens s (body rules) (body rules') :=
  follows_bodyOf h ho covers_statement (reads_statement h.sim.left) (follows_statement h ho)

-- ---------------------------------------------------------------------------
-- Expressions
-- ---------------------------------------------------------------------------

theorem follows_elseBranch :
    m.Follows (fun e u => (e = none ∧ u = s ∧ (m.state u).offers .branch) ∨
        ∃ b, e = some b ∧ m.Opens b u) s
      (skipBeforeElse >>= fun _ => behind (.keyword .elseWord) (body rules))
      (skipBeforeElse >>= fun _ => behind (.keyword .elseWord) (body rules')) := by
  have hbranch : Moves (behind (.keyword .elseWord) (body rules)) :=
    moves_behind (by decide) (reads_body h.sim.left).toMoves
  have hmoves := moves_skipBeforeElse.bind fun _ => hbranch
  refine .wlog hmoves fun hs hb => ?_
  by_cases hi : m.Inside s
  · refine .bind_sim (sim_skipBeforeElse hi) fun _ t ht => .wlog hbranch fun hft hbt => ?_
    have hit := inside_skipBeforeElse hi ht hbt hft
    refine .bind_sim (sim_accept_inside hit (by decide)) fun _ u _ =>
      .ite (fun _ => ?_) fun _ => (sim_pure rfl).follows
    exact (follows_body h ho).map (fun _ => rfl) fun b v _ hopen => .inr ⟨b, rfl, hopen⟩
  · refine .of_moves hmoves fun _ hr => ?_
    rw [run_elseBranch_none (not_offers_branch_at_seam hbranch hb hs hi hr)]
    by_cases hnew : (m.state s).offers .branch
    · exact .inr ⟨none, s, rfl, hi, .inl ⟨rfl, rfl, hnew⟩⟩
    · exact .inl (run_elseBranch_none hnew)

theorem follows_conditional : m.Follows m.Opens s (conditional rules) (conditional rules') := by
  refine .bind_sim (sim_expectWord _) fun _ _ _ => .bind_sim (sim_expect _) fun _ _ _ => ?_
  have hbranch : Moves (behind (.keyword .elseWord) (body rules)) :=
    moves_behind (by decide) (reads_body h.sim.left).toMoves
  refine .bind_reads (h.sim.expression _) (fun _ => ?_) fun condition _ _ => ?_
  · exact (reads_expect _).bind fun _ => (reads_body h.sim.left).toMoves.bind fun _ =>
      moves_skipBeforeElse.bind fun _ => hbranch.bind fun _ => moves_pure _
  refine .bind_sim (sim_expect _) fun _ t _ => .wlog ?_ fun hs _ => ?_
  · exact (reads_body h.sim.left).toMoves.bind fun _ =>
      moves_skipBeforeElse.bind fun _ => hbranch.bind fun _ => moves_pure _
  refine (follows_body h ho).bind (fun thenBody u hu => ?_) fun thenBody u b v _ hopen hb hst => ?_
  · have hstop := ho.stop_eq (covers_bodyOf h.block covers_statement) (reads_body h.sim.left) hs hu
    refine .congr run_bind_assoc.symm run_bind_assoc.symm ?_
    refine (follows_elseBranch h ho).map (fun _ => by simp) fun elseBody v _ hopen => ?_
    rcases hopen with ⟨rfl, rfl, hoffers⟩ | ⟨b, rfl, sequel, hoffers, hopen⟩
    · exact ⟨_, hoffers, by simp [openFor, Expr.openFor, hstop]⟩
    · exact ⟨sequel, hoffers, hopen⟩
  · obtain ⟨_, w, hskip, hb⟩ := bind_ok.mp hb
    obtain ⟨elseBody, x, helse, hb⟩ := bind_ok.mp hb
    cases hb
    cases elseBody with
    | none =>
      obtain ⟨sequel, hoffers, hopen⟩ := hopen.still hst
      refine ⟨sequel, hoffers, ?_⟩
      have hthen : thenBody.node.openFor sequel v.previous.stop = true := hopen
      simp [openFor, Expr.openFor, hthen]
    | some elseBody =>
      have hlt := (readsOn_behind (by decide) (reads_body h.sim.left).toMoves).reads _ _ _ helse rfl
      have hle := (moves_skipBeforeElse.advances_ok hskip).length_le
      rw [hst.1] at hlt
      omega

theorem follows_atom : m.Follows m.Opens s (atom rules) (atom rules') := by
  refine .inside (reads_atom h.sim.left) fun _ hi => ?_
  by_cases hif : s.kind = .keyword .ifWord
  · have hatom {v : State} (hv : v.kind = .keyword .ifWord) (rules : Rules) :
        (atom rules).run v = (conditional rules).run v := by
      unfold atom
      rw [run_bind_ok (run_peek v), hv]
    exact .congr (hatom hif rules) (hatom ((kind_state hi).trans hif) rules') (follows_conditional h ho)
  · exact (sim_atom_of h.sim fun hk => absurd hk hif).follows

omit h ho in
theorem done_suffixRound {start : Span} {target : Located Expr} {c : Located Expr}
    (h : (suffixRound rules start target).run s = (.ok (.done c), t)) : c = target := by
  obtain ⟨node, u, -, h⟩ := bind_ok.mp h
  cases node <;> cases h
  rfl

theorem follows_suffixed : m.Follows m.Opens s (suffixed rules) (suffixed rules') := by
  refine .inside (reads_suffixed h.sim.left) fun hs hi => .here_bind fun start hstart => ?_
  rw [hstart hi]
  refine (follows_atom h ho).bind (fun node t ht => ?_) fun node t b u _ hopen hb hst => ?_
  · have hr : m.Read t := .of_lt hs ((reads_atom h.sim.left).shorter ht)
    exact (sim_suffixes h.sim hr _ node).follows
  · obtain ⟨first, v, hfirst, hloop⟩ := bind_ok.mp hb
    cases hfirst
    obtain rfl := iterate_still (rounds_suffixRound h.sim.left _) (fun _ _ _ _ => done_suffixRound)
      hloop hst
    exact hopen.still hst

theorem follows_unary : m.Follows m.Opens s (unary rules) (unary rules') := by
  refine .inside (reads_unary h.sim.left) fun hs hi => .here_bind fun start hstart => ?_
  refine .bind_sim (sim_accept_inside hi (by decide)) fun _ t ht => .ite (fun _ => ?_) fun _ => ?_
  · have hft := m.fits_suffix _ _ ((reads_accept (by decide)).advances_ok ht).rest hs
    exact follows_node h.sim.left.operand hft (hstart hi) (fun _ => rfl) (fun _ _ _ hopen => hopen)
      (h.operand t)
  · exact follows_suffixed h ho

section
variable {operand operand' : Parser (Located Expr)} (hr : Reads operand) (hr' : Reads operand')
  (hoo : ∀ s, m.Follows m.Opens s operand operand')

omit h ho in
theorem done_chainRound {p : Precedence} {start : Span} {lhs c : Located Expr}
    (h : (chainRound p operand start lhs).run s = (.ok (.done c), t)) : c = lhs := by
  obtain ⟨op, u, -, h⟩ := bind_ok.mp h
  cases op with
  | none =>
    cases h
    rfl
  | some op =>
    obtain ⟨rhs, v, -, h⟩ := bind_ok.mp h
    cases h

omit h ho in
include hr hoo in
theorem follows_chainRound (p : Precedence) (start : Span) (lhs : Located Expr) :
    m.Follows (fun r u => m.Opens r.value u) s (chainRound p operand start lhs)
      (chainRound p operand' (m.span start) (mapSpans m.span lhs)) := by
  refine .wlog (rounds_chainRound p hr start lhs).toMoves fun hs _ => ?_
  refine .bind_sim (sim_operator? p) fun op t ht => ?_
  cases op with
  | none => exact (sim_pure rfl).follows
  | some op =>
    have hft := m.fits_suffix _ _ ((readsOn_operator? p).advances_ok ht).rest hs
    refine .congr run_bind_assoc.symm run_bind_assoc.symm (Follows.map (O := m.Opens) ?_
      (fun _ => rfl) fun _ _ _ hopen => hopen)
    exact follows_node hr hft rfl (fun _ => rfl) (fun _ _ _ hopen => hopen) (hoo t)

omit h ho in
include hr hr' hoo in
theorem follows_chain (p : Precedence) : m.Follows m.Opens s (chain p operand) (chain p operand') := by
  refine .inside (reads_chain p hr) fun hs hi => .here_bind fun start hstart => ?_
  rw [hstart hi]
  refine (hoo s).bind (fun first t ht => ?_) fun first t b u _ hopen hloop hst => ?_
  · exact .iterate (rounds_chainRound p hr _) (rounds_chainRound p hr' _) rfl
      (fun _ _ _ _ => done_chainRound) (fun _ _ _ => Opens.still) fun lhs _ _ =>
        follows_chainRound hr hoo p _ lhs
  · obtain rfl := iterate_still (rounds_chainRound p hr _) (fun _ _ _ _ => done_chainRound) hloop hst
    exact hopen.still hst

end

theorem follows_binary : m.Follows m.Opens s (binary rules) (binary rules') := by
  have hu := reads_unary h.sim.left
  have hu' := reads_unary h.sim.right
  exact follows_chain (reads_chain _ (reads_chain _ (reads_chain _ hu)))
    (reads_chain _ (reads_chain _ (reads_chain _ hu'))) (fun _ =>
      follows_chain (reads_chain _ (reads_chain _ hu)) (reads_chain _ (reads_chain _ hu')) (fun _ =>
        follows_chain (reads_chain _ hu) (reads_chain _ hu') (fun _ =>
          follows_chain hu hu' (fun _ => follows_unary h ho) _) _) _) _

theorem follows_assignment : m.Follows m.Opens s (assignment rules) (assignment rules') := by
  refine .inside (reads_assignment h.sim.left) fun hs hi => .here_bind fun start hstart => ?_
  refine (follows_binary h ho).bind (fun target t ht => ?_) fun target t b u _ hopen hb hst => ?_
  · have hft := m.fits_suffix _ _ ((reads_binary h.sim.left).advances_ok ht).rest hs
    refine .nextIs_bind rfl (.ite (fun _ => ?_) fun _ => (sim_pure rfl).follows)
    rw [node_mapSpans, isPlace_mapSpans]
    refine .ite (fun _ => ?_) fun _ => (sim_fail rfl fun _ => rfl).follows
    refine .bind_sim (sim_expect _) fun _ u hu => ?_
    have hfu := m.fits_suffix _ _ ((reads_expect _).advances_ok hu).rest hft
    exact follows_node h.sim.left.expression hfu (hstart hi) (fun _ => rfl) (fun _ _ _ hopen => hopen)
      (h.expression u)
  · rw [run_bind_ok (run_nextIs _ t)] at hb
    split at hb
    · split at hb
      · obtain ⟨_, v, hassign, hb⟩ := bind_ok.mp hb
        obtain ⟨value, w, hvalue, hb⟩ := bind_ok.mp hb
        cases hb
        have hlt := (reads_expect _).shorter hassign
        have hle := (h.sim.left.expression.advances_ok hvalue).length_le
        rw [← hst.1] at hlt
        omega
      · cases hb
    · cases hb
      exact hopen

theorem follows_whenCase : m.Follows m.Opens s (whenCase rules) (whenCase rules') := by
  refine .inside (reads_whenCase h.sim.left) fun hs hi => .here_bind fun start hstart => ?_
  refine .bind_sim (sim_accept_inside hi (by decide)) fun other t ht => ?_
  have hft := m.fits_suffix _ _ ((reads_accept (by decide)).advances_ok ht).rest hs
  refine .ite (fun _ => ?_) fun _ => ?_
  · refine .bind_sim (sim_expect _) fun _ u hu => ?_
    have hfu := m.fits_suffix _ _ ((reads_expect _).advances_ok hu).rest hft
    exact follows_node (reads_body h.sim.left) hfu (hstart hi) (fun _ => rfl)
      (fun _ _ _ hopen => hopen) (follows_body h ho)
  · refine .bind_reads (sim_listOf h.sim.left.expression h.sim.right.expression h.sim.expression)
      (fun _ => (reads_expect _).bind fun _ => (reads_body h.sim.left).toMoves.bind fun _ =>
        moves_located _ _) fun conditions u hu => ?_
    have hfu := m.fits_suffix _ _ ((moves_listOf h.sim.left.expression).advances_ok hu).rest hft
    refine .bind_sim (sim_expect _) fun _ v hv => ?_
    have hfv := m.fits_suffix _ _ ((reads_expect _).advances_ok hv).rest hfu
    exact follows_node (reads_body h.sim.left) hfv (hstart hi) (fun _ => by simp)
      (fun _ _ _ hopen => hopen) (follows_body h ho)

end

theorem rulesFollow_grammar {limit : Nat} (hd : m.DetachesAll limit) (ho : m.InOrder) (levels : Nat) :
    m.RulesFollow (grammar limit levels) (grammar limit levels) := by
  have hsim (levels : Nat) : m.RulesSim (grammar limit levels) (grammar limit levels) :=
    rulesSim_grammar (.inl ⟨rfl, rfl⟩) hd
  induction levels with
  | zero =>
    exact ⟨hsim 0, fun _ => (sim_fail_here rfl).follows, fun _ => (sim_fail_here rfl).follows,
      covers_block limit 0⟩
  | succ levels ih =>
    exact
      { sim := hsim (levels + 1)
        expression := fun _ => .deeper (.inl rfl) (follows_assignment ih ho) fun _ _ hopen => hopen
        operand := fun _ => .deeper (.inl rfl) (follows_unary ih ho) fun _ _ hopen => hopen
        block := covers_block limit (levels + 1) }

-- ---------------------------------------------------------------------------
-- Declarations
-- ---------------------------------------------------------------------------

section
variable {rules rules' : Rules} (h : m.RulesFollow rules rules') (ho : m.InOrder) (hc : m.Closed)
  (hends : ∀ t, m.Before 0 t → ¬m.Inside t → (m.state t).kind.endsItem = true)
include h ho hc hends

omit h ho hc in
theorem run_accept_at_seam (hs : m.fits s.rest) (hb : m.Before 0 s) (hi : ¬m.Inside s)
    {kind : TokenKind} (hk : kind.endsItem = false) :
    (accept kind).run s = (.ok false, s) ∧ (accept kind).run (m.state s) = (.ok false, m.state s) := by
  have hne {v : State} (hv : v.kind.endsItem = true) : v.kind ≠ kind := by
    rintro rfl
    rw [hk] at hv
    cases hv
  rw [run_accept, run_accept, if_neg (hne (endsItem_at_seam hb hs hi)), if_neg (hne (hends s hb hi))]
  exact ⟨rfl, rfl⟩

/-- Where nothing goes on behind the seam, declarations may end there. -/
theorem endsSim_of_closed : m.EndsSim 0 rules rules' where
  function _ ms := (follows_function h ms).sim_of_closed (reads_function h.sim.left ms).toMoves hc
  property _ ms := (follows_property h ms).sim_of_closed (reads_property h.sim.left ms).toMoves hc
  call _ := (follows_suffixed h ho).sim_of_closed (reads_suffixed h.sim.left).toMoves hc
  constructor s := by
    refine .wlog (moves_constructor? h.sim.left) fun hs hb => ?_
    by_cases hi : m.Inside s
    · exact sim_constructor? h.sim hi
    · have hparen : TokenKind.leftParen.endsItem = false := rfl
      obtain ⟨hold, hnew⟩ := run_accept_at_seam hends hs hb hi hparen
      refine .look_bind run_here (.congr (run_bind_ok hold) (run_bind_ok hnew) ?_)
      exact sim_pure rfl
  members s := by
    refine .wlog (moves_members h.sim.left) fun hs hb => ?_
    by_cases hi : m.Inside s
    · exact sim_members h.sim hi
    · have hcurl : TokenKind.leftCurl.endsItem = false := rfl
      obtain ⟨hold, hnew⟩ := run_accept_at_seam hends hs hb hi hcurl
      exact .congr (run_bind_ok hold) (run_bind_ok hnew) (sim_pure rfl)

end

theorem sim_declaration_closed {limit : Nat} (hd : m.DetachesAll limit) (ho : m.InOrder) (hc : m.Closed)
    (hends : ∀ t, m.Before 0 t → ¬m.Inside t → (m.state t).kind.endsItem = true) (levels : Nat) :
    m.Sim 0 s (grammar limit levels).declaration (grammar limit levels).declaration := by
  cases levels with
  | zero => exact sim_fail_here rfl
  | succ levels =>
    have h := rulesFollow_grammar hd ho levels
    exact .deeper (.inl rfl) (sim_declarationBody h.sim (endsSim_of_closed h ho hc hends))

end Linewise.Change
