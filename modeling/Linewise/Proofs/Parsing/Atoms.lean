import Linewise.Proofs.Parsing.GrammarProgress

/-!
# Atoms as whole expressions

An expression goes through a production for each precedence of its operators. Where no operator and no suffix
stands behind an atom, all of them hand it on, and a choice at the top of an expression has come that way.
-/

namespace Linewise

def Expr.isWhen : Expr → Bool
  | .whenCase _ _ => true
  | _ => false

namespace Parser

variable {β : Type} {rules : Rules} {s t : State} {e : Expr} {a lhs : Located Expr}

-- ---------------------------------------------------------------------------
-- Choices as whole expressions
-- ---------------------------------------------------------------------------

/-- What a loop ends with is what it began with, if no round that reads gives such an answer. -/
theorem iterate_kept {step : β → Parser (ForInStep β)} {Q : β → Prop} {b c : β} (hr : Rounds step)
    (hround : ∀ b s r t, (step b).run s = (.ok r, t) → r = .done b ∧ t = s ∨ ∃ c, r = .yield c ∧ ¬Q c)
    (h : (iterate step b).run s = (.ok c, t)) (hc : Q c) : c = b ∧ t = s := by
  induction s using State.rest_induction generalizing b with
  | shorter s ih =>
    rw [run_iterate hr] at h
    obtain ⟨r, u, hstep, hrest⟩ := bind_ok.mp h
    rcases hround b s r u hstep with ⟨rfl, rfl⟩ | ⟨b', rfl, hb'⟩
    · cases hrest
      exact ⟨rfl, rfl⟩
    · obtain ⟨rfl, -⟩ := ih u ((hr b).reads _ _ _ hstep trivial) hrest
      exact absurd hc hb'

theorem suffix?_ok {node : Option Expr} (h : (suffix? rules a).run s = (.ok node, t)) :
    node = none ∧ t = s ∨ ∃ e, node = some e ∧ e.isWhen = false := by
  unfold suffix? at h
  rw [run_bind_ok (run_nextOnLine _ s)] at h
  split at h
  · obtain ⟨args, _, -, h⟩ := bind_ok.mp h
    cases h
    exact .inr ⟨_, rfl, rfl⟩
  rw [run_bind_ok (run_nextOnLine _ s)] at h
  split at h
  · obtain ⟨block, _, -, h⟩ := bind_ok.mp h
    cases h
    exact .inr ⟨_, rfl, rfl⟩
  rw [run_bind_ok (run_nextOnLine _ s)] at h
  split at h
  · obtain ⟨_, _, -, h⟩ := bind_ok.mp h
    obtain ⟨index, _, -, h⟩ := bind_ok.mp h
    cases h
    exact .inr ⟨_, rfl, rfl⟩
  obtain ⟨dot, u, hdot, hrest⟩ := bind_ok.mp h
  rcases accept_ok hdot with ⟨rfl, -, -⟩ | ⟨rfl, -, rfl⟩
  · obtain ⟨name, _, -, hrest⟩ := bind_ok.mp hrest
    cases hrest
    exact .inr ⟨_, rfl, rfl⟩
  · cases hrest
    exact .inl ⟨rfl, rfl⟩

theorem suffixRound_ok {start : Span} {r : ForInStep (Located Expr)}
    (h : (suffixRound rules start lhs).run s = (.ok r, t)) :
    r = .done lhs ∧ t = s ∨ ∃ a, r = .yield a ∧ ¬a.node.isWhen = true := by
  obtain ⟨node, u, hsuffix, hrest⟩ := bind_ok.mp h
  rcases suffix?_ok hsuffix with ⟨rfl, rfl⟩ | ⟨e, rfl, he⟩
  · cases hrest
    exact .inl ⟨rfl, rfl⟩
  · cases hrest
    exact .inr ⟨_, rfl, by simp [he]⟩

theorem chainRound_ok {p : Precedence} {operand : Parser (Located Expr)} {start : Span}
    {r : ForInStep (Located Expr)} (h : (chainRound p operand start lhs).run s = (.ok r, t)) :
    r = .done lhs ∧ t = s ∨ ∃ a, r = .yield a ∧ ¬a.node.isWhen = true := by
  unfold chainRound operator? at h
  rw [run_bind_assoc, run_bind_ok (run_peek s)] at h
  split at h
  · obtain ⟨_, _, hop, hrest⟩ := bind_ok.mp h
    obtain ⟨_, _, -, hop⟩ := bind_ok.mp hop
    cases hop
    obtain ⟨rhs, _, -, hrest⟩ := bind_ok.mp hrest
    cases hrest
    exact .inr ⟨_, rfl, by simp [Expr.isWhen]⟩
  · cases h
    exact .inl ⟨rfl, rfl⟩

theorem run_suffixed_when (hr : RulesRead rules) (h : (suffixed rules).run s = (.ok a, t))
    (ha : a.node.isWhen = true) : (atom rules).run s = (.ok a.node, t) := by
  unfold suffixed at h
  rw [run_bind_ok (run_here s)] at h
  obtain ⟨e, u, hatom, h⟩ := bind_ok.mp h
  obtain ⟨first, v, hfirst, h⟩ := bind_ok.mp h
  cases hfirst
  obtain ⟨rfl, rfl⟩ := iterate_kept (rounds_suffixRound hr _) (fun _ _ _ _ => suffixRound_ok) h ha
  exact hatom

theorem run_chain_when {p : Precedence} {operand : Parser (Located Expr)} (hr : Reads operand)
    (h : (chain p operand).run s = (.ok a, t)) (ha : a.node.isWhen = true) :
    operand.run s = (.ok a, t) := by
  unfold chain at h
  rw [run_bind_ok (run_here s)] at h
  obtain ⟨first, u, hfirst, h⟩ := bind_ok.mp h
  obtain ⟨rfl, rfl⟩ := iterate_kept (rounds_chainRound p hr _) (fun _ _ _ _ => chainRound_ok) h ha
  exact hfirst

theorem run_unary_of_ne (hs : s.kind ≠ .hash) : (unary rules).run s = (suffixed rules).run s := by
  unfold unary
  rw [run_bind_ok (run_here s), run_bind, run_accept, if_neg hs]
  rfl

/-- An expression that is a choice is an atom, and nothing behind it belongs to it. -/
theorem run_assignment_when (hr : RulesRead rules) (h : (assignment rules).run s = (.ok a, t))
    (ha : a.node.isWhen = true) (hs : s.kind ≠ .hash) : (atom rules).run s = (.ok a.node, t) := by
  have hu := reads_unary hr
  unfold assignment at h
  rw [run_bind_ok (run_here s)] at h
  obtain ⟨target, u, htarget, h⟩ := bind_ok.mp h
  rw [run_bind_ok (run_nextIs _ u)] at h
  split at h
  · split at h
    · obtain ⟨_, _, -, h⟩ := bind_ok.mp h
      obtain ⟨value, _, -, h⟩ := bind_ok.mp h
      cases h
      cases ha
    · cases h
  · cases h
    have hequality := run_chain_when (reads_chain _ (reads_chain _ (reads_chain _ hu))) htarget ha
    have hcomparison := run_chain_when (reads_chain _ (reads_chain _ hu)) hequality ha
    have hunary := run_chain_when hu (run_chain_when (reads_chain _ hu) hcomparison ha) ha
    exact run_suffixed_when hr ((run_unary_of_ne hs).symm.trans hunary) ha

-- ---------------------------------------------------------------------------
-- Atoms as whole expressions
-- ---------------------------------------------------------------------------

def Closes (kind : TokenKind) : Prop := kind = .eof ∨ kind = .rightParen

theorem run_suffix?_closes (ht : Closes t.kind) : (suffix? rules a).run t = (.ok none, t) := by
  have hline {kind : TokenKind} (hk : ¬Closes kind) : (nextOnLine kind).run t = (.ok false, t) := by
    rw [run_nextOnLine, decide_eq_false (by rintro rfl; exact hk ht), Bool.false_and]
  have hdot : (accept .dot).run t = (.ok false, t) := by
    rw [run_accept, if_neg (by intro h; rw [h] at ht; revert ht; simp [Closes])]
  unfold suffix?
  rw [run_bind_ok (hline (by simp [Closes])), if_neg Bool.false_ne_true,
    run_bind_ok (hline (by simp [Closes])), if_neg Bool.false_ne_true,
    run_bind_ok (hline (by simp [Closes])), if_neg Bool.false_ne_true, run_bind_ok hdot]
  rfl

theorem run_suffixed_closes (hr : RulesRead rules) (h : (atom rules).run s = (.ok e, t))
    (ht : Closes t.kind) : (suffixed rules).run s = (.ok ⟨e, s.here.merge t.previous⟩, t) := by
  unfold suffixed
  rw [run_bind_ok (run_here s), run_bind_ok h, run_bind_ok (run_located _ _ t),
    run_iterate (rounds_suffixRound hr _)]
  unfold suffixRound
  rw [run_bind_assoc, run_bind_ok (run_suffix?_closes ht)]
  rfl

theorem run_chain_closes {p : Precedence} {operand : Parser (Located Expr)} (hr : Reads operand)
    (h : operand.run s = (.ok a, t)) (ht : Closes t.kind) : (chain p operand).run s = (.ok a, t) := by
  have hop : BinaryOp.at? p t.kind = none := by
    rcases ht with ht | ht <;> rw [ht] <;> cases p <;> rfl
  unfold chain
  rw [run_bind_ok (run_here s), run_bind_ok h, run_iterate (rounds_chainRound p hr _)]
  unfold chainRound operator?
  rw [run_bind_assoc, run_bind_assoc, run_bind_ok (run_peek t), hop]
  rfl

/-- An atom is the whole expression if no operator and no suffix follows. -/
theorem run_assignment_closes (hr : RulesRead rules) (hs : s.kind ≠ .hash)
    (h : (atom rules).run s = (.ok e, t)) (ht : Closes t.kind) :
    (assignment rules).run s = (.ok ⟨e, s.here.merge t.previous⟩, t) := by
  have hu := reads_unary hr
  have hunary := (run_unary_of_ne hs).trans (run_suffixed_closes hr h ht)
  have hbinary : (binary rules).run s = (.ok ⟨e, s.here.merge t.previous⟩, t) := by
    refine run_chain_closes (reads_chain _ (reads_chain _ (reads_chain _ hu))) ?_ ht
    refine run_chain_closes (reads_chain _ (reads_chain _ hu)) ?_ ht
    exact run_chain_closes (reads_chain _ hu) (run_chain_closes hu hunary ht) ht
  have hassign : (nextIs .assign).run t = (.ok false, t) := by
    rw [run_nextIs, decide_eq_false]
    rcases ht with ht | ht <;> rw [ht] <;> decide
  unfold assignment
  rw [run_bind_ok (run_here s), run_bind_ok hbinary, run_bind_ok hassign]
  rfl

end Parser

end Linewise
