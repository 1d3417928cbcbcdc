import Linewise.Proofs.Ast.Operators
import Linewise.Proofs.Parsing.GrammarProgress
import Linewise.Proofs.Parsing.Takes

/-!
# The grammar takes grouped trees

The rule for the operators of one precedence takes the trees whose roots bind as tightly at least, if the rule
for its operands takes those whose roots bind more tightly. So no two grouped trees have one reading.
-/

namespace Linewise

def Precedence.rank : Precedence → Nat
  | equality => 0
  | comparison => 1
  | additive => 2
  | multiplicative => 3

theorem Precedence.rank_lt (p : Precedence) : p.rank < 4 := by cases p <;> decide

namespace BinaryOp

variable {op : BinaryOp} {p : Precedence}

theorem at?_item (h : op.rank = p.rank) : at? p op.item.1 = some op := by
  cases op <;> cases p <;> first | rfl | cases h

theorem at?_item_none (h : op.rank ≠ p.rank) : at? p op.item.1 = none := by
  cases op <;> cases p <;> first | rfl | exact absurd rfl h

end BinaryOp

namespace Parser

open OperatorTree (Grouped reading)

variable {d k : Nat} {rest : List Item} {rules : Rules} {operand : Parser (Located Expr)} {p : Precedence}
  {start : Span} {b target : Located Expr} {op : BinaryOp} {t u left right : OperatorTree}

-- ---------------------------------------------------------------------------
-- What stands behind a tree
-- ---------------------------------------------------------------------------

/-- The items end a tree whose root has this rank or a higher one: there are none, or an operator comes first
that binds less tightly. -/
def EndsTree (k : Nat) (is : List Item) : Prop := is = [] ∨ ∃ op js, is = op.item :: js ∧ BinaryOp.rank op < k

theorem EndsTree.mono {k' : Nat} (h : EndsTree k rest) (hk : k ≤ k') : EndsTree k' rest :=
  h.imp_right fun ⟨op, js, hrest, hop⟩ => ⟨op, js, hrest, Nat.lt_of_lt_of_le hop hk⟩

theorem EndsTree.ne {kind : TokenKind} (h : EndsTree k rest)
    (hkind : kind ∈ [.leftParen, .leftCurl, .leftSquare, .dot, .assign]) : headKind rest ≠ kind := by
  simp only [List.mem_cons, List.not_mem_nil, or_false] at hkind
  rcases h with rfl | ⟨op, js, rfl, -⟩
  · rintro rfl
    simp [headKind] at hkind
  · rintro rfl
    cases op <;> simp [headKind, BinaryOp.item] at hkind

theorem EndsTree.at? (h : EndsTree p.rank rest) : BinaryOp.at? p (headKind rest) = none := by
  rcases h with rfl | ⟨op, js, rfl, hop⟩
  · rfl
  · exact BinaryOp.at?_item_none (Nat.ne_of_lt hop)

-- ---------------------------------------------------------------------------
-- Operands
-- ---------------------------------------------------------------------------

theorem takes_atom (a : Operand) : Takes d (atom rules) (a.item :: rest) rest a.expr := by
  have hread {kind : TokenKind} (text : String) (node : String → Expr) :
      Takes d (node <$> expectAs .expression kind) ((kind, text) :: rest) rest (node text) :=
    (takes_expectAs .expression text).bind fun text' (htext : text' = text) => takes_pure (htext ▸ .refl _)
  cases a with
  | name text => exact .peek_bind (hread text .name)
  | integer text => exact .peek_bind (hread text .integer)

theorem takes_suffix?_none (h : EndsTree k rest) : Takes d (suffix? rules target) rest rest none := by
  refine .nextOnLine_no_bind (h.ne (by simp)) (.nextOnLine_no_bind (h.ne (by simp)) ?_)
  refine .nextOnLine_no_bind (h.ne (by simp)) (.accept_no_bind (h.ne (by simp)) ?_)
  exact takes_pure (.refl _)

theorem takes_suffixed (hr : RulesRead rules) (a : Operand) (h : EndsTree k rest) :
    Takes d (suffixed rules) (a.item :: rest) rest ⟨a.expr, ⟨0, 0⟩⟩ := by
  have hlast (start : Span) {first : Located Expr} (hfirst : SameShape first ⟨a.expr, ⟨0, 0⟩⟩) :
      Takes d (suffixRound rules start first) rest rest (.done ⟨a.expr, ⟨0, 0⟩⟩) := by
    refine (takes_suffix?_none h).bind fun node hnode => ?_
    obtain rfl : node = none := Option.map_eq_none_iff.mp hnode
    exact takes_pure (congrArg ForInStep.done hfirst)
  refine .here_bind fun start => (takes_atom a).bind fun node hnode => ?_
  have hlocated : Takes d (located start node) rest rest (⟨a.expr, ⟨0, 0⟩⟩ : Located Expr) :=
    takes_located hnode
  exact hlocated.bind fun first hfirst => .iterate_done (rounds_suffixRound hr start) (hlast start hfirst)

-- ---------------------------------------------------------------------------
-- Operators
-- ---------------------------------------------------------------------------

def TakesTrees (d : Nat) (p : Parser (Located Expr)) (k : Nat) : Prop :=
  ∀ t : OperatorTree, t.Grouped → k ≤ t.rank → ∀ rest, EndsTree k rest →
    Takes d p (t.reading ++ rest) rest ⟨t.expr, ⟨0, 0⟩⟩

theorem takesTrees_unary (hr : RulesRead rules) : TakesTrees d (unary rules) 4 := by
  intro t _ hrank rest hrest
  cases t with
  | node op left right => exact absurd op.rank_lt (Nat.not_lt_of_le hrank)
  | leaf a =>
    have hhash : headKind (a.item :: rest) ≠ .hash := by cases a <;> exact nofun
    exact .here_bind fun start => .accept_no_bind hhash (takes_suffixed hr a hrest)

theorem takes_operator? (h : op.rank = p.rank) : Takes d (operator? p) (op.item :: rest) rest (some op) := by
  have hat : BinaryOp.at? p (headKind (op.item :: rest)) = some op := BinaryOp.at?_item h
  refine .peek_bind ?_
  rw [hat]
  exact .expect_bind (takes_pure (.refl _))

theorem takes_operator?_none (h : EndsTree p.rank rest) : Takes d (operator? p) rest rest none := by
  refine .peek_bind ?_
  rw [h.at?]
  exact takes_pure (.refl _)

theorem SameShape.binary {lhs lhs' rhs rhs' : Located Expr} (hl : SameShape lhs lhs') (op : BinaryOp)
    (hr : SameShape rhs rhs') : SameShape (Expr.binary op lhs rhs) (.binary op lhs' rhs') := by
  show Expr.binary op (mapSpans noSpan lhs) (mapSpans noSpan rhs) =
    .binary op (mapSpans noSpan lhs') (mapSpans noSpan rhs')
  rw [hl, hr]

theorem takes_chainRound (ho : TakesTrees d operand (p.rank + 1)) (hop : op.rank = p.rank)
    (hright : right.Grouped) (hrank : op.rank < right.rank) (hrest : EndsTree (p.rank + 1) rest)
    (hb : SameShape b ⟨left.expr, ⟨0, 0⟩⟩) :
    Takes d (chainRound p operand start b) (op.item :: (right.reading ++ rest)) rest
      (.yield ⟨(OperatorTree.node op left right).expr, ⟨0, 0⟩⟩) := by
  refine (takes_operator? hop).bind fun op' hop' => ?_
  obtain rfl : op' = some op := by cases op' <;> cases hop'; rfl
  refine (ho right hright (hop ▸ hrank) rest hrest).bind fun rhs hrhs => ?_
  have hnode : SameShape (Expr.binary op b rhs) (OperatorTree.node op left right).expr := hb.binary op hrhs
  have hlocated : Takes d (located start (Expr.binary op b rhs)) rest rest
      (⟨(OperatorTree.node op left right).expr, ⟨0, 0⟩⟩ : Located Expr) := takes_located hnode
  exact hlocated.bind fun lhs hlhs => takes_pure hlhs.yield

/-- The tree is read by the loop, from the operand at its left end on. What the loop takes behind the tree it
takes then. -/
theorem takes_spine (hp : Reads operand) (ho : TakesTrees d operand (p.rank + 1)) (ht : t.Grouped)
    (hrank : p.rank ≤ t.rank) (hrest : EndsTree (p.rank + 1) rest) {js : List Item} {e : Located Expr}
    (hgo : ∀ b, SameShape b ⟨t.expr, ⟨0, 0⟩⟩ → Takes d (iterate (chainRound p operand start) b) rest js e) :
    Takes d (operand >>= iterate (chainRound p operand start)) (t.reading ++ rest) js e := by
  -- A tree that binds more tightly is an operand of the loop.
  have hoperand (hlt : p.rank < t.rank) :
      Takes d (operand >>= iterate (chainRound p operand start)) (t.reading ++ rest) js e :=
    (ho t ht hlt rest hrest).bind hgo
  induction t generalizing rest with
  | leaf a => exact hoperand p.rank_lt
  | node op left right ihl _ =>
    rcases Nat.lt_or_eq_of_le hrank with hlt | heq
    · exact hoperand hlt
    · have hop : op.rank = p.rank := heq.symm
      obtain ⟨⟨hleft, hright⟩, hgl, hgr⟩ := ht
      have hnext : EndsTree (p.rank + 1) (op.item :: (right.reading ++ rest)) :=
        .inr ⟨op, _, rfl, hop ▸ Nat.lt_succ_self _⟩
      have hround (b : Located Expr) (hb : SameShape b ⟨left.expr, ⟨0, 0⟩⟩) :
          Takes d (iterate (chainRound p operand start) b) (op.item :: (right.reading ++ rest)) js e :=
        .iterate_yield (rounds_chainRound p hp start) (takes_chainRound ho hop hgr hright hrest hb) hgo
      rw [reading, List.append_assoc, List.cons_append]
      exact ihl hgl (hop ▸ hleft) hnext hround fun hlt => (ho left hgl hlt _ hnext).bind hround

theorem takesTrees_chain (hp : Reads operand) (ho : TakesTrees d operand (p.rank + 1)) :
    TakesTrees d (chain p operand) p.rank := by
  intro t ht hrank rest hrest
  refine .here_bind fun start => takes_spine hp ho ht hrank (hrest.mono (Nat.le_succ _)) fun b hb => ?_
  refine .iterate_done (rounds_chainRound p hp start) ((takes_operator?_none hrest).bind fun op hop => ?_)
  obtain rfl : op = none := Option.map_eq_none_iff.mp hop
  exact takes_pure (congrArg ForInStep.done hb)

theorem takesTrees_binary (hr : RulesRead rules) : TakesTrees d (binary rules) 0 := by
  have hunary := reads_unary hr
  have hproduct := reads_chain .multiplicative hunary
  have hsum := reads_chain .additive hproduct
  refine takesTrees_chain (p := .equality) (reads_chain .comparison hsum) ?_
  refine takesTrees_chain (p := .comparison) hsum ?_
  refine takesTrees_chain (p := .additive) hproduct ?_
  exact takesTrees_chain (p := .multiplicative) hunary (takesTrees_unary hr)

theorem takes_assignment (hr : RulesRead rules) (ht : t.Grouped) :
    Takes d (assignment rules) t.reading [] ⟨t.expr, ⟨0, 0⟩⟩ := by
  have hend : EndsTree 0 [] := .inl rfl
  have htree := takesTrees_binary (d := d) hr t ht (Nat.zero_le _) [] hend
  rw [List.append_nil] at htree
  refine .here_bind fun start => htree.bind fun target htarget => ?_
  exact .nextIs_bind (decide_eq_false (hend.ne (by simp))) (takes_pure htarget)

-- ---------------------------------------------------------------------------
-- One tree for each reading
-- ---------------------------------------------------------------------------

theorem mapSpans_operators (t : OperatorTree) : mapSpans noSpan t.expr = t.expr := by
  induction t with
  | leaf a => cases a <;> rfl
  | node op left right ihl ihr =>
    show Expr.binary op ⟨mapSpans noSpan left.expr, ⟨0, 0⟩⟩ ⟨mapSpans noSpan right.expr, ⟨0, 0⟩⟩ = _
    rw [ihl, ihr]
    rfl

/-- A parser that takes two grouped trees with one reading answers the same for both of them. -/
theorem grouped_unique (ht : t.Grouped) (hu : u.Grouped) (h : t.reading = u.reading) : t = u := by
  obtain ⟨s, hdepth, hitems⟩ := exists_items t.reading
  have hrules := rulesRead_grammar maxDepth maxDepth
  obtain ⟨a, v, hrun, ha, -⟩ := takes_assignment hrules ht s hdepth hitems
  obtain ⟨b, w, hrun', hb, -⟩ := takes_assignment hrules hu s hdepth (hitems.trans h)
  cases hrun.symm.trans hrun'
  have hexpr : SameShape t.expr u.expr := SameShape.node (ha.symm.trans hb)
  rw [SameShape, mapSpans_operators, mapSpans_operators] at hexpr
  exact OperatorTree.expr_injective hexpr

end Parser

end Linewise
