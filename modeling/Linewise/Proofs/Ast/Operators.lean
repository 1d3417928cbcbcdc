import Linewise.Ast
import Linewise.Proofs.Lexing.Placement

/-!
# Operators between operands

The binary trees over names and integers. A tree is grouped if its operators stand as their ranks say, those of
one rank from the left. Every row of operands with operators between them is the reading of a grouped tree,
which is built from the left, operand by operand.
-/

namespace Linewise

inductive Operand where
  | name (text : String)
  | integer (text : String)
deriving DecidableEq

namespace Operand

def item : Operand → Item
  | name text => (.identifier, text)
  | integer text => (.integer, text)

def expr : Operand → Expr
  | name text => .name text
  | integer text => .integer text

end Operand

namespace BinaryOp

def item : BinaryOp → Item
  | plus => (.plus, "+")
  | minus => (.minus, "-")
  | times => (.times, "*")
  | divide => (.divide, "/")
  | equals => (.equals, "==")
  | notEquals => (.notEquals, "!=")
  | less => (.leftAngle, "<")
  | greater => (.rightAngle, ">")
  | lessEqual => (.lessEqual, "<=")
  | greaterEqual => (.greaterEqual, ">=")

/-- How tightly an operator binds: equalities less than comparisons, these less than sums, and these less than
products. -/
def rank : BinaryOp → Nat
  | equals | notEquals => 0
  | less | greater | lessEqual | greaterEqual => 1
  | plus | minus => 2
  | times | divide => 3

theorem rank_lt (op : BinaryOp) : op.rank < 4 := by cases op <;> decide

end BinaryOp

inductive OperatorTree where
  | leaf (a : Operand)
  | node (op : BinaryOp) (left right : OperatorTree)
deriving DecidableEq

def chainItems (first : Operand) (others : List (BinaryOp × Operand)) : List Item :=
  first.item :: others.flatMap fun x => [x.1.item, x.2.item]

namespace OperatorTree

variable {t : OperatorTree} {op : BinaryOp} {a : Operand}

/-- How tightly a tree is held together at its root. Nothing comes between the parts of an operand. -/
def rank : OperatorTree → Nat
  | leaf _ => 4
  | node op _ _ => op.rank

/-- On the left of each operator stands what binds as tightly at least, on its right what binds more tightly. -/
def Grouped : OperatorTree → Prop
  | leaf _ => True
  | node op left right => (op.rank ≤ left.rank ∧ op.rank < right.rank) ∧ left.Grouped ∧ right.Grouped

instance Grouped.decidable : (t : OperatorTree) → Decidable t.Grouped
  | leaf _ => inferInstanceAs (Decidable True)
  | node op left right =>
    have := Grouped.decidable left
    have := Grouped.decidable right
    inferInstanceAs (Decidable ((op.rank ≤ left.rank ∧ op.rank < right.rank) ∧ left.Grouped ∧ right.Grouped))

/-- The operands and operators of a tree, from left to right. -/
def reading : OperatorTree → List Item
  | leaf a => [a.item]
  | node op left right => left.reading ++ op.item :: right.reading

def expr : OperatorTree → Expr
  | leaf a => a.expr
  | node op left right => .binary op ⟨left.expr, ⟨0, 0⟩⟩ ⟨right.expr, ⟨0, 0⟩⟩

theorem expr_injective {t u : OperatorTree} (h : t.expr = u.expr) : t = u := by
  induction t generalizing u with
  | leaf a =>
    cases u with
    | leaf b =>
      cases a <;> cases b <;> cases h
      · rfl
      · rfl
    | node op left right => cases a <;> cases h
  | node op left right ihl ihr =>
    cases u with
    | leaf b => cases b <;> cases h
    | node op' left' right' =>
      simp only [expr, Expr.binary.injEq, Located.mk.injEq, and_true] at h
      obtain ⟨rfl, hl, hr⟩ := h
      rw [ihl hl, ihr hr]

-- ---------------------------------------------------------------------------
-- Building a tree
-- ---------------------------------------------------------------------------

/-- The tree with one more operand: the operator goes to the right end, above all that binds as tightly at
least. -/
def attach (op : BinaryOp) (a : Operand) : OperatorTree → OperatorTree
  | leaf b => node op (leaf b) (leaf a)
  | node op' left right =>
    if op.rank ≤ op'.rank then node op (node op' left right) (leaf a) else node op' left (attach op a right)

def ofChain (first : Operand) (others : List (BinaryOp × Operand)) : OperatorTree :=
  others.foldl (fun t x => t.attach x.1 x.2) (leaf first)

theorem rank_attach (op : BinaryOp) (a : Operand) (t : OperatorTree) :
    (t.attach op a).rank = min op.rank t.rank := by
  cases t with
  | leaf b => exact (Nat.min_eq_left (Nat.le_of_lt op.rank_lt)).symm
  | node op' left right =>
    rw [attach]
    split
    · exact (Nat.min_eq_left ‹_›).symm
    · exact (Nat.min_eq_right (Nat.le_of_not_le ‹_›)).symm

theorem Grouped.attach (h : t.Grouped) (op : BinaryOp) (a : Operand) : (t.attach op a).Grouped := by
  induction t with
  | leaf b => exact ⟨⟨Nat.le_of_lt op.rank_lt, op.rank_lt⟩, trivial, trivial⟩
  | node op' left right _ ih =>
    rw [OperatorTree.attach]
    split
    · exact ⟨⟨‹_›, op.rank_lt⟩, h, trivial⟩
    · obtain ⟨⟨hle, hlt⟩, hleft, hright⟩ := h
      refine ⟨⟨hle, ?_⟩, hleft, ih hright⟩
      rw [rank_attach]
      exact Nat.lt_min.mpr ⟨Nat.lt_of_not_le ‹_›, hlt⟩

theorem reading_attach (op : BinaryOp) (a : Operand) (t : OperatorTree) :
    (t.attach op a).reading = t.reading ++ [op.item, a.item] := by
  induction t with
  | leaf b => rfl
  | node op' left right _ ih =>
    rw [attach]
    split
    · rfl
    · rw [reading, ih, reading, List.append_assoc, List.cons_append]

theorem ofChain_spec (first : Operand) (others : List (BinaryOp × Operand)) :
    (ofChain first others).Grouped ∧ (ofChain first others).reading = chainItems first others := by
  suffices hall : ∀ t : OperatorTree, t.Grouped →
      (others.foldl (fun t x => t.attach x.1 x.2) t).Grouped ∧
        (others.foldl (fun t x => t.attach x.1 x.2) t).reading =
          t.reading ++ others.flatMap fun x => [x.1.item, x.2.item] from hall (leaf first) trivial
  induction others with
  | nil => exact fun t ht => ⟨ht, (List.append_nil _).symm⟩
  | cons x others ih =>
    intro t ht
    obtain ⟨hgrouped, hreading⟩ := ih (t.attach x.1 x.2) (ht.attach x.1 x.2)
    refine ⟨hgrouped, ?_⟩
    rw [List.foldl_cons, hreading, reading_attach, List.append_assoc, List.flatMap_cons]

end OperatorTree

end Linewise
