import Linewise.Proofs.Ast.Spans
import Linewise.Proofs.Ast.Types
import Linewise.Proofs.Lexing.Language

/-!
# The parts of a type

Induction over the types inside of a type, and the types that can be written: those that the grammar answers
with levels enough.
-/

namespace Linewise

open Lexeme (Spells)

variable {n : Nat} {t u : Ty} {ok : Ty → Prop}

-- ---------------------------------------------------------------------------
-- User types
-- ---------------------------------------------------------------------------

namespace UserType

def names : UserType → List String
  | simple name _ => [name]
  | member parent name _ => parent.names ++ [name]

def args : UserType → List (Located Ty)
  | simple _ args => args
  | member parent _ args => parent.args ++ args

theorem parents {P : UserType → Prop} (simple : ∀ name args, P (simple name args))
    (member : ∀ parent name args, P parent → P (member parent name args)) (t : UserType) : P t :=
  names.induct P simple member t

theorem types_eq (t : UserType) : HasTypes.types t = HasTypes.types t.args := by
  induction t using parents with
  | simple name args => exact types_simple name args
  | member parent name args ih => rw [types_memberType, ih, UserType.args, types_append]

def mapArgs (g : Located Ty → Located Ty) : UserType → UserType
  | simple name args => simple name (args.map g)
  | member parent name args => member (parent.mapArgs g) name (args.map g)

variable {g : Located Ty → Located Ty}

@[simp] theorem names_mapArgs (t : UserType) : (t.mapArgs g).names = t.names := by
  induction t using parents with
  | simple name args => rfl
  | member parent name args ih => rw [mapArgs, names, ih, names]

@[simp] theorem args_mapArgs (t : UserType) : (t.mapArgs g).args = t.args.map g := by
  induction t using parents with
  | simple name args => rfl
  | member parent name args ih => rw [mapArgs, UserType.args, ih, UserType.args, List.map_append]

theorem mapArgs_eq_self {t : UserType} (h : ∀ a ∈ t.args, g a = a) : t.mapArgs g = t := by
  induction t using parents with
  | simple name args =>
    have hargs : ∀ a ∈ args, g a = a := h
    rw [mapArgs, List.map_congr_left hargs, List.map_id']
  | member parent name args ih =>
    obtain ⟨hparent, hargs⟩ := List.forall_mem_append.mp h
    rw [mapArgs, ih hparent, List.map_congr_left hargs, List.map_id']

end UserType

-- ---------------------------------------------------------------------------
-- Induction
-- ---------------------------------------------------------------------------

theorem Located.sizeOf_node {α : Type} [SizeOf α] (a : Located α) : sizeOf a.node < sizeOf a := by
  rcases a with ⟨a, s⟩
  simp
  omega

theorem UserType.sizeOf_args (t : UserType) : ∀ a ∈ t.args, sizeOf a < sizeOf t := by
  induction t using UserType.parents with
  | simple name args =>
    intro a (ha : a ∈ args)
    have := List.sizeOf_lt_of_mem ha
    simp
    omega
  | member parent name args ih =>
    refine List.forall_mem_append.mpr ⟨fun a ha => ?_, fun a ha => ?_⟩
    · have := ih a ha
      simp
      omega
    · have := List.sizeOf_lt_of_mem ha
      simp
      omega

/-- Induction over the types inside of a type. -/
theorem Ty.parts {P : Ty → Prop} (user : ∀ t, (∀ a ∈ t.args, P a.node) → P (.user t))
    (nullable : ∀ t, P t.node → P (.nullable t)) (pointer : ∀ t, P t.node → P (.pointer t))
    (function : ∀ receiver params result, (∀ r ∈ receiver, P r.node) → (∀ p ∈ params, P p.2.node) →
      P result.node → P (.function receiver params result)) : ∀ t, P t
  | .user t => user t fun a ha =>
    have := t.sizeOf_args a ha
    have := a.sizeOf_node
    Ty.parts user nullable pointer function a.node
  | .nullable t =>
    have := t.sizeOf_node
    nullable t (Ty.parts user nullable pointer function t.node)
  | .pointer t =>
    have := t.sizeOf_node
    pointer t (Ty.parts user nullable pointer function t.node)
  | .function receiver params result =>
    have := result.sizeOf_node
    function receiver params result
      (fun r hr =>
        have := congrArg sizeOf (Option.mem_def.mp hr)
        have := r.sizeOf_node
        Ty.parts user nullable pointer function r.node)
      (fun ⟨_, t⟩ hp =>
        have := List.sizeOf_lt_of_mem hp
        have := t.sizeOf_node
        Ty.parts user nullable pointer function t.node)
      (Ty.parts user nullable pointer function result.node)
termination_by t => sizeOf t
decreasing_by all_goals simp at *; omega

-- ---------------------------------------------------------------------------
-- What holds throughout a type
-- ---------------------------------------------------------------------------

/-- The type and all types inside of it are so. -/
def Throughout (ok : Ty → Prop) (t : Ty) : Prop := ∀ u ∈ types t, ok u

theorem forall_types_list {α : Type} [HasTypes α] {as : List α} :
    (∀ u ∈ types as, ok u) ↔ ∀ a ∈ as, ∀ u ∈ types a, ok u := by
  simp only [mem_types_list]
  exact ⟨fun h a ha u hu => h u ⟨a, ha, hu⟩, fun h u ⟨a, ha, hu⟩ => h a ha u hu⟩

theorem throughout_user {t : UserType} :
    Throughout ok (.user t) ↔ ok (.user t) ∧ ∀ a ∈ t.args, Throughout ok a.node := by
  rw [Throughout, types_user, List.forall_mem_cons, UserType.types_eq, forall_types_list]
  rfl

theorem throughout_nullable {t : Located Ty} :
    Throughout ok (.nullable t) ↔ ok (.nullable t) ∧ Throughout ok t.node :=
  List.forall_mem_cons

theorem throughout_pointer {t : Located Ty} :
    Throughout ok (.pointer t) ↔ ok (.pointer t) ∧ Throughout ok t.node :=
  List.forall_mem_cons

theorem throughout_function {receiver : Option (Located Ty)} {params : List (Option String × Located Ty)}
    {result : Located Ty} :
    Throughout ok (.function receiver params result) ↔
      ok (.function receiver params result) ∧ (∀ r ∈ receiver, Throughout ok r.node) ∧
        (∀ p ∈ params, Throughout ok p.2.node) ∧ Throughout ok result.node := by
  have hreceiver : (∀ u ∈ types receiver, ok u) ↔ ∀ r ∈ receiver, Throughout ok r.node := by
    cases receiver <;> simp [Throughout]
  rw [Throughout, types_functionType, List.forall_mem_cons, List.forall_mem_append,
    List.forall_mem_append, hreceiver, forall_types_list, and_assoc]
  rfl

-- ---------------------------------------------------------------------------
-- Types that can be written
-- ---------------------------------------------------------------------------

/-- The names of the type are names, what takes a receiver has a user type as one, and no more levels of types
nest in it than these. -/
inductive Ty.Written : Nat → Ty → Prop
  | user {n : Nat} {t : UserType} (hnames : ∀ name ∈ t.names, Spells .identifier name.toList)
      (hargs : ∀ a ∈ t.args, a.node.Written n) : Written (n + 1) (.user t)
  | nullable {n : Nat} {t : Located Ty} (h : t.node.Written n) : Written n (.nullable t)
  | pointer {n : Nat} {t : Located Ty} (h : t.node.Written n) : Written n (.pointer t)
  | function {n : Nat} {receiver : Option (Located Ty)} {params : List (Option String × Located Ty)}
      {result : Located Ty} (huser : ∀ r ∈ receiver, ∃ t, r.node = .user t)
      (hreceiver : ∀ r ∈ receiver, r.node.Written (n + 1))
      (hnames : ∀ p ∈ params, ∀ name ∈ p.1, Spells .identifier name.toList)
      (hparams : ∀ p ∈ params, p.2.node.Written n) (hresult : result.node.Written n) :
      Written (n + 1) (.function receiver params result)

theorem Ty.Written.succ (h : t.Written n) : t.Written (n + 1) := by
  induction h with
  | user hnames _ ih => exact .user hnames ih
  | nullable _ ih => exact .nullable ih
  | pointer _ ih => exact .pointer ih
  | function huser _ hnames _ _ ihr ihp ih => exact .function huser ihr hnames ihp ih

theorem Ty.Written.pos (h : t.Written n) : 0 < n := by
  induction h with
  | user | function => exact Nat.succ_pos _
  | nullable _ ih | pointer _ ih => exact ih

theorem Ty.Written.throughout (h : t.Written n) : Throughout (Written n) t := by
  induction h with
  | user hnames hargs ih =>
    exact throughout_user.mpr ⟨.user hnames hargs, fun a ha u hu => (ih a ha u hu).succ⟩
  | nullable h ih => exact throughout_nullable.mpr ⟨.nullable h, ih⟩
  | pointer h ih => exact throughout_pointer.mpr ⟨.pointer h, ih⟩
  | function huser hr hnames hp h ihr ihp ih =>
    exact throughout_function.mpr ⟨.function huser hr hnames hp h, ihr,
      fun p hp u hu => (ihp p hp u hu).succ, fun u hu => (ih u hu).succ⟩

end Linewise
