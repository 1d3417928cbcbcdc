import Linewise.Proofs.Ast.Spelling

/-!
# Marks behind types

In the text of a type a `?` or `*` applies to as little as it can. Behind a function type that is the result,
so a function type that has a mark as a whole looks like another one. `Ty.settled` is the type that the text
shows: no mark in it applies to a function type.
-/

namespace Linewise

open Lexeme

variable {gap : List Item} {n : Nat} {t u : Ty} {f : Span → Span}

-- ---------------------------------------------------------------------------
-- Marks
-- ---------------------------------------------------------------------------

inductive Mark where
  | question | star

namespace Mark

def on : Mark → Located Ty → Ty
  | question, t => .nullable t
  | star, t => .pointer t

def item : Mark → Item
  | question => (.question, "?")
  | star => (.times, "*")

@[simp] theorem display_on (m : Mark) (t : Located Ty) :
    (m.on t).display = t.node.display ++ m.item.2 := by
  cases m <;> rfl

theorem spelling_on (m : Mark) (t : Located Ty) : (m.on t).spelling gap = t.node.spelling gap ++ [m.item] := by
  cases m <;> rfl

theorem throughout_on {ok : Ty → Prop} (m : Mark) {t : Located Ty} :
    Throughout ok (m.on t) ↔ ok (m.on t) ∧ Throughout ok t.node := by
  cases m with
  | question => exact throughout_nullable
  | star => exact throughout_pointer

theorem written_on (m : Mark) {t : Located Ty} (h : t.node.Written n) : (m.on t).Written n := by
  cases m with
  | question => exact .nullable h
  | star => exact .pointer h

end Mark

def Ty.isMarked : Ty → Bool
  | .nullable _ | .pointer _ => true
  | _ => false

theorem isMarked_mapSpans (f : Span → Span) (t : Ty) : (mapSpans f t).isMarked = t.isMarked := by
  cases t with
  | function receiver => rw [mapSpans_functionType]; rfl
  | user | nullable | pointer => rfl

/-- A mark that applies to a function type as a whole. -/
def Ty.marksFunction : Ty → Bool
  | .nullable ⟨.function .., _⟩ | .pointer ⟨.function .., _⟩ => true
  | _ => false

/-- A `?` applies to nothing but a user type here, and a `*` to no function type. -/
def Ty.isPlain : Ty → Bool
  | .nullable ⟨.user _, _⟩ => true
  | .nullable _ | .pointer ⟨.function .., _⟩ => false
  | _ => true

def Ty.marked (m : Mark) (span : Span) : Ty → Ty
  | .function receiver params ⟨t, s⟩ => .function receiver params ⟨t.marked m span, s⟩
  | t => m.on ⟨t, span⟩

theorem display_marked (m : Mark) (span : Span) (t : Ty) :
    (t.marked m span).display = t.display ++ m.item.2 := by
  induction t using Ty.parts with
  | user | nullable | pointer => exact m.display_on _
  | function receiver params result _ _ ih =>
    simp only [Ty.marked, display_function, ih, functionText, String.append_assoc]

theorem Ty.Written.marked (m : Mark) (span : Span) (h : t.Written n) : (t.marked m span).Written n := by
  induction h with
  | user hnames hargs => exact m.written_on (.user hnames hargs)
  | nullable h => exact m.written_on (.nullable h)
  | pointer h => exact m.written_on (.pointer h)
  | function huser hr hnames hp _ _ _ ih => exact .function huser hr hnames hp ih

abbrev Ty.Unmarked (t : Ty) : Prop := Throughout (·.marksFunction = false) t

theorem Ty.Unmarked.marked (m : Mark) (span : Span) (h : t.Unmarked) : (t.marked m span).Unmarked := by
  induction t using Ty.parts with
  | user | nullable | pointer => exact m.throughout_on.mpr ⟨by cases m <;> rfl, h⟩
  | function receiver params result _ _ ih =>
    obtain ⟨-, hreceiver, hparams, hresult⟩ := throughout_function.mp h
    exact throughout_function.mpr ⟨rfl, hreceiver, hparams, ih hresult⟩

-- ---------------------------------------------------------------------------
-- The type that a text shows
-- ---------------------------------------------------------------------------

mutual
/-- The type with each mark moved to what its text puts it behind. -/
def Ty.settled : Ty → Ty
  | .user t => .user t.settled
  | .nullable ⟨t, s⟩ => t.settled.marked .question s
  | .pointer ⟨t, s⟩ => t.settled.marked .star s
  | .function none params ⟨t, s⟩ => .function none (Ty.settledParams params) ⟨t.settled, s⟩
  | .function (some ⟨r, u⟩) params ⟨t, s⟩ =>
    .function (some ⟨r.settled, u⟩) (Ty.settledParams params) ⟨t.settled, s⟩
def UserType.settled : UserType → UserType
  | .simple name args => .simple name (Ty.settledList args)
  | .member parent name args => .member parent.settled name (Ty.settledList args)
def Ty.settledList : List (Located Ty) → List (Located Ty)
  | [] => []
  | ⟨t, s⟩ :: ts => ⟨t.settled, s⟩ :: Ty.settledList ts
def Ty.settledParams : List (Option String × Located Ty) → List (Option String × Located Ty)
  | [] => []
  | (name, ⟨t, s⟩) :: ps => (name, ⟨t.settled, s⟩) :: Ty.settledParams ps
end

def Located.settled (t : Located Ty) : Located Ty := ⟨t.node.settled, t.span⟩

theorem UserType.settled_eq (t : UserType) : t.settled = t.mapArgs Located.settled := by
  have hlist (ts : List (Located Ty)) : Ty.settledList ts = ts.map Located.settled := by
    induction ts with
    | nil => rfl
    | cons t ts ih => rw [List.map_cons, ← ih]; rfl
  induction t using UserType.parents with
  | simple name args => rw [UserType.settled, hlist]; rfl
  | member parent name args ih => rw [UserType.settled, hlist, ih]; rfl

theorem settled_function (receiver : Option (Located Ty)) (params : List (Option String × Located Ty))
    (result : Located Ty) :
    (Ty.function receiver params result).settled =
      .function (receiver.map Located.settled) (params.map fun p => (p.1, p.2.settled)) result.settled := by
  have hparams : Ty.settledParams params = params.map fun p => (p.1, p.2.settled) := by
    induction params with
    | nil => rfl
    | cons p ps ih => rw [List.map_cons, ← ih]; rfl
  rw [← hparams]
  cases receiver <;> rfl

theorem display_settled (t : Ty) : t.settled.display = t.display := by
  induction t using Ty.parts with
  | user t ih =>
    show t.settled.display = t.display
    rw [UserType.settled_eq]
    exact display_mapArgs t ih
  | nullable t ih => exact (display_marked .question t.span t.node.settled).trans (by rw [ih]; rfl)
  | pointer t ih => exact (display_marked .star t.span t.node.settled).trans (by rw [ih]; rfl)
  | function receiver params result ihr ihp ih =>
    rw [settled_function]
    exact display_mapParts ihr ihp ih

theorem Ty.Written.settled (h : t.Written n) : t.settled.Written n := by
  induction h with
  | @user n t hnames _ ih =>
    show (Ty.user t.settled).Written (n + 1)
    rw [UserType.settled_eq]
    refine .user (by simpa using hnames) fun a ha => ?_
    rw [UserType.args_mapArgs] at ha
    obtain ⟨b, hb, rfl⟩ := List.mem_map.mp ha
    exact ih b hb
  | nullable _ ih => exact ih.marked .question _
  | pointer _ ih => exact ih.marked .star _
  | @function n receiver params result huser _ hnames _ _ ihr ihp ih =>
    rw [settled_function]
    refine .function (fun x hx => ?_) (fun x hx => ?_) (fun x hx => ?_) (fun x hx => ?_) ih
    · obtain ⟨r, hr, rfl⟩ := Option.map_eq_some_iff.mp hx
      obtain ⟨t, ht⟩ := huser r hr
      exact ⟨t.settled, by rw [Located.settled, ht]; rfl⟩
    · obtain ⟨r, hr, rfl⟩ := Option.map_eq_some_iff.mp hx
      exact ihr r hr
    · obtain ⟨p, hp, rfl⟩ := List.mem_map.mp hx
      exact hnames p hp
    · obtain ⟨p, hp, rfl⟩ := List.mem_map.mp hx
      exact ihp p hp

theorem unmarked_settled (t : Ty) : t.settled.Unmarked := by
  induction t using Ty.parts with
  | user t ih =>
    show (Ty.user t.settled).Unmarked
    rw [UserType.settled_eq]
    refine throughout_user.mpr ⟨rfl, fun a ha => ?_⟩
    rw [UserType.args_mapArgs] at ha
    obtain ⟨b, hb, rfl⟩ := List.mem_map.mp ha
    exact ih b hb
  | nullable t ih => exact ih.marked .question _
  | pointer t ih => exact ih.marked .star _
  | function receiver params result ihr ihp ih =>
    rw [settled_function]
    refine throughout_function.mpr ⟨rfl, fun x hx => ?_, fun x hx => ?_, ih⟩
    · obtain ⟨r, hr, rfl⟩ := Option.map_eq_some_iff.mp hx
      exact ihr r hr
    · obtain ⟨p, hp, rfl⟩ := List.mem_map.mp hx
      exact ihp p hp

theorem Ty.Unmarked.settled_eq (h : t.Unmarked) : t.settled = t := by
  have hmark (m : Mark) {t : Located Ty} (hm : (m.on t).marksFunction = false) :
      t.node.marked m t.span = m.on t := by
    rcases t with ⟨t, s⟩
    cases t with
    | function => cases m <;> cases hm
    | user | nullable | pointer => rfl
  induction t using Ty.parts with
  | user t ih =>
    obtain ⟨-, hargs⟩ := throughout_user.mp h
    show Ty.user t.settled = .user t
    rw [UserType.settled_eq]
    refine congrArg _ (UserType.mapArgs_eq_self fun a ha => ?_)
    rw [Located.settled, ih a ha (hargs a ha)]
  | nullable t ih =>
    obtain ⟨hm, ht⟩ := throughout_nullable.mp h
    show t.node.settled.marked .question t.span = _
    rw [ih ht, hmark .question hm]
    rfl
  | pointer t ih =>
    obtain ⟨hm, ht⟩ := throughout_pointer.mp h
    show t.node.settled.marked .star t.span = _
    rw [ih ht, hmark .star hm]
    rfl
  | function receiver params result ihr ihp ih =>
    obtain ⟨-, hreceiver, hparams, hresult⟩ := throughout_function.mp h
    have hself {x : Located Ty} (hx : x.node.settled = x.node) : x.settled = x := by
      rw [Located.settled, hx]
    have hr : receiver.map Located.settled = receiver := by
      cases receiver with
      | none => rfl
      | some r => exact congrArg some (hself (ihr r rfl (hreceiver r rfl)))
    have hp : (params.map fun p => (p.1, p.2.settled)) = params := by
      refine (List.map_congr_left fun p hp => ?_).trans (List.map_id' params)
      rw [hself (ihp p hp (hparams p hp))]
    rw [settled_function, hr, hp, hself (ih hresult)]

end Linewise
