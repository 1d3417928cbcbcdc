import Linewise.Proofs.Parsing.GrammarProgress
import Linewise.Proofs.Parsing.Matching

/-!
# The tokens of a type

`TypeForm is t`: the items `is` make up one complete type, which is read as `t`. A form has the kinds of its
signs and the names of its identifiers, and says nothing about places. The forms of user types, parameters and
function types are given the one for the types inside of them, as the productions are.
-/

namespace Linewise.Parser

/-- One pair of parentheses, where a comma may stand in front of the closing one. -/
inductive Parenthesized (is : List Item) : List Item → Prop
  | bare {x y : String} : Parenthesized is ((.leftParen, x) :: (is ++ [(.rightParen, y)]))
  | comma {x y z : String} : Parenthesized is ((.leftParen, x) :: (is ++ [(.comma, y), (.rightParen, z)]))

section
variable (T : List Item → Located Ty → Prop)

inductive ArgsForm : List Item → List (Located Ty) → Prop
  | none : ArgsForm [] []
  | angles {is : List Item} {args : List (Located Ty)} {x y : String} (h : Separated T false is args) :
      ArgsForm ((.leftAngle, x) :: (is ++ [(.rightAngle, y)])) args

/-- `Outer<A>.Inner<B>` -/
inductive UserForm : List Item → UserType → Prop
  | simple {is : List Item} {name : String} {args : List (Located Ty)} (h : ArgsForm T is args) :
      UserForm ((.identifier, name) :: is) (.simple name args)
  | member {is js : List Item} {parent : UserType} {x name : String} {args : List (Located Ty)}
      (hparent : UserForm is parent) (h : ArgsForm T js args) :
      UserForm (is ++ (.dot, x) :: (.identifier, name) :: js) (.member parent name args)

inductive ParamForm : List Item → Option String × Located Ty → Prop
  | unnamed {is : List Item} {t : Located Ty} (h : T is t) : ParamForm is (none, t)
  | named {is : List Item} {t : Located Ty} {name x : String} (h : T is t) :
      ParamForm ((.identifier, name) :: (.colon, x) :: is) (some name, t)

/-- `(A, name: B) -> R` behind a receiver or without one, or a type in parentheses. -/
inductive FunctionForm : Option (Located Ty) → List Item → Located Ty → Prop
  | group {is js : List Item} {inner : Located Ty} (h : T is inner) (hjs : Parenthesized is js) :
      FunctionForm none js inner
  | arrow {receiver : Option (Located Ty)} {more : Bool} {is js : List Item}
      {params : List (Option String × Located Ty)} {result : Located Ty} {x y z : String} {span : Span}
      (hparams : Separated (ParamForm T) more is params) (hresult : T js result) :
      FunctionForm receiver ((.leftParen, x) :: (is ++ (.rightParen, y) :: (.arrow, z) :: js))
        ⟨.function receiver params result, span⟩

inductive PlainForm : List Item → Located Ty → Prop
  | user {is : List Item} {user : UserType} {span : Span} (h : UserForm T is user) :
      PlainForm is ⟨.user user, span⟩
  | function {is : List Item} {t : Located Ty} (h : FunctionForm T none is t) : PlainForm is t
  | extension {is js : List Item} {user : UserType} {span : Span} {t : Located Ty} {x : String}
      (huser : UserForm T is user) (h : FunctionForm T (some ⟨.user user, span⟩) js t) :
      PlainForm (is ++ (.dot, x) :: js) t

end

/-- A plain type with at most one `?` and any number of `*` behind it. -/
inductive TypeForm : List Item → Located Ty → Prop
  | plain {is : List Item} {t : Located Ty} (h : PlainForm TypeForm is t) : TypeForm is t
  | nullable {is : List Item} {t : Located Ty} {x : String} {span : Span} (h : PlainForm TypeForm is t) :
      TypeForm (is ++ [(.question, x)]) ⟨.nullable t, span⟩
  | pointer {is : List Item} {t : Located Ty} {x : String} {span : Span} (h : TypeForm is t) :
      TypeForm (is ++ [(.times, x)]) ⟨.pointer t, span⟩

-- ---------------------------------------------------------------------------
-- Parentheses and lists
-- ---------------------------------------------------------------------------

section
variable {is js : List Item}

theorem Parenthesized.getLast (h : Parenthesized is js) : ∃ x, js.getLast? = some (.rightParen, x) := by
  cases h with
  | bare => exact ⟨_, by rw [← List.cons_append, List.getLast?_concat]⟩
  | @comma x y z => exact ⟨z, by simp [List.getLast?_cons]⟩

theorem Parenthesized.length_lt (h : Parenthesized is js) : is.length < js.length := by
  cases h <;> simp only [List.length_cons, List.length_append, List.length_nil] <;> omega

end

section
variable {α : Type} {L : List Item → α → Prop} {is : List Item} {as : List α} {a : α}

theorem Separated.ne_nil (h : Separated L false is as) : as ≠ [] := by
  cases h with
  | item h ha => simp

theorem Separated.eq_nil {more : Bool} (h : Separated L more is []) : is = [] := by
  generalize has : ([] : List α) = as at h
  cases h with
  | nil => rfl
  | item h ha => simp at has
  | comma h => exact absurd has.symm h.ne_nil

theorem Separated.of_singleton (h : Separated L false is [a]) : L is a := by
  generalize has : [a] = as at h
  cases h with
  | @item is js as b h hb =>
    obtain ⟨rfl, hb'⟩ := List.append_inj' (show [] ++ [a] = as ++ [b] from has) rfl
    rw [h.eq_nil, List.singleton_inj.mp hb']
    exact hb

theorem Separated.singleton {more : Bool} (h : Separated L more is [a]) :
    ∃ js, L js a ∧ (is = js ∨ ∃ x, is = js ++ [(.comma, x)]) := by
  cases more with
  | false => exact ⟨is, h.of_singleton, .inl rfl⟩
  | true =>
    cases h with
    | comma h => exact ⟨_, h.of_singleton, .inr ⟨_, rfl⟩⟩

theorem ArgsForm.eq_nil {T : List Item → Located Ty → Prop} (h : ArgsForm T is []) : is = [] := by
  generalize hargs : ([] : List (Located Ty)) = args at h
  cases h with
  | none => rfl
  | angles h => exact absurd hargs.symm h.ne_nil

end

-- ---------------------------------------------------------------------------
-- The rule for types
-- ---------------------------------------------------------------------------

section
variable {type : Parser (Located Ty)} {T : List Item → Located Ty → Prop} (hr : Reads type) (h : Matches type T)
include h

theorem matches_typeParam : Matches (typeParam type) (ParamForm T) := by
  have hlabel : Matches (label? .colon) fun is label =>
      (label = none ∧ is = []) ∨ ∃ name x, label = some name ∧ is = [(.identifier, name), (.colon, x)] := by
    refine .look_bind (fun s => ⟨_, run_nextAre _ _ s⟩) fun _ => .ite ?_ (.pure (.inl ⟨rfl, rfl⟩))
    exact .identifier_bind fun name => .expect_bind fun x => .pure (.inr ⟨name, x, rfl, rfl⟩)
  refine hlabel.bind fun label is hl => h.bind fun t js ht => .pure ?_
  rw [List.append_nil]
  rcases hl with ⟨rfl, rfl⟩ | ⟨name, x, rfl, rfl⟩
  · exact .unnamed ht
  · exact .named ht

include hr

theorem matches_typeArgs : Matches (typeArgs type) (ArgsForm T) := by
  refine .accept_bind (by decide) (fun x => (matches_listOf hr h).bind fun args is hargs => ?_) (.pure .none)
  exact .expect_bind fun y => .pure (.angles hargs)

theorem matches_userType : Matches (userType type) (UserForm T) := by
  refine .identifier_bind fun name => (matches_typeArgs hr h).bind fun args is hargs => ?_
  have hsimple : UserForm T ((.identifier, name) :: (is ++ [])) (.simple name args) := by
    rw [List.append_nil]
    exact .simple hargs
  refine .iterate (I := fun js => UserForm T ((.identifier, name) :: (is ++ js))) (rounds_memberRound hr)
    (fun parent js hparent => ?_) hsimple
  refine .look_bind (fun s => ⟨_, run_nextAre _ _ s⟩) fun _ => .ite ?_ (.pure ?_)
  · refine .expect_bind fun x => .identifier_bind fun member => ?_
    refine (matches_typeArgs hr h).bind fun args ks hargs => .pure ?_
    simpa [Round] using UserForm.member (x := x) hparent hargs
  · rw [List.append_nil]
    exact hparent

theorem matches_functionType (receiver : Option (Located Ty)) :
    Matches (functionType type receiver) (FunctionForm T receiver) := by
  refine .look_bind (fun s => ?_) fun start => .expect_bind fun x => ?_
  · cases receiver <;> exact ⟨_, rfl⟩
  refine (matches_listUntil (reads_typeParam hr) (matches_typeParam h)).bind fun params is his => ?_
  obtain ⟨more, js, y, rfl, hparams⟩ := his
  refine .accept_bind (by decide) (fun z => h.bind fun result ks hresult => matches_located fun span => ?_) ?_
  · simpa using FunctionForm.arrow (x := x) (y := y) (z := z) hparams hresult
  · split
    · obtain ⟨ks, hinner, hjs⟩ := hparams.singleton
      cases hinner with
      | unnamed hinner =>
        refine .pure (.group hinner ?_)
        rcases hjs with rfl | ⟨z, rfl⟩
        · simpa using Parenthesized.bare
        · simpa using Parenthesized.comma
    · exact .look_bind (fun s => ⟨_, run_here s⟩) fun _ => matches_fail

theorem matches_namedType (start : Span) : Matches (namedType type start) (PlainForm T) := by
  refine (matches_userType hr h).bind fun user is huser => .located_bind fun span => ?_
  refine .look_bind (fun s => ⟨_, run_nextAre _ _ s⟩) fun _ => .ite ?_ (.pure ?_)
  · refine .expect_bind fun x => (matches_functionType hr h _).mono fun ks t ht => ?_
    exact .extension huser ht
  · rw [List.append_nil]
    exact .user huser

theorem matches_plainType (start : Span) : Matches (plainType type start) (PlainForm T) := by
  refine .look_bind (fun s => ⟨_, run_peek s⟩) fun kind => ?_
  split
  · exact (matches_functionType hr h none).mono fun _ _ => .function
  · exact matches_namedType hr h start
  · exact matches_unexpected _

end

theorem matches_typeBody {type : Parser (Located Ty)} (hr : Reads type) (h : Matches type TypeForm) :
    Matches (typeBody type) TypeForm := by
  refine .look_bind (fun s => ⟨_, run_here s⟩) fun start => ?_
  refine (matches_plainType hr h start).bind fun plain is hplain =>
    .bind (L := fun js t => TypeForm (is ++ js) t) ?_ fun base js hbase => ?_
  · refine .accept_bind (by decide) (fun x => matches_located fun span => ?_) (.pure ?_)
    · exact .nullable hplain
    · rw [List.append_nil]
      exact .plain hplain
  · refine .iterate (I := fun ks t => TypeForm (is ++ (js ++ ks)) t) (rounds_pointerRound start)
      (fun inner ks hinner => ?_) (by rwa [List.append_nil])
    refine .accept_bind (by decide) (fun x => .located_bind fun span => .pure ?_) (.pure ?_)
    · have hpointer : TypeForm (is ++ (js ++ ks) ++ [(.times, x)]) ⟨.pointer inner, span⟩ := .pointer hinner
      simpa [Round] using hpointer
    · rw [List.append_nil]
      exact hinner

theorem matches_typeRule (limit levels : Nat) : Matches (typeRule limit levels) TypeForm := by
  induction levels with
  | zero => exact .look_bind (fun s => ⟨_, run_here s⟩) fun _ => matches_fail
  | succ levels ih => exact (matches_typeBody (reads_typeRule limit levels) ih).deeper limit

end Linewise.Parser
