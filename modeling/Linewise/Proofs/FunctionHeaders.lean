import Linewise.Proofs.Lexing.Composition
import Linewise.Proofs.Parsing.GrammarMatching

/-!
# The headers of functions

A header is `fun`, then the name or a receiver, a dot and the name, and then the parameters. The name is
taken off a type that has been read as a whole, and parentheses leave no trace in that, so the name and the
receiver may also stand in parentheses together.
-/

namespace Linewise.Parser

variable {rules : Rules} {is js : List Item} {receiver : Option (Located Ty)} {parent : UserType}
  {t : Located Ty} {name : String} {s u : State} {d : FunctionDef}

/-- `name` or `Receiver.name`, where the receiver is one complete type. -/
inductive HeaderForm : List Item → Option (Located Ty) → String → Prop
  | plain {name : String} : HeaderForm [(.identifier, name)] none name
  | extension {is : List Item} {receiver : Located Ty} {x name : String} (h : TypeForm is receiver) :
      HeaderForm (is ++ [(.dot, x), (.identifier, name)]) (some receiver) name

/-- `Outer.name` in parentheses, one pair or more. -/
inductive GroupedForm : List Item → Option (Located Ty) → String → Prop
  | header {is js : List Item} {parent : UserType} {span : Span} {name : String}
      (h : HeaderForm is (some ⟨.user parent, span⟩) name) (hjs : Parenthesized is js) :
      GroupedForm js (some ⟨.user parent, span⟩) name
  | group {is js : List Item} {receiver : Option (Located Ty)} {name : String}
      (h : GroupedForm is receiver name) (hjs : Parenthesized is js) : GroupedForm js receiver name

theorem HeaderForm.getLast (h : HeaderForm is receiver name) : is.getLast? = some (.identifier, name) := by
  cases h with
  | plain => rfl
  | extension h => simp

theorem GroupedForm.not_headerForm (h : GroupedForm is receiver name) : ¬HeaderForm is receiver name := by
  obtain ⟨x, hx⟩ : ∃ x, is.getLast? = some (.rightParen, x) := by
    cases h with
    | header _ his | group _ his => exact his.getLast
  intro hheader
  rw [hheader.getLast] at hx
  cases hx

-- ---------------------------------------------------------------------------
-- Taking the name off a type
-- ---------------------------------------------------------------------------

theorem headerForm_of_userForm (span : Span) (h : UserForm TypeForm is (.member parent name [])) :
    HeaderForm is (some ⟨.user parent, span⟩) name := by
  cases h with
  | member hparent hargs =>
    rw [hargs.eq_nil]
    exact .extension (.plain (.user hparent))

theorem headerForm_of_typeForm (span : Span) (h : TypeForm is t)
    (ht : t.node = .user (.member parent name [])) :
    HeaderForm is (some ⟨.user parent, span⟩) name ∨ GroupedForm is (some ⟨.user parent, span⟩) name := by
  induction hn : is.length using Nat.strongRecOn generalizing is with
  | ind n ih =>
    subst hn
    cases h with
    | nullable | pointer => cases ht
    | plain h =>
      cases h with
      | user h =>
        cases ht
        exact .inl (headerForm_of_userForm span h)
      | extension huser h =>
        cases h with
        | arrow => cases ht
      | function h =>
        cases h with
        | arrow => cases ht
        | group h his =>
          rcases ih _ his.length_lt h rfl with h | h
          · exact .inr (.header h his)
          · exact .inr (.group h his)

theorem matches_detachName (t : Located Ty) :
    Matches (detachName t) fun is found => is = [] ∧ ∃ parent span,
      t.node = .user (.member parent found.2 []) ∧ found.1 = some ⟨.user parent, span⟩ := by
  unfold detachName
  split
  · rename_i h
    exact .pure ⟨rfl, _, _, h, rfl⟩
  · exact matches_fail

theorem matches_functionName (h : Matches rules.type TypeForm) :
    Matches (functionName rules) fun is found =>
      HeaderForm is found.1 found.2 ∨ GroupedForm is found.1 found.2 := by
  refine .look_bind (fun s => ⟨_, run_nextAre _ _ s⟩) fun _ => .ite ?_ (h.bind fun t is ht => ?_)
  · exact .identifier_bind fun name => .pure (.inl .plain)
  · refine .accept_bind (by decide) (fun x => .identifier_bind fun name => .pure (.inl (.extension ht))) ?_
    refine (matches_detachName t).mono fun js found hfound => ?_
    obtain ⟨rfl, parent, span, htype, hreceiver⟩ := hfound
    rw [List.append_nil, hreceiver]
    exact headerForm_of_typeForm span ht htype

-- ---------------------------------------------------------------------------
-- Headers
-- ---------------------------------------------------------------------------

/-- What a function has read in front of its parameters is `fun` and a header, which ends in the name unless
it is in parentheses itself and of no other form. -/
theorem function_header {limit levels : Nat} {ms : Modifiers}
    (h : (function (grammar limit levels) ms).run s = (.ok d, u)) :
    ∃ word is paren rest, s.items = (.keyword .funWord, word) :: is ++ (.leftParen, paren) :: rest ∧
      (HeaderForm is d.receiver d.name ∨ GroupedForm is d.receiver d.name ∧ ¬HeaderForm is d.receiver d.name) ∧
      ∃ v w, v.items = rest ∧
        (listUntil .rightParen (param (grammar limit levels))).run v = (.ok d.params, w) := by
  have htype : Matches (grammar limit levels).type TypeForm := by
    cases levels <;> exact matches_typeRule limit _
  obtain ⟨_, s₁, hword, h⟩ := bind_ok.mp h
  obtain ⟨⟨receiver, name⟩, s₂, hname, h⟩ := bind_ok.mp h
  obtain ⟨_, s₃, hparen, h⟩ := bind_ok.mp h
  obtain ⟨params, s₄, hparams, h⟩ := bind_ok.mp h
  obtain ⟨result, s₅, -, h⟩ := bind_ok.mp h
  obtain ⟨body, s₆, -, h⟩ := bind_ok.mp h
  cases h
  obtain ⟨_, hs, word, rfl⟩ := matches_expect _ _ _ hword
  obtain ⟨is, hs₁, hheader⟩ := matches_functionName htype _ _ _ hname
  obtain ⟨_, hs₂, paren, rfl⟩ := matches_expect _ _ _ hparen
  have hitems : s.items = (.keyword .funWord, word) :: is ++ (.leftParen, paren) :: s₃.items := by
    rw [hs, hs₁, hs₂]
    rfl
  exact ⟨word, is, paren, s₃.items, hitems, hheader.imp_right fun h => ⟨h, h.not_headerForm⟩, s₃, s₄, rfl,
    hparams⟩

set_option maxRecDepth 4000 in
theorem function_header_grouped :
    ∃ s d u, s = State.start (.ofList (items "fun (A.f)(x: B)".toList ++ [(.eof, "")])) (.standard .accept) ∧
      (function (grammar maxDepth maxDepth) ⟨[], []⟩).run s = (.ok d, u) ∧
      (∃ word is paren rest, s.items = (.keyword .funWord, word) :: is ++ (.leftParen, paren) :: rest ∧
        (HeaderForm is d.receiver d.name ∨
          GroupedForm is d.receiver d.name ∧ ¬HeaderForm is d.receiver d.name)) ∧
      ∃ is rest, s.items = (.keyword .funWord, "fun") :: is ++ (.leftParen, "(") :: rest ∧
        GroupedForm is (some ⟨.user (.simple "A" []), ⟨5, 6⟩⟩) "f" ∧
        d.receiver = some ⟨.user (.simple "A" []), ⟨5, 6⟩⟩ ∧ d.name = "f" := by
  let d : FunctionDef := ⟨⟨[], []⟩, some ⟨.user (.simple "A" []), ⟨5, 6⟩⟩, "f",
    [⟨⟨"x", ⟨.user (.simple "B" []), ⟨13, 14⟩⟩⟩, ⟨10, 14⟩⟩], none, none⟩
  have hrun : (function (grammar maxDepth maxDepth) ⟨[], []⟩).run
      (State.start (.ofList (items "fun (A.f)(x: B)".toList ++ [(.eof, "")])) (.standard .accept)) =
        (.ok d, _) := rfl
  obtain ⟨word, is, paren, rest, hitems, hheader, -⟩ := function_header hrun
  have htype : TypeForm [(.identifier, "A")] ⟨.user (.simple "A" []), ⟨5, 6⟩⟩ := .plain (.user (.simple .none))
  have hgrouped : GroupedForm
      [(.leftParen, "("), (.identifier, "A"), (.dot, "."), (.identifier, "f"), (.rightParen, ")")]
      (some ⟨.user (.simple "A" []), ⟨5, 6⟩⟩) "f" := .header (.extension htype) .bare
  exact ⟨_, d, _, rfl, hrun, ⟨word, is, paren, rest, hitems, hheader⟩, _, _, rfl, hgrouped, rfl, rfl⟩

end Linewise.Parser
