import Linewise.Proofs.Parsing.Change
import Linewise.Proofs.Parsing.GrammarProgress

/-!
# How items begin

The kind of the token that an item of a sequence begins with. None of them goes on with an item in front of
it, wherever it stands.
-/

namespace Linewise

namespace TokenKind

def beginsExpression : TokenKind → Bool
  | identifier | integer | string | leftParen | leftCurl | leftSquare | hash => true
  | keyword word => word == .nullWord || word == .ifWord || word == .whenWord
  | _ => false

def beginsCase (kind : TokenKind) : Bool := kind == .keyword .elseWord || kind.beginsExpression

def beginsDeclaration : TokenKind → Bool
  | hash | atSign => true
  | keyword word => word.category == .declaration || word.category == .modifier
  | _ => false

def beginsStatement (kind : TokenKind) : Bool :=
  kind == .keyword .whileWord || kind.beginsDeclaration || kind.beginsExpression

theorem endsItem_of_beginsDeclaration {kind : TokenKind} (h : kind.beginsDeclaration = true) :
    kind.endsItem = true := by
  cases kind <;> first | exact h | rfl

theorem joins_of_beginsStatement {kind : TokenKind} (h : kind.beginsStatement = true) :
    kind.joins = false := by
  cases kind <;> first | rfl | cases h

theorem joins_of_beginsCase {kind : TokenKind} (h : kind.beginsCase = true) : kind.joins = false := by
  cases kind <;> first | rfl | cases h

theorem joins_of_beginsDeclaration {kind : TokenKind} (h : kind.beginsDeclaration = true) :
    kind.joins = false :=
  joins_of_beginsStatement (by simp [beginsStatement, h])

end TokenKind

namespace Parser

variable {α β : Type} {P : TokenKind → Prop} {p : Parser α} {f : α → Parser β}
  {rules : Rules} {limit levels : Nat} {s t : State}

/-- What the parser can read begins with such a token. -/
def Begins (P : TokenKind → Prop) (p : Parser α) : Prop :=
  ∀ s a t, p.run s = (.ok a, t) → P s.kind

namespace Begins

theorem bind (h : Begins P p) : Begins P (p >>= f) := fun s _ _ hrun => by
  obtain ⟨a, u, ha, -⟩ := bind_ok.mp hrun
  exact h s a u ha

theorem look {look : State → α} (hp : ∀ s, p.run s = (.ok (look s), s)) (h : ∀ a, Begins P (f a)) :
    Begins P (p >>= f) := fun s b t hrun => by
  rw [run_bind_ok (hp s)] at hrun
  exact h _ s b t hrun

theorem accept {f : Bool → Parser β} {kind : TokenKind} (hk : P kind) (h : Begins P (f false)) :
    Begins P (accept kind >>= f) := fun s b t hrun => by
  by_cases hs : s.kind = kind
  · exact hs ▸ hk
  · have haccept : (Parser.accept kind).run s = (.ok false, s) := by rw [run_accept, if_neg hs]
    rw [run_bind_ok haccept] at hrun
    exact h s b t hrun

theorem fail {x : SyntaxFault} {span : Span} : Begins P (fail x span : Parser α) :=
  fun _ _ _ h => by cases h

theorem deeper (limit : Nat) (h : Begins P p) : Begins P (deeper limit p) := fun s a t hrun => by
  obtain ⟨-, u, hu, -⟩ := deeper_ok.mp hrun
  exact h s.down a u hu

theorem iterate {step : β → Parser (ForInStep β)} (h : ∀ b, Begins P (step b)) (b : β) :
    Begins P (iterate step b) := fun s c t hrun => by
  have hfor : (iterateFor step s.rest b).run s = (.ok c, t) := hrun
  cases hs : s.rest with
  | nil =>
    rw [hs] at hfor
    exact (h b).bind s c t hfor
  | cons x xs =>
    rw [hs] at hfor
    exact (h b).bind s c t hfor

end Begins

theorem run_unexpected_ne {what : Expectation} {a : α} : (unexpected what : Parser α).run s ≠ (.ok a, t) := by
  rw [run_unexpected]
  exact nofun

-- ---------------------------------------------------------------------------
-- Expressions, statements and cases
-- ---------------------------------------------------------------------------

abbrev BeginsExpression (p : Parser α) : Prop := Begins (·.beginsExpression = true) p

theorem begins_atom : BeginsExpression (atom rules) := fun s a t hrun => by
  unfold atom at hrun
  rw [run_bind_ok (run_peek s)] at hrun
  split at hrun
  case h_10 => exact absurd hrun run_unexpected_ne
  all_goals
    rename_i hkind
    rw [hkind]
    rfl

theorem begins_suffixed : BeginsExpression (suffixed rules) :=
  .look run_here fun _ => begins_atom.bind

theorem begins_unary : BeginsExpression (unary rules) :=
  .look run_here fun _ => .accept rfl begins_suffixed

theorem begins_chain {operand : Parser (Located Expr)} (p : Precedence)
    (h : BeginsExpression operand) : BeginsExpression (chain p operand) :=
  .look run_here fun _ => h.bind

theorem begins_assignment : BeginsExpression (assignment rules) :=
  .look run_here fun _ =>
    (begins_chain _ (begins_chain _ (begins_chain _ (begins_chain _ begins_unary)))).bind

theorem begins_expression (limit levels : Nat) :
    BeginsExpression (grammar limit levels).expression := by
  cases levels with
  | zero => exact .look run_here fun _ => .fail
  | succ levels => exact begins_assignment.deeper limit

theorem begins_statement (limit levels : Nat) :
    Begins (·.beginsStatement = true) (statement (grammar limit levels)) := by
  have hnode (q : Parser (Located Statement)) :
      Begins (·.beginsStatement = true) (statementNode (grammar limit levels) q) := by
    intro s a t hrun
    unfold statementNode at hrun
    rw [run_bind_ok (run_nextIs _ s)] at hrun
    by_cases hwhile : s.kind = .keyword .whileWord
    · rw [hwhile]
      rfl
    · rw [if_neg (by simpa using hwhile)] at hrun
      unfold simpleStatement at hrun
      rw [run_bind_ok (run_peek s)] at hrun
      split at hrun
      case h_8 =>
        have hexpression := (begins_expression limit levels).bind s a t hrun
        simp only [TokenKind.beginsStatement, hexpression, Bool.or_true]
      all_goals
        rename_i hkind
        rw [hkind]
        rfl
  have hwith (q : Parser (Located Statement)) :
      Begins (·.beginsStatement = true) (statementWith (grammar limit levels) q) :=
    .look run_here fun _ => (hnode q).bind
  intro s a t hrun
  have hfor : (statementFor (grammar limit levels) s.rest).run s = (.ok a, t) := hrun
  cases hs : s.rest with
  | nil => exact hwith _ s a t (hs ▸ hfor)
  | cons x xs => exact hwith _ s a t (hs ▸ hfor)

theorem begins_whenCase (limit levels : Nat) :
    Begins (·.beginsCase = true) (whenCase (grammar limit levels)) := by
  refine .look run_here fun _ => .accept rfl ?_
  have hround (items : Array (Located Expr)) :
      Begins (·.beginsCase = true) (listRound (grammar limit levels).expression items) :=
    Begins.bind fun s a t hrun => by
      have hexpression := begins_expression limit levels s a t hrun
      simp only [TokenKind.beginsCase, hexpression, Bool.or_true]
  exact ((Begins.iterate hround #[]).bind).bind

-- ---------------------------------------------------------------------------
-- Declarations
-- ---------------------------------------------------------------------------

theorem run_modifier?_none (hs : s.kind.beginsDeclaration = false) : modifier?.run s = (.ok none, s) := by
  unfold modifier?
  rw [run_bind_ok (run_peek s)]
  split
  case h_4 => rfl
  all_goals
    rename_i hkind
    rw [hkind] at hs
    cases hs

theorem run_modifiers_none (h : RulesRead rules) (hs : s.kind.beginsDeclaration = false) :
    (modifiers rules).run s = (.ok ⟨[], []⟩, s) := by
  have hsign : s.kind ≠ .atSign := fun hkind => by simp [hkind, TokenKind.beginsDeclaration] at hs
  have hround : (modifierRound rules ⟨[], []⟩).run s = (.ok (.done ⟨[], []⟩), s) := by
    unfold modifierRound
    rw [run_bind_ok (run_here s), run_bind_ok (run_nextIs _ s), if_neg (by simpa using hsign),
      run_bind_ok (run_modifier?_none hs)]
    rfl
  rw [modifiers, run_iterate (rounds_modifierRound h), run_bind_ok hround]
  rfl

theorem begins_declarationNode (h : RulesRead rules) :
    Begins (·.beginsDeclaration = true) (declarationNode rules) := fun s d t hrun => by
  cases hs : s.kind.beginsDeclaration with
  | true => exact hs
  | false =>
    exfalso
    have hhash : s.kind ≠ .hash := fun hkind => by simp [hkind, TokenKind.beginsDeclaration] at hs
    unfold declarationNode at hrun
    rw [run_bind_ok (run_nextIs _ s), if_neg (by simpa using hhash),
      run_bind_ok (run_modifiers_none h hs)] at hrun
    unfold declarationAfter at hrun
    rw [run_bind_ok (run_peek s)] at hrun
    split at hrun
    case h_5 => exact absurd hrun run_unexpected_ne
    all_goals
      rename_i hkind
      rw [hkind] at hs
      cases hs

theorem begins_declaration (limit levels : Nat) :
    Begins (·.beginsDeclaration = true) (grammar limit levels).declaration := by
  cases levels with
  | zero => exact .look run_here fun _ => .fail
  | succ levels =>
    exact Begins.deeper limit (.look run_here fun _ =>
      (begins_declarationNode (rulesRead_grammar limit levels)).bind)

end Parser

end Linewise
