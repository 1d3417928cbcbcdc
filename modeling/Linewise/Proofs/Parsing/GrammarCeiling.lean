import Linewise.Proofs.Parsing.Ceiling
import Linewise.Proofs.Parsing.GrammarProgress

/-!
# Every production is thrifty

A production reports nothing, or it reads more tokens than it reports faults. Only its blocks report
anything, so the rest of it has nothing to make up for.
-/

namespace Linewise.Parser

variable {α β : Type} {p : Parser α} {s t : State}

-- ---------------------------------------------------------------------------
-- Types
-- ---------------------------------------------------------------------------

section
variable {type : Parser (Located Ty)}

theorem thrifty_typeArgs (h : Thrifty type) : Thrifty (typeArgs type) := by
  refine (thrifty_accept _).bind fun _ => .ite ?_ (thrifty_pure _)
  exact (thrifty_listOf h).bind fun _ => (thrifty_expect _).bind fun _ => thrifty_pure _

theorem thrifty_userType (h : Thrifty type) : Thrifty (userType type) := by
  refine (thrifty_expectAs _ _).bind fun _ => (thrifty_typeArgs h).bind fun _ => ?_
  refine .iterate (fun parent => ?_) _
  refine (thrifty_nextAre _ _).bind fun _ => .ite ?_ (thrifty_pure _)
  refine (thrifty_expect _).bind fun _ => (thrifty_expectAs _ _).bind fun _ => ?_
  exact (thrifty_typeArgs h).bind fun _ => thrifty_pure _

theorem thrifty_functionType (h : Thrifty type) (receiver : Option (Located Ty)) :
    Thrifty (functionType type receiver) := by
  have hstart : Thrifty (startOf receiver) := by
    cases receiver with
    | none => exact thrifty_here
    | some r => exact thrifty_pure _
  refine hstart.bind fun _ => (thrifty_expect _).bind fun _ => ?_
  refine (thrifty_listUntil _ ((thrifty_label? _).bind fun _ => h.bind fun _ => thrifty_pure _)).bind
    fun _ => ?_
  refine (thrifty_accept _).bind fun _ => .ite (h.bind fun _ => thrifty_located _ _) ?_
  split
  · exact thrifty_pure _
  · exact thrifty_here.bind fun _ => thrifty_fail _ _

theorem thrifty_plainType (h : Thrifty type) (start : Span) : Thrifty (plainType type start) := by
  refine thrifty_peek.bind fun kind => ?_
  split
  · exact thrifty_functionType h none
  · refine (thrifty_userType h).bind fun _ => (thrifty_located _ _).bind fun _ => ?_
    refine (thrifty_nextAre _ _).bind fun _ => .ite ?_ (thrifty_pure _)
    exact (thrifty_expect _).bind fun _ => thrifty_functionType h _
  · exact thrifty_unexpected _

theorem thrifty_typeBody (h : Thrifty type) : Thrifty (typeBody type) := by
  refine thrifty_here.bind fun start => (thrifty_plainType h start).bind fun plain => ?_
  refine .bind ?_ fun base => .iterate (fun inner => ?_) base
  · exact (thrifty_accept _).bind fun _ => .ite (thrifty_located _ _) (thrifty_pure _)
  · refine (thrifty_accept _).bind fun _ => .ite ?_ (thrifty_pure _)
    exact (thrifty_located _ _).bind fun _ => thrifty_pure _

theorem thrifty_typeRule (limit levels : Nat) : Thrifty (typeRule limit levels) := by
  induction levels with
  | zero => exact thrifty_here.bind fun _ => thrifty_fail _ _
  | succ levels ih => exact (thrifty_typeBody ih).deeper limit

end

-- ---------------------------------------------------------------------------
-- Declarations of properties and functions
-- ---------------------------------------------------------------------------

structure Rules.Thrifty (rules : Rules) : Prop where
  type : Parser.Thrifty rules.type
  expression : Parser.Thrifty rules.expression
  operand : Parser.Thrifty rules.operand
  block : Parser.Thrifty rules.block
  declaration : Parser.Thrifty rules.declaration

theorem thrifty_behind {sign : TokenKind} (h : Thrifty p) : Thrifty (behind sign p) :=
  (thrifty_accept _).bind fun _ => .ite (h.bind fun _ => thrifty_pure _) (thrifty_pure _)

section
variable {rules : Rules} (h : rules.Thrifty)
include h

theorem thrifty_arguments : Thrifty (arguments rules) := by
  refine (thrifty_expect _).bind fun _ => thrifty_listUntil _ ?_
  refine thrifty_here.bind fun _ => (thrifty_label? _).bind fun _ => ?_
  exact h.expression.bind fun _ => thrifty_located _ _

theorem thrifty_annotated : Thrifty (annotated rules) := by
  refine (thrifty_expect _).bind fun _ => (thrifty_expectAs _ _).bind fun _ => ?_
  refine (thrifty_nextOnLine _).bind fun _ => .ite ?_ (thrifty_pure _)
  exact (thrifty_arguments h).bind fun _ => thrifty_pure _

omit h in
theorem thrifty_modifier? : Thrifty modifier? := by
  refine thrifty_peek.bind fun kind => ?_
  split
  · refine (thrifty_expect _).bind fun _ => .bind ?_ fun _ => thrifty_pure _
    refine (thrifty_accept _).bind fun _ => .ite ?_ (thrifty_pure _)
    exact (thrifty_expectAs _ _).bind fun _ => (thrifty_expect _).bind fun _ => thrifty_pure _
  · exact (thrifty_expect _).bind fun _ => thrifty_pure _
  · exact (thrifty_expect _).bind fun _ => thrifty_pure _
  · exact thrifty_pure _

theorem thrifty_modifiers : Thrifty (modifiers rules) := by
  refine .iterate (fun ms => ?_) _
  rcases ms with ⟨ms, as⟩
  refine thrifty_here.bind fun _ => (thrifty_nextIs _).bind fun _ => .ite ?_ ?_
  · exact (thrifty_annotated h).bind fun _ => (thrifty_located _ _).bind fun _ => thrifty_pure _
  · refine thrifty_modifier?.bind fun m => ?_
    cases m with
    | none => exact thrifty_pure _
    | some m => exact (thrifty_located _ _).bind fun _ => thrifty_pure _

theorem thrifty_property (ms : Modifiers) : Thrifty (property rules ms) := by
  have hbinding : Thrifty binding := by
    refine thrifty_peek.bind fun kind => ?_
    split
    · exact (thrifty_expect _).bind fun _ => thrifty_pure _
    · exact (thrifty_expect _).bind fun _ => thrifty_pure _
    · exact thrifty_unexpected _
  refine hbinding.bind fun _ => (thrifty_expectAs _ _).bind fun _ => ?_
  refine (thrifty_behind h.type).bind fun _ => ?_
  exact (thrifty_behind h.expression).bind fun _ => thrifty_pure _

theorem thrifty_functionName : Thrifty (functionName rules) := by
  refine (thrifty_nextAre _ _).bind fun _ => .ite ?_ ?_
  · exact (thrifty_expectAs _ _).bind fun _ => thrifty_pure _
  · refine h.type.bind fun type => (thrifty_accept _).bind fun _ => .ite ?_ ?_
    · exact (thrifty_expectAs _ _).bind fun _ => thrifty_pure _
    · unfold detachName
      split
      · exact thrifty_pure _
      · exact thrifty_fail _ _

theorem thrifty_plainParam : Thrifty (plainParam rules) := by
  refine (thrifty_expectAs _ _).bind fun _ => (thrifty_expect _).bind fun _ => ?_
  exact h.type.bind fun _ => thrifty_pure _

theorem thrifty_functionBody : Thrifty (functionBody rules) := by
  refine (thrifty_nextIs _).bind fun _ => .ite (h.block.bind fun _ => thrifty_pure _) ?_
  refine (thrifty_accept _).bind fun _ => .ite ?_ (thrifty_pure _)
  exact h.expression.bind fun _ => thrifty_pure _

theorem thrifty_function (ms : Modifiers) : Thrifty (function rules ms) := by
  refine (thrifty_expect _).bind fun _ => (thrifty_functionName h).bind fun _ => ?_
  refine (thrifty_expect _).bind fun _ => ?_
  refine (thrifty_listUntil _ ?_).bind fun _ => ?_
  · exact thrifty_here.bind fun _ => (thrifty_plainParam h).bind fun _ => thrifty_located _ _
  · refine (thrifty_behind h.type).bind fun _ => ?_
    exact (thrifty_functionBody h).bind fun _ => thrifty_pure _

-- ---------------------------------------------------------------------------
-- Statements
-- ---------------------------------------------------------------------------

theorem thrifty_localDeclaration : Thrifty (localDeclaration rules) := by
  refine (thrifty_modifiers h).bind fun ms => thrifty_peek.bind fun kind => ?_
  split
  · exact (thrifty_function h ms).bind fun _ => thrifty_pure _
  · exact (thrifty_property h ms).bind fun _ => thrifty_pure _
  · exact (thrifty_property h ms).bind fun _ => thrifty_pure _
  · exact thrifty_unexpected _

theorem thrifty_simpleStatement : Thrifty (simpleStatement rules) := by
  refine thrifty_peek.bind fun kind => ?_
  split
  all_goals first
    | exact thrifty_localDeclaration h
    | exact h.expression.bind fun _ => thrifty_pure _

variable {statement : Parser (Located Statement)}

theorem thrifty_bodyOf (hs : Thrifty statement) : Thrifty (bodyOf rules statement) :=
  (thrifty_nextIs _).bind fun _ => .ite h.block (hs.bind fun _ => thrifty_pure _)

theorem thrifty_whileLoop (hs : Thrifty statement) : Thrifty (whileLoop rules statement) := by
  refine (thrifty_expect _).bind fun _ => (thrifty_expect _).bind fun _ => ?_
  refine h.expression.bind fun _ => (thrifty_expect _).bind fun _ => ?_
  exact (thrifty_bodyOf h hs).bind fun _ => thrifty_pure _

theorem thrifty_statementWith (hs : Thrifty statement) : Thrifty (statementWith rules statement) := by
  refine thrifty_here.bind fun _ => .bind ?_ fun _ => thrifty_located _ _
  exact (thrifty_nextIs _).bind fun _ => .ite (thrifty_whileLoop h hs) (thrifty_simpleStatement h)

theorem thrifty_statement : Thrifty (Parser.statement rules) := by
  suffices hall : ∀ bound, Thrifty (statementFor rules bound) from fun s => hall s.rest s
  intro bound
  induction bound with
  | nil => exact thrifty_statementWith h (thrifty_unexpected _)
  | cons _ bound ih => exact thrifty_statementWith h ih

theorem thrifty_body : Thrifty (body rules) := thrifty_bodyOf h (thrifty_statement h)

theorem thrifty_blockBody (hr : RulesRead rules) : Thrifty (blockBody rules) := by
  refine thrifty_here.bind fun _ => thrifty_braces (reads_statement hr) (thrifty_statement h) fun _ => ?_
  exact (thrifty_expect _).bind fun _ => thrifty_located _ _

-- ---------------------------------------------------------------------------
-- Expressions
-- ---------------------------------------------------------------------------

theorem thrifty_conditional : Thrifty (conditional rules) := by
  refine (thrifty_expect _).bind fun _ => (thrifty_expect _).bind fun _ => ?_
  refine h.expression.bind fun _ => (thrifty_expect _).bind fun _ => ?_
  refine (thrifty_body h).bind fun _ => .bind ?_ fun _ => ?_
  · exact (thrifty_nextAre _ _).bind fun _ => .ite (thrifty_expect _) (thrifty_pure _)
  · exact (thrifty_behind (thrifty_body h)).bind fun _ => thrifty_pure _

theorem thrifty_whenCase : Thrifty (whenCase rules) := by
  have hbody : Thrifty (body rules) := thrifty_body h
  refine thrifty_here.bind fun _ => (thrifty_accept _).bind fun _ => .ite ?_ ?_
  · exact (thrifty_expect _).bind fun _ => hbody.bind fun _ => thrifty_located _ _
  · refine (thrifty_listOf h.expression).bind fun _ => (thrifty_expect _).bind fun _ => ?_
    exact hbody.bind fun _ => thrifty_located _ _

theorem thrifty_closeGroup : Thrifty (closeGroup rules) :=
  h.expression.bind fun _ => (thrifty_expect _).bind fun _ => thrifty_pure _

theorem thrifty_whenChoice (hr : RulesRead rules) : Thrifty (whenChoice rules) := by
  refine (thrifty_expect _).bind fun _ => (thrifty_behind (thrifty_closeGroup h)).bind fun _ => ?_
  refine thrifty_braces (reads_whenCase hr) (thrifty_whenCase h) fun _ => ?_
  exact (thrifty_expect _).bind fun _ => thrifty_pure _

theorem thrifty_atom (hr : RulesRead rules) : Thrifty (atom rules) := by
  refine thrifty_peek.bind fun kind => ?_
  split
  · exact (thrifty_expectAs _ _).bind fun _ => thrifty_pure _
  · exact (thrifty_expectAs _ _).bind fun _ => thrifty_pure _
  · exact (thrifty_expectAs _ _).bind fun _ => thrifty_pure _
  · exact (thrifty_expect _).bind fun _ => thrifty_pure _
  · exact (thrifty_expect _).bind fun _ => (thrifty_closeGroup h).bind fun _ => thrifty_pure _
  · exact (thrifty_expect _).bind fun _ => (thrifty_listUntil _ h.expression).bind fun _ =>
      thrifty_pure _
  · exact h.block.bind fun _ => thrifty_pure _
  · exact thrifty_conditional h
  · exact thrifty_whenChoice h hr
  · exact thrifty_unexpected _

theorem thrifty_blockArgument : Thrifty (blockArgument rules) := h.block.bind fun _ => thrifty_pure _

theorem thrifty_callArguments : Thrifty (callArguments rules) := by
  refine (thrifty_arguments h).bind fun _ => (thrifty_nextOnLine _).bind fun _ => ?_
  exact .ite ((thrifty_blockArgument h).bind fun _ => thrifty_pure _) (thrifty_pure _)

theorem thrifty_suffix? (target : Located Expr) : Thrifty (suffix? rules target) := by
  refine (thrifty_nextOnLine _).bind fun _ => .ite ?_ ?_
  · exact (thrifty_callArguments h).bind fun _ => thrifty_pure _
  refine (thrifty_nextOnLine _).bind fun _ => .ite ?_ ?_
  · exact (thrifty_blockArgument h).bind fun _ => thrifty_pure _
  refine (thrifty_nextOnLine _).bind fun _ => .ite ?_ ?_
  · refine (thrifty_expect _).bind fun _ => .bind ?_ fun _ => thrifty_pure _
    exact h.expression.bind fun _ => (thrifty_expect _).bind fun _ => thrifty_pure _
  · refine (thrifty_accept _).bind fun _ => .ite ?_ (thrifty_pure _)
    exact (thrifty_expectAs _ _).bind fun _ => thrifty_pure _

theorem thrifty_suffixed (hr : RulesRead rules) : Thrifty (suffixed rules) := by
  refine thrifty_here.bind fun start => (thrifty_atom h hr).bind fun _ => ?_
  refine (thrifty_located _ _).bind fun _ => .iterate (fun target => ?_) _
  refine (thrifty_suffix? h target).bind fun node => ?_
  cases node with
  | none => exact thrifty_pure _
  | some node => exact (thrifty_located _ _).bind fun _ => thrifty_pure _

theorem thrifty_unary (hr : RulesRead rules) : Thrifty (unary rules) := by
  refine thrifty_here.bind fun _ => (thrifty_accept _).bind fun _ => .ite ?_ (thrifty_suffixed h hr)
  exact h.operand.bind fun _ => thrifty_located _ _

omit h in
theorem thrifty_chain {operand : Parser (Located Expr)} (p : Precedence) (ho : Thrifty operand) :
    Thrifty (chain p operand) := by
  have hoperator : Thrifty (operator? p) := by
    refine thrifty_peek.bind fun kind => ?_
    split
    · exact (thrifty_expect _).bind fun _ => thrifty_pure _
    · exact thrifty_pure _
  refine thrifty_here.bind fun start => ho.bind fun _ => .iterate (fun lhs => ?_) _
  refine hoperator.bind fun op => ?_
  cases op with
  | none => exact thrifty_pure _
  | some op => exact ho.bind fun _ => (thrifty_located _ _).bind fun _ => thrifty_pure _

theorem thrifty_assignment (hr : RulesRead rules) : Thrifty (assignment rules) := by
  have hbinary : Thrifty (binary rules) :=
    thrifty_chain _ (thrifty_chain _ (thrifty_chain _ (thrifty_chain _ (thrifty_unary h hr))))
  refine thrifty_here.bind fun _ => hbinary.bind fun target => ?_
  refine (thrifty_nextIs _).bind fun _ => .ite (.ite ?_ (thrifty_fail _ _)) (thrifty_pure _)
  exact (thrifty_expect _).bind fun _ => h.expression.bind fun _ => thrifty_located _ _

-- ---------------------------------------------------------------------------
-- Declarations
-- ---------------------------------------------------------------------------

theorem thrifty_compilerCall (hr : RulesRead rules) : Thrifty (compilerCall rules) := by
  refine thrifty_here.bind fun _ => (thrifty_expect _).bind fun _ => ?_
  exact (thrifty_suffixed h hr).bind fun _ => .ite (thrifty_pure _) (thrifty_fail _ _)

theorem thrifty_constructorParam : Thrifty (constructorParam rules) := by
  refine thrifty_here.bind fun start => (thrifty_modifiers h).bind fun ms => ?_
  refine thrifty_peek.bind fun kind => ?_
  split
  · exact (thrifty_property h ms).bind fun _ => thrifty_located _ _
  · exact (thrifty_property h ms).bind fun _ => thrifty_located _ _
  · exact .ite ((thrifty_plainParam h).bind fun _ => thrifty_located _ _) (thrifty_unexpected _)

theorem thrifty_constructor? : Thrifty (constructor? rules) := by
  refine thrifty_here.bind fun _ => (thrifty_accept _).bind fun _ => .ite ?_ (thrifty_pure _)
  exact (thrifty_listUntil _ (thrifty_constructorParam h)).bind fun _ =>
    (thrifty_located _ _).bind fun _ => thrifty_pure _

theorem thrifty_members (hr : RulesRead rules) : Thrifty (members rules) := fun s => by
  unfold members
  rw [run_bind, run_accept]
  by_cases hs : s.kind = .leftCurl
  · rw [if_pos hs]
    exact spends_sequenceOf hr.declaration h.declaration
      (fun _ => (thrifty_expect _).bind fun _ => thrifty_pure _) hs
  · rw [if_neg hs]
    exact .refl s

theorem thrifty_classDecl (hr : RulesRead rules) (ms : Modifiers) : Thrifty (classDecl rules ms) := by
  refine (thrifty_expect _).bind fun _ => (thrifty_expectAs _ _).bind fun _ => ?_
  exact (thrifty_constructor? h).bind fun _ => (thrifty_members h hr).bind fun _ => thrifty_pure _

theorem thrifty_declarationAfter (hr : RulesRead rules) (ms : Modifiers) :
    Thrifty (declarationAfter rules ms) := by
  refine thrifty_peek.bind fun kind => ?_
  split
  · exact (thrifty_function h ms).bind fun _ => thrifty_pure _
  · exact (thrifty_classDecl h hr ms).bind fun _ => thrifty_pure _
  · exact (thrifty_property h ms).bind fun _ => thrifty_pure _
  · exact (thrifty_property h ms).bind fun _ => thrifty_pure _
  · exact thrifty_unexpected _

theorem thrifty_declarationBody (hr : RulesRead rules) : Thrifty (declarationBody rules) := by
  refine thrifty_here.bind fun _ => .bind ?_ fun _ => thrifty_located _ _
  refine (thrifty_nextIs _).bind fun _ => .ite ?_ ?_
  · exact (thrifty_compilerCall h hr).bind fun _ => thrifty_pure _
  · exact (thrifty_modifiers h).bind fun ms => thrifty_declarationAfter h hr ms

end

theorem thrifty_grammar (limit levels : Nat) : (grammar limit levels).Thrifty := by
  induction levels with
  | zero =>
    have hfail {α : Type} : Thrifty (do fail .nestingTooDeep (← here) : Parser α) :=
      thrifty_here.bind fun _ => thrifty_fail _ _
    exact ⟨thrifty_typeRule limit 0, hfail, hfail, hfail, hfail⟩
  | succ levels ih =>
    have hr := rulesRead_grammar limit levels
    exact ⟨thrifty_typeRule limit (levels + 1), (thrifty_assignment ih hr).deeper limit,
      (thrifty_unary ih hr).deeper limit, (thrifty_blockBody ih hr).deeper limit,
      (thrifty_declarationBody ih hr).deeper limit⟩

end Linewise.Parser
