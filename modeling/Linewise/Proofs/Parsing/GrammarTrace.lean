import Linewise.Parser.Grammar
import Linewise.Proofs.Parsing.Trace

/-!
# Every production has a trace

Each production of the grammar is put together from steps, so from every state on its run has a path
through states. The levels that a trace opens are those of the grammar's own limit.
-/

namespace Linewise.Parser

variable {α : Type} {p : Parser α} {limit : Nat}

-- ---------------------------------------------------------------------------
-- Types
-- ---------------------------------------------------------------------------

section
variable {type : Parser (Located Ty)}

theorem traced_typeArgs (h : Traced limit type) : Traced limit (typeArgs type) := by
  refine (traced_accept _).bind fun _ => .ite ?_ (traced_pure _)
  exact (traced_listOf h).bind fun _ => (traced_expect _).bind fun _ => traced_pure _

theorem traced_userType (h : Traced limit type) : Traced limit (userType type) := by
  refine (traced_expectAs _ _).bind fun _ => (traced_typeArgs h).bind fun _ => .iterate (fun parent => ?_) _
  refine (traced_nextAre _ _).bind fun _ => .ite ?_ (traced_pure _)
  refine (traced_expect _).bind fun _ => (traced_expectAs _ _).bind fun _ => ?_
  exact (traced_typeArgs h).bind fun _ => traced_pure _

theorem traced_functionType (h : Traced limit type) (receiver : Option (Located Ty)) :
    Traced limit (functionType type receiver) := by
  have hstart : Traced limit (startOf receiver) := by
    cases receiver with
    | none => exact traced_here
    | some r => exact traced_pure _
  have hparam : Traced limit (typeParam type) := (traced_label? _).bind fun _ => h.bind fun _ => traced_pure _
  refine hstart.bind fun _ => (traced_expect _).bind fun _ => (traced_listUntil _ hparam).bind fun _ => ?_
  refine (traced_accept _).bind fun _ => .ite (h.bind fun _ => traced_located _ _) ?_
  split
  · exact traced_pure _
  · exact traced_here.bind fun _ => traced_fail _ _

theorem traced_plainType (h : Traced limit type) (start : Span) : Traced limit (plainType type start) := by
  refine traced_peek.bind fun kind => ?_
  split
  · exact traced_functionType h none
  · refine (traced_userType h).bind fun _ => (traced_located _ _).bind fun _ => ?_
    refine (traced_nextAre _ _).bind fun _ => .ite ?_ (traced_pure _)
    exact (traced_expect _).bind fun _ => traced_functionType h _
  · exact traced_unexpected _

theorem traced_typeBody (h : Traced limit type) : Traced limit (typeBody type) := by
  refine traced_here.bind fun start => (traced_plainType h start).bind fun plain => ?_
  refine .bind ?_ fun base => .iterate (fun inner => ?_) base
  · exact (traced_accept _).bind fun _ => .ite (traced_located _ _) (traced_pure _)
  · refine (traced_accept _).bind fun _ => .ite ?_ (traced_pure _)
    exact (traced_located _ _).bind fun _ => traced_pure _

theorem traced_typeRule (limit levels : Nat) : Traced limit (typeRule limit levels) := by
  induction levels with
  | zero => exact traced_here.bind fun _ => traced_fail _ _
  | succ levels ih => exact (traced_typeBody ih).deeper

end

-- ---------------------------------------------------------------------------
-- Declarations of properties and functions
-- ---------------------------------------------------------------------------

structure Rules.Traced (limit : Nat) (rules : Rules) : Prop where
  type : Parser.Traced limit rules.type
  expression : Parser.Traced limit rules.expression
  operand : Parser.Traced limit rules.operand
  block : Parser.Traced limit rules.block
  declaration : Parser.Traced limit rules.declaration

theorem traced_behind {sign : TokenKind} (h : Traced limit p) : Traced limit (behind sign p) :=
  (traced_accept _).bind fun _ => .ite (h.bind fun _ => traced_pure _) (traced_pure _)

section
variable {rules : Rules} (h : rules.Traced limit)
include h

theorem traced_arguments : Traced limit (arguments rules) := by
  refine (traced_expect _).bind fun _ => traced_listUntil _ ?_
  refine traced_here.bind fun _ => (traced_label? _).bind fun _ => ?_
  exact h.expression.bind fun _ => traced_located _ _

theorem traced_annotated : Traced limit (annotated rules) := by
  refine (traced_expect _).bind fun _ => (traced_expectAs _ _).bind fun _ => ?_
  refine (traced_nextOnLine _).bind fun _ => .ite ?_ (traced_pure _)
  exact (traced_arguments h).bind fun _ => traced_pure _

omit h in
theorem traced_modifier? : Traced limit modifier? := by
  have hlibrary : Traced limit library := by
    refine (traced_accept _).bind fun _ => .ite ?_ (traced_pure _)
    exact (traced_expectAs _ _).bind fun _ => (traced_expect _).bind fun _ => traced_pure _
  refine traced_peek.bind fun kind => ?_
  split
  · exact (traced_expect _).bind fun _ => hlibrary.bind fun _ => traced_pure _
  · exact (traced_expect _).bind fun _ => traced_pure _
  · exact (traced_expect _).bind fun _ => traced_pure _
  · exact traced_pure _

theorem traced_modifiers : Traced limit (modifiers rules) := by
  refine .iterate (fun ms => ?_) _
  rcases ms with ⟨ms, as⟩
  refine traced_here.bind fun _ => (traced_nextIs _).bind fun _ => .ite ?_ ?_
  · exact (traced_annotated h).bind fun _ => (traced_located _ _).bind fun _ => traced_pure _
  · refine traced_modifier?.bind fun m => ?_
    cases m with
    | none => exact traced_pure _
    | some m => exact (traced_located _ _).bind fun _ => traced_pure _

theorem traced_property (ms : Modifiers) : Traced limit (property rules ms) := by
  have hbinding : Traced limit binding := by
    refine traced_peek.bind fun kind => ?_
    split
    · exact (traced_expect _).bind fun _ => traced_pure _
    · exact (traced_expect _).bind fun _ => traced_pure _
    · exact traced_unexpected _
  refine hbinding.bind fun _ => (traced_expectAs _ _).bind fun _ => ?_
  refine (traced_behind h.type).bind fun _ => ?_
  exact (traced_behind h.expression).bind fun _ => traced_pure _

theorem traced_functionName : Traced limit (functionName rules) := by
  refine (traced_nextAre _ _).bind fun _ => .ite ?_ ?_
  · exact (traced_expectAs _ _).bind fun _ => traced_pure _
  · refine h.type.bind fun type => (traced_accept _).bind fun _ => .ite ?_ ?_
    · exact (traced_expectAs _ _).bind fun _ => traced_pure _
    · unfold detachName
      split
      · exact traced_pure _
      · exact traced_fail _ _

theorem traced_plainParam : Traced limit (plainParam rules) := by
  refine (traced_expectAs _ _).bind fun _ => (traced_expect _).bind fun _ => ?_
  exact h.type.bind fun _ => traced_pure _

theorem traced_functionBody : Traced limit (functionBody rules) := by
  refine (traced_nextIs _).bind fun _ => .ite (h.block.bind fun _ => traced_pure _) ?_
  refine (traced_accept _).bind fun _ => .ite ?_ (traced_pure _)
  exact h.expression.bind fun _ => traced_pure _

theorem traced_function (ms : Modifiers) : Traced limit (function rules ms) := by
  have hparam : Traced limit (param rules) :=
    traced_here.bind fun _ => (traced_plainParam h).bind fun _ => traced_located _ _
  refine (traced_expect _).bind fun _ => (traced_functionName h).bind fun _ => ?_
  refine (traced_expect _).bind fun _ => (traced_listUntil _ hparam).bind fun _ => ?_
  exact (traced_behind h.type).bind fun _ => (traced_functionBody h).bind fun _ => traced_pure _

-- ---------------------------------------------------------------------------
-- Statements
-- ---------------------------------------------------------------------------

theorem traced_localDeclaration : Traced limit (localDeclaration rules) := by
  refine (traced_modifiers h).bind fun ms => traced_peek.bind fun kind => ?_
  split
  · exact (traced_function h ms).bind fun _ => traced_pure _
  · exact (traced_property h ms).bind fun _ => traced_pure _
  · exact (traced_property h ms).bind fun _ => traced_pure _
  · exact traced_unexpected _

theorem traced_simpleStatement : Traced limit (simpleStatement rules) := by
  refine traced_peek.bind fun kind => ?_
  split
  all_goals first
    | exact traced_localDeclaration h
    | exact h.expression.bind fun _ => traced_pure _

variable {statement : Parser (Located Statement)}

theorem traced_bodyOf (hs : Traced limit statement) : Traced limit (bodyOf rules statement) :=
  (traced_nextIs _).bind fun _ => .ite h.block (hs.bind fun _ => traced_pure _)

theorem traced_whileLoop (hs : Traced limit statement) : Traced limit (whileLoop rules statement) := by
  refine (traced_expect _).bind fun _ => (traced_expect _).bind fun _ => ?_
  refine h.expression.bind fun _ => (traced_expect _).bind fun _ => ?_
  exact (traced_bodyOf h hs).bind fun _ => traced_pure _

theorem traced_statementWith (hs : Traced limit statement) : Traced limit (statementWith rules statement) := by
  refine traced_here.bind fun _ => .bind ?_ fun _ => traced_located _ _
  exact (traced_nextIs _).bind fun _ => .ite (traced_whileLoop h hs) (traced_simpleStatement h)

theorem traced_statement : Traced limit (Parser.statement rules) := by
  suffices hall : ∀ bound, Traced limit (statementFor rules bound) from traced_get.bind fun s => hall s.rest
  intro bound
  induction bound with
  | nil => exact traced_statementWith h (traced_unexpected _)
  | cons _ bound ih => exact traced_statementWith h ih

theorem traced_body : Traced limit (body rules) := traced_bodyOf h (traced_statement h)

theorem traced_blockBody : Traced limit (blockBody rules) := by
  refine traced_here.bind fun _ => (traced_expect _).bind fun _ => ?_
  refine (traced_sequenceOf true (traced_statement h)).bind fun _ => ?_
  exact (traced_expect _).bind fun _ => traced_located _ _

-- ---------------------------------------------------------------------------
-- Expressions
-- ---------------------------------------------------------------------------

theorem traced_conditional : Traced limit (conditional rules) := by
  have hskip : Traced limit skipBeforeElse :=
    (traced_nextAre _ _).bind fun _ => .ite (traced_expect _) (traced_pure _)
  refine (traced_expect _).bind fun _ => (traced_expect _).bind fun _ => ?_
  refine h.expression.bind fun _ => (traced_expect _).bind fun _ => ?_
  refine (traced_body h).bind fun _ => hskip.bind fun _ => ?_
  exact (traced_behind (traced_body h)).bind fun _ => traced_pure _

theorem traced_whenCase : Traced limit (whenCase rules) := by
  have hbody : Traced limit (body rules) := traced_body h
  refine traced_here.bind fun _ => (traced_accept _).bind fun _ => .ite ?_ ?_
  · exact (traced_expect _).bind fun _ => hbody.bind fun _ => traced_located _ _
  · refine (traced_listOf h.expression).bind fun _ => (traced_expect _).bind fun _ => ?_
    exact hbody.bind fun _ => traced_located _ _

theorem traced_closeGroup : Traced limit (closeGroup rules) :=
  h.expression.bind fun _ => (traced_expect _).bind fun _ => traced_pure _

theorem traced_whenChoice : Traced limit (whenChoice rules) := by
  refine (traced_expect _).bind fun _ => (traced_behind (traced_closeGroup h)).bind fun _ => ?_
  refine (traced_expect _).bind fun _ => (traced_sequenceOf true (traced_whenCase h)).bind fun _ => ?_
  exact (traced_expect _).bind fun _ => traced_pure _

theorem traced_atom : Traced limit (atom rules) := by
  refine traced_peek.bind fun kind => ?_
  split
  · exact (traced_expectAs _ _).bind fun _ => traced_pure _
  · exact (traced_expectAs _ _).bind fun _ => traced_pure _
  · exact (traced_expectAs _ _).bind fun _ => traced_pure _
  · exact (traced_expect _).bind fun _ => traced_pure _
  · exact (traced_expect _).bind fun _ => (traced_closeGroup h).bind fun _ => traced_pure _
  · exact (traced_expect _).bind fun _ => (traced_listUntil _ h.expression).bind fun _ => traced_pure _
  · exact h.block.bind fun _ => traced_pure _
  · exact traced_conditional h
  · exact traced_whenChoice h
  · exact traced_unexpected _

theorem traced_blockArgument : Traced limit (blockArgument rules) := h.block.bind fun _ => traced_pure _

theorem traced_callArguments : Traced limit (callArguments rules) := by
  refine (traced_arguments h).bind fun _ => (traced_nextOnLine _).bind fun _ => ?_
  exact .ite ((traced_blockArgument h).bind fun _ => traced_pure _) (traced_pure _)

theorem traced_suffix? (target : Located Expr) : Traced limit (suffix? rules target) := by
  have hindex : Traced limit (closeIndex rules) :=
    h.expression.bind fun _ => (traced_expect _).bind fun _ => traced_pure _
  refine (traced_nextOnLine _).bind fun _ => .ite ?_ ?_
  · exact (traced_callArguments h).bind fun _ => traced_pure _
  refine (traced_nextOnLine _).bind fun _ => .ite ?_ ?_
  · exact (traced_blockArgument h).bind fun _ => traced_pure _
  refine (traced_nextOnLine _).bind fun _ => .ite ?_ ?_
  · exact (traced_expect _).bind fun _ => hindex.bind fun _ => traced_pure _
  · refine (traced_accept _).bind fun _ => .ite ?_ (traced_pure _)
    exact (traced_expectAs _ _).bind fun _ => traced_pure _

theorem traced_suffixed : Traced limit (suffixed rules) := by
  refine traced_here.bind fun start => (traced_atom h).bind fun _ => ?_
  refine (traced_located _ _).bind fun _ => .iterate (fun target => ?_) _
  refine (traced_suffix? h target).bind fun node => ?_
  cases node with
  | none => exact traced_pure _
  | some node => exact (traced_located _ _).bind fun _ => traced_pure _

theorem traced_unary : Traced limit (unary rules) := by
  refine traced_here.bind fun _ => (traced_accept _).bind fun _ => .ite ?_ (traced_suffixed h)
  exact h.operand.bind fun _ => traced_located _ _

omit h in
theorem traced_chain {operand : Parser (Located Expr)} (p : Precedence) (ho : Traced limit operand) :
    Traced limit (chain p operand) := by
  have hoperator : Traced limit (operator? p) := by
    refine traced_peek.bind fun kind => ?_
    split
    · exact (traced_expect _).bind fun _ => traced_pure _
    · exact traced_pure _
  refine traced_here.bind fun start => ho.bind fun _ => .iterate (fun lhs => ?_) _
  refine hoperator.bind fun op => ?_
  cases op with
  | none => exact traced_pure _
  | some op => exact ho.bind fun _ => (traced_located _ _).bind fun _ => traced_pure _

theorem traced_assignment : Traced limit (assignment rules) := by
  have hbinary : Traced limit (binary rules) :=
    traced_chain _ (traced_chain _ (traced_chain _ (traced_chain _ (traced_unary h))))
  refine traced_here.bind fun _ => hbinary.bind fun target => ?_
  refine (traced_nextIs _).bind fun _ => .ite (.ite ?_ (traced_fail _ _)) (traced_pure _)
  exact (traced_expect _).bind fun _ => h.expression.bind fun _ => traced_located _ _

-- ---------------------------------------------------------------------------
-- Declarations
-- ---------------------------------------------------------------------------

theorem traced_compilerCall : Traced limit (compilerCall rules) := by
  refine traced_here.bind fun _ => (traced_expect _).bind fun _ => ?_
  exact (traced_suffixed h).bind fun _ => .ite (traced_pure _) (traced_fail _ _)

theorem traced_constructorParam : Traced limit (constructorParam rules) := by
  refine traced_here.bind fun start => (traced_modifiers h).bind fun ms => traced_peek.bind fun kind => ?_
  split
  · exact (traced_property h ms).bind fun _ => traced_located _ _
  · exact (traced_property h ms).bind fun _ => traced_located _ _
  · exact .ite ((traced_plainParam h).bind fun _ => traced_located _ _) (traced_unexpected _)

theorem traced_constructor? : Traced limit (constructor? rules) := by
  refine traced_here.bind fun _ => (traced_accept _).bind fun _ => .ite ?_ (traced_pure _)
  exact (traced_listUntil _ (traced_constructorParam h)).bind fun _ =>
    (traced_located _ _).bind fun _ => traced_pure _

theorem traced_members : Traced limit (members rules) := by
  refine (traced_accept _).bind fun _ => .ite ?_ (traced_pure _)
  exact (traced_sequenceOf true h.declaration).bind fun _ => (traced_expect _).bind fun _ => traced_pure _

theorem traced_classDecl (ms : Modifiers) : Traced limit (classDecl rules ms) := by
  refine (traced_expect _).bind fun _ => (traced_expectAs _ _).bind fun _ => ?_
  exact (traced_constructor? h).bind fun _ => (traced_members h).bind fun _ => traced_pure _

theorem traced_declarationAfter (ms : Modifiers) : Traced limit (declarationAfter rules ms) := by
  refine traced_peek.bind fun kind => ?_
  split
  · exact (traced_function h ms).bind fun _ => traced_pure _
  · exact (traced_classDecl h ms).bind fun _ => traced_pure _
  · exact (traced_property h ms).bind fun _ => traced_pure _
  · exact (traced_property h ms).bind fun _ => traced_pure _
  · exact traced_unexpected _

theorem traced_declarationBody : Traced limit (declarationBody rules) := by
  refine traced_here.bind fun _ => .bind ?_ fun _ => traced_located _ _
  refine (traced_nextIs _).bind fun _ => .ite ?_ ?_
  · exact (traced_compilerCall h).bind fun _ => traced_pure _
  · exact (traced_modifiers h).bind fun ms => traced_declarationAfter h ms

end

theorem traced_grammar (limit levels : Nat) : (grammar limit levels).Traced limit := by
  induction levels with
  | zero =>
    have hfail {α : Type} : Traced limit (do fail .nestingTooDeep (← here) : Parser α) :=
      traced_here.bind fun _ => traced_fail _ _
    exact ⟨traced_typeRule limit 0, hfail, hfail, hfail, hfail⟩
  | succ levels ih =>
    exact ⟨traced_typeRule limit (levels + 1), (traced_assignment ih).deeper, (traced_unary ih).deeper,
      (traced_blockBody ih).deeper, (traced_declarationBody ih).deeper⟩

theorem traced_declarations (limit : Nat) : Traced limit (declarations limit) :=
  traced_sequenceOf false (traced_grammar limit limit).declaration

end Linewise.Parser
