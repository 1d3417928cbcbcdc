import Linewise.Proofs.Parsing.GrammarProgress
import Linewise.Proofs.Parsing.Telling

/-!
# The grammar tells about gaps

Every production tells about the gaps of what it answers, as long as the rules for what nests do. Types
have none, and their productions report nothing. The items of a sequence cover what is read of them.
-/

namespace Linewise.Parser

variable {r : Row} {pre : List Gap}

theorem silent_label? (sign : TokenKind) : Silent r (label? sign) := fun pre => by
  refine (silent_nextAre _ _ pre).bind fun _ => .ite ?_ (.pure rfl)
  exact (silent_expectAs _ _ _).bind fun _ => (silent_expect _ _).bind fun _ => .pure rfl

-- ---------------------------------------------------------------------------
-- Types
-- ---------------------------------------------------------------------------

section
variable {type : Parser (Located Ty)} (h : Silent r type)
include h

theorem silent_typeArgs : Silent r (typeArgs type) := fun pre => by
  refine (silent_accept (by decide) pre).bind fun _ => .ite ?_ (.pure rfl)
  exact (silent_listOf h _).bind fun _ => (silent_expect _ _).bind fun _ => .pure rfl

theorem silent_userType : Silent r (userType type) := fun pre => by
  refine (silent_expectAs _ _ pre).bind fun _ => (silent_typeArgs h _).bind fun _ => ?_
  refine Tells.iterate (I := fun _ => pre) (fun parent => ?_) _
  refine (silent_nextAre _ _ pre).bind fun _ => .ite ?_ (.pure rfl)
  refine (silent_expect _ _).bind fun _ => (silent_expectAs _ _ _).bind fun _ => ?_
  exact (silent_typeArgs h _).bind fun _ => .pure rfl

theorem silent_typeParam : Silent r (typeParam type) := fun pre =>
  (silent_label? _ pre).bind fun _ => (h _).bind fun _ => .pure rfl

omit h in
theorem silent_startOf (receiver : Option (Located Ty)) : Silent r (startOf receiver) := by
  cases receiver with
  | none => exact silent_here
  | some t => exact fun pre => .pure rfl

theorem silent_functionType (receiver : Option (Located Ty)) :
    Silent r (functionType type receiver) := fun pre => by
  refine (silent_startOf receiver pre).bind fun start => (silent_expect _ _).bind fun _ => ?_
  refine (silent_listUntil _ (silent_typeParam h) _).bind fun params => ?_
  refine (silent_accept (by decide) _).bind fun _ => .ite ?_ ?_
  · exact (h _).bind fun _ => tells_located fun _ => rfl
  · split
    · exact .pure rfl
    · exact (silent_here _).bind fun _ => .fail rfl

theorem silent_namedType (start : Span) : Silent r (namedType type start) := fun pre => by
  refine (silent_userType h pre).bind fun user => ?_
  refine (silent_located start _ _).bind fun user => ?_
  refine (silent_nextAre _ _ _).bind fun _ => .ite ?_ (.pure rfl)
  exact (silent_expect _ _).bind fun _ => silent_functionType h _ _

theorem silent_plainType (start : Span) : Silent r (plainType type start) := fun pre => by
  refine (silent_peek pre).bind fun kind => ?_
  split
  · exact silent_functionType h none pre
  · exact silent_namedType h start pre
  · exact .unexpected _

theorem silent_typeBody : Silent r (typeBody type) := fun pre => by
  refine (silent_here pre).bind fun start => (silent_plainType h start _).bind fun plain => ?_
  refine Tells.bind (Q := fun _ => pre) ?_ fun base => Tells.iterate (I := fun _ => pre) ?_ base
  · refine (silent_accept (by decide) _).bind fun _ => .ite ?_ (.pure rfl)
    exact tells_located fun _ => rfl
  · intro inner
    refine (silent_accept (by decide) _).bind fun _ => .ite ?_ (.pure rfl)
    exact (silent_located start _ _).bind fun _ => .pure rfl

end

theorem tells_tooDeep {α : Type} {post : α → List Gap} :
    Tells r pre (do fail .nestingTooDeep (← here) : Parser α) post :=
  (silent_here pre).bind fun _ => .fail rfl

theorem silent_typeRule (limit levels : Nat) : Silent r (typeRule limit levels) := by
  induction levels with
  | zero => exact fun _ => tells_tooDeep
  | succ levels ih => exact fun pre => (silent_typeBody ih pre).deeper limit

-- ---------------------------------------------------------------------------
-- Declarations of properties and functions
-- ---------------------------------------------------------------------------

/-- The parser tells about the gaps of what it answers. -/
abbrev TellsGaps {α : Type} [HasGaps α] (r : Row) (p : Parser α) : Prop :=
  ∀ pre, Tells r pre p fun a => pre ++ gaps a

structure RulesTell (r : Row) (rules : Rules) : Prop where
  reads : RulesRead rules
  type : Silent r rules.type
  expression : TellsGaps r rules.expression
  operand : TellsGaps r rules.operand
  block : TellsGaps r rules.block
  declaration : TellsGaps r rules.declaration
  covers : Covers rules.declaration

theorem tells_behind {α : Type} [HasGaps α] {p : Parser α} {sign : TokenKind} (hs : sign ≠ .eof)
    (h : TellsGaps r p) : TellsGaps r (behind sign p) := fun pre => by
  refine (silent_accept hs pre).bind fun _ => .ite ((h _).bind fun _ => .pure rfl) (.pure ?_)
  simp

theorem silent_behind {α : Type} {p : Parser α} {sign : TokenKind} (hs : sign ≠ .eof)
    (h : Silent r p) : Silent r (behind sign p) := fun pre =>
  (silent_accept hs pre).bind fun _ => .ite ((h _).bind fun _ => .pure rfl) (.pure rfl)

theorem silent_library : Silent r library := fun pre => by
  refine (silent_accept (by decide) pre).bind fun _ => .ite ?_ (.pure rfl)
  exact (silent_expectAs _ _ _).bind fun _ => (silent_expect _ _).bind fun _ => .pure rfl

theorem silent_modifier? : Silent r modifier? := fun pre => by
  refine (silent_peek pre).bind fun kind => ?_
  split
  · exact (silent_expect _ _).bind fun _ => (silent_library _).bind fun _ => .pure rfl
  · exact (silent_expect _ _).bind fun _ => .pure rfl
  · exact (silent_expect _ _).bind fun _ => .pure rfl
  · exact .pure rfl

theorem silent_binding : Silent r binding := fun pre => by
  refine (silent_peek pre).bind fun kind => ?_
  split
  · exact (silent_expect _ _).bind fun _ => .pure rfl
  · exact (silent_expect _ _).bind fun _ => .pure rfl
  · exact .unexpected _

theorem silent_detachName (type : Located Ty) : Silent r (detachName type) := fun pre => by
  unfold detachName
  split
  · exact .pure rfl
  · exact .fail rfl

section
variable {rules : Rules} (h : RulesTell r rules)
include h

theorem tells_argument : TellsGaps r (argument rules) := fun pre => by
  refine (silent_here pre).bind fun _ => (silent_label? _ _).bind fun _ => ?_
  exact (h.expression _).bind fun _ => tells_located fun _ => rfl

theorem tells_arguments : TellsGaps r (arguments rules) := fun pre =>
  (silent_expect _ pre).bind fun _ => tells_listUntil _ (tells_argument h) _

theorem tells_annotated : TellsGaps r (annotated rules) := fun pre => by
  refine (silent_expect _ pre).bind fun _ => (silent_expectAs _ _ _).bind fun _ => ?_
  refine (silent_nextOnLine _ _).bind fun _ => .ite ?_ (.pure (by simp))
  exact (tells_arguments h _).bind fun _ => .pure (by simp)

theorem tells_modifierRound (ms : Modifiers) :
    Tells r (pre ++ gaps ms) (modifierRound rules ms) fun x => pre ++ gaps x.value := by
  rcases ms with ⟨ms, as⟩
  refine (silent_here _).bind fun start => (silent_nextIs _ _).bind fun _ => .ite ?_ ?_
  · refine (tells_annotated h _).bind fun a => ?_
    exact (tells_node start a).bind fun _ => .pure (by simp)
  · refine (silent_modifier? _).bind fun m => ?_
    cases m with
    | none => exact .pure rfl
    | some m => exact (silent_located start m _).bind fun _ => .pure (by simp)

theorem tells_modifiers : TellsGaps r (modifiers rules) := fun pre => by
  have hround (ms : Modifiers) :
      Tells r (pre ++ gaps ms) (modifierRound rules ms) fun x => pre ++ gaps x.value :=
    tells_modifierRound h ms
  have hloop := Tells.iterate hround ⟨[], []⟩
  rwa [gaps_modifiers, gaps_nil, List.append_nil] at hloop

theorem tells_property (ms : Modifiers) :
    Tells r (pre ++ gaps ms) (property rules ms) fun d => pre ++ gaps d := by
  refine (silent_binding _).bind fun _ => (silent_expectAs _ _ _).bind fun _ => ?_
  refine (silent_behind (by decide) h.type _).bind fun _ => ?_
  refine (tells_behind (by decide) h.expression _).bind fun _ => .pure (by simp)

theorem silent_functionName : Silent r (functionName rules) := fun pre => by
  refine (silent_nextAre _ _ pre).bind fun _ => .ite ?_ ?_
  · exact (silent_expectAs _ _ _).bind fun _ => .pure rfl
  · refine (h.type _).bind fun type => (silent_accept (by decide) _).bind fun _ => .ite ?_ ?_
    · exact (silent_expectAs _ _ _).bind fun _ => .pure rfl
    · exact silent_detachName type _

theorem silent_plainParam : Silent r (plainParam rules) := fun pre => by
  refine (silent_expectAs _ _ pre).bind fun _ => (silent_expect _ _).bind fun _ => ?_
  exact (h.type _).bind fun _ => .pure rfl

theorem silent_param : Silent r (param rules) := fun pre => by
  refine (silent_here pre).bind fun _ => (silent_plainParam h _).bind fun _ => ?_
  exact tells_located fun _ => rfl

theorem tells_functionBody : TellsGaps r (functionBody rules) := fun pre => by
  refine (silent_nextIs _ pre).bind fun _ => .ite ((h.block _).bind fun _ => .pure rfl) ?_
  refine (silent_accept (by decide) _).bind fun _ => .ite ?_ (.pure (by simp))
  exact (h.expression _).bind fun _ => .pure (by simp)

theorem tells_function (ms : Modifiers) :
    Tells r (pre ++ gaps ms) (function rules ms) fun d => pre ++ gaps d := by
  refine (silent_expect _ _).bind fun _ => (silent_functionName h _).bind fun name => ?_
  obtain ⟨receiver, name⟩ := name
  refine (silent_expect _ _).bind fun _ => (silent_listUntil _ (silent_param h) _).bind fun _ => ?_
  refine (silent_behind (by decide) h.type _).bind fun _ => ?_
  exact (tells_functionBody h _).bind fun _ => .pure (by simp)

-- ---------------------------------------------------------------------------
-- Statements
-- ---------------------------------------------------------------------------

theorem tells_localAfter (ms : Modifiers) :
    Tells r (pre ++ gaps ms) (localAfter rules ms) fun a => pre ++ gaps a := by
  refine (silent_peek _).bind fun kind => ?_
  split
  · exact (tells_function h ms).bind fun _ => .pure rfl
  · exact (tells_property h ms).bind fun _ => .pure rfl
  · exact (tells_property h ms).bind fun _ => .pure rfl
  · exact .unexpected _

theorem tells_localDeclaration : TellsGaps r (localDeclaration rules) := fun pre =>
  (tells_modifiers h pre).bind fun ms => tells_localAfter h ms

theorem tells_simpleStatement : TellsGaps r (simpleStatement rules) := fun pre => by
  refine (silent_peek pre).bind fun kind => ?_
  split
  all_goals first
    | exact tells_localDeclaration h pre
    | exact (h.expression pre).bind fun _ => .pure rfl

section
variable {statement : Parser (Located Statement)} (hs : TellsGaps r statement)
include hs

theorem tells_bodyOf : TellsGaps r (bodyOf rules statement) := fun pre =>
  (silent_nextIs _ pre).bind fun _ =>
    .ite (h.block _) ((hs _).bind fun _ => .pure (by simp))

theorem tells_whileLoop : TellsGaps r (whileLoop rules statement) := fun pre => by
  refine (silent_expect _ pre).bind fun _ => (silent_expect _ _).bind fun _ => ?_
  refine (h.expression _).bind fun _ => (silent_expect _ _).bind fun _ => ?_
  exact (tells_bodyOf h hs _).bind fun _ => .pure (by simp)

theorem tells_statementWith : TellsGaps r (statementWith rules statement) := fun pre => by
  refine (silent_here pre).bind fun _ => Tells.bind (Q := fun a => pre ++ gaps a) ?_ fun a =>
    tells_located fun _ => rfl
  exact (silent_nextIs _ _).bind fun _ => .ite (tells_whileLoop h hs _) (tells_simpleStatement h _)

end

theorem tells_statement : TellsGaps r (statement rules) := fun pre =>
  have hfor (bound : List Terminal) : TellsGaps r (statementFor rules bound) := by
    induction bound with
    | nil => exact tells_statementWith h fun _ => .unexpected _
    | cons _ bound ih => exact tells_statementWith h ih
  { moves := (reads_statement h.reads).toMoves
    told := fun s => (hfor s.rest pre).told s }

theorem tells_body : TellsGaps r (body rules) := tells_bodyOf h (tells_statement h)

theorem tells_blockBody : TellsGaps r (blockBody rules) := fun pre => by
  refine (silent_here pre).bind fun _ => (silent_expect _ _).bind fun _ => ?_
  refine (tells_sequenceOf (tells_statement h) covers_statement (reads_statement h.reads)
    (by simp) _).bind fun _ => (silent_expect _ _).bind fun _ => ?_
  exact tells_located fun _ => by simp

-- ---------------------------------------------------------------------------
-- Expressions
-- ---------------------------------------------------------------------------

omit h in
theorem silent_skipBeforeElse : Silent r skipBeforeElse := fun pre =>
  (silent_nextAre _ _ pre).bind fun _ => .ite (silent_expect _ _) (.pure rfl)

theorem tells_conditional : TellsGaps r (conditional rules) := fun pre => by
  refine (silent_expect _ pre).bind fun _ => (silent_expect _ _).bind fun _ => ?_
  refine (h.expression _).bind fun _ => (silent_expect _ _).bind fun _ => ?_
  refine (tells_body h _).bind fun _ => (silent_skipBeforeElse _).bind fun _ => ?_
  exact (tells_behind (by decide) (tells_body h) _).bind fun _ => .pure (by simp)

theorem tells_whenCase : TellsGaps r (whenCase rules) := fun pre => by
  refine (silent_here pre).bind fun start => (silent_accept (by decide) _).bind fun _ => .ite ?_ ?_
  · refine (silent_expect _ _).bind fun _ => (tells_body h _).bind fun _ => ?_
    exact tells_located fun _ => rfl
  · refine (tells_listOf h.expression _).bind fun _ => (silent_expect _ _).bind fun _ => ?_
    refine (tells_body h _).bind fun _ => tells_located fun _ => ?_
    rw [gaps_located, gaps_matching, List.append_assoc]
    rfl

theorem tells_closeGroup : TellsGaps r (closeGroup rules) := fun pre =>
  (h.expression pre).bind fun _ => (silent_expect _ _).bind fun _ => .pure rfl

theorem tells_whenChoice : TellsGaps r (whenChoice rules) := fun pre => by
  refine (silent_expect _ pre).bind fun _ => ?_
  refine (tells_behind (by decide) (tells_closeGroup h) _).bind fun _ => ?_
  refine (silent_expect _ _).bind fun _ => ?_
  refine (tells_sequenceOf (tells_whenCase h) covers_whenCase (reads_whenCase h.reads) (by simp)
    _).bind fun _ => (silent_expect _ _).bind fun _ => .pure (by simp)

theorem tells_atom : TellsGaps r (atom rules) := fun pre => by
  have hword (what : Expectation) (kind : TokenKind) (f : String → Expr) (hf : ∀ x, gaps (f x) = []) :
      Tells r pre (do return f (← expectAs what kind)) fun a => pre ++ gaps a :=
    (silent_expectAs what kind pre).bind fun x => .pure (by simp [hf])
  refine (silent_peek pre).bind fun kind => ?_
  split
  · exact hword _ _ _ fun _ => rfl
  · exact hword _ _ _ fun _ => rfl
  · exact hword _ _ (fun text => .string (StringLiteral.decode text)) fun _ => rfl
  · exact (silent_expect _ _).bind fun _ => .pure (by simp)
  · exact (silent_expect _ _).bind fun _ => (tells_closeGroup h _).bind fun _ => .pure (by simp)
  · refine (silent_expect _ _).bind fun _ => (tells_listUntil _ h.expression _).bind fun _ => ?_
    exact .pure (by rw [gaps_array]; rfl)
  · exact (h.block _).bind fun _ => .pure (by simp)
  · exact tells_conditional h pre
  · exact tells_whenChoice h pre
  · exact .unexpected _

theorem tells_blockArgument : TellsGaps r (blockArgument rules) := fun pre =>
  (h.block pre).bind fun _ => .pure (by simp)

theorem tells_callArguments : TellsGaps r (callArguments rules) := fun pre => by
  refine (tells_arguments h pre).bind fun _ => (silent_nextOnLine _ _).bind fun _ => .ite ?_ (.pure rfl)
  exact (tells_blockArgument h _).bind fun _ => .pure (by simp)

theorem tells_closeIndex : TellsGaps r (closeIndex rules) := fun pre =>
  (h.expression pre).bind fun _ => (silent_expect _ _).bind fun _ => .pure rfl

/-- What stands in front of a suffix is a part of what it makes. -/
theorem tells_suffixRound (start : Span) (target : Located Expr) :
    Tells r (pre ++ gaps target) (suffixRound rules start target) fun x => pre ++ gaps x.value := by
  refine Tells.bind (Q := fun node => pre ++ (node.map gaps).getD (gaps target)) ?_ fun node => ?_
  · refine (silent_nextOnLine _ _).bind fun _ => .ite ?_ ?_
    · exact (tells_callArguments h _).bind fun _ => .pure (by simp)
    refine (silent_nextOnLine _ _).bind fun _ => .ite ?_ ?_
    · exact (tells_blockArgument h _).bind fun _ => .pure (by simp)
    refine (silent_nextOnLine _ _).bind fun _ => .ite ?_ ?_
    · exact (silent_expect _ _).bind fun _ => (tells_closeIndex h _).bind fun _ => .pure (by simp)
    refine (silent_accept (by decide) _).bind fun _ => .ite ?_ (.pure rfl)
    exact (silent_expectAs _ _ _).bind fun _ => .pure (by simp)
  · cases node with
    | none => exact .pure rfl
    | some node => exact (tells_node start node).bind fun _ => .pure rfl

theorem tells_suffixed : TellsGaps r (suffixed rules) := fun pre => by
  refine (silent_here pre).bind fun start => (tells_atom h _).bind fun node => ?_
  exact (tells_node start node).bind (Tells.iterate (tells_suffixRound h start))

theorem tells_unary : TellsGaps r (unary rules) := fun pre => by
  refine (silent_here pre).bind fun start => (silent_accept (by decide) _).bind fun _ => ?_
  refine .ite ?_ (tells_suffixed h _)
  exact (h.operand _).bind fun _ => tells_located fun _ => rfl

omit h in
theorem silent_operator? (p : Precedence) : Silent r (operator? p) := fun pre => by
  refine (silent_peek pre).bind fun kind => ?_
  split
  · exact (silent_expect _ _).bind fun _ => .pure rfl
  · exact .pure rfl

omit h in
theorem tells_chain {operand : Parser (Located Expr)} (p : Precedence) (ho : TellsGaps r operand) :
    TellsGaps r (chain p operand) := fun pre => by
  refine (silent_here pre).bind fun start => (ho _).bind (Tells.iterate fun lhs => ?_)
  refine (silent_operator? p _).bind fun op => ?_
  cases op with
  | none => exact .pure rfl
  | some op =>
    refine (ho _).bind fun rhs => Tells.bind (Q := fun x => pre ++ gaps x) ?_ fun _ => .pure rfl
    exact tells_located fun _ => by simp

theorem tells_binary : TellsGaps r (binary rules) :=
  tells_chain _ (tells_chain _ (tells_chain _ (tells_chain _ (tells_unary h))))

theorem tells_assignment : TellsGaps r (assignment rules) := fun pre => by
  refine (silent_here pre).bind fun start => (tells_binary h _).bind fun target => ?_
  refine (silent_nextIs _ _).bind fun _ => .ite (.ite ?_ (.fail rfl)) (.pure rfl)
  refine (silent_expect _ _).bind fun _ => (h.expression _).bind fun _ => ?_
  exact tells_located fun _ => by simp

-- ---------------------------------------------------------------------------
-- Declarations
-- ---------------------------------------------------------------------------

theorem tells_compilerCall : TellsGaps r (compilerCall rules) := fun pre => by
  refine (silent_here pre).bind fun _ => (silent_expect _ _).bind fun _ => ?_
  exact (tells_suffixed h _).bind fun _ => .ite (.pure rfl) (.fail rfl)

theorem tells_constructorParam : TellsGaps r (constructorParam rules) := fun pre => by
  refine (silent_here pre).bind fun start => (tells_modifiers h _).bind fun ms => ?_
  refine (silent_peek _).bind fun kind => ?_
  split
  · exact (tells_property h ms).bind fun _ => tells_located fun _ => rfl
  · exact (tells_property h ms).bind fun _ => tells_located fun _ => rfl
  · cases hms : ms.isEmpty with
    | false => exact .unexpected _
    | true =>
      have hnone : gaps ms = [] := by
        rw [Modifiers.eq_of_isEmpty hms]
        rfl
      refine (silent_plainParam h _).bind fun _ => tells_located fun _ => ?_
      rw [gaps_located, gaps_plain, hnone]

theorem tells_constructor? : TellsGaps r (constructor? rules) := fun pre => by
  refine (silent_here pre).bind fun start => (silent_accept (by decide) _).bind fun _ => ?_
  refine .ite ((tells_listUntil _ (tells_constructorParam h) _).bind fun params => ?_) (.pure (by simp))
  have hnode : Tells r (pre ++ gaps params) (located start params) fun x => pre ++ gaps x :=
    tells_node start params
  exact hnode.bind fun _ => .pure rfl

theorem tells_members :
    Tells r pre (members rules) fun decls => pre ++ itemGaps none decls := by
  refine (silent_accept (by decide) _).bind fun _ => .ite ?_ (.pure (by simp))
  refine (tells_sequenceOf h.declaration h.covers h.reads.declaration (by simp) _).bind fun _ => ?_
  exact (silent_expect _ _).bind fun _ => .pure rfl

theorem tells_classDecl (ms : Modifiers) :
    Tells r (pre ++ gaps ms) (classDecl rules ms) fun d => pre ++ gaps d := by
  refine (silent_expect _ _).bind fun _ => (silent_expectAs _ _ _).bind fun _ => ?_
  exact (tells_constructor? h _).bind fun _ => (tells_members h).bind fun _ => .pure (by simp)

theorem tells_declarationAfter (ms : Modifiers) :
    Tells r (pre ++ gaps ms) (declarationAfter rules ms) fun d => pre ++ gaps d := by
  refine (silent_peek _).bind fun kind => ?_
  split
  · exact (tells_function h ms).bind fun _ => .pure rfl
  · exact (tells_classDecl h ms).bind fun _ => .pure rfl
  · exact (tells_property h ms).bind fun _ => .pure rfl
  · exact (tells_property h ms).bind fun _ => .pure rfl
  · exact .unexpected _

theorem tells_declarationBody : TellsGaps r (declarationBody rules) := fun pre => by
  refine (silent_here pre).bind fun start => Tells.bind (Q := fun d => pre ++ gaps d) ?_ fun d =>
    tells_node start d
  refine (silent_nextIs _ _).bind fun _ => .ite ?_ ?_
  · exact (tells_compilerCall h _).bind fun _ => .pure rfl
  · exact (tells_modifiers h _).bind fun ms => tells_declarationAfter h ms

end

theorem rulesTell_grammar (r : Row) (limit levels : Nat) : RulesTell r (grammar limit levels) := by
  induction levels with
  | zero =>
    exact ⟨rulesRead_grammar limit 0, silent_typeRule limit 0, fun _ => tells_tooDeep,
      fun _ => tells_tooDeep, fun _ => tells_tooDeep, fun _ => tells_tooDeep,
      covers_declaration limit 0⟩
  | succ levels ih =>
    exact
      { reads := rulesRead_grammar limit (levels + 1)
        type := silent_typeRule limit (levels + 1)
        expression := fun pre => (tells_assignment ih pre).deeper limit
        operand := fun pre => (tells_unary ih pre).deeper limit
        block := fun pre => (tells_blockBody ih pre).deeper limit
        declaration := fun pre => (tells_declarationBody ih pre).deeper limit
        covers := covers_declaration limit (levels + 1) }

end Linewise.Parser
