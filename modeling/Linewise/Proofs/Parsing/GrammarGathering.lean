import Linewise.Proofs.Parsing.Gathering

/-!
# The grammar gathers words

Every production gathers the words of what it answers, as long as the rules for what nests do. Signs and
keywords are no words.
-/

namespace Linewise.Parser

variable {α : Type} {p : Parser α} {all ws : List Word}

theorem gathered_label? {sign : TokenKind} (hk : Unspoken sign) :
    Triple (Gathered all ws) (label? sign) fun name => Gathered all (ws ++ nameWords name) := by
  refine (wordless_nextAre _ _).bind fun _ => .ite (fun _ => ?_) fun _ => gathered_pure (by simp)
  exact gathered_identifier.bind fun _ => (wordless_expect hk).bind fun _ => gathered_pure rfl

theorem gathers_tooDeep [HasWords α] : Gathers (do fail .nestingTooDeep (← here) : Parser α) :=
  fun _ _ => wordless_here.bind fun _ => .fail

theorem wordless_expectWord (word : Keyword) : Wordless (expectWord word) := wordless_expect fun _ => rfl

-- ---------------------------------------------------------------------------
-- Types
-- ---------------------------------------------------------------------------

section
variable {type : Parser (Located Ty)} (h : Gathers type)
include h

theorem gathers_typeArgs : Gathers (typeArgs type) := fun _ _ => by
  refine (wordless_accept (fun _ => rfl) (by decide)).bind fun _ => .ite (fun _ => ?_) fun _ => ?_
  · exact (gathers_listOf h).bind fun _ => (wordless_expect fun _ => rfl).bind fun _ => gathered_pure rfl
  · exact gathered_pure (by simp)

theorem gathered_memberRound (parent : UserType) :
    Triple (Gathered all (ws ++ words parent)) (memberRound type parent) fun r =>
      Gathered all (ws ++ words r.value) := by
  refine (wordless_nextAre _ _).bind fun _ => .ite (fun _ => ?_) fun _ => gathered_pure rfl
  refine (wordless_expect fun _ => rfl).bind fun _ => gathered_identifier.bind fun _ => ?_
  exact (gathers_typeArgs h).bind fun _ => gathered_pure (by simp)

theorem gathers_userType : Gathers (userType type) := fun all ws => by
  refine gathered_identifier.bind fun name => (gathers_typeArgs h).bind fun args => ?_
  have hloop := Triple.loop (I := fun user => Gathered all (ws ++ words user))
    (gathered_memberRound h) (.simple name args)
  simpa using hloop

theorem gathers_typeParam : Gathers (typeParam type) := fun _ _ =>
  (gathered_label? fun _ => rfl).bind fun _ => h.bind fun _ => gathered_pure (by simp)

omit h in
theorem wordless_startOf (receiver : Option (Located Ty)) : Wordless (startOf receiver) := by
  cases receiver with
  | none => exact wordless_here
  | some type => exact fun _ _ => gathered_pure rfl

theorem gathered_functionType (receiver : Option (Located Ty)) :
    Triple (Gathered all (ws ++ words receiver)) (functionType type receiver) fun type =>
      Gathered all (ws ++ words type) := by
  refine (wordless_startOf receiver).bind fun start => (wordless_expect fun _ => rfl).bind fun _ => ?_
  refine (gathers_listUntil (fun _ => rfl) (gathers_typeParam h)).bind fun params => ?_
  refine (wordless_accept (fun _ => rfl) (by decide)).bind fun _ => .ite (fun _ => ?_) fun _ => ?_
  · exact h.bind fun _ => gathered_located fun _ => by simp
  · split
    · exact gathered_pure (by simp)
    · exact wordless_here.bind fun _ => .fail

theorem gathers_namedType (start : Span) : Gathers (namedType type start) := fun all ws => by
  refine (gathers_userType h).bind fun user => ?_
  refine (gathered_node start (Ty.user user)).bind fun user => (wordless_nextAre _ _).bind fun _ => ?_
  refine .ite (fun _ => ?_) fun _ => ?_
  · exact (wordless_expect fun _ => rfl).bind fun _ => gathered_functionType h (some user)
  · exact gathered_pure rfl

theorem gathers_plainType (start : Span) : Gathers (plainType type start) := fun all ws => by
  refine wordless_peek.bind fun kind => ?_
  split
  · have hgroup : Triple (Gathered all (ws ++ words none)) (functionType type none) fun type =>
        Gathered all (ws ++ words type) := gathered_functionType h none
    simpa using hgroup
  · exact gathers_namedType h start all ws
  · exact .unexpected _

theorem gathers_typeBody : Gathers (typeBody type) := fun all ws => by
  refine wordless_here.bind fun start => (gathers_plainType h start).bind fun plain => ?_
  refine Triple.bind (Q := fun base => Gathered all (ws ++ words base)) ?_ fun base =>
    Triple.loop (I := fun inner => Gathered all (ws ++ words inner)) (fun inner => ?_) base
  · refine (wordless_accept (fun _ => rfl) (by decide)).bind fun _ => .ite (fun _ => ?_) fun _ => ?_
    · exact gathered_located fun _ => rfl
    · exact gathered_pure rfl
  · refine (wordless_accept (fun _ => rfl) (by decide)).bind fun _ => .ite (fun _ => ?_) fun _ => ?_
    · exact (gathered_node start (Ty.pointer inner)).bind fun _ => gathered_pure rfl
    · exact gathered_pure rfl

end

theorem gathers_typeRule (limit levels : Nat) : Gathers (typeRule limit levels) := by
  induction levels with
  | zero => exact gathers_tooDeep
  | succ levels ih => exact (gathers_typeBody ih).deeper limit

-- ---------------------------------------------------------------------------
-- Declarations of properties and functions
-- ---------------------------------------------------------------------------

structure RulesGather (rules : Rules) : Prop where
  reads : RulesRead rules
  type : Gathers rules.type
  expression : Gathers rules.expression
  operand : Gathers rules.operand
  block : Gathers rules.block
  declaration : Gathers rules.declaration

theorem gathers_behind [HasWords α] {sign : TokenKind} (hk : Unspoken sign) (heof : sign ≠ .eof)
    (h : Gathers p) : Gathers (behind sign p) := fun _ _ => by
  refine (wordless_accept hk heof).bind fun _ => .ite (fun _ => ?_) fun _ => gathered_pure (by simp)
  exact h.bind fun _ => gathered_pure rfl

theorem gathered_library :
    Triple (Gathered all ws) library fun name => Gathered all (ws ++ (name.map Word.string).toList) := by
  refine (wordless_accept (fun _ => rfl) (by decide)).bind fun _ => .ite (fun _ => ?_) fun _ => ?_
  · refine (gathered_expectAs _ _).bind fun _ => (wordless_expect fun _ => rfl).bind fun _ => ?_
    exact gathered_pure rfl
  · exact gathered_pure (by simp)

theorem gathers_modifier? : Gathers modifier? := fun _ _ => by
  refine wordless_peek.bind fun kind => ?_
  split
  · exact (wordless_expectWord _).bind fun _ => gathered_library.bind fun _ => gathered_pure rfl
  · exact (wordless_expectWord _).bind fun _ => gathered_pure (by simp)
  · exact (wordless_expectWord _).bind fun _ => gathered_pure (by simp)
  · exact gathered_pure (by simp)

theorem wordless_binding : Wordless binding := fun _ _ => by
  refine wordless_peek.bind fun kind => ?_
  split
  · exact (wordless_expectWord _).bind fun _ => gathered_pure rfl
  · exact (wordless_expectWord _).bind fun _ => gathered_pure rfl
  · exact .unexpected _

/-- The name of a function is the last word of the type that was read with it. -/
theorem gathered_detachName (type : Located Ty) :
    Triple (Gathered all (ws ++ words type)) (detachName type) fun r =>
      Gathered all (ws ++ words r.1 ++ [.name r.2]) := by
  rcases type with ⟨node, span⟩
  cases node with
  | user user =>
    cases user with
    | simple => exact .fail
    | member parent name args =>
      cases args with
      | nil => exact gathered_pure (by simp)
      | cons => exact .fail
  | nullable => exact .fail
  | pointer => exact .fail
  | function => exact .fail

section
variable {rules : Rules} (h : RulesGather rules)
include h

theorem gathers_argument : Gathers (argument rules) := fun _ _ => by
  refine wordless_here.bind fun _ => (gathered_label? fun _ => rfl).bind fun _ => ?_
  exact h.expression.bind fun _ => gathered_located fun _ => by simp

theorem gathers_arguments : Gathers (arguments rules) := fun _ _ =>
  (wordless_expect fun _ => rfl).bind fun _ => gathers_listUntil (fun _ => rfl) (gathers_argument h) _ _

theorem gathers_annotated : Gathers (annotated rules) := fun _ _ => by
  refine (wordless_expect fun _ => rfl).bind fun _ => gathered_identifier.bind fun _ => ?_
  refine (wordless_nextOnLine _).bind fun _ => .ite (fun _ => ?_) fun _ => gathered_pure (by simp)
  exact (gathers_arguments h).bind fun _ => gathered_pure (by simp)

/-- What is read next starts behind all modifiers and annotations read so far. -/
theorem merged_modifierRound (ms : Modifiers) :
    Triple (Merged all ws ms) (modifierRound rules ms) fun r => Merged all ws r.value := by
  rcases ms with ⟨ms, as⟩
  intro s r t hs hrun
  unfold modifierRound at hrun
  rw [run_bind_ok (run_here s), run_bind_ok (run_nextIs _ s)] at hrun
  split at hrun
  · obtain ⟨a, u, ha, hrun⟩ := bind_ok.mp hrun
    cases hrun
    have hreads := reads_annotated h.reads
    have hread := gathers_annotated h all _ s a t hs.gathered ha
    exact hs.annotated (hreads.advances_ok ha) (hreads.shorter ha) hread
  · obtain ⟨m, u, hm, hrun⟩ := bind_ok.mp hrun
    have hadv := readsOn_modifier?.advances_ok hm
    have hread := gathers_modifier? all _ s m u hs.gathered hm
    cases m with
    | none =>
      cases hrun
      exact ⟨by simpa using hread, hs.modifiers.advance hadv, hs.annotations.advance hadv⟩
    | some m =>
      cases hrun
      exact hs.modifier hadv (readsOn_modifier?.reads s _ t hm rfl) hread

theorem gathers_modifiers : Gathers (modifiers rules) := fun _ _ s ms t hs hrun =>
  (Triple.loop (merged_modifierRound h) _ s ms t (.none hs) hrun).gathered

theorem gathered_property (ms : Modifiers) :
    Triple (Gathered all (ws ++ words ms)) (property rules ms) fun d => Gathered all (ws ++ words d) := by
  refine wordless_binding.bind fun _ => gathered_identifier.bind fun _ => ?_
  refine (gathers_behind (fun _ => rfl) (by decide) h.type).bind fun _ => ?_
  refine (gathers_behind (fun _ => rfl) (by decide) h.expression).bind fun _ => ?_
  exact gathered_pure (by simp)

theorem gathered_functionName :
    Triple (Gathered all ws) (functionName rules) fun r =>
      Gathered all (ws ++ words r.1 ++ [.name r.2]) := by
  refine (wordless_nextAre _ _).bind fun _ => .ite (fun _ => ?_) fun _ => ?_
  · exact gathered_identifier.bind fun _ => gathered_pure (by simp)
  · refine h.type.bind fun type => (wordless_accept (fun _ => rfl) (by decide)).bind fun _ =>
      .ite (fun _ => ?_) fun _ => gathered_detachName type
    exact gathered_identifier.bind fun _ => gathered_pure rfl

theorem gathers_plainParam : Gathers (plainParam rules) := fun _ _ => by
  refine gathered_identifier.bind fun _ => (wordless_expect fun _ => rfl).bind fun _ => ?_
  exact h.type.bind fun _ => gathered_pure (by simp)

theorem gathers_param : Gathers (param rules) := fun _ _ =>
  wordless_here.bind fun _ => (gathers_plainParam h).bind fun _ => gathered_located fun _ => rfl

theorem gathers_functionBody : Gathers (functionBody rules) := fun _ _ => by
  refine (wordless_nextIs _).bind fun _ => .ite (fun _ => ?_) fun _ => ?_
  · exact h.block.bind fun _ => gathered_pure rfl
  refine (wordless_accept (fun _ => rfl) (by decide)).bind fun _ => .ite (fun _ => ?_) fun _ => ?_
  · exact h.expression.bind fun _ => gathered_pure (by simp)
  · exact gathered_pure (by simp)

theorem gathered_function (ms : Modifiers) :
    Triple (Gathered all (ws ++ words ms)) (function rules ms) fun d => Gathered all (ws ++ words d) := by
  refine (wordless_expectWord _).bind fun _ => (gathered_functionName h).bind fun name => ?_
  obtain ⟨receiver, name⟩ := name
  refine (wordless_expect fun _ => rfl).bind fun _ => ?_
  refine (gathers_listUntil (fun _ => rfl) (gathers_param h)).bind fun _ => ?_
  refine (gathers_behind (fun _ => rfl) (by decide) h.type).bind fun _ => ?_
  exact (gathers_functionBody h).bind fun _ => gathered_pure (by simp)

-- ---------------------------------------------------------------------------
-- Statements
-- ---------------------------------------------------------------------------

theorem gathered_localAfter (ms : Modifiers) :
    Triple (Gathered all (ws ++ words ms)) (localAfter rules ms) fun a => Gathered all (ws ++ words a) := by
  refine wordless_peek.bind fun kind => ?_
  split
  · exact (gathered_function h ms).bind fun _ => gathered_pure rfl
  · exact (gathered_property h ms).bind fun _ => gathered_pure rfl
  · exact (gathered_property h ms).bind fun _ => gathered_pure rfl
  · exact .unexpected _

theorem gathers_localDeclaration : Gathers (localDeclaration rules) := fun _ _ =>
  (gathers_modifiers h).bind fun ms => gathered_localAfter h ms

theorem gathers_simpleStatement : Gathers (simpleStatement rules) := fun all ws => by
  refine wordless_peek.bind fun kind => ?_
  split
  all_goals first
    | exact gathers_localDeclaration h all ws
    | exact h.expression.bind fun _ => gathered_pure rfl

section
variable {statement : Parser (Located Statement)} (hs : Gathers statement)
include hs

theorem gathers_bodyOf : Gathers (bodyOf rules statement) := fun _ _ => by
  refine (wordless_nextIs _).bind fun _ => .ite (fun _ => h.block _ _) fun _ => ?_
  exact hs.bind fun _ => gathered_pure (by simp)

theorem gathers_whileLoop : Gathers (whileLoop rules statement) := fun _ _ => by
  refine (wordless_expectWord _).bind fun _ => (wordless_expect fun _ => rfl).bind fun _ => ?_
  refine h.expression.bind fun _ => (wordless_expect fun _ => rfl).bind fun _ => ?_
  exact (gathers_bodyOf h hs).bind fun _ => gathered_pure (by simp)

theorem gathers_statementWith : Gathers (statementWith rules statement) := fun all ws => by
  have hnode : Gathers (statementNode rules statement) := fun all ws =>
    (wordless_nextIs _).bind fun _ =>
      .ite (fun _ => gathers_whileLoop h hs all ws) fun _ => gathers_simpleStatement h all ws
  exact wordless_here.bind fun _ => hnode.bind fun _ => gathered_located fun _ => rfl

end

theorem gathers_statement : Gathers (statement rules) := by
  have hfor (bound : List Terminal) : Gathers (statementFor rules bound) := by
    induction bound with
    | nil => exact gathers_statementWith h fun _ _ => .unexpected _
    | cons _ bound ih => exact gathers_statementWith h ih
  exact fun all ws s => hfor s.rest all ws s

theorem gathers_body : Gathers (body rules) := gathers_bodyOf h (gathers_statement h)

theorem gathers_blockBody : Gathers (blockBody rules) := fun _ _ => by
  refine wordless_here.bind fun _ => (wordless_expect fun _ => rfl).bind fun _ => ?_
  refine (gathers_sequenceOf true (reads_statement h.reads).toMoves (gathers_statement h)).bind fun _ => ?_
  exact (wordless_expect fun _ => rfl).bind fun _ => gathered_located fun _ => by simp

-- ---------------------------------------------------------------------------
-- Expressions
-- ---------------------------------------------------------------------------

omit h in
theorem wordless_skipBeforeElse : Wordless skipBeforeElse := fun _ _ =>
  (wordless_nextAre _ _).bind fun _ =>
    .ite (fun _ => wordless_expect (fun _ => rfl) _ _) fun _ => gathered_pure rfl

theorem gathers_conditional : Gathers (conditional rules) := fun _ _ => by
  refine (wordless_expectWord _).bind fun _ => (wordless_expect fun _ => rfl).bind fun _ => ?_
  refine h.expression.bind fun _ => (wordless_expect fun _ => rfl).bind fun _ => ?_
  refine (gathers_body h).bind fun _ => wordless_skipBeforeElse.bind fun _ => ?_
  refine (gathers_behind (fun _ => rfl) (by decide) (gathers_body h)).bind fun _ => ?_
  exact gathered_pure (by simp)

theorem gathers_whenCase : Gathers (whenCase rules) := fun _ _ => by
  refine wordless_here.bind fun _ => (wordless_accept (fun _ => rfl) (by decide)).bind fun _ =>
    .ite (fun _ => ?_) fun _ => ?_
  · refine (wordless_expect fun _ => rfl).bind fun _ => (gathers_body h).bind fun _ => ?_
    exact gathered_located fun _ => rfl
  · refine (gathers_listOf h.expression).bind fun _ => (wordless_expect fun _ => rfl).bind fun _ => ?_
    exact (gathers_body h).bind fun _ => gathered_located fun _ => by simp

theorem gathers_closeGroup : Gathers (closeGroup rules) := fun _ _ =>
  h.expression.bind fun _ => (wordless_expect fun _ => rfl).bind fun _ => gathered_pure rfl

theorem gathers_whenChoice : Gathers (whenChoice rules) := fun _ _ => by
  refine (wordless_expectWord _).bind fun _ => ?_
  refine (gathers_behind (fun _ => rfl) (by decide) (gathers_closeGroup h)).bind fun _ => ?_
  refine (wordless_expect fun _ => rfl).bind fun _ => ?_
  refine (gathers_sequenceOf true (reads_whenCase h.reads).toMoves (gathers_whenCase h)).bind fun _ => ?_
  exact (wordless_expect fun _ => rfl).bind fun _ => gathered_pure (by simp)

theorem gathers_atom : Gathers (atom rules) := fun all ws => by
  refine wordless_peek.bind fun kind => ?_
  split
  · exact (gathered_expectAs _ _).bind fun _ => gathered_pure rfl
  · exact (gathered_expectAs _ _).bind fun _ => gathered_pure rfl
  · exact (gathered_expectAs _ _).bind fun _ => gathered_pure rfl
  · exact (wordless_expectWord _).bind fun _ => gathered_pure (by simp)
  · exact (wordless_expect fun _ => rfl).bind fun _ => (gathers_closeGroup h).bind fun _ => gathered_pure rfl
  · refine (wordless_expect fun _ => rfl).bind fun _ => ?_
    exact (gathers_listUntil (fun _ => rfl) h.expression).bind fun _ => gathered_pure (by simp)
  · exact h.block.bind fun _ => gathered_pure rfl
  · exact gathers_conditional h all ws
  · exact gathers_whenChoice h all ws
  · exact .unexpected _

theorem gathers_blockArgument : Gathers (blockArgument rules) := fun _ _ =>
  h.block.bind fun _ => gathered_pure (by simp)

theorem gathers_callArguments : Gathers (callArguments rules) := fun _ _ => by
  refine (gathers_arguments h).bind fun _ => (wordless_nextOnLine _).bind fun _ =>
    .ite (fun _ => ?_) fun _ => gathered_pure rfl
  exact (gathers_blockArgument h).bind fun _ => gathered_pure (by simp)

theorem gathers_closeIndex : Gathers (closeIndex rules) := fun _ _ =>
  h.expression.bind fun _ => (wordless_expect fun _ => rfl).bind fun _ => gathered_pure rfl

/-- The words of a suffix stand behind those of what it is put on. -/
theorem gathered_suffixRound (start : Span) (target : Located Expr) :
    Triple (Gathered all (ws ++ words target)) (suffixRound rules start target) fun r =>
      Gathered all (ws ++ words r.value) := by
  refine Triple.bind (Q := fun node => Gathered all (ws ++ (node.map words).getD (words target))) ?_
    fun node => ?_
  · refine (wordless_nextOnLine _).bind fun _ => .ite (fun _ => ?_) fun _ => ?_
    · exact (gathers_callArguments h).bind fun _ => gathered_pure (by simp)
    refine (wordless_nextOnLine _).bind fun _ => .ite (fun _ => ?_) fun _ => ?_
    · exact (gathers_blockArgument h).bind fun _ => gathered_pure (by simp)
    refine (wordless_nextOnLine _).bind fun _ => .ite (fun _ => ?_) fun _ => ?_
    · refine (wordless_expect fun _ => rfl).bind fun _ => (gathers_closeIndex h).bind fun _ => ?_
      exact gathered_pure (by simp)
    refine (wordless_accept (fun _ => rfl) (by decide)).bind fun _ =>
      .ite (fun _ => ?_) fun _ => gathered_pure rfl
    exact gathered_identifier.bind fun _ => gathered_pure (by simp)
  · cases node with
    | none => exact gathered_pure rfl
    | some node => exact (gathered_node start node).bind fun _ => gathered_pure rfl

theorem gathers_suffixed : Gathers (suffixed rules) := fun all ws => by
  refine wordless_here.bind fun start => (gathers_atom h).bind fun node => ?_
  exact (gathered_node start node).bind (Triple.loop (gathered_suffixRound h start))

theorem gathers_unary : Gathers (unary rules) := fun all ws => by
  refine wordless_here.bind fun _ => (wordless_accept (fun _ => rfl) (by decide)).bind fun _ =>
    .ite (fun _ => ?_) fun _ => gathers_suffixed h all ws
  exact h.operand.bind fun _ => gathered_located fun _ => rfl

omit h in
theorem unspoken_of_at? {precedence : Precedence} {kind : TokenKind} {op : BinaryOp}
    (h : BinaryOp.at? precedence kind = some op) : Unspoken kind := by
  cases kind <;> first | exact fun _ => rfl | cases h

omit h in
theorem wordless_operator? (precedence : Precedence) : Wordless (operator? precedence) := fun _ _ => by
  refine wordless_peek.bind fun kind => ?_
  split
  · rename_i hop
    exact (wordless_expect (unspoken_of_at? hop)).bind fun _ => gathered_pure rfl
  · exact gathered_pure rfl

omit h in
theorem gathers_chain {operand : Parser (Located Expr)} (precedence : Precedence) (ho : Gathers operand) :
    Gathers (chain precedence operand) := fun all ws => by
  refine wordless_here.bind fun start => ho.bind fun first =>
    Triple.loop (I := fun lhs => Gathered all (ws ++ words lhs)) (fun lhs => ?_) first
  refine (wordless_operator? precedence).bind fun op => ?_
  cases op with
  | none => exact gathered_pure rfl
  | some op =>
    refine ho.bind fun rhs => Triple.bind (Q := fun e => Gathered all (ws ++ words e)) ?_ fun _ =>
      gathered_pure rfl
    exact gathered_located fun _ => by simp

theorem gathers_binary : Gathers (binary rules) :=
  gathers_chain _ (gathers_chain _ (gathers_chain _ (gathers_chain _ (gathers_unary h))))

theorem gathers_assignment : Gathers (assignment rules) := fun _ _ => by
  refine wordless_here.bind fun _ => (gathers_binary h).bind fun target => ?_
  refine (wordless_nextIs _).bind fun _ => .ite (fun _ => ?_) fun _ => gathered_pure rfl
  refine .ite (fun _ => ?_) fun _ => .fail
  refine (wordless_expect fun _ => rfl).bind fun _ => h.expression.bind fun _ => ?_
  exact gathered_located fun _ => by simp

-- ---------------------------------------------------------------------------
-- Declarations
-- ---------------------------------------------------------------------------

theorem gathers_compilerCall : Gathers (compilerCall rules) := fun _ _ => by
  refine wordless_here.bind fun _ => (wordless_expect fun _ => rfl).bind fun _ => ?_
  exact (gathers_suffixed h).bind fun _ => .ite (fun _ => gathered_pure rfl) fun _ => .fail

/-- A parameter without `val` or `var` has no modifiers whose words it could lose. -/
theorem gathered_constructorParamAfter (start : Span) (ms : Modifiers) :
    Triple (Gathered all (ws ++ words ms)) (constructorParamAfter rules start ms) fun param =>
      Gathered all (ws ++ words param) := by
  refine wordless_peek.bind fun kind => ?_
  split
  · exact (gathered_property h ms).bind fun _ => gathered_located fun _ => rfl
  · exact (gathered_property h ms).bind fun _ => gathered_located fun _ => rfl
  · refine .ite (fun hempty => ?_) fun _ => .unexpected _
    rw [Modifiers.eq_of_isEmpty hempty, words_modifiers_nil, List.append_nil]
    exact (gathers_plainParam h).bind fun _ => gathered_located fun _ => rfl

theorem gathers_constructorParam : Gathers (constructorParam rules) := fun _ _ =>
  wordless_here.bind fun start => (gathers_modifiers h).bind fun ms =>
    gathered_constructorParamAfter h start ms

theorem gathers_constructor? : Gathers (constructor? rules) := fun all ws => by
  refine wordless_here.bind fun start => (wordless_accept (fun _ => rfl) (by decide)).bind fun _ =>
    .ite (fun _ => ?_) fun _ => gathered_pure (by simp)
  refine (gathers_listUntil (fun _ => rfl) (gathers_constructorParam h)).bind fun params => ?_
  exact (gathered_node start params).bind fun _ => gathered_pure rfl

theorem gathers_members : Gathers (members rules) := fun _ _ => by
  refine (wordless_accept (fun _ => rfl) (by decide)).bind fun _ =>
    .ite (fun _ => ?_) fun _ => gathered_pure (by simp)
  refine (gathers_sequenceOf true h.reads.declaration.toMoves h.declaration).bind fun _ => ?_
  exact (wordless_expect fun _ => rfl).bind fun _ => gathered_pure rfl

theorem gathered_classDecl (ms : Modifiers) :
    Triple (Gathered all (ws ++ words ms)) (classDecl rules ms) fun d => Gathered all (ws ++ words d) := by
  refine (wordless_expectWord _).bind fun _ => gathered_identifier.bind fun _ => ?_
  exact (gathers_constructor? h).bind fun _ => (gathers_members h).bind fun _ => gathered_pure (by simp)

theorem gathered_declarationAfter (ms : Modifiers) :
    Triple (Gathered all (ws ++ words ms)) (declarationAfter rules ms) fun d =>
      Gathered all (ws ++ words d) := by
  refine wordless_peek.bind fun kind => ?_
  split
  · exact (gathered_function h ms).bind fun _ => gathered_pure rfl
  · exact (gathered_classDecl h ms).bind fun _ => gathered_pure rfl
  · exact (gathered_property h ms).bind fun _ => gathered_pure rfl
  · exact (gathered_property h ms).bind fun _ => gathered_pure rfl
  · exact .unexpected _

theorem gathers_declarationBody : Gathers (declarationBody rules) := fun _ _ => by
  have hnode : Gathers (declarationNode rules) := fun _ _ => by
    refine (wordless_nextIs _).bind fun _ => .ite (fun _ => ?_) fun _ => ?_
    · exact (gathers_compilerCall h).bind fun _ => gathered_pure rfl
    · exact (gathers_modifiers h).bind fun ms => gathered_declarationAfter h ms
  exact wordless_here.bind fun _ => hnode.bind fun _ => gathered_located fun _ => rfl

end

theorem rulesGather_grammar (limit levels : Nat) : RulesGather (grammar limit levels) := by
  induction levels with
  | zero =>
    exact ⟨rulesRead_grammar limit 0, gathers_typeRule limit 0, gathers_tooDeep, gathers_tooDeep,
      gathers_tooDeep, gathers_tooDeep⟩
  | succ levels ih =>
    exact ⟨rulesRead_grammar limit (levels + 1), gathers_typeRule limit (levels + 1),
      (gathers_assignment ih).deeper limit, (gathers_unary ih).deeper limit,
      (gathers_blockBody ih).deeper limit, (gathers_declarationBody ih).deeper limit⟩

end Linewise.Parser
