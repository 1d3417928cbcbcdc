import Linewise.Parser.Grammar
import Linewise.Proofs.Parsing.Loops

/-!
# Every production reads

Each production of the grammar moves forwards, and all but the optional ones read a token when they
answer. A statement is therefore what its own equation says (`run_statement`): the chain of loops it
may begin with never reaches its bound.
-/

namespace Linewise.Parser

variable {α β : Type} {p : Parser α} {s t : State}

-- ---------------------------------------------------------------------------
-- Types
-- ---------------------------------------------------------------------------

section
variable {type : Parser (Located Ty)}

theorem moves_typeArgs (h : Reads type) : Moves (typeArgs type) := by
  refine (reads_accept (by decide)).toMoves.bind fun _ => .ite ?_ (moves_pure _)
  exact (moves_listOf h).bind fun _ => (reads_expect _).toMoves.bind fun _ => moves_pure _

theorem rounds_memberRound (h : Reads type) : Rounds (memberRound type) := by
  intro parent
  refine (moves_nextAre _ _).bind_reads fun _ => .ite ?_ (readsOn_pure id)
  refine (reads_expect _).bind fun _ => reads_identifier.toMoves.bind fun _ => ?_
  exact (moves_typeArgs h).bind fun _ => moves_pure _

theorem reads_userType (h : Reads type) : Reads (userType type) := by
  refine reads_identifier.bind fun _ => (moves_typeArgs h).bind fun _ => ?_
  exact (rounds_memberRound h).moves _

theorem reads_typeParam (h : Reads type) : Reads (typeParam type) :=
  (moves_label? _).bind_reads fun _ => h.bind fun _ => moves_pure _

theorem moves_startOf (receiver : Option (Located Ty)) : Moves (startOf receiver) := by
  cases receiver with
  | none => exact moves_here
  | some r => exact moves_pure _

theorem reads_functionType (h : Reads type) (receiver : Option (Located Ty)) :
    Reads (functionType type receiver) := by
  refine (moves_startOf receiver).bind_reads fun _ => (reads_expect _).bind fun _ => ?_
  refine (reads_listUntil _ (reads_typeParam h)).toMoves.bind fun _ => ?_
  refine (reads_accept (by decide)).toMoves.bind fun _ => .ite ?_ ?_
  · exact h.toMoves.bind fun _ => moves_located _ _
  · split
    · exact moves_pure _
    · exact moves_here.bind fun _ => (reads_fail rfl : Reads _).toMoves

theorem reads_namedType (h : Reads type) (start : Span) : Reads (namedType type start) := by
  refine (reads_userType h).bind fun _ => (moves_located _ _).bind fun _ => ?_
  refine (moves_nextAre _ _).bind fun _ => .ite ?_ (moves_pure _)
  exact (reads_expect _).toMoves.bind fun _ => (reads_functionType h _).toMoves

theorem reads_plainType (h : Reads type) (start : Span) : Reads (plainType type start) := by
  refine moves_peek.bind_reads fun kind => ?_
  split
  · exact reads_functionType h none
  · exact reads_namedType h start
  · exact reads_unexpected _

theorem moves_nullable (start : Span) (plain : Located Ty) : Moves (nullable start plain) :=
  (reads_accept (by decide)).toMoves.bind fun _ => .ite (moves_located _ _) (moves_pure _)

theorem rounds_pointerRound (start : Span) : Rounds (pointerRound start) := by
  intro inner
  refine (reads_accept (by decide)).bind (fun _ => .ite ?_ (moves_pure _)) fun _ h => ?_
  · exact (moves_located _ _).bind fun _ => moves_pure _
  · rw [if_neg h]
    exact readsOn_pure id

theorem moves_pointers (start : Span) (base : Located Ty) : Moves (pointers start base) :=
  (rounds_pointerRound start).moves base

theorem reads_typeBody (h : Reads type) : Reads (typeBody type) := by
  refine moves_here.bind_reads fun start => (reads_plainType h start).bind fun plain => ?_
  exact (moves_nullable start plain).bind fun base => moves_pointers start base

theorem reads_typeRule (limit levels : Nat) : Reads (typeRule limit levels) := by
  induction levels with
  | zero => exact moves_here.bind_reads fun _ => reads_fail rfl
  | succ levels ih => exact (reads_typeBody ih).deeper limit

end

-- ---------------------------------------------------------------------------
-- Declarations of properties and functions
-- ---------------------------------------------------------------------------

/-- The rules for what nests all read. -/
structure RulesRead (rules : Rules) : Prop where
  type : Reads rules.type
  expression : Reads rules.expression
  operand : Reads rules.operand
  block : Reads rules.block
  declaration : Reads rules.declaration

section
variable {rules : Rules} (h : RulesRead rules)
include h

theorem reads_argument : Reads (argument rules) := by
  refine moves_here.bind_reads fun _ => (moves_label? _).bind_reads fun _ => ?_
  exact h.expression.bind fun _ => moves_located _ _

theorem reads_arguments : Reads (arguments rules) :=
  (reads_expect _).bind fun _ => (reads_listUntil _ (reads_argument h)).toMoves

theorem reads_annotated : Reads (annotated rules) := by
  refine (reads_expect _).bind fun _ => reads_identifier.toMoves.bind fun _ => ?_
  refine (moves_nextOnLine _).bind fun _ => .ite ?_ (moves_pure _)
  exact (reads_arguments h).toMoves.bind fun _ => moves_pure _

omit h in
theorem moves_library : Moves library := by
  refine (reads_accept (by decide)).toMoves.bind fun _ => .ite ?_ (moves_pure _)
  exact (reads_expectAs _ _).toMoves.bind fun _ => (reads_expect _).toMoves.bind fun _ =>
    moves_pure _

omit h in
theorem readsOn_modifier? : ReadsOn (·.isSome = true) modifier? := by
  refine moves_peek.bind_reads fun kind => ?_
  split
  · exact (reads_expectWord _).bind fun _ => moves_library.bind fun _ => moves_pure _
  · exact (reads_expectWord _).bind fun _ => moves_pure _
  · exact (reads_expectWord _).bind fun _ => moves_pure _
  · exact readsOn_pure (by decide)

theorem rounds_modifierRound : Rounds (modifierRound rules) := by
  rintro ⟨ms, as⟩
  refine moves_here.bind_reads fun _ => (moves_nextIs _).bind_reads fun _ => .ite ?_ ?_
  · exact (reads_annotated h).bind fun _ => (moves_located _ _).bind fun _ => moves_pure _
  · refine readsOn_modifier?.bind (fun m => ?_) fun m hm => ?_
    · cases m with
      | none => exact moves_pure _
      | some m => exact (moves_located _ _).bind fun _ => moves_pure _
    · cases m with
      | none => exact readsOn_pure id
      | some m => exact absurd rfl hm

theorem moves_modifiers : Moves (modifiers rules) :=
  (rounds_modifierRound h).moves _

omit h in
theorem readsOn_behind {sign : TokenKind} (hs : sign ≠ .eof) (hp : Moves p) :
    ReadsOn (·.isSome = true) (behind sign p) := by
  refine (reads_accept hs).bind (fun _ => .ite (hp.bind fun _ => moves_pure _) (moves_pure _))
    fun _ hf => ?_
  rw [if_neg hf]
  exact readsOn_pure (by simp)

omit h in
theorem moves_behind {sign : TokenKind} (hs : sign ≠ .eof) (hp : Moves p) : Moves (behind sign p) :=
  (readsOn_behind hs hp).toMoves

omit h in
theorem run_behind_no {sign : TokenKind} {s : State} (hs : s.kind ≠ sign) :
    (behind sign p).run s = (.ok none, s) := by
  unfold behind
  rw [run_bind, run_accept, if_neg hs]
  rfl

omit h in
theorem reads_binding : Reads binding := by
  refine moves_peek.bind_reads fun kind => ?_
  split
  · exact (reads_expectWord _).bind fun _ => moves_pure _
  · exact (reads_expectWord _).bind fun _ => moves_pure _
  · exact reads_unexpected _

theorem reads_property (ms : Modifiers) : Reads (property rules ms) := by
  refine reads_binding.bind fun _ => reads_identifier.toMoves.bind fun _ => ?_
  refine (moves_behind (by decide) h.type.toMoves).bind fun _ => ?_
  exact (moves_behind (by decide) h.expression.toMoves).bind fun _ => moves_pure _

omit h in
theorem moves_detachName (type : Located Ty) : Moves (detachName type) := by
  unfold detachName
  split
  · exact moves_pure _
  · exact (reads_fail rfl : Reads _).toMoves

theorem reads_functionName : Reads (functionName rules) := by
  refine (moves_nextAre _ _).bind_reads fun _ => .ite ?_ ?_
  · exact reads_identifier.bind fun _ => moves_pure _
  · refine h.type.bind fun type => (reads_accept (by decide)).toMoves.bind fun _ => .ite ?_ ?_
    · exact reads_identifier.toMoves.bind fun _ => moves_pure _
    · exact moves_detachName type

theorem reads_plainParam : Reads (plainParam rules) := by
  refine reads_identifier.bind fun _ => (reads_expect _).toMoves.bind fun _ => ?_
  exact h.type.toMoves.bind fun _ => moves_pure _

theorem reads_param : Reads (param rules) :=
  moves_here.bind_reads fun _ => (reads_plainParam h).bind fun _ => moves_located _ _

theorem moves_functionBody : Moves (functionBody rules) := by
  refine (moves_nextIs _).bind fun _ => .ite (h.block.toMoves.bind fun _ => moves_pure _) ?_
  refine (reads_accept (by decide)).toMoves.bind fun _ => .ite ?_ (moves_pure _)
  exact h.expression.toMoves.bind fun _ => moves_pure _

theorem reads_function (ms : Modifiers) : Reads (function rules ms) := by
  refine (reads_expectWord _).bind fun _ => (reads_functionName h).toMoves.bind fun _ => ?_
  refine (reads_expect _).toMoves.bind fun _ => ?_
  refine (reads_listUntil _ (reads_param h)).toMoves.bind fun _ => ?_
  refine (moves_behind (by decide) h.type.toMoves).bind fun _ => ?_
  exact (moves_functionBody h).bind fun _ => moves_pure _

-- ---------------------------------------------------------------------------
-- Statements
-- ---------------------------------------------------------------------------

theorem reads_localAfter (ms : Modifiers) : Reads (localAfter rules ms) := by
  refine moves_peek.bind_reads fun kind => ?_
  split
  · exact (reads_function h ms).bind fun _ => moves_pure _
  · exact (reads_property h ms).bind fun _ => moves_pure _
  · exact (reads_property h ms).bind fun _ => moves_pure _
  · exact reads_unexpected _

theorem reads_localDeclaration : Reads (localDeclaration rules) :=
  (moves_modifiers h).bind_reads fun ms => reads_localAfter h ms

theorem reads_simpleStatement : Reads (simpleStatement rules) := by
  refine moves_peek.bind_reads fun kind => ?_
  split
  all_goals first
    | exact reads_localDeclaration h
    | exact h.expression.bind fun _ => moves_pure _

variable {statement : Parser (Located Statement)}

theorem reads_bodyOf (hs : Reads statement) : Reads (bodyOf rules statement) :=
  (moves_nextIs _).bind_reads fun _ => .ite h.block (hs.bind fun _ => moves_pure _)

theorem reads_whileLoop (hs : Reads statement) : Reads (whileLoop rules statement) := by
  refine (reads_expectWord _).bind fun _ => (reads_expect _).toMoves.bind fun _ => ?_
  refine h.expression.toMoves.bind fun _ => (reads_expect _).toMoves.bind fun _ => ?_
  exact (reads_bodyOf h hs).toMoves.bind fun _ => moves_pure _

theorem reads_statementNode (hs : Reads statement) : Reads (statementNode rules statement) :=
  (moves_nextIs _).bind_reads fun _ => .ite (reads_whileLoop h hs) (reads_simpleStatement h)

theorem reads_statementWith (hs : Reads statement) : Reads (statementWith rules statement) :=
  moves_here.bind_reads fun _ => (reads_statementNode h hs).bind fun _ => moves_located _ _

theorem reads_statementFor (bound : List Terminal) : Reads (statementFor rules bound) := by
  induction bound with
  | nil => exact reads_statementWith h (reads_unexpected _)
  | cons _ bound ih => exact reads_statementWith h ih

theorem reads_statement : Reads (Parser.statement rules) where
  advances s := (reads_statementFor h s.rest).advances s
  thrown s := (reads_statementFor h s.rest).thrown s
  reads s := (reads_statementFor h s.rest).reads s

/-- A statement is read by the statements it may hold, as far as they agree behind its first token. -/
theorem run_statementWith_congr {other : Parser (Located Statement)}
    (hso : ∀ t, t.rest.length < s.rest.length → statement.run t = other.run t) :
    (statementWith rules statement).run s = (statementWith rules other).run s := by
  refine run_bind_congr fun start t ht => ?_
  cases ht
  have hnode : (statementNode rules statement).run s = (statementNode rules other).run s := by
    refine run_bind_congr fun isLoop t ht => ?_
    rw [run_nextIs] at ht
    cases ht
    split
    · refine run_bind_congr fun _ t₁ h₁ => run_bind_congr fun _ t₂ h₂ => ?_
      refine run_bind_congr fun _ t₃ h₃ => run_bind_congr fun _ t₄ h₄ => ?_
      have hlt := (reads_expectWord _).shorter h₁
      have hle₂ := ((reads_expect _).advances_ok h₂).length_le
      have hle₃ := (h.expression.advances_ok h₃).length_le
      have hle₄ := ((reads_expect _).advances_ok h₄).length_le
      have hbody : (bodyOf rules statement).run t₄ = (bodyOf rules other).run t₄ := by
        refine run_bind_congr fun _ t ht => ?_
        rw [run_nextIs] at ht
        cases ht
        split
        · rfl
        · rw [run_bind, run_bind, hso t₄ (by omega)]
      rw [run_bind, run_bind, hbody]
    · rfl
  rw [run_bind, run_bind, hnode]

theorem run_statementFor (bound : List Terminal) (hb : s.rest.length ≤ bound.length) :
    (statementFor rules bound).run s = (Parser.statement rules).run s := by
  show _ = (statementFor rules s.rest).run s
  suffices hall : ∀ xs ys : List Terminal, s.rest.length ≤ xs.length → s.rest.length ≤ ys.length →
      (statementFor rules xs).run s = (statementFor rules ys).run s from
    hall _ _ hb (Nat.le_refl _)
  clear hb
  induction s using State.rest_induction with
  | shorter s ih =>
    intro xs ys hx hy
    cases xs <;> cases ys <;> refine run_statementWith_congr h fun t ht => ?_
    · rfl
    · exact absurd ht (by rw [List.length_nil] at hx; omega)
    · exact absurd ht (by rw [List.length_nil] at hy; omega)
    · simp only [List.length_cons] at hx hy
      exact ih t ht _ _ (by omega) (by omega)

theorem run_statement (s : State) :
    (Parser.statement rules).run s = (statementWith rules (Parser.statement rules)).run s := by
  show (statementFor rules s.rest).run s = _
  cases hs : s.rest with
  | nil => exact run_statementWith_congr h fun t ht => absurd ht (by simp [hs])
  | cons x xs =>
    refine run_statementWith_congr h fun t ht => run_statementFor h xs ?_
    simp only [hs, List.length_cons] at ht
    omega

theorem reads_body : Reads (body rules) := reads_bodyOf h (reads_statement h)

theorem reads_blockBody : Reads (blockBody rules) := by
  refine moves_here.bind_reads fun _ => (reads_expect _).bind fun _ => ?_
  refine (moves_sequenceOf true (reads_statement h).toMoves).bind fun _ => ?_
  exact (reads_expect _).toMoves.bind fun _ => moves_located _ _

-- ---------------------------------------------------------------------------
-- Expressions
-- ---------------------------------------------------------------------------

omit h in
theorem moves_skipBeforeElse : Moves skipBeforeElse :=
  (moves_nextAre _ _).bind fun _ => .ite (reads_expect _).toMoves (moves_pure _)

theorem reads_conditional : Reads (conditional rules) := by
  refine (reads_expectWord _).bind fun _ => (reads_expect _).toMoves.bind fun _ => ?_
  refine h.expression.toMoves.bind fun _ => (reads_expect _).toMoves.bind fun _ => ?_
  refine (reads_body h).toMoves.bind fun _ => moves_skipBeforeElse.bind fun _ => ?_
  exact (moves_behind (by decide) (reads_body h).toMoves).bind fun _ => moves_pure _

theorem reads_whenCase : Reads (whenCase rules) := by
  refine moves_here.bind_reads fun _ => (reads_accept (by decide)).toMoves.bind_reads fun _ => ?_
  refine .ite ?_ ?_
  · refine (reads_expect _).bind fun _ => (reads_body h).toMoves.bind fun _ => moves_located _ _
  · refine (moves_listOf h.expression).bind_reads fun _ => (reads_expect _).bind fun _ => ?_
    exact (reads_body h).toMoves.bind fun _ => moves_located _ _

theorem reads_closeGroup : Reads (closeGroup rules) :=
  h.expression.bind fun _ => (reads_expect _).toMoves.bind fun _ => moves_pure _

theorem reads_whenChoice : Reads (whenChoice rules) := by
  refine (reads_expectWord _).bind fun _ => ?_
  refine (moves_behind (by decide) (reads_closeGroup h).toMoves).bind fun _ => ?_
  refine (reads_expect _).toMoves.bind fun _ => ?_
  refine (moves_sequenceOf true (reads_whenCase h).toMoves).bind fun _ => ?_
  exact (reads_expect _).toMoves.bind fun _ => moves_pure _

theorem reads_atom : Reads (atom rules) := by
  refine moves_peek.bind_reads fun kind => ?_
  split
  · exact (reads_expectAs _ _).bind fun _ => moves_pure _
  · exact (reads_expectAs _ _).bind fun _ => moves_pure _
  · exact (reads_expectAs _ _).bind fun _ => moves_pure _
  · exact (reads_expectWord _).bind fun _ => moves_pure _
  · exact (reads_expect _).bind fun _ => (reads_closeGroup h).toMoves.bind fun _ => moves_pure _
  · exact (reads_expect _).bind fun _ => (reads_listUntil _ h.expression).toMoves.bind fun _ =>
      moves_pure _
  · exact h.block.bind fun _ => moves_pure _
  · exact reads_conditional h
  · exact reads_whenChoice h
  · exact reads_unexpected _

theorem reads_blockArgument : Reads (blockArgument rules) := h.block.bind fun _ => moves_pure _

theorem reads_callArguments : Reads (callArguments rules) := by
  refine (reads_arguments h).bind fun _ => (moves_nextOnLine _).bind fun _ => .ite ?_ (moves_pure _)
  exact (reads_blockArgument h).toMoves.bind fun _ => moves_pure _

theorem reads_closeIndex : Reads (closeIndex rules) :=
  h.expression.bind fun _ => (reads_expect _).toMoves.bind fun _ => moves_pure _

theorem readsOn_suffix? (target : Located Expr) : ReadsOn (·.isSome = true) (suffix? rules target) := by
  refine (moves_nextOnLine _).bind_reads fun _ => .ite ?_ ?_
  · exact (reads_callArguments h).bind fun _ => moves_pure _
  refine (moves_nextOnLine _).bind_reads fun _ => .ite ?_ ?_
  · exact (reads_blockArgument h).bind fun _ => moves_pure _
  refine (moves_nextOnLine _).bind_reads fun _ => .ite ?_ ?_
  · exact (reads_expect _).bind fun _ => (reads_closeIndex h).toMoves.bind fun _ => moves_pure _
  refine (reads_accept (by decide)).bind (fun _ => .ite ?_ (moves_pure _)) fun _ hd => ?_
  · exact reads_identifier.toMoves.bind fun _ => moves_pure _
  · rw [if_neg hd]
    exact readsOn_pure (by decide)

theorem rounds_suffixRound (start : Span) : Rounds (suffixRound rules start) := by
  intro target
  refine (readsOn_suffix? h target).bind (fun node => ?_) fun node hn => ?_
  · cases node with
    | none => exact moves_pure _
    | some node => exact (moves_located _ _).bind fun _ => moves_pure _
  · cases node with
    | none => exact readsOn_pure id
    | some node => exact absurd rfl hn

theorem reads_suffixed : Reads (suffixed rules) := by
  refine moves_here.bind_reads fun start => (reads_atom h).bind fun _ => ?_
  exact (moves_located _ _).bind fun _ => (rounds_suffixRound h start).moves _

theorem reads_unary : Reads (unary rules) := by
  refine moves_here.bind_reads fun _ => ?_
  refine (reads_accept (by decide)).toMoves.bind_reads fun _ => .ite ?_ (reads_suffixed h)
  exact h.operand.bind fun _ => moves_located _ _

omit h in
theorem readsOn_operator? (p : Precedence) : ReadsOn (·.isSome = true) (operator? p) := by
  refine moves_peek.bind_reads fun kind => ?_
  split
  · exact (reads_expect _).bind fun _ => moves_pure _
  · exact readsOn_pure (by decide)

omit h in
theorem rounds_chainRound {operand : Parser (Located Expr)} (p : Precedence) (ho : Reads operand)
    (start : Span) : Rounds (chainRound p operand start) := by
  intro lhs
  refine (readsOn_operator? p).bind (fun op => ?_) fun op hop => ?_
  · cases op with
    | none => exact moves_pure _
    | some op => exact ho.toMoves.bind fun _ => (moves_located _ _).bind fun _ => moves_pure _
  · cases op with
    | none => exact readsOn_pure id
    | some op => exact absurd rfl hop

omit h in
theorem reads_chain {operand : Parser (Located Expr)} (p : Precedence) (ho : Reads operand) :
    Reads (chain p operand) := by
  refine moves_here.bind_reads fun start => ho.bind fun _ => ?_
  exact (rounds_chainRound p ho start).moves _

theorem reads_binary : Reads (binary rules) :=
  reads_chain _ (reads_chain _ (reads_chain _ (reads_chain _ (reads_unary h))))

theorem reads_assignment : Reads (assignment rules) := by
  refine moves_here.bind_reads fun _ => (reads_binary h).bind fun target => ?_
  refine (moves_nextIs _).bind fun _ => .ite (.ite ?_ ?_) (moves_pure _)
  · exact (reads_expect _).toMoves.bind fun _ => h.expression.toMoves.bind fun _ =>
      moves_located _ _
  · exact (reads_fail rfl : Reads _).toMoves

-- ---------------------------------------------------------------------------
-- Declarations
-- ---------------------------------------------------------------------------

theorem reads_compilerCall : Reads (compilerCall rules) := by
  refine moves_here.bind_reads fun _ => (reads_expect _).bind fun _ => ?_
  refine (reads_suffixed h).toMoves.bind fun _ => .ite (moves_pure _) ?_
  exact (reads_fail rfl : Reads _).toMoves

theorem reads_constructorParamAfter (start : Span) (ms : Modifiers) :
    Reads (constructorParamAfter rules start ms) := by
  refine moves_peek.bind_reads fun kind => ?_
  split
  · exact (reads_property h ms).bind fun _ => moves_located _ _
  · exact (reads_property h ms).bind fun _ => moves_located _ _
  · exact .ite ((reads_plainParam h).bind fun _ => moves_located _ _) (reads_unexpected _)

theorem reads_constructorParam : Reads (constructorParam rules) :=
  moves_here.bind_reads fun start => (moves_modifiers h).bind_reads fun ms =>
    reads_constructorParamAfter h start ms

theorem moves_constructor? : Moves (constructor? rules) := by
  refine moves_here.bind fun _ => (reads_accept (by decide)).toMoves.bind fun _ => ?_
  refine .ite ?_ (moves_pure _)
  exact (reads_listUntil _ (reads_constructorParam h)).toMoves.bind fun _ =>
    (moves_located _ _).bind fun _ => moves_pure _

theorem moves_members : Moves (members rules) := by
  refine (reads_accept (by decide)).toMoves.bind fun _ => .ite ?_ (moves_pure _)
  exact (moves_sequenceOf true h.declaration.toMoves).bind fun _ =>
    (reads_expect _).toMoves.bind fun _ => moves_pure _

theorem reads_classDecl (ms : Modifiers) : Reads (classDecl rules ms) := by
  refine (reads_expectWord _).bind fun _ => reads_identifier.toMoves.bind fun _ => ?_
  exact (moves_constructor? h).bind fun _ => (moves_members h).bind fun _ => moves_pure _

theorem reads_declarationAfter (ms : Modifiers) : Reads (declarationAfter rules ms) := by
  refine moves_peek.bind_reads fun kind => ?_
  split
  · exact (reads_function h ms).bind fun _ => moves_pure _
  · exact (reads_classDecl h ms).bind fun _ => moves_pure _
  · exact (reads_property h ms).bind fun _ => moves_pure _
  · exact (reads_property h ms).bind fun _ => moves_pure _
  · exact reads_unexpected _

theorem reads_declarationNode : Reads (declarationNode rules) := by
  refine (moves_nextIs _).bind_reads fun _ => .ite ?_ ?_
  · exact (reads_compilerCall h).bind fun _ => moves_pure _
  · exact (moves_modifiers h).bind_reads fun ms => reads_declarationAfter h ms

theorem reads_declarationBody : Reads (declarationBody rules) :=
  moves_here.bind_reads fun _ => (reads_declarationNode h).bind fun _ => moves_located _ _

end

theorem rulesRead_grammar (limit levels : Nat) : RulesRead (grammar limit levels) := by
  induction levels with
  | zero =>
    have hfail {α : Type} : Reads (do fail .nestingTooDeep (← here) : Parser α) :=
      moves_here.bind_reads fun _ => reads_fail rfl
    exact ⟨reads_typeRule limit 0, hfail, hfail, hfail, hfail⟩
  | succ levels ih =>
    exact ⟨reads_typeRule limit (levels + 1), (reads_assignment ih).deeper limit,
      (reads_unary ih).deeper limit, (reads_blockBody ih).deeper limit,
      (reads_declarationBody ih).deeper limit⟩

end Linewise.Parser
