import Linewise.Proofs.Ast.Nesting
import Linewise.Proofs.Parsing.Triple
import Linewise.Parser.Grammar

/-!
# The grammar nests as deep as its levels

Each rule that nests opens a level, and with a level at hand a production adds one block at most to
what the rules inside it answer: a block in braces is a level of its own, and the body of a branch or a
case stands in an expression, which is one. Only loose bodies are blocks without a level.
-/

namespace Linewise.Parser

variable {α : Type} [HasNesting α] {n : Nat} {p : Parser α}

/-- In what the parser answers at most `n` blocks nest, not counting loose bodies. -/
abbrev Within (n : Nat) (p : Parser α) : Prop := Yields Always p fun a => nesting 0 a ≤ n

structure Rules.Within (rules : Rules) (n : Nat) : Prop where
  expression : Parser.Within n rules.expression
  operand : Parser.Within n rules.operand
  block : Parser.Within n rules.block
  declaration : Parser.Within n rules.declaration

theorem Within.le_succ (h : Within n p) : Within (n + 1) p := h.mono fun _ => Nat.le_succ_of_le

theorem within_located {start : Span} {a : α} (h : nesting 0 a ≤ n) : Within n (located start a) :=
  Yields.located (Q := fun a => nesting 0 a ≤ n) h

theorem within_listOf (h : Within n p) : Within n (listOf p) :=
  (yields_listOf stable_always h).mono fun _ => nesting_list_le.mpr

theorem within_listUntil {close : TokenKind} (h : Within n p) : Within n (listUntil close p) :=
  (yields_listUntil stable_always h).mono fun _ => nesting_list_le.mpr

theorem within_sequenceOf {inBlock : Bool} (h : Within n p) : Within n (sequenceOf inBlock p) :=
  (yields_sequenceOf stable_always (fun _ _ => trivial) h).mono fun _ => nesting_list_le.mpr

theorem within_behind {sign : TokenKind} (h : Within n p) : Within n (behind sign p) :=
  .after fun _ => .ite (h.bind fun _ ha => .pure ha) (.pure (Nat.zero_le n))

variable {rules : Rules} (h : rules.Within n)
include h

-- ---------------------------------------------------------------------------
-- Rules that nest
-- ---------------------------------------------------------------------------

theorem within_argument : Within n (argument rules) :=
  .after fun _ => .after fun _ => h.expression.bind fun _ hv => within_located hv

theorem within_arguments : Within n (arguments rules) :=
  .after fun _ => within_listUntil (within_argument h)

theorem within_annotated : Within n (annotated rules) := by
  refine .after fun _ => .after fun _ => .after fun _ => .ite ?_ (.pure (by simp))
  exact (within_arguments h).bind fun _ ha => .pure (by simpa using ha)

theorem within_modifiers : Within n (modifiers rules) := by
  refine .iterate (fun ms hms => ?_) (by simp)
  rcases ms with ⟨ms, as⟩
  rw [nesting_modifiers] at hms
  refine .after fun _ => .after fun _ => .ite ?_ (.after fun m => ?_)
  · refine (within_annotated h).bind fun a ha => (within_located ha).bind fun b hb => .pure ?_
    simpa [Nat.max_le] using ⟨hms, hb⟩
  · cases m with
    | none => exact .pure (a := ForInStep.done _) (by simpa using hms)
    | some m => exact .after fun _ => .pure (by simpa using hms)

theorem within_property {ms : Modifiers} (hms : nesting 0 ms ≤ n) :
    Within n (property rules ms) := by
  refine .after fun _ => .after fun _ => .after fun _ => ?_
  refine (within_behind h.expression).bind fun _ hv => .pure ?_
  simpa [Nat.max_le] using ⟨hms, hv⟩

theorem within_functionBody :
    Yields Always (functionBody rules) fun body => (body.map (bodyNesting 0)).getD 0 ≤ n := by
  refine .after fun _ => .ite ?_ (.after fun _ => .ite ?_ (.pure (Nat.zero_le n)))
  · refine h.block.bind fun body hb => .pure ?_
    exact Nat.le_trans (bodyNesting_le (Nat.zero_le 1) body) hb
  · refine h.expression.bind fun value hv => .pure ?_
    rw [Option.map_some, Option.getD_some, bodyNesting_single]
    exact hv

theorem within_function {ms : Modifiers} (hms : nesting 0 ms ≤ n) :
    Within n (function rules ms) := by
  refine .after fun _ => .after fun _ => .after fun _ => .after fun _ => .after fun _ => ?_
  refine (within_functionBody h).bind fun _ hb => .pure ?_
  rw [nesting_function]
  exact Nat.max_le.mpr ⟨hms, hb⟩

-- ---------------------------------------------------------------------------
-- Statements
-- ---------------------------------------------------------------------------

theorem within_localDeclaration : Within n (localDeclaration rules) := by
  refine (within_modifiers h).bind fun ms hms => .after fun kind => ?_
  split
  · exact (within_function h hms).bind fun _ hd => .pure hd
  · exact (within_property h hms).bind fun _ hd => .pure hd
  · exact (within_property h hms).bind fun _ hd => .pure hd
  · exact Triple.unexpected _

theorem within_simpleStatement : Within n (simpleStatement rules) := by
  refine .after fun kind => ?_
  split
  all_goals first
    | exact within_localDeclaration h
    | exact h.expression.bind fun _ he => .pure he

theorem within_loopBody {statement : Parser (Located Statement)} (hs : Within n statement) :
    Yields Always (bodyOf rules statement) fun body => bodyNesting 0 body ≤ n := by
  refine .after fun _ => .ite ?_ ?_
  · exact h.block.mono fun body hb => Nat.le_trans (bodyNesting_le (Nat.zero_le 1) body) hb
  · refine hs.bind fun s hs => .pure ?_
    rw [bodyNesting_single]
    exact hs

theorem within_bodyOf {statement : Parser (Located Statement)} (hs : Within n statement) :
    Within (n + 1) (bodyOf rules statement) := by
  refine .after fun _ => .ite (Within.le_succ h.block) (hs.bind fun s hs => .pure ?_)
  simpa [Block.single] using hs

theorem within_statementWith {statement : Parser (Located Statement)} (hs : Within n statement) :
    Within n (statementWith rules statement) := by
  refine .after fun _ => Yields.bind (Q := fun s => nesting 0 s ≤ n) ?_ fun _ hs => within_located hs
  refine .after fun _ => .ite (.after fun _ => .after fun _ => ?_) (within_simpleStatement h)
  refine h.expression.bind fun _ hc => .after fun _ => (within_loopBody h hs).bind fun _ hb =>
    .pure ?_
  rw [nesting_while]
  exact Nat.max_le.mpr ⟨hc, hb⟩

theorem within_statementFor (bound : List Terminal) : Within n (statementFor rules bound) := by
  induction bound with
  | nil => exact within_statementWith h (Triple.unexpected _)
  | cons _ bound ih => exact within_statementWith h ih

theorem within_statement : Within n (statement rules) :=
  .after fun s => within_statementFor h s.rest

theorem within_body : Within (n + 1) (body rules) := within_bodyOf h (within_statement h)

theorem within_blockBody : Within (n + 1) (blockBody rules) := by
  refine .after fun _ => .after fun _ => (within_sequenceOf (within_statement h)).bind fun ss hs => ?_
  exact .after fun _ => within_located (by simpa using hs)

-- ---------------------------------------------------------------------------
-- Expressions
-- ---------------------------------------------------------------------------

theorem within_conditional : Within (n + 1) (conditional rules) := by
  refine .after fun _ => .after fun _ => (Within.le_succ h.expression).bind fun _ hc => ?_
  refine .after fun _ => (within_body h).bind fun _ ht => .after fun _ => ?_
  refine (within_behind (within_body h)).bind fun _ he => .pure ?_
  rw [nesting_cond]
  exact Nat.max_le.mpr ⟨Nat.max_le.mpr ⟨hc, ht⟩, he⟩

theorem within_whenCase : Within (n + 1) (whenCase rules) := by
  refine .after fun _ => .after fun _ => .ite ?_ ?_
  · exact .after fun _ => (within_body h).bind fun _ hb => within_located hb
  · refine (within_listOf (Within.le_succ h.expression)).bind fun _ hc => .after fun _ => ?_
    refine (within_body h).bind fun _ hb => within_located ?_
    rw [nesting_matching]
    exact Nat.max_le.mpr ⟨hc, hb⟩

theorem within_closeGroup : Within n (closeGroup rules) :=
  h.expression.bind fun _ he => .after fun _ => .pure he

theorem within_whenChoice : Within (n + 1) (whenChoice rules) := by
  refine .after fun _ => (within_behind (Within.le_succ (within_closeGroup h))).bind fun _ hs => ?_
  refine .after fun _ => (within_sequenceOf (within_whenCase h)).bind fun _ hc => ?_
  refine .after fun _ => .pure ?_
  rw [nesting_whenChoice]
  exact Nat.max_le.mpr ⟨hs, hc⟩

theorem within_atom : Within (n + 1) (atom rules) := by
  refine .after fun kind => ?_
  split
  · exact .after fun _ => .pure (by simp)
  · exact .after fun _ => .pure (by simp)
  · exact .after fun _ => .pure (by simp)
  · exact .after fun _ => .pure (by simp)
  · exact .after fun _ => (Within.le_succ (within_closeGroup h)).bind fun _ he => .pure he
  · refine .after fun _ => (within_listUntil (Within.le_succ h.expression)).bind fun _ he => ?_
    exact .pure (by simpa using he)
  · exact (Within.le_succ h.block).bind fun _ hb => .pure hb
  · exact within_conditional h
  · exact within_whenChoice h
  · exact Triple.unexpected _

theorem within_blockArgument : Within n (blockArgument rules) :=
  h.block.bind fun _ hb => .pure hb

theorem within_callArguments : Within n (callArguments rules) := by
  refine (within_arguments h).bind fun _ ha => .after fun _ => .ite ?_ (.pure ha)
  refine (within_blockArgument h).bind fun _ hb => .pure ?_
  simpa [Nat.max_le] using ⟨ha, hb⟩

theorem within_closeIndex : Within n (closeIndex rules) :=
  h.expression.bind fun _ he => .after fun _ => .pure he

theorem within_suffix? {target : Located Expr} (ht : nesting 0 target ≤ n + 1) :
    Within (n + 1) (suffix? rules target) := by
  refine .after fun _ => .ite ?_ (.after fun _ => .ite ?_ (.after fun _ => .ite ?_
    (.after fun _ => .ite ?_ (.pure (by simp)))))
  · refine (within_callArguments h).le_succ.bind fun _ ha => .pure ?_
    simpa [Nat.max_le] using ⟨ht, ha⟩
  · refine (within_blockArgument h).le_succ.bind fun _ hb => .pure ?_
    simpa [Nat.max_le] using ⟨ht, hb⟩
  · refine .after fun _ => (within_closeIndex h).le_succ.bind fun _ hi => .pure ?_
    simpa [Nat.max_le] using ⟨ht, hi⟩
  · exact .after fun _ => .pure ht

theorem within_suffixed : Within (n + 1) (suffixed rules) := by
  refine .after fun _ => (within_atom h).bind fun _ ha => (within_located ha).bind fun first hf => ?_
  refine .iterate (fun target ht => (within_suffix? h ht).bind fun node hn => ?_) hf
  cases node with
  | none => exact .pure (a := ForInStep.done target) ht
  | some node =>
    refine (within_located (a := node) hn).bind fun a (ha : nesting 0 a ≤ n + 1) => ?_
    exact .pure (a := ForInStep.yield a) ha

theorem within_unary : Within (n + 1) (unary rules) := by
  refine .after fun _ => .after fun _ => .ite ?_ (within_suffixed h)
  exact (Within.le_succ h.operand).bind fun _ ho => within_located ho

omit h in
theorem within_chain {operand : Parser (Located Expr)} (precedence : Precedence)
    (ho : Within n operand) : Within n (chain precedence operand) := by
  refine .after fun _ => ho.bind fun first hf => .iterate (fun lhs hl => ?_) hf
  refine .after fun op => ?_
  cases op with
  | none => exact .pure (a := ForInStep.done lhs) hl
  | some op =>
    refine ho.bind fun rhs hr => ?_
    have hboth : nesting 0 (Expr.binary op lhs rhs) ≤ n := Nat.max_le.mpr ⟨hl, hr⟩
    exact (within_located hboth).bind fun a ha => .pure (a := ForInStep.yield a) ha

theorem within_binary : Within (n + 1) (binary rules) :=
  within_chain _ (within_chain _ (within_chain _ (within_chain _ (within_unary h))))

theorem within_assignment : Within (n + 1) (assignment rules) := by
  refine .after fun _ => (within_binary h).bind fun target ht => .after fun _ => .ite ?_ (.pure ht)
  refine .ite (.after fun _ => (Within.le_succ h.expression).bind fun value hv => ?_) Triple.fail
  exact within_located (Nat.max_le.mpr ⟨ht, hv⟩)

-- ---------------------------------------------------------------------------
-- Declarations
-- ---------------------------------------------------------------------------

theorem within_compilerCall : Within (n + 1) (compilerCall rules) := by
  refine .after fun _ => .after fun _ => (within_suffixed h).bind fun _ hc => ?_
  exact .ite (.pure hc) Triple.fail

theorem within_constructorParam : Within n (constructorParam rules) := by
  refine .after fun _ => (within_modifiers h).bind fun ms hms => .after fun kind => ?_
  split
  · exact (within_property h hms).bind fun _ hd => within_located hd
  · exact (within_property h hms).bind fun _ hd => within_located hd
  · refine .ite (.after fun _ => ?_) (Triple.unexpected _)
    exact within_located (by simp)

theorem within_constructor? : Within n (constructor? rules) := by
  refine .after fun _ => .after fun _ => .ite ?_ (.pure (by simp))
  refine (within_listUntil (within_constructorParam h)).bind fun _ hp => ?_
  exact (within_located hp).bind fun _ hl => .pure hl

theorem within_members : Within n (members rules) := by
  refine .after fun _ => .ite ?_ (.pure (by simp))
  exact (within_sequenceOf h.declaration).bind fun _ hd => .after fun _ => .pure hd

theorem within_classDecl {ms : Modifiers} (hms : nesting 0 ms ≤ n) :
    Within n (classDecl rules ms) := by
  refine .after fun _ => .after fun _ => (within_constructor? h).bind fun _ hc => ?_
  refine (within_members h).bind fun _ hm => .pure ?_
  rw [nesting_class]
  exact Nat.max_le.mpr ⟨Nat.max_le.mpr ⟨hms, hc⟩, hm⟩

theorem within_declarationNode : Within (n + 1) (declarationNode rules) := by
  refine .after fun _ => .ite ((within_compilerCall h).bind fun _ hc => .pure hc) ?_
  refine Within.le_succ ((within_modifiers h).bind fun ms hms => .after fun kind => ?_)
  split
  · exact (within_function h hms).bind fun _ hd => .pure hd
  · exact (within_classDecl h hms).bind fun _ hd => .pure hd
  · exact (within_property h hms).bind fun _ hd => .pure hd
  · exact (within_property h hms).bind fun _ hd => .pure hd
  · exact Triple.unexpected _

theorem within_declarationBody : Within (n + 1) (declarationBody rules) :=
  .after fun _ => (within_declarationNode h).bind fun _ hd => within_located hd

omit h in
/-- A grammar answers with trees that nest no deeper than it has levels. -/
theorem within_grammar (limit levels : Nat) : (grammar limit levels).Within levels := by
  induction levels with
  | zero =>
    have hfail {α : Type} {Q : α → Prop} :
        Yields Always (do fail .nestingTooDeep (← here) : Parser α) Q := .after fun _ => Triple.fail
    exact ⟨hfail, hfail, hfail, hfail⟩
  | succ levels ih =>
    exact
      { expression := .deeper limit (fun _ h => h) (fun _ h => h) (within_assignment ih)
        operand := .deeper limit (fun _ h => h) (fun _ h => h) (within_unary ih)
        block := .deeper limit (fun _ h => h) (fun _ h => h) (within_blockBody ih)
        declaration := .deeper limit (fun _ h => h) (fun _ h => h) (within_declarationBody ih) }

omit h in
theorem within_declarations (limit : Nat) : Within limit (declarations limit) :=
  within_sequenceOf (within_grammar limit limit).declaration

end Linewise.Parser
