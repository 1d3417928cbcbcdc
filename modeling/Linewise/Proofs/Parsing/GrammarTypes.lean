import Linewise.Proofs.Ast.TypeParts
import Linewise.Proofs.Parsing.GrammarProgress
import Linewise.Proofs.Parsing.Triple

/-!
# The types of a source can be written

Where the identifiers of a source are names, the rule for types answers with types that can be written with its
levels, and every other production with trees of such types. The types inside a declaration have a level less
than the declaration.
-/

namespace Linewise.Parser

open Lexeme (Spells)

variable {α β : Type} {n : Nat} {p : Parser α} {f : α → Parser β}

def Named (s : State) : Prop :=
  ∀ x ∈ s.rest, x.token.kind = .identifier → Spells .identifier x.token.text.toList

theorem stable_named : Stable Named := fun _ _ hst h x hx => h x (hst.rest.subset hx)

theorem yields_identifier : Yields Named identifier fun name => Spells .identifier name.toList :=
  fun s name t hs h => by
    obtain ⟨x, hrest, -, hkind, rfl⟩ := expectAs_ok h
    exact ⟨hs x (by simp [hrest]) hkind, stable_named s t (reads_identifier.advances_ok h) hs⟩

theorem after (hp : Moves p) {S : β → Prop} (hf : ∀ a, Yields Named (f a) S) : Yields Named (p >>= f) S :=
  .behind stable_named hp hf

-- ---------------------------------------------------------------------------
-- Types
-- ---------------------------------------------------------------------------

section
variable {type : Parser (Located Ty)} (h : Yields Named type fun t => t.node.Written n)
include h

theorem written_typeArgs : Yields Named (typeArgs type) fun args => ∀ a ∈ args, a.node.Written n := by
  refine after (reads_accept (by decide)).toMoves fun _ => .ite ?_ (.pure nofun)
  exact (yields_listOf stable_named h).bind fun args ha =>
    after (reads_expect _).toMoves fun _ => .pure ha

theorem written_userType : Yields Named (userType type) fun t => (Ty.user t).Written (n + 1) := by
  refine yields_identifier.bind fun name hname => (written_typeArgs h).bind fun args ha => ?_
  have hsimple : (Ty.user (.simple name args)).Written (n + 1) :=
    .user (fun x hx => List.mem_singleton.mp hx ▸ hname) ha
  refine .iterate (fun parent hparent => ?_) hsimple
  refine after (moves_nextAre _ _) fun _ => .ite ?_ (.pure (a := ForInStep.done parent) hparent)
  refine after (reads_expect _).toMoves fun _ => yields_identifier.bind fun name hname => ?_
  refine (written_typeArgs h).bind fun args ha => .pure ?_
  cases hparent with
  | user hnames hargs =>
    exact .user (List.forall_mem_append.mpr ⟨hnames, fun x hx => List.mem_singleton.mp hx ▸ hname⟩)
      (List.forall_mem_append.mpr ⟨hargs, ha⟩)

theorem written_typeParam :
    Yields Named (typeParam type) fun p =>
      (∀ name ∈ p.1, Spells .identifier name.toList) ∧ p.2.node.Written n := by
  refine Yields.bind (Q := fun label => ∀ name ∈ label, Spells .identifier name.toList) ?_
    fun label hl => h.bind fun t ht => .pure ⟨hl, ht⟩
  refine after (moves_nextAre _ _) fun _ => .ite ?_ (.pure nofun)
  refine yields_identifier.bind fun name hname => after (reads_expect _).toMoves fun _ => .pure ?_
  exact fun x hx => Option.mem_some.mp hx ▸ hname

theorem written_functionType {receiver : Option (Located Ty)} (huser : ∀ r ∈ receiver, ∃ t, r.node = .user t)
    (hreceiver : ∀ r ∈ receiver, r.node.Written (n + 1)) :
    Yields Named (functionType type receiver) fun t => t.node.Written (n + 1) := by
  refine after (moves_startOf receiver) fun start => after (reads_expect _).toMoves fun _ => ?_
  refine (yields_listUntil stable_named (written_typeParam h)).bind fun params hp => ?_
  refine after (reads_accept (by decide)).toMoves fun _ => .ite ?_ ?_
  · refine h.bind fun result hresult => Yields.located (Q := fun t => Ty.Written (n + 1) t) ?_
    exact .function huser hreceiver (fun p h => (hp p h).1) (fun p h => (hp p h).2) hresult
  · split
    · exact .pure (hp _ List.mem_cons_self).2.succ
    · exact after moves_here fun _ => Triple.fail

theorem written_namedType (start : Span) :
    Yields Named (namedType type start) fun t => t.node.Written (n + 1) := by
  refine (written_userType h).bind fun user hu => ?_
  have hlocated : Yields Named (located start (Ty.user user)) fun t => t.node = .user user :=
    Yields.located (Q := (· = Ty.user user)) rfl
  refine hlocated.bind fun t ht => after (moves_nextAre _ _) fun _ => .ite ?_ (.pure (ht ▸ hu))
  refine after (reads_expect _).toMoves fun _ => written_functionType h (fun r hr => ?_) fun r hr => ?_
  · exact ⟨user, Option.mem_some.mp hr ▸ ht⟩
  · rwa [← Option.mem_some.mp hr, ht]

theorem written_typeBody : Yields Named (typeBody type) fun t => t.node.Written (n + 1) := by
  refine after moves_here fun start => Yields.bind (Q := fun t => t.node.Written (n + 1)) ?_ fun plain hp =>
    Yields.bind (Q := fun t => t.node.Written (n + 1)) ?_ fun base hb => .iterate (fun inner hi => ?_) hb
  · refine after moves_peek fun kind => ?_
    split
    · exact written_functionType h nofun nofun
    · exact written_namedType h start
    · exact Triple.unexpected _
  · refine after (reads_accept (by decide)).toMoves fun _ => .ite ?_ (.pure hp)
    exact Yields.located (Q := fun t => Ty.Written (n + 1) t) (.nullable hp)
  · refine after (reads_accept (by decide)).toMoves fun _ => .ite ?_ (.pure (a := ForInStep.done inner) hi)
    refine (Yields.located (Q := fun t => Ty.Written (n + 1) t) (.pointer hi)).bind fun t ht => ?_
    exact .pure (a := ForInStep.yield t) ht

end

theorem written_typeRule (limit levels : Nat) :
    Yields Named (typeRule limit levels) fun t => t.node.Written levels := by
  induction levels with
  | zero => exact after moves_here fun _ => Triple.fail
  | succ levels ih =>
    exact .deeper limit (fun _ h => h) (fun _ h => h) (written_typeBody ih)

-- ---------------------------------------------------------------------------
-- Rules that nest
-- ---------------------------------------------------------------------------

/-- The types in what the parser answers can be written. -/
abbrev Writes [HasTypes α] (n : Nat) (p : Parser α) : Prop := Yields Named p fun a => ∀ t ∈ types a, t.Written n

section
variable [HasTypes α]

theorem Writes.succ (h : Writes n p) : Writes (n + 1) p := h.mono fun _ ha t ht => (ha t ht).succ

theorem writes_located {start : Span} {a : α} (h : ∀ t ∈ types a, t.Written n) : Writes n (located start a) :=
  Yields.located (Q := fun a => ∀ t ∈ types a, t.Written n) h

theorem writes_listOf (h : Writes n p) : Writes n (listOf p) :=
  (yields_listOf stable_named h).mono fun _ => forall_types_list.mpr

theorem writes_listUntil {close : TokenKind} (h : Writes n p) : Writes n (listUntil close p) :=
  (yields_listUntil stable_named h).mono fun _ => forall_types_list.mpr

theorem writes_sequenceOf {inBlock : Bool} (hp : Moves p) (h : Writes n p) : Writes n (sequenceOf inBlock p) :=
  (yields_sequenceOf stable_named (fun s hs => stable_named s _ (hp.advances s) hs) h).mono fun _ =>
    forall_types_list.mpr

theorem writes_behind {sign : TokenKind} (hs : sign ≠ .eof) (h : Writes n p) : Writes n (behind sign p) :=
  after (reads_accept hs).toMoves fun _ => .ite (h.bind fun _ ha => .pure ha) (.pure nofun)

theorem writes_tooDeep : Writes n (do fail .nestingTooDeep (← here) : Parser α) :=
  after moves_here fun _ => Triple.fail

end

structure Rules.Writes (rules : Rules) (n : Nat) : Prop where
  reads : RulesRead rules
  type : Yields Named rules.type fun t => t.node.Written n
  expression : Parser.Writes n rules.expression
  operand : Parser.Writes n rules.operand
  block : Parser.Writes n rules.block
  declaration : Parser.Writes n rules.declaration

section
variable {rules : Rules} (h : rules.Writes n)
include h

theorem writes_type : Writes n rules.type := h.type.mono fun _ ht => ht.throughout

theorem writes_argument : Writes n (argument rules) :=
  after moves_here fun _ => after (moves_label? _) fun _ => h.expression.bind fun _ hv => writes_located hv

theorem writes_arguments : Writes n (arguments rules) :=
  after (reads_expect _).toMoves fun _ => writes_listUntil (writes_argument h)

theorem writes_annotated : Writes n (annotated rules) := by
  refine after (reads_expect _).toMoves fun _ => after reads_identifier.toMoves fun _ =>
    after (moves_nextOnLine _) fun _ => .ite ?_ (.pure (by simp))
  exact (writes_arguments h).bind fun _ ha => .pure (by simpa using ha)

theorem writes_modifiers : Writes n (modifiers rules) := by
  refine .iterate (fun ms hms => ?_) (by simp)
  rcases ms with ⟨ms, as⟩
  rw [types_modifiers] at hms
  refine after moves_here fun _ => after (moves_nextIs _) fun _ => .ite ?_
    (after readsOn_modifier?.toMoves fun m => ?_)
  · refine (writes_annotated h).bind fun a ha => (writes_located ha).bind fun b hb => .pure ?_
    simpa [or_imp, forall_and] using ⟨hms, hb⟩
  · cases m with
    | none => exact .pure (a := ForInStep.done _) (by simpa using hms)
    | some m => exact after (moves_located _ _) fun _ => .pure (by simpa using hms)

theorem writes_property {ms : Modifiers} (hms : ∀ t ∈ types ms, t.Written n) :
    Writes n (property rules ms) := by
  refine after reads_binding.toMoves fun _ => after reads_identifier.toMoves fun _ => ?_
  refine (writes_behind (by decide) (writes_type h)).bind fun _ ht => ?_
  refine (writes_behind (by decide) h.expression).bind fun _ hv => .pure ?_
  simpa [or_imp, forall_and] using ⟨hms, ht, hv⟩

omit h in
/-- A name that is taken off a type leaves a type that can be written. -/
theorem writes_detachName {type : Located Ty} (ht : type.node.Written n) :
    Yields Named (detachName type) fun r => ∀ t ∈ types r.1, t.Written n := by
  unfold detachName
  split
  · rename_i parent name hnode
    rw [hnode] at ht
    cases ht with
    | user hnames hargs =>
      refine .pure (Ty.Written.throughout (.user (fun x hx => ?_) fun a ha => ?_))
      · exact hnames x (List.mem_append_left _ hx)
      · exact hargs a (List.mem_append_left _ ha)
  · exact Triple.fail

theorem writes_functionName : Yields Named (functionName rules) fun r => ∀ t ∈ types r.1, t.Written n := by
  refine after (moves_nextAre _ _) fun _ => .ite (after reads_identifier.toMoves fun _ => .pure nofun) ?_
  refine h.type.bind fun type ht => after (reads_accept (by decide)).toMoves fun _ =>
    .ite ?_ (writes_detachName ht)
  exact after reads_identifier.toMoves fun _ => .pure ht.throughout

theorem writes_plainParam : Writes n (plainParam rules) := by
  refine after reads_identifier.toMoves fun _ => after (reads_expect _).toMoves fun _ => ?_
  exact (writes_type h).bind fun _ ht => .pure ht

theorem writes_param : Writes n (param rules) :=
  after moves_here fun _ => (writes_plainParam h).bind fun _ hp => writes_located hp

theorem writes_functionBody : Writes n (functionBody rules) := by
  refine after (moves_nextIs _) fun _ => .ite ?_ (after (reads_accept (by decide)).toMoves fun _ =>
    .ite ?_ (.pure nofun))
  · exact h.block.bind fun body hb => .pure hb
  · refine h.expression.bind fun value hv => .pure ?_
    show ∀ t ∈ types (Block.single ⟨.expr value.node, value.span⟩), t.Written n
    rwa [types_single]

theorem writes_function {ms : Modifiers} (hms : ∀ t ∈ types ms, t.Written n) :
    Writes n (function rules ms) := by
  refine after (reads_expectWord _).toMoves fun _ => (writes_functionName h).bind fun name hn => ?_
  refine after (reads_expect _).toMoves fun _ => (writes_listUntil (writes_param h)).bind fun _ hp => ?_
  refine (writes_behind (by decide) (writes_type h)).bind fun _ hr => ?_
  refine (writes_functionBody h).bind fun _ hb => .pure ?_
  rw [types_function]
  simpa only [List.forall_mem_append, and_assoc] using ⟨hms, hn, hp, hr, hb⟩

-- ---------------------------------------------------------------------------
-- Statements
-- ---------------------------------------------------------------------------

theorem writes_localDeclaration : Writes n (localDeclaration rules) := by
  refine (writes_modifiers h).bind fun ms hms => after moves_peek fun kind => ?_
  split
  · exact (writes_function h hms).bind fun _ hd => .pure hd
  · exact (writes_property h hms).bind fun _ hd => .pure hd
  · exact (writes_property h hms).bind fun _ hd => .pure hd
  · exact Triple.unexpected _

theorem writes_simpleStatement : Writes n (simpleStatement rules) := by
  refine after moves_peek fun kind => ?_
  split
  all_goals first
    | exact writes_localDeclaration h
    | exact h.expression.bind fun _ he => .pure he

theorem writes_bodyOf {statement : Parser (Located Statement)} (hs : Writes n statement) :
    Writes n (bodyOf rules statement) := by
  refine after (moves_nextIs _) fun _ => .ite h.block (hs.bind fun s hs => .pure ?_)
  rwa [types_single]

theorem writes_statementWith {statement : Parser (Located Statement)} (hs : Writes n statement) :
    Writes n (statementWith rules statement) := by
  refine after moves_here fun _ => Yields.bind (Q := fun s => ∀ t ∈ types s, t.Written n) ?_ fun _ hs =>
    writes_located hs
  refine after (moves_nextIs _) fun _ => .ite (after (reads_expectWord _).toMoves fun _ =>
    after (reads_expect _).toMoves fun _ => ?_) (writes_simpleStatement h)
  refine h.expression.bind fun _ hc => after (reads_expect _).toMoves fun _ => ?_
  refine (writes_bodyOf h hs).bind fun _ hb => .pure ?_
  rw [types_while]
  exact List.forall_mem_append.mpr ⟨hc, hb⟩

theorem writes_statementFor (bound : List Terminal) : Writes n (statementFor rules bound) := by
  induction bound with
  | nil => exact writes_statementWith h (Triple.unexpected _)
  | cons _ bound ih => exact writes_statementWith h ih

theorem writes_statement : Writes n (statement rules) :=
  after moves_get fun s => writes_statementFor h s.rest

theorem writes_body : Writes n (body rules) := writes_bodyOf h (writes_statement h)

theorem writes_blockBody : Writes n (blockBody rules) := by
  refine after moves_here fun _ => after (reads_expect _).toMoves fun _ => ?_
  refine (writes_sequenceOf (reads_statement h.reads).toMoves (writes_statement h)).bind fun _ hs => ?_
  exact after (reads_expect _).toMoves fun _ => writes_located (by simpa using hs)

-- ---------------------------------------------------------------------------
-- Expressions
-- ---------------------------------------------------------------------------

theorem writes_conditional : Writes n (conditional rules) := by
  refine after (reads_expectWord _).toMoves fun _ => after (reads_expect _).toMoves fun _ => ?_
  refine h.expression.bind fun _ hc => after (reads_expect _).toMoves fun _ => ?_
  refine (writes_body h).bind fun _ ht => after moves_skipBeforeElse fun _ => ?_
  refine (writes_behind (by decide) (writes_body h)).bind fun _ he => .pure ?_
  rw [types_cond]
  exact List.forall_mem_append.mpr ⟨List.forall_mem_append.mpr ⟨hc, ht⟩, he⟩

theorem writes_whenCase : Writes n (whenCase rules) := by
  refine after moves_here fun _ => after (reads_accept (by decide)).toMoves fun _ => .ite ?_ ?_
  · exact after (reads_expect _).toMoves fun _ => (writes_body h).bind fun _ hb => writes_located hb
  · refine (writes_listOf h.expression).bind fun _ hc => after (reads_expect _).toMoves fun _ => ?_
    refine (writes_body h).bind fun _ hb => writes_located ?_
    rw [types_matching]
    exact List.forall_mem_append.mpr ⟨hc, hb⟩

theorem writes_closeGroup : Writes n (closeGroup rules) :=
  h.expression.bind fun _ he => after (reads_expect _).toMoves fun _ => .pure he

theorem writes_whenChoice : Writes n (whenChoice rules) := by
  refine after (reads_expectWord _).toMoves fun _ => ?_
  refine (writes_behind (by decide) (writes_closeGroup h)).bind fun _ hs => ?_
  refine after (reads_expect _).toMoves fun _ => ?_
  refine (writes_sequenceOf (reads_whenCase h.reads).toMoves (writes_whenCase h)).bind fun _ hc => ?_
  refine after (reads_expect _).toMoves fun _ => .pure ?_
  rw [types_whenChoice]
  exact List.forall_mem_append.mpr ⟨hs, hc⟩

theorem writes_atom : Writes n (atom rules) := by
  refine after moves_peek fun kind => ?_
  split
  · exact after (reads_expectAs _ _).toMoves fun _ => .pure (by simp)
  · exact after (reads_expectAs _ _).toMoves fun _ => .pure (by simp)
  · exact after (reads_expectAs _ _).toMoves fun _ => .pure (by simp)
  · exact after (reads_expectWord _).toMoves fun _ => .pure (by simp)
  · exact after (reads_expect _).toMoves fun _ => (writes_closeGroup h).bind fun _ he => .pure he
  · refine after (reads_expect _).toMoves fun _ => (writes_listUntil h.expression).bind fun _ he => ?_
    exact .pure (by simpa using he)
  · exact h.block.bind fun _ hb => .pure hb
  · exact writes_conditional h
  · exact writes_whenChoice h
  · exact Triple.unexpected _

theorem writes_blockArgument : Writes n (blockArgument rules) :=
  h.block.bind fun _ hb => .pure hb

theorem writes_callArguments : Writes n (callArguments rules) := by
  refine (writes_arguments h).bind fun _ ha => after (moves_nextOnLine _) fun _ => .ite ?_ (.pure ha)
  refine (writes_blockArgument h).bind fun _ hb => .pure ?_
  simpa [or_imp, forall_and] using ⟨ha, hb⟩

theorem writes_closeIndex : Writes n (closeIndex rules) :=
  h.expression.bind fun _ he => after (reads_expect _).toMoves fun _ => .pure he

theorem writes_suffix? {target : Located Expr} (ht : ∀ t ∈ types target, t.Written n) :
    Writes n (suffix? rules target) := by
  refine after (moves_nextOnLine _) fun _ => .ite ?_ (after (moves_nextOnLine _) fun _ => .ite ?_
    (after (moves_nextOnLine _) fun _ => .ite ?_ (after (reads_accept (by decide)).toMoves fun _ =>
      .ite ?_ (.pure (by simp)))))
  · refine (writes_callArguments h).bind fun _ ha => .pure ?_
    simpa [or_imp, forall_and] using ⟨ht, ha⟩
  · refine (writes_blockArgument h).bind fun _ hb => .pure ?_
    simpa [or_imp, forall_and] using ⟨ht, hb⟩
  · refine after (reads_expect _).toMoves fun _ => (writes_closeIndex h).bind fun _ hi => .pure ?_
    simpa [or_imp, forall_and] using ⟨ht, hi⟩
  · exact after reads_identifier.toMoves fun _ => .pure ht

theorem writes_suffixed : Writes n (suffixed rules) := by
  refine after moves_here fun _ => (writes_atom h).bind fun _ ha => (writes_located ha).bind fun first hf => ?_
  refine .iterate (fun target ht => (writes_suffix? h ht).bind fun node hn => ?_) hf
  cases node with
  | none => exact .pure (a := ForInStep.done target) ht
  | some node => exact (writes_located (a := node) hn).bind fun a ha => .pure (a := ForInStep.yield a) ha

theorem writes_unary : Writes n (unary rules) := by
  refine after moves_here fun _ => after (reads_accept (by decide)).toMoves fun _ =>
    .ite ?_ (writes_suffixed h)
  exact h.operand.bind fun _ ho => writes_located ho

omit h in
theorem writes_chain {operand : Parser (Located Expr)} (precedence : Precedence)
    (ho : Writes n operand) : Writes n (chain precedence operand) := by
  refine after moves_here fun _ => ho.bind fun first hf => .iterate (fun lhs hl => ?_) hf
  refine after (readsOn_operator? _).toMoves fun op => ?_
  cases op with
  | none => exact .pure (a := ForInStep.done lhs) hl
  | some op =>
    refine ho.bind fun rhs hr => ?_
    have hboth : ∀ t ∈ types (Expr.binary op lhs rhs), t.Written n := List.forall_mem_append.mpr ⟨hl, hr⟩
    exact (writes_located hboth).bind fun a ha => .pure (a := ForInStep.yield a) ha

theorem writes_binary : Writes n (binary rules) :=
  writes_chain _ (writes_chain _ (writes_chain _ (writes_chain _ (writes_unary h))))

theorem writes_assignment : Writes n (assignment rules) := by
  refine after moves_here fun _ => (writes_binary h).bind fun target ht => after (moves_nextIs _) fun _ =>
    .ite ?_ (.pure ht)
  refine .ite (after (reads_expect _).toMoves fun _ => h.expression.bind fun value hv => ?_) Triple.fail
  exact writes_located (List.forall_mem_append.mpr ⟨ht, hv⟩)

-- ---------------------------------------------------------------------------
-- Declarations
-- ---------------------------------------------------------------------------

theorem writes_compilerCall : Writes n (compilerCall rules) := by
  refine after moves_here fun _ => after (reads_expect _).toMoves fun _ => ?_
  refine (writes_suffixed h).bind fun _ hc => ?_
  exact .ite (.pure hc) Triple.fail

theorem writes_constructorParam : Writes n (constructorParam rules) := by
  refine after moves_here fun _ => (writes_modifiers h).bind fun ms hms => after moves_peek fun kind => ?_
  split
  · exact (writes_property h hms).bind fun _ hd => writes_located hd
  · exact (writes_property h hms).bind fun _ hd => writes_located hd
  · refine .ite ?_ (Triple.unexpected _)
    exact (writes_plainParam h).bind fun _ hp => writes_located hp

theorem writes_constructor? : Writes n (constructor? rules) := by
  refine after moves_here fun _ => after (reads_accept (by decide)).toMoves fun _ => .ite ?_ (.pure nofun)
  refine (writes_listUntil (writes_constructorParam h)).bind fun _ hp => ?_
  exact (writes_located hp).bind fun _ hl => .pure hl

theorem writes_members : Writes n (members rules) := by
  refine after (reads_accept (by decide)).toMoves fun _ => .ite ?_ (.pure nofun)
  refine (writes_sequenceOf h.reads.declaration.toMoves h.declaration).bind fun _ hd => ?_
  exact after (reads_expect _).toMoves fun _ => .pure hd

theorem writes_classDecl {ms : Modifiers} (hms : ∀ t ∈ types ms, t.Written n) :
    Writes n (classDecl rules ms) := by
  refine after (reads_expectWord _).toMoves fun _ => after reads_identifier.toMoves fun _ => ?_
  refine (writes_constructor? h).bind fun _ hc => (writes_members h).bind fun _ hm => .pure ?_
  rw [types_class]
  exact List.forall_mem_append.mpr ⟨List.forall_mem_append.mpr ⟨hms, hc⟩, hm⟩

theorem writes_declarationNode : Writes n (declarationNode rules) := by
  refine after (moves_nextIs _) fun _ => .ite ((writes_compilerCall h).bind fun _ hc => .pure hc) ?_
  refine (writes_modifiers h).bind fun ms hms => after moves_peek fun kind => ?_
  split
  · exact (writes_function h hms).bind fun _ hd => .pure hd
  · exact (writes_classDecl h hms).bind fun _ hd => .pure hd
  · exact (writes_property h hms).bind fun _ hd => .pure hd
  · exact (writes_property h hms).bind fun _ hd => .pure hd
  · exact Triple.unexpected _

theorem writes_declarationBody : Writes n (declarationBody rules) :=
  after moves_here fun _ => (writes_declarationNode h).bind fun _ hd => writes_located hd

end

theorem Writes.deeper [HasTypes α] (limit : Nat) (h : Writes n p) : Writes n (deeper limit p) :=
  Yields.deeper limit (fun _ h => h) (fun _ h => h) h

theorem writes_grammar (limit levels : Nat) : (grammar limit levels).Writes levels := by
  induction levels with
  | zero =>
    exact ⟨rulesRead_grammar _ _, written_typeRule _ _, writes_tooDeep, writes_tooDeep, writes_tooDeep,
      writes_tooDeep⟩
  | succ levels ih =>
    exact
      { reads := rulesRead_grammar _ _
        type := written_typeRule _ _
        expression := ((writes_assignment ih).deeper limit).succ
        operand := ((writes_unary ih).deeper limit).succ
        block := ((writes_blockBody ih).deeper limit).succ
        declaration := ((writes_declarationBody ih).deeper limit).succ }

/-- A level less than the limit is left for the types of a declaration. -/
theorem writes_declarations (levels : Nat) : Writes levels (declarations (levels + 1)) :=
  writes_sequenceOf (rulesRead_grammar _ _).declaration.toMoves
    ((writes_declarationBody (writes_grammar _ levels)).deeper _)

end Linewise.Parser
