import Linewise.Proofs.Parsing.SimulationLoops

/-!
# The grammar on changed input

No production of the grammar notices a change, as long as the rules for what nests do not. Tied
together level by level this holds of the rules themselves.
-/

namespace Linewise.Change

open Linewise.Parser

variable {α β : Type} {m : Change} {s t : State} {j k : Nat}

theorem Read.of_round {b b' : β} (hr : m.Read s)
    (h : b' = b ∧ t = s ∨ t.rest.length < s.rest.length) : m.Read t := by
  rcases h with ⟨-, rfl⟩ | h
  · exact hr
  · exact Nat.lt_trans h hr

theorem sim_label? {sign : TokenKind} (hs : sign.joins = true) :
    m.Sim 1 s (label? sign) (label? sign) := by
  refine .wlog (moves_label? sign) fun _ hi => ?_
  refine .nextAre_bind_inside hs hi (.ite (fun _ => ?_) fun _ => sim_pure rfl)
  exact sim_identifier.bind fun _ _ _ => (sim_expect sign).bind fun _ _ _ => sim_pure rfl

-- ---------------------------------------------------------------------------
-- Types
-- ---------------------------------------------------------------------------

section
variable {type type' : Parser (Located Ty)} (ht : Reads type) (ht' : Reads type')
  (h : ∀ k s, m.Sim k s type type')
include ht ht' h

theorem sim_typeArgs : m.Sim k s (typeArgs type) (typeArgs type') := by
  refine (sim_accept rfl).bind fun _ _ _ => .ite (fun _ => ?_) fun _ => sim_pure rfl
  exact (sim_listOf ht ht' (h k)).bind fun _ _ _ => (sim_expect _).bind fun _ _ _ => sim_pure rfl

theorem sim_memberRound (parent : UserType) :
    m.Sim k s (memberRound type parent) (memberRound type' (mapSpans m.span parent)) := by
  refine .nextAre_bind_dot (.ite (fun _ => ?_) fun _ => sim_pure rfl)
  refine (sim_expect _).bind fun _ _ _ => sim_identifier.bind fun _ _ _ => ?_
  exact (sim_typeArgs ht ht' h).bind fun _ _ _ => sim_pure (by simp)

theorem sim_userType : m.Sim k s (userType type) (userType type') := by
  refine sim_identifier.bind fun _ _ _ => (sim_typeArgs ht ht' h).bind fun _ _ _ => ?_
  exact sim_iterate (rounds_memberRound ht) (rounds_memberRound ht') (by simp) fun parent _ _ =>
    sim_memberRound ht ht' h parent

omit ht' in
theorem sim_typeParam : m.Sim k s (typeParam type) (typeParam type') :=
  (sim_label? rfl).bind_reads (fun _ => ht.bind fun _ => moves_pure _) fun _ _ _ =>
    (h k _).bind fun _ _ _ => sim_pure (by simp)

omit ht ht' h in
theorem sim_startOf (hi : m.Inside s) (receiver : Option (Located Ty)) :
    m.Sim k s (startOf receiver) (startOf (mapSpans m.span receiver)) := by
  cases receiver with
  | none => exact sim_here hi
  | some r => exact sim_pure rfl

theorem sim_functionType (receiver : Option (Located Ty)) :
    m.Sim k s (functionType type receiver) (functionType type' (mapSpans m.span receiver)) := by
  refine .inside (reads_functionType ht receiver) fun hs hi => ?_
  refine (sim_startOf hi receiver).bind fun start t hst => ?_
  have hft := m.fits_suffix _ _ ((moves_startOf receiver).advances_ok hst).rest hs
  refine .bind_first hft (reads_expect _) (sim_expect _) fun _ _ hr => ?_
  refine .bind_read hr (sim_listUntil (reads_typeParam ht) (reads_typeParam ht') fun _ =>
    sim_typeParam ht h) fun params _ hr => ?_
  refine .bind_read hr (sim_accept rfl) fun _ _ hr => .ite (fun _ => ?_) fun _ => ?_
  · exact .bind_read hr (h k _) fun _ _ hr => sim_located hr rfl (by simp)
  · rcases receiver with _ | r <;> rcases params with _ | ⟨⟨_ | name, inner⟩, _ | ⟨p, ps⟩⟩
    all_goals first
      | exact sim_pure rfl
      | exact sim_fail_here rfl

theorem sim_namedType (start : Span) :
    m.Sim k s (namedType type start) (namedType type' (m.span start)) := by
  refine .wlog (reads_namedType ht start).toMoves fun hs _ => ?_
  refine .bind_first hs (reads_userType ht) (sim_userType ht ht' h) fun user _ hr => ?_
  refine (sim_located hr rfl (by simp)).bind fun user _ _ => ?_
  refine .nextAre_bind_dot (.ite (fun _ => ?_) fun _ => sim_pure rfl)
  exact (sim_expect _).bind fun _ _ _ => sim_functionType ht ht' h (some user)

theorem sim_plainType (start : Span) :
    m.Sim k s (plainType type start) (plainType type' (m.span start)) := by
  refine .inside (reads_plainType ht start) fun _ hi => .peek_bind hi ?_
  split
  · exact sim_functionType ht ht' h none
  · exact sim_namedType ht ht' h start
  · exact sim_unexpected _

omit ht ht' h in
theorem sim_nullable (hr : m.Read s) (start : Span) (plain : Located Ty) :
    m.Sim k s (nullable start plain) (nullable (m.span start) (mapSpans m.span plain)) :=
  .bind_read hr (sim_accept rfl) fun _ _ hr =>
    .ite (fun _ => sim_located hr rfl (by simp)) fun _ => sim_pure rfl

omit ht ht' h in
theorem sim_pointerRound (hr : m.Read s) (start : Span) (inner : Located Ty) :
    m.Sim k s (pointerRound start inner) (pointerRound (m.span start) (mapSpans m.span inner)) := by
  refine .bind_read hr (sim_accept rfl) fun _ _ hr => .ite (fun _ => ?_) fun _ => sim_pure rfl
  exact (sim_located hr rfl (by simp)).bind fun _ _ _ => sim_pure rfl

omit ht ht' h in
theorem sim_pointers (hr : m.Read s) (start : Span) (base : Located Ty) :
    m.Sim k s (pointers start base) (pointers (m.span start) (mapSpans m.span base)) :=
  sim_iterate (rounds_pointerRound start) (rounds_pointerRound (m.span start)) rfl
    fun inner _ hb => sim_pointerRound (hr.of_round hb) start inner

theorem sim_typeBody : m.Sim k s (typeBody type) (typeBody type') := by
  refine .inside (reads_typeBody ht) fun hs hi => ?_
  refine .here_bind fun start hstart => ?_
  rw [hstart hi]
  refine .bind_first hs (reads_plainType ht _) (sim_plainType ht ht' h _) fun plain _ hr => ?_
  exact .bind_read hr (sim_nullable hr _ plain) fun base _ hr => sim_pointers hr _ base

end

/-- How the limits and the levels left of two grammars go together under a change. -/
def Levels (m : Change) (limit limit' levels levels' : Nat) : Prop :=
  limit = limit' ∧ levels = levels' ∨ m.capped = true ∧ limit ≤ limit' ∧ levels ≤ levels'

section
variable {limit limit' : Nat}

theorem Levels.limits {levels levels' : Nat} (h : m.Levels limit limit' levels levels') :
    limit = limit' ∨ m.capped = true ∧ limit ≤ limit' := by
  rcases h with ⟨h, -⟩ | ⟨hc, h, -⟩
  · exact .inl h
  · exact .inr ⟨hc, h⟩

theorem Levels.zero {levels' : Nat} (h : m.Levels limit limit' 0 levels') :
    levels' = 0 ∨ m.capped = true := by
  rcases h with ⟨-, h⟩ | ⟨hc, -⟩
  · exact .inl h.symm
  · exact .inr hc

theorem Levels.succ {levels levels' : Nat} (h : m.Levels limit limit' (levels + 1) levels') :
    ∃ l, levels' = l + 1 ∧ m.Levels limit limit' levels l := by
  cases levels' with
  | zero =>
    rcases h with ⟨-, h⟩ | ⟨-, -, h⟩ <;> omega
  | succ l =>
    refine ⟨l, rfl, ?_⟩
    rcases h with ⟨h, h'⟩ | ⟨hc, h, h'⟩
    · exact .inl ⟨h, by omega⟩
    · exact .inr ⟨hc, h, by omega⟩

theorem sim_tooDeep [HasSpans α] (hc : m.capped = true) (q : Parser α) :
    m.Sim k s (do fail .nestingTooDeep (← here)) q := by
  refine .of_moves (moves_here.bind_reads (Q := fun _ => True) fun _ => reads_fail rfl).toMoves
    fun _ hr => ?_
  exact absurd (.inl ⟨_, rfl, rfl⟩) (hr.capped hc)

theorem sim_typeRule {levels levels' : Nat} (hl : m.Levels limit limit' levels levels') :
    m.Sim k s (typeRule limit levels) (typeRule limit' levels') := by
  induction levels generalizing levels' k s with
  | zero =>
    rcases hl.zero with rfl | hc
    · exact sim_fail_here rfl
    · exact sim_tooDeep hc _
  | succ levels ih =>
    obtain ⟨levels', rfl, hl'⟩ := hl.succ
    exact .deeper hl.limits
      (sim_typeBody (reads_typeRule limit levels) (reads_typeRule limit' levels') fun _ _ => ih hl')

end

-- ---------------------------------------------------------------------------
-- Declarations of properties and functions
-- ---------------------------------------------------------------------------

/-- Taking the name off a type is the same before and after the change. -/
def Detaches (m : Change) (type : Located Ty) : Prop :=
  ∀ parent name, type.node = .user (.member parent name []) →
    m.span ⟨type.span.start, type.span.stop - (name.utf8ByteSize + 1)⟩ =
      ⟨(m.span type.span).start, (m.span type.span).stop - (name.utf8ByteSize + 1)⟩

/-- The rules for what nests do not notice the change. Types and blocks do not even where they end at the
seam; whether the others do there depends on how they end. -/
structure RulesSim (m : Change) (rules rules' : Rules) : Prop where
  left : RulesRead rules
  right : RulesRead rules'
  type : ∀ k s, m.Sim k s rules.type rules'.type
  expression : ∀ s, m.Sim 1 s rules.expression rules'.expression
  operand : ∀ s, m.Sim 1 s rules.operand rules'.operand
  block : ∀ k s, m.Sim k s rules.block rules'.block
  declaration : ∀ s, m.Sim 1 s rules.declaration rules'.declaration
  detaches : ∀ s type t, m.fits s.rest → rules.type.run s = (.ok type, t) → m.Detaches type

theorem sim_behind [HasSpans α] {p q : Parser α} {sign : TokenKind} (hs : sign.joins = true)
    (h : ∀ s, m.Sim k s p q) : m.Sim k s (behind sign p) (behind sign q) :=
  (sim_accept hs).bind fun _ _ _ => .ite (fun _ => (h _).bind fun _ _ _ => sim_pure rfl) fun _ =>
    sim_pure rfl

theorem sim_behind_inside [HasSpans α] {p q : Parser α} {sign : TokenKind} (hs : sign ≠ .eof)
    (h : ∀ s, m.Sim 1 s p q) (hp : Moves p) : m.Sim 1 s (behind sign p) (behind sign q) := by
  refine .wlog (moves_behind hs hp) fun _ hi => (sim_accept_inside hi hs).bind fun _ _ _ => ?_
  exact .ite (fun _ => (h _).bind fun _ _ _ => sim_pure rfl) fun _ => sim_pure rfl

theorem sim_library : m.Sim 1 s library library := by
  refine .wlog moves_library fun _ hi => (sim_accept_inside hi (by decide)).bind fun _ _ _ => ?_
  refine .ite (fun _ => ?_) fun _ => sim_pure rfl
  exact (sim_expectAs _ _).bind fun _ _ _ => (sim_expect _).bind fun _ _ _ => sim_pure rfl

theorem sim_modifier? : m.Sim 1 s modifier? modifier? := by
  refine .wlog readsOn_modifier?.toMoves fun _ hi => .peek_bind hi ?_
  split
  · exact (sim_expectWord _).bind fun _ _ _ => sim_library.bind fun _ _ _ => sim_pure (by simp)
  · exact (sim_expectWord _).bind fun _ _ _ => sim_pure rfl
  · exact (sim_expectWord _).bind fun _ _ _ => sim_pure rfl
  · exact sim_pure rfl

theorem sim_binding : m.Sim k s binding binding := by
  refine .inside reads_binding fun _ hi => .peek_bind hi ?_
  split
  · exact (sim_expectWord _).bind fun _ _ _ => sim_pure rfl
  · exact (sim_expectWord _).bind fun _ _ _ => sim_pure rfl
  · exact sim_unexpected _

theorem sim_detachName {type : Located Ty} (h : m.Detaches type) :
    m.Sim k s (detachName type) (detachName (mapSpans m.span type)) := by
  rcases type with ⟨node, span⟩
  cases node with
  | user user =>
    cases user with
    | member parent name args =>
      cases args with
      | nil =>
        refine sim_pure ?_
        simp only [mapSpans_pair, mapSpans_some, mapSpans_located, mapSpans_user, h parent name rfl]
        rfl
      | cons arg args => exact sim_fail rfl fun _ => rfl
    | simple name args => exact sim_fail rfl fun _ => rfl
  | nullable inner =>
    rw [mapSpans_located, mapSpans_nullable]
    exact sim_fail rfl fun _ => rfl
  | pointer inner =>
    rw [mapSpans_located, mapSpans_pointer]
    exact sim_fail rfl fun _ => rfl
  | function receiver params result =>
    rw [mapSpans_located, mapSpans_functionType]
    exact sim_fail rfl fun _ => rfl

section
variable {rules rules' : Rules} (h : m.RulesSim rules rules')
include h

theorem sim_argument : m.Sim 1 s (argument rules) (argument rules') := by
  refine .inside (reads_argument h.left) fun hs hi => .here_bind fun start hstart => ?_
  rw [hstart hi]
  refine (sim_label? rfl).bind fun name t ht => ?_
  have hft := m.fits_suffix _ _ ((moves_label? _).advances_ok ht).rest hs
  exact .bind_first hft h.left.expression (h.expression t) fun _ _ hr =>
    sim_located hr rfl (by simp)

theorem sim_arguments : m.Sim k s (arguments rules) (arguments rules') :=
  (sim_expect _).bind fun _ _ _ =>
    sim_listUntil (reads_argument h.left) (reads_argument h.right) fun _ => sim_argument h

theorem sim_annotated : m.Sim k s (annotated rules) (annotated rules') := by
  refine .wlog (reads_annotated h.left).toMoves fun hs _ => ?_
  refine .bind_first hs (reads_expect _) (sim_expect _) fun _ _ hr => ?_
  refine .bind_read hr sim_identifier fun _ _ hr => .nextOnLine_bind rfl hr fun _ => ?_
  refine .ite (fun _ => ?_) fun _ => sim_pure (by simp)
  exact (sim_arguments h).bind fun _ _ _ => sim_pure (by simp)

theorem sim_modifierRound (ms : Modifiers) :
    m.Sim 1 s (modifierRound rules ms) (modifierRound rules' (mapSpans m.span ms)) := by
  obtain ⟨ms, as⟩ := ms
  rw [mapSpans_modifiers]
  refine .wlog (rounds_modifierRound h.left ⟨ms, as⟩).toMoves fun hs hi => ?_
  refine .here_bind fun start hstart => ?_
  rw [hstart hi]
  refine .nextIs_bind_inside hi (.ite (fun _ => ?_) fun _ => ?_)
  · refine .bind_first hs (reads_annotated h.left) (sim_annotated h) fun a _ hr => ?_
    exact (sim_located hr rfl rfl).bind fun _ _ _ => sim_pure (by simp)
  · refine sim_modifier?.bind fun found t ht => ?_
    cases found with
    | none => exact sim_pure (by simp)
    | some found =>
      have hr : m.Read t := .of_lt hs (readsOn_modifier?.reads _ _ _ ht rfl)
      exact (sim_located hr rfl rfl).bind fun _ _ _ => sim_pure (by simp)

theorem sim_modifiers : m.Sim 1 s (modifiers rules) (modifiers rules') :=
  sim_iterate (rounds_modifierRound h.left) (rounds_modifierRound h.right) (by simp) fun ms _ _ =>
    sim_modifierRound h ms

theorem sim_property (ms : Modifiers) :
    m.Sim 1 s (property rules ms) (property rules' (mapSpans m.span ms)) := by
  refine sim_binding.bind fun _ _ _ => sim_identifier.bind fun _ _ _ => ?_
  refine (sim_behind rfl (h.type 1)).bind fun _ _ _ => ?_
  exact (sim_behind rfl h.expression).bind fun _ _ _ => sim_pure (by simp)

theorem sim_functionName : m.Sim 1 s (functionName rules) (functionName rules') := by
  refine .within (reads_functionName h.left) fun hs hb => ?_
  refine .nextAre_bind_within hb (.ite (fun _ => ?_) fun _ => ?_)
  · exact sim_identifier.bind fun _ _ _ => sim_pure rfl
  · refine (h.type 1 s).bind fun type t ht => (sim_accept rfl).bind fun _ _ _ => ?_
    refine .ite (fun _ => sim_identifier.bind fun _ _ _ => sim_pure rfl) fun _ => ?_
    exact sim_detachName (h.detaches s type t hs ht)

theorem sim_plainParam : m.Sim k s (plainParam rules) (plainParam rules') := by
  refine sim_identifier.bind fun _ _ _ => (sim_expect _).bind fun _ _ _ => ?_
  exact (h.type k _).bind fun _ _ _ => sim_pure rfl

theorem sim_param : m.Sim k s (param rules) (param rules') := by
  refine .inside (reads_param h.left) fun hs hi => .here_bind fun start hstart => ?_
  rw [hstart hi]
  exact .bind_first hs (reads_plainParam h.left) (sim_plainParam h) fun _ _ hr =>
    sim_located hr rfl rfl

theorem sim_functionBody : m.Sim 1 s (functionBody rules) (functionBody rules') := by
  refine .wlog (moves_functionBody h.left) fun _ hi => ?_
  refine .nextIs_bind_inside hi
    (.ite (fun _ => (h.block 1 s).bind fun _ _ _ => sim_pure rfl) fun _ => ?_)
  refine (sim_accept rfl).bind fun _ _ _ => .ite (fun _ => ?_) fun _ => sim_pure rfl
  exact (h.expression _).bind fun _ _ _ => sim_pure (by simp [Block.single])

theorem sim_functionHead {f g : Option (Located Ty) × String → List (Located Param) → Parser α}
    [HasSpans α] (hf : ∀ name params t, m.Sim k t (f name params)
      (g (mapSpans m.span name) (mapSpans m.span params))) :
    m.Sim k s (do
        expectWord .funWord
        let name ← functionName rules
        expect .leftParen
        f name (← listUntil .rightParen (param rules)))
      (do
        expectWord .funWord
        let name ← functionName rules'
        expect .leftParen
        g name (← listUntil .rightParen (param rules'))) := by
  refine (sim_expectWord _).bind fun _ _ _ => .bind_expect (sim_functionName h) fun name t => ?_
  refine (sim_listUntil (reads_param h.left) (reads_param h.right) fun _ => sim_param h).bind ?_
  exact fun params u _ => hf name params u

theorem sim_function (ms : Modifiers) :
    m.Sim 1 s (function rules ms) (function rules' (mapSpans m.span ms)) := by
  refine sim_functionHead h fun name params t => ?_
  obtain ⟨receiver, name⟩ := name
  refine (sim_behind rfl (h.type 1)).bind fun _ _ _ => (sim_functionBody h).bind fun _ _ _ => ?_
  exact sim_pure (by simp)

-- ---------------------------------------------------------------------------
-- Statements
-- ---------------------------------------------------------------------------

theorem sim_localAfter (ms : Modifiers) :
    m.Sim 1 s (localAfter rules ms) (localAfter rules' (mapSpans m.span ms)) := by
  refine .inside (reads_localAfter h.left ms) fun _ hi => .peek_bind hi ?_
  split
  · exact (sim_function h ms).bind fun _ _ _ => sim_pure rfl
  · exact (sim_property h ms).bind fun _ _ _ => sim_pure rfl
  · exact (sim_property h ms).bind fun _ _ _ => sim_pure rfl
  · exact sim_unexpected _

theorem sim_localDeclaration : m.Sim 1 s (localDeclaration rules) (localDeclaration rules') :=
  .bind_reads (sim_modifiers h) (reads_localAfter h.left) fun ms _ _ => sim_localAfter h ms

theorem sim_simpleStatement : m.Sim 1 s (simpleStatement rules) (simpleStatement rules') := by
  refine .inside (reads_simpleStatement h.left) fun _ hi => .peek_bind hi ?_
  split
  all_goals first
    | exact sim_localDeclaration h
    | exact (h.expression s).bind fun _ _ _ => sim_pure rfl

section
variable {statement statement' : Parser (Located Statement)}

theorem sim_bodyOf (hr : Reads statement) (hs : m.Sim 1 s statement statement') :
    m.Sim 1 s (bodyOf rules statement) (bodyOf rules' statement') :=
  .inside (reads_bodyOf h.left hr) fun _ hi => .nextIs_bind_inside hi
    (.ite (fun _ => h.block 1 s) fun _ => hs.bind fun _ _ _ => sim_pure rfl)

theorem sim_whileLoop (hr : Reads statement)
    (hs : ∀ t, t.rest.length < s.rest.length → m.Sim 1 t statement statement') :
    m.Sim 1 s (whileLoop rules statement) (whileLoop rules' statement') := by
  refine (sim_expectWord _).bind fun _ t₁ h₁ => (sim_expect _).bind fun _ t₂ h₂ => ?_
  refine (h.expression _).bind fun _ t₃ h₃ => (sim_expect _).bind fun _ t₄ h₄ => ?_
  have hlt := (reads_expectWord _).shorter h₁
  have hle₂ := ((reads_expect _).advances_ok h₂).length_le
  have hle₃ := (h.left.expression.advances_ok h₃).length_le
  have hle₄ := ((reads_expect _).advances_ok h₄).length_le
  exact (sim_bodyOf h hr (hs t₄ (by omega))).bind fun _ _ _ => sim_pure rfl

theorem sim_statementWith (hr : Reads statement)
    (hs : ∀ t, t.rest.length < s.rest.length → m.Sim 1 t statement statement') :
    m.Sim 1 s (statementWith rules statement) (statementWith rules' statement') := by
  refine .inside (reads_statementWith h.left hr) fun hf hi => .here_bind fun start hstart => ?_
  rw [hstart hi]
  refine .bind_first hf (reads_statementNode h.left hr) ?_ fun _ _ hr => sim_located hr rfl rfl
  exact .nextIs_bind_inside hi (.ite (fun _ => sim_whileLoop h hr hs) fun _ => sim_simpleStatement h)

end

theorem sim_statement : m.Sim 1 s (statement rules) (statement rules') := by
  induction s using State.rest_induction with
  | shorter s ih =>
    refine .congr (run_statement h.left s) (run_statement h.right _) ?_
    exact sim_statementWith h (reads_statement h.left) ih

theorem sim_body : m.Sim 1 s (body rules) (body rules') :=
  sim_bodyOf h (reads_statement h.left) (sim_statement h)

theorem sim_blockBody : m.Sim k s (blockBody rules) (blockBody rules') := by
  refine .inside (reads_blockBody h.left) fun hs hi => .here_bind fun start hstart => ?_
  rw [hstart hi]
  refine .bind_first hs (reads_expect _) (sim_expect _) fun _ t hr => ?_
  have hst := reads_statement h.left
  refine .bind_reads (sim_sequenceOf hst (reads_statement h.right) fun _ => sim_statement h)
    (fun _ => (reads_expect _).bind fun _ => moves_located _ _) fun _ u hu => ?_
  have hru := hr.advances ((moves_sequenceOf true hst.toMoves).advances_ok hu)
  exact .bind_read hru (sim_expect _) fun _ _ hr => sim_located hr rfl (by simp)

-- ---------------------------------------------------------------------------
-- Expressions
-- ---------------------------------------------------------------------------

omit h in
theorem run_skipBeforeElse (s : State) :
    skipBeforeElse.run s =
      if s.kind = .semicolon ∧ s.second = .keyword .elseWord then (expect .semicolon).run s
      else (.ok (), s) := by
  unfold skipBeforeElse
  rw [run_bind_ok (run_nextAre _ _ s)]
  simp only [decide_eq_true_eq]
  split <;> rfl

omit h in
theorem sim_skipBeforeElse (hi : m.Inside s) : m.Sim k s skipBeforeElse skipBeforeElse := by
  refine .nextAre_bind_of (fun hs _ => ?_) (.ite (fun _ => sim_expect _) fun _ => sim_pure rfl)
  rw [kind_state hi]
  exact and_congr_right fun hk => by rw [second_eq_of_front hi hs (.inr (.inr hk))]

theorem sim_conditional : m.Sim 1 s (conditional rules) (conditional rules') := by
  refine (sim_expectWord _).bind fun _ _ _ => (sim_expect _).bind fun _ _ _ => ?_
  refine (h.expression _).bind fun _ _ _ => (sim_expect _).bind fun _ _ _ => ?_
  refine (sim_body h).bind fun _ t _ => Sim.bind ?_ fun _ _ _ => Sim.bind ?_ fun _ _ _ =>
    sim_pure (by simp)
  · exact .wlog moves_skipBeforeElse fun _ hi => sim_skipBeforeElse hi
  · exact sim_behind_inside (by decide) (fun _ => sim_body h) (reads_body h.left).toMoves

theorem sim_whenCase : m.Sim 1 s (whenCase rules) (whenCase rules') := by
  refine .inside (reads_whenCase h.left) fun hs hi => .here_bind fun start hstart => ?_
  rw [hstart hi]
  refine (sim_accept_inside hi (by decide)).bind fun other t ht => .ite (fun _ => ?_) fun _ => ?_
  · have hft := m.fits_suffix _ _ ((reads_accept (by decide)).advances_ok ht).rest hs
    refine .bind_first hft (reads_expect _) (sim_expect _) fun _ _ hr => ?_
    exact .bind_read hr (sim_body h) fun _ _ hr => sim_located hr rfl rfl
  · refine (sim_listOf h.left.expression h.right.expression h.expression).bind
      fun conditions u hu => ?_
    have hfu := m.fits_suffix _ _ (((reads_accept (by decide)).advances_ok ht).trans
      ((moves_listOf h.left.expression).advances_ok hu)).rest hs
    refine .bind_first hfu (reads_expect _) (sim_expect _) fun _ _ hr => ?_
    exact .bind_read hr (sim_body h) fun _ _ hr => sim_located hr rfl (by simp)

theorem sim_closeGroup : m.Sim k s (closeGroup rules) (closeGroup rules') :=
  .bind_expect (h.expression s) fun _ _ => sim_pure rfl

theorem sim_whenChoice : m.Sim k s (whenChoice rules) (whenChoice rules') := by
  refine (sim_expectWord _).bind fun _ _ _ => ?_
  refine .bind_expect (sim_behind_inside (by decide) (fun _ => sim_closeGroup h)
    (reads_closeGroup h.left).toMoves) fun _ _ => ?_
  refine .bind_reads (sim_sequenceOf (reads_whenCase h.left) (reads_whenCase h.right) fun _ =>
    sim_whenCase h) (fun _ => (reads_expect _).bind fun _ => moves_pure _) fun _ _ _ => ?_
  exact (sim_expect _).bind fun _ _ _ => sim_pure (by simp)

/-- All atoms but an `if` end with a token that they ask for. -/
theorem sim_atom_of (hif : s.kind = .keyword .ifWord →
    m.Sim k s (conditional rules) (conditional rules')) : m.Sim k s (atom rules) (atom rules') := by
  refine .inside (reads_atom h.left) fun _ hi => .peek_bind hi ?_
  split
  · exact (sim_expectAs _ _).bind fun _ _ _ => sim_pure rfl
  · exact (sim_expectAs _ _).bind fun _ _ _ => sim_pure rfl
  · exact (sim_expectAs _ _).bind fun _ _ _ => sim_pure rfl
  · exact (sim_expectWord _).bind fun _ _ _ => sim_pure rfl
  · exact (sim_expect _).bind fun _ _ _ => (sim_closeGroup h).bind fun _ _ _ => sim_pure rfl
  · refine (sim_expect _).bind fun _ _ _ => Sim.bind ?_ fun _ _ _ => sim_pure (by simp)
    exact sim_listUntil h.left.expression h.right.expression h.expression
  · exact (h.block k s).bind fun _ _ _ => sim_pure rfl
  · exact hif ‹_›
  · exact sim_whenChoice h
  · exact sim_unexpected _

theorem sim_atom : m.Sim 1 s (atom rules) (atom rules') := sim_atom_of h fun _ => sim_conditional h

theorem sim_blockArgument : m.Sim k s (blockArgument rules) (blockArgument rules') :=
  (h.block k s).bind fun _ _ _ => sim_pure rfl

theorem sim_callArguments (hr : m.Read s) :
    m.Sim k s (callArguments rules) (callArguments rules') := by
  refine .bind_read hr (sim_arguments h) fun _ _ hr => .nextOnLine_bind rfl hr fun _ => ?_
  refine .ite (fun _ => ?_) fun _ => sim_pure rfl
  exact (sim_blockArgument h).bind fun _ _ _ => sim_pure (by simp)

theorem sim_closeIndex : m.Sim k s (closeIndex rules) (closeIndex rules') :=
  .bind_expect (h.expression s) fun _ _ => sim_pure rfl

theorem sim_suffix? (hr : m.Read s) (target : Located Expr) :
    m.Sim k s (suffix? rules target) (suffix? rules' (mapSpans m.span target)) := by
  refine .nextOnLine_bind rfl hr fun _ => .ite (fun _ => ?_) fun _ => ?_
  · exact (sim_callArguments h hr).bind fun _ _ _ => sim_pure (by simp)
  refine .nextOnLine_bind rfl hr fun _ => .ite (fun _ => ?_) fun _ => ?_
  · exact (sim_blockArgument h).bind fun _ _ _ => sim_pure (by simp)
  refine .nextOnLine_bind rfl hr fun _ => .ite (fun _ => ?_) fun _ => ?_
  · exact (sim_expect _).bind fun _ _ _ => (sim_closeIndex h).bind fun _ _ _ => sim_pure rfl
  refine (sim_accept rfl).bind fun _ _ _ => .ite (fun _ => ?_) fun _ => sim_pure rfl
  exact sim_identifier.bind fun _ _ _ => sim_pure rfl

theorem sim_suffixRound (hr : m.Read s) (start : Span) (target : Located Expr) :
    m.Sim k s (suffixRound rules start target)
      (suffixRound rules' (m.span start) (mapSpans m.span target)) := by
  refine .bind_read hr (sim_suffix? h hr target) fun node _ hr => ?_
  cases node with
  | none => exact sim_pure rfl
  | some node => exact (sim_located hr rfl rfl).bind fun _ _ _ => sim_pure rfl

theorem sim_suffixes (hr : m.Read s) (start : Span) (node : Expr) :
    m.Sim k s (located start node >>= iterate (suffixRound rules start))
      (located (m.span start) (mapSpans m.span node) >>= iterate (suffixRound rules' (m.span start))) := by
  refine .bind_read hr (sim_located hr rfl rfl) fun _ _ hr => ?_
  exact sim_iterate (rounds_suffixRound h.left _) (rounds_suffixRound h.right _) rfl
    fun target _ hb => sim_suffixRound h (hr.of_round hb) _ target

theorem sim_suffixed : m.Sim 1 s (suffixed rules) (suffixed rules') := by
  refine .inside (reads_suffixed h.left) fun hs hi => .here_bind fun start hstart => ?_
  rw [hstart hi]
  exact .bind_first hs (reads_atom h.left) (sim_atom h) fun node _ hr => sim_suffixes h hr _ node

theorem sim_unary : m.Sim 1 s (unary rules) (unary rules') := by
  refine .inside (reads_unary h.left) fun hs hi => .here_bind fun start hstart => ?_
  rw [hstart hi]
  refine (sim_accept_inside hi (by decide)).bind fun hash t ht => .ite (fun _ => ?_) fun _ => ?_
  · have hft := m.fits_suffix _ _ ((reads_accept (by decide)).advances_ok ht).rest hs
    exact .bind_first hft h.left.operand (h.operand t) fun _ _ hr => sim_located hr rfl rfl
  · exact sim_suffixed h

omit h in
theorem at?_of_unjoined {p : Precedence} {kind : TokenKind} (hk : kind.joins = false) :
    BinaryOp.at? p kind = none := by
  cases kind <;> first | rfl | cases hk

omit h in
theorem at?_of_endsItem {p : Precedence} {kind : TokenKind} (hk : kind.endsItem = true) :
    BinaryOp.at? p kind = none :=
  at?_of_unjoined (Bool.eq_false_iff.mpr fun hj => by simp [TokenKind.endsItem_of_joins hj] at hk)

omit h in
theorem sim_operator? (p : Precedence) : m.Sim k s (operator? p) (operator? p) := by
  refine .wlog (readsOn_operator? p).toMoves fun hs hb => .look_bind run_peek ?_
  by_cases hi : m.Inside s
  · rw [kind_state hi]
    split
    · exact (sim_expect _).bind fun _ _ _ => sim_pure rfl
    · exact sim_pure rfl
  · have hb0 : m.Before 0 s := hb.mono (Nat.zero_le k)
    simp only [at?_of_endsItem (endsItem_at_seam hb0 hs hi),
      at?_of_unjoined (unjoined_at_seam hb0 hi)]
    exact sim_pure rfl

section
variable {operand operand' : Parser (Located Expr)} (ho : Reads operand) (ho' : Reads operand')
  (hoo : ∀ s, m.Sim 1 s operand operand')

omit h in
include hoo in
theorem sim_chainRound (hr : m.Read s) (p : Precedence) (start : Span) (lhs : Located Expr) :
    m.Sim 1 s (chainRound p operand start lhs)
      (chainRound p operand' (m.span start) (mapSpans m.span lhs)) := by
  refine .bind_read hr (sim_operator? p) fun op _ hr => ?_
  cases op with
  | none => exact sim_pure rfl
  | some op =>
    refine .bind_read hr (hoo _) fun _ _ hr => ?_
    exact (sim_located hr rfl rfl).bind fun _ _ _ => sim_pure rfl

omit h in
include ho ho' hoo in
theorem sim_chain (p : Precedence) : m.Sim 1 s (chain p operand) (chain p operand') := by
  refine .inside (reads_chain p ho) fun hs hi => .here_bind fun start hstart => ?_
  rw [hstart hi]
  refine .bind_first hs ho (hoo s) fun _ _ hr => ?_
  exact sim_iterate (rounds_chainRound p ho _) (rounds_chainRound p ho' _) rfl fun lhs _ hb =>
    sim_chainRound hoo (hr.of_round hb) p _ lhs

end

theorem sim_binary : m.Sim 1 s (binary rules) (binary rules') := by
  have hu := reads_unary h.left
  have hu' := reads_unary h.right
  exact sim_chain (reads_chain _ (reads_chain _ (reads_chain _ hu)))
    (reads_chain _ (reads_chain _ (reads_chain _ hu'))) (fun _ =>
      sim_chain (reads_chain _ (reads_chain _ hu)) (reads_chain _ (reads_chain _ hu')) (fun _ =>
        sim_chain (reads_chain _ hu) (reads_chain _ hu') (fun _ =>
          sim_chain hu hu' (fun _ => sim_unary h) _) _) _) _

theorem sim_assignment : m.Sim 1 s (assignment rules) (assignment rules') := by
  refine .inside (reads_assignment h.left) fun hs hi => .here_bind fun start hstart => ?_
  rw [hstart hi]
  refine .bind_first hs (reads_binary h.left) (sim_binary h) fun target _ hr => ?_
  refine .nextIs_bind rfl (.ite (fun _ => ?_) fun _ => sim_pure rfl)
  rw [node_mapSpans, isPlace_mapSpans]
  refine .ite (fun _ => ?_) fun _ => sim_fail rfl fun _ => rfl
  refine .bind_read hr (sim_expect _) fun _ _ hr => ?_
  exact .bind_read hr (h.expression _) fun _ _ hr => sim_located hr rfl rfl

-- ---------------------------------------------------------------------------
-- Declarations
-- ---------------------------------------------------------------------------

theorem sim_constructorParamAfter (start : Span) (ms : Modifiers) :
    m.Sim 1 s (constructorParamAfter rules start ms)
      (constructorParamAfter rules' (m.span start) (mapSpans m.span ms)) := by
  refine .inside (reads_constructorParamAfter h.left start ms) fun hs hi => .peek_bind hi ?_
  rw [isEmpty_mapSpans]
  split
  · exact .bind_first hs (reads_property h.left ms) (sim_property h ms) fun _ _ hr =>
      sim_located hr rfl rfl
  · exact .bind_first hs (reads_property h.left ms) (sim_property h ms) fun _ _ hr =>
      sim_located hr rfl rfl
  · refine .ite (fun _ => ?_) fun _ => sim_unexpected _
    exact .bind_first hs (reads_plainParam h.left) (sim_plainParam h) fun _ _ hr =>
      sim_located hr rfl rfl

theorem sim_constructorParam :
    m.Sim 1 s (constructorParam rules) (constructorParam rules') := by
  refine .inside (reads_constructorParam h.left) fun _ hi => .here_bind fun start hstart => ?_
  rw [hstart hi]
  exact .bind_reads (sim_modifiers h) (fun ms => reads_constructorParamAfter h.left _ ms)
    fun ms _ _ => sim_constructorParamAfter h _ ms

theorem sim_constructor? (hi : m.Inside s) :
    m.Sim k s (constructor? rules) (constructor? rules') := by
  refine .wlog (moves_constructor? h.left) fun hs _ => .here_bind fun start hstart => ?_
  rw [hstart hi]
  refine (sim_accept_inside hi (by decide)).bind fun _ t ht =>
    .ite (fun _ => ?_) fun _ => sim_pure rfl
  have hft := m.fits_suffix _ _ ((reads_accept (by decide)).advances_ok ht).rest hs
  have hp := reads_constructorParam h.left
  refine .bind_first hft (reads_listUntil _ hp) (sim_listUntil hp
    (reads_constructorParam h.right) fun _ => sim_constructorParam h) fun params _ hr => ?_
  exact (sim_located hr rfl rfl).bind fun _ _ _ => sim_pure rfl

theorem sim_members (hi : m.Inside s) : m.Sim k s (members rules) (members rules') := by
  refine (sim_accept_inside hi (by decide)).bind fun _ _ _ => .ite (fun _ => ?_) fun _ => sim_pure rfl
  refine .bind_reads (sim_sequenceOf h.left.declaration h.right.declaration h.declaration)
    (fun _ => (reads_expect _).bind fun _ => moves_pure _) fun _ _ _ => ?_
  exact (sim_expect _).bind fun _ _ _ => sim_pure rfl

end

/-- What a declaration may end with is simulated, up to the seam or with some margin. -/
structure EndsSim (m : Change) (k : Nat) (rules rules' : Rules) : Prop where
  function : ∀ s ms, m.Sim k s (function rules ms) (function rules' (mapSpans m.span ms))
  property : ∀ s ms, m.Sim k s (property rules ms) (property rules' (mapSpans m.span ms))
  call : ∀ s, m.Sim k s (suffixed rules) (suffixed rules')
  constructor : ∀ s, m.Sim k s (constructor? rules) (constructor? rules')
  members : ∀ s, m.Sim k s (members rules) (members rules')

theorem RulesSim.ends {rules rules' : Rules} (h : m.RulesSim rules rules') : m.EndsSim 1 rules rules' where
  function _ ms := sim_function h ms
  property _ ms := sim_property h ms
  call _ := sim_suffixed h
  constructor _ := .wlog (moves_constructor? h.left) fun _ hi => sim_constructor? h hi
  members _ := .wlog (moves_members h.left) fun _ hi => sim_members h hi

section
variable {rules rules' : Rules} (h : m.RulesSim rules rules') (he : m.EndsSim k rules rules')
include h he

theorem sim_compilerCall : m.Sim k s (compilerCall rules) (compilerCall rules') := by
  refine .inside (reads_compilerCall h.left) fun _ hi => .here_bind fun hash hhash => ?_
  rw [hhash hi]
  refine (sim_expect _).bind fun _ _ _ => (he.call _).bind fun call _ _ => ?_
  rw [node_mapSpans, isCall_mapSpans]
  exact .ite (fun _ => sim_pure rfl) fun _ => sim_fail rfl fun _ => (m.span_merge _ _).symm

omit h in
theorem sim_classDecl (ms : Modifiers) :
    m.Sim k s (classDecl rules ms) (classDecl rules' (mapSpans m.span ms)) := by
  refine (sim_expectWord _).bind fun _ _ _ => sim_identifier.bind fun _ _ _ => ?_
  exact (he.constructor _).bind fun _ _ _ => (he.members _).bind fun _ _ _ => sim_pure (by simp)

theorem sim_declarationAfter (ms : Modifiers) :
    m.Sim k s (declarationAfter rules ms) (declarationAfter rules' (mapSpans m.span ms)) := by
  refine .inside (reads_declarationAfter h.left ms) fun _ hi => .peek_bind hi ?_
  split
  · exact (he.function _ ms).bind fun _ _ _ => sim_pure rfl
  · exact (sim_classDecl he ms).bind fun _ _ _ => sim_pure rfl
  · exact (he.property _ ms).bind fun _ _ _ => sim_pure rfl
  · exact (he.property _ ms).bind fun _ _ _ => sim_pure rfl
  · exact sim_unexpected _

theorem sim_declarationNode : m.Sim k s (declarationNode rules) (declarationNode rules') := by
  refine .inside (reads_declarationNode h.left) fun _ hi => .nextIs_bind_inside hi ?_
  refine .ite (fun _ => (sim_compilerCall h he).bind fun _ _ _ => sim_pure rfl) fun _ => ?_
  exact .bind_reads (sim_modifiers h) (reads_declarationAfter h.left) fun ms _ _ =>
    sim_declarationAfter h he ms

theorem sim_declarationBody : m.Sim k s (declarationBody rules) (declarationBody rules') := by
  refine .inside (reads_declarationBody h.left) fun hs hi => .here_bind fun start hstart => ?_
  rw [hstart hi]
  exact .bind_first hs (reads_declarationNode h.left) (sim_declarationNode h he) fun _ _ hr =>
    sim_located hr rfl rfl

end

/-- Types of the grammar with this limit have names that come off them in the same way before and after
the change. -/
def DetachesAll (m : Change) (limit : Nat) : Prop :=
  ∀ levels s type t, m.fits s.rest → (typeRule limit levels).run s = (.ok type, t) → m.Detaches type

theorem rulesSim_grammar {limit limit' levels levels' : Nat}
    (hl : m.Levels limit limit' levels levels') (hd : m.DetachesAll limit) :
    m.RulesSim (grammar limit levels) (grammar limit' levels') := by
  induction levels generalizing levels' with
  | zero =>
    have hleft := rulesRead_grammar limit 0
    have hright := rulesRead_grammar limit' levels'
    rcases hl.zero with rfl | hc
    · exact ⟨hleft, hright, fun _ _ => sim_typeRule hl, fun _ => sim_fail_here rfl,
        fun _ => sim_fail_here rfl, fun _ _ => sim_fail_here rfl, fun _ => sim_fail_here rfl,
        hd 0⟩
    · exact ⟨hleft, hright, fun _ _ => sim_tooDeep hc _, fun _ => sim_tooDeep hc _,
        fun _ => sim_tooDeep hc _, fun _ _ => sim_tooDeep hc _, fun _ => sim_tooDeep hc _, hd 0⟩
  | succ levels ih =>
    obtain ⟨levels', rfl, hl'⟩ := hl.succ
    have h := ih hl'
    exact
      { left := rulesRead_grammar limit (levels + 1)
        right := rulesRead_grammar limit' (levels' + 1)
        type := fun _ _ => sim_typeRule hl
        expression := fun _ => .deeper hl.limits (sim_assignment h)
        operand := fun _ => .deeper hl.limits (sim_unary h)
        block := fun _ _ => .deeper hl.limits (sim_blockBody h)
        declaration := fun _ => .deeper hl.limits (sim_declarationBody h h.ends)
        detaches := hd (levels + 1) }

end Linewise.Change
