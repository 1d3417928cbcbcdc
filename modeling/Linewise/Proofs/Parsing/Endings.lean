import Linewise.Proofs.Parsing.GrammarProgress

/-!
# How items end

An item never ends in a dot or a semicolon, which ask for a token behind them: a production that reads such a
token goes on to read another one. Its span ends with the token that is read last.
-/

namespace Linewise

/-- A token of this kind is never the last one of an item. -/
def TokenKind.isInner : TokenKind → Bool
  | dot | semicolon => true
  | _ => false

namespace Parser

variable {α β : Type} {p : Parser α} {f : α → Parser β} {kind : TokenKind} {s t u : State}

/-- If anything is read between the states, the last token may end an item. -/
def EndsWell (s t : State) : Prop :=
  t.rest = s.rest ∨ ∃ ws x, s.rest = ws ++ x :: t.rest ∧ x.token.kind.isInner = false

theorem EndsWell.refl (s : State) : EndsWell s s := .inl rfl

theorem EndsWell.trans (h : EndsWell s t) (h' : EndsWell t u) : EndsWell s u := by
  rcases h' with hr | ⟨ws, x, hr, hx⟩
  · rw [EndsWell, hr]
    exact h
  · rcases h with hs | ⟨vs, y, hs, -⟩
    · exact .inr ⟨ws, x, hs ▸ hr, hx⟩
    · exact .inr ⟨vs ++ y :: ws, x, by simp [hs, hr], hx⟩

theorem EndsWell.split (h : EndsWell s t) (hlt : t.rest.length < s.rest.length) :
    ∃ ws x, s.rest = ws ++ x :: t.rest ∧ x.token.kind.isInner = false := by
  rcases h with hsame | hread
  · rw [hsame] at hlt
    exact absurd hlt (Nat.lt_irrefl _)
  · exact hread

theorem EndsWell.of_shorter (hst : Advances s t) (h : EndsWell t u)
    (hlt : u.rest.length < t.rest.length) : EndsWell s u := by
  obtain ⟨ws, x, hr, hx⟩ := h.split hlt
  obtain ⟨vs, hvs⟩ := hst.rest
  exact .inr ⟨vs ++ ws, x, by rw [← hvs, hr, List.append_assoc], hx⟩

def Finishes (p : Parser α) : Prop := ∀ s a t, p.run s = (.ok a, t) → EndsWell s t

namespace Finishes

theorem bind (hp : Finishes p) (hf : ∀ a, Finishes (f a)) : Finishes (p >>= f) := fun s b u h => by
  obtain ⟨a, t, ha, hb⟩ := bind_ok.mp h
  exact (hp s a t ha).trans (hf a t b u hb)

theorem bind_reads (hp : Moves p) (hr : ∀ a, Reads (f a)) (hf : ∀ a, Finishes (f a)) :
    Finishes (p >>= f) := fun s b u h => by
  obtain ⟨a, t, ha, hb⟩ := bind_ok.mp h
  exact .of_shorter (hp.advances_ok ha) (hf a t b u hb) ((hr a).shorter hb)

theorem look (h : ∀ s, ∃ a, p.run s = (.ok a, s)) : Finishes p := fun s a t hrun => by
  obtain ⟨b, hb⟩ := h s
  rw [hb] at hrun
  cases hrun
  exact .refl s

theorem pure (a : α) : Finishes (pure a : Parser α) := .look fun _ => ⟨a, rfl⟩

theorem fail {x : SyntaxFault} {span : Span} : Finishes (fail x span : Parser α) :=
  fun _ _ _ h => by cases h

theorem unexpected (what : Expectation) : Finishes (unexpected what : Parser α) := fun s _ _ h => by
  rw [run_unexpected] at h
  cases h

theorem ite {c : Prop} [Decidable c] {q : Parser α} (hp : Finishes p) (hq : Finishes q) :
    Finishes (if c then p else q) := by
  split
  · exact hp
  · exact hq

theorem deeper (limit : Nat) (h : Finishes p) : Finishes (deeper limit p) := fun s a t hrun => by
  obtain ⟨-, u, hu, rfl⟩ := deeper_ok.mp hrun
  exact h s.down a u hu

theorem iterate {step : β → Parser (ForInStep β)} (h : ∀ b, Finishes (step b)) (b : β) :
    Finishes (iterate step b) := fun s =>
  iterateFor_induction (C := fun _ => Finishes) .pure (fun b _ hrest => (h b).bind hrest) s.rest b s

end Finishes

theorem endsWell_next (hs : s.kind.isInner = false) : EndsWell s s.next := by
  cases hrest : s.rest with
  | nil => exact .inl (by simp [State.next, hrest])
  | cons x ts =>
    rw [State.kind, hrest] at hs
    exact .inr ⟨[], x, by simp [State.next, hrest], hs⟩

theorem finishes_accept (hk : kind.isInner = false) : Finishes (accept kind) := fun s a t h => by
  rcases accept_ok h with ⟨-, rfl, rfl⟩ | ⟨-, -, rfl⟩
  · exact endsWell_next hk
  · exact .refl _

/-- A sign that is read may be any if more is read behind it. -/
theorem Finishes.accept_bind {f : Bool → Parser β} (hk : kind ≠ .eof) (hr : Reads (f true))
    (ht : Finishes (f true)) (hf : Finishes (f false)) : Finishes (accept kind >>= f) :=
  fun s b u h => by
    obtain ⟨a, t, ha, hb⟩ := bind_ok.mp h
    have hadv := (reads_accept hk).advances_ok ha
    rcases accept_ok ha with ⟨rfl, -, -⟩ | ⟨rfl, -, rfl⟩
    · exact .of_shorter hadv (ht t b u hb) (hr.shorter hb)
    · exact hf t b u hb

theorem finishes_expectAs (what : Expectation) (hk : kind.isInner = false) :
    Finishes (expectAs what kind) := fun s a t h => by
  rw [run_expectAs] at h
  split at h
  · rename_i x ts hrest
    split at h
    · rename_i hkind
      cases h
      have hs : s.kind = kind := by rw [State.kind, hrest]; exact hkind
      exact endsWell_next (hs ▸ hk)
    · cases h
  · cases h

theorem finishes_expect (hk : kind.isInner = false) : Finishes (expect kind) :=
  (finishes_expectAs _ hk).bind fun _ => .pure _

theorem finishes_word (word : Keyword) : Finishes (expectWord word) := finishes_expect rfl

theorem finishes_identifier : Finishes identifier := finishes_expectAs _ rfl

theorem finishes_located (start : Span) (a : α) : Finishes (located start a) := .look fun _ => ⟨_, rfl⟩

theorem finishes_here : Finishes here := .look fun _ => ⟨_, rfl⟩

theorem finishes_peek : Finishes peek := .look fun s => ⟨_, run_peek s⟩

theorem finishes_nextIs (kind : TokenKind) : Finishes (nextIs kind) :=
  .look fun s => ⟨_, run_nextIs kind s⟩

theorem finishes_nextAre (first second : TokenKind) : Finishes (nextAre first second) :=
  .look fun s => ⟨_, run_nextAre first second s⟩

theorem finishes_nextOnLine (kind : TokenKind) : Finishes (nextOnLine kind) :=
  .look fun s => ⟨_, run_nextOnLine kind s⟩

-- ---------------------------------------------------------------------------
-- Lists
-- ---------------------------------------------------------------------------

theorem finishes_listRound (h : Finishes p) (items : Array α) : Finishes (listRound p items) :=
  h.bind fun _ => (finishes_accept rfl).bind fun _ => .ite (.pure _) (.pure _)

theorem finishes_listOf (h : Finishes p) : Finishes (listOf p) :=
  (Finishes.iterate (finishes_listRound h) _).bind fun _ => .pure _

theorem finishes_close {items : α} (hk : kind.isInner = false) :
    Finishes (do expect kind; return items) :=
  (finishes_expect hk).bind fun _ => .pure _

theorem finishes_listUntil {close : TokenKind} (hk : close.isInner = false) (h : Reads p) :
    Finishes (listUntil close p) :=
  .bind_reads ((rounds_listUntilRound close h).moves _)
    (fun _ => (reads_expect close).bind fun _ => moves_pure _) fun _ => finishes_close hk

-- ---------------------------------------------------------------------------
-- Types
-- ---------------------------------------------------------------------------

section
variable {type : Parser (Located Ty)} (hr : Reads type) (h : Finishes type)
include hr h

omit hr in
theorem finishes_typeArgs : Finishes (typeArgs type) := by
  refine (finishes_accept rfl).bind fun _ => .ite ?_ (.pure _)
  exact (finishes_listOf h).bind fun _ => finishes_close rfl

theorem finishes_memberRound (parent : UserType) : Finishes (memberRound type parent) := by
  refine (finishes_nextAre _ _).bind fun _ => .ite ?_ (.pure _)
  refine .bind_reads (reads_expect _).toMoves (fun _ => ?_) fun _ => ?_
  · exact reads_identifier.bind fun _ => (moves_typeArgs hr).bind fun _ => moves_pure _
  · exact finishes_identifier.bind fun _ => (finishes_typeArgs h).bind fun _ => .pure _

theorem finishes_userType : Finishes (userType type) :=
  finishes_identifier.bind fun _ => (finishes_typeArgs h).bind fun _ =>
    .iterate (finishes_memberRound hr h) _

theorem finishes_functionType (receiver : Option (Located Ty)) :
    Finishes (functionType type receiver) := by
  refine Finishes.bind ?_ fun _ => (finishes_expect rfl).bind fun _ => ?_
  · cases receiver with
    | none => exact finishes_here
    | some receiver => exact .pure _
  · refine (finishes_listUntil rfl (reads_typeParam hr)).bind fun _ => ?_
    refine (finishes_accept rfl).bind fun _ => .ite ?_ ?_
    · exact h.bind fun _ => finishes_located _ _
    · split
      · exact .pure _
      · exact finishes_here.bind fun _ => .fail

theorem finishes_namedType (start : Span) : Finishes (namedType type start) := by
  refine (finishes_userType hr h).bind fun _ => (finishes_located _ _).bind fun _ => ?_
  refine (finishes_nextAre _ _).bind fun _ => .ite ?_ (.pure _)
  exact .bind_reads (reads_expect _).toMoves (fun _ => reads_functionType hr _) fun _ =>
    finishes_functionType hr h _

theorem finishes_typeBody : Finishes (typeBody type) := by
  refine finishes_here.bind fun _ => Finishes.bind ?_ fun _ => Finishes.bind ?_ fun _ => ?_
  · refine finishes_peek.bind fun _ => ?_
    split
    · exact finishes_functionType hr h none
    · exact finishes_namedType hr h _
    · exact .unexpected _
  · exact (finishes_accept rfl).bind fun _ => .ite (finishes_located _ _) (.pure _)
  · refine .iterate (fun _ => (finishes_accept rfl).bind fun _ => .ite ?_ (.pure _)) _
    exact (finishes_located _ _).bind fun _ => .pure _

end

theorem finishes_tooDeep : Finishes (do fail .nestingTooDeep (← here) : Parser α) :=
  finishes_here.bind fun _ => .fail

theorem finishes_typeRule (limit levels : Nat) : Finishes (typeRule limit levels) := by
  induction levels with
  | zero => exact finishes_tooDeep
  | succ levels ih => exact (finishes_typeBody (reads_typeRule limit levels) ih).deeper limit

-- ---------------------------------------------------------------------------
-- Functions, properties and statements
-- ---------------------------------------------------------------------------

structure RulesFinish (rules : Rules) : Prop where
  reads : RulesRead rules
  type : Finishes rules.type
  expression : Finishes rules.expression
  operand : Finishes rules.operand
  block : Finishes rules.block

theorem finishes_behind {sign : TokenKind} (hs : sign.isInner = false) (h : Finishes p) :
    Finishes (behind sign p) :=
  (finishes_accept hs).bind fun _ => .ite (h.bind fun _ => .pure _) (.pure _)

theorem finishes_binding : Finishes binding := by
  refine finishes_peek.bind fun _ => ?_
  split
  · exact (finishes_word _).bind fun _ => .pure _
  · exact (finishes_word _).bind fun _ => .pure _
  · exact .unexpected _

theorem finishes_detachName (type : Located Ty) : Finishes (detachName type) := by
  unfold detachName
  split
  · exact .pure _
  · exact .fail

section
variable {rules : Rules} (h : RulesFinish rules)
include h

theorem finishes_property (ms : Modifiers) : Finishes (property rules ms) := by
  refine finishes_binding.bind fun _ => finishes_identifier.bind fun _ => ?_
  refine (finishes_behind rfl h.type).bind fun _ => (finishes_behind rfl h.expression).bind fun _ => ?_
  exact .pure _

theorem finishes_functionBody : Finishes (functionBody rules) := by
  refine (finishes_nextIs _).bind fun _ => .ite (h.block.bind fun _ => .pure _) ?_
  refine (finishes_accept rfl).bind fun _ => .ite ?_ (.pure _)
  exact h.expression.bind fun _ => .pure _

theorem finishes_functionName : Finishes (functionName rules) := by
  refine (finishes_nextAre _ _).bind fun _ => .ite (finishes_identifier.bind fun _ => .pure _) ?_
  refine h.type.bind fun type => .accept_bind (by decide)
    (reads_identifier.bind fun _ => moves_pure _) (finishes_identifier.bind fun _ => .pure _)
    (finishes_detachName type)

theorem finishes_function (ms : Modifiers) : Finishes (function rules ms) := by
  refine (finishes_word _).bind fun _ => (finishes_functionName h).bind fun _ => ?_
  refine (finishes_expect rfl).bind fun _ => (finishes_listUntil rfl (reads_param h.reads)).bind fun _ => ?_
  refine (finishes_behind rfl h.type).bind fun _ => (finishes_functionBody h).bind fun _ => ?_
  exact .pure _

theorem finishes_localAfter (ms : Modifiers) : Finishes (localAfter rules ms) := by
  refine finishes_peek.bind fun _ => ?_
  split
  · exact (finishes_function h ms).bind fun _ => .pure _
  · exact (finishes_property h ms).bind fun _ => .pure _
  · exact (finishes_property h ms).bind fun _ => .pure _
  · exact .unexpected _

theorem finishes_simpleStatement : Finishes (simpleStatement rules) := by
  refine finishes_peek.bind fun _ => ?_
  split
  case h_8 => exact h.expression.bind fun _ => .pure _
  all_goals exact .bind_reads (moves_modifiers h.reads) (reads_localAfter h.reads) (finishes_localAfter h)

theorem finishes_bodyOf {statement : Parser (Located Statement)} (hs : Finishes statement) :
    Finishes (bodyOf rules statement) :=
  (finishes_nextIs _).bind fun _ => .ite h.block (hs.bind fun _ => .pure _)

theorem finishes_whileLoop {statement : Parser (Located Statement)} (hs : Finishes statement) :
    Finishes (whileLoop rules statement) := by
  refine (finishes_word _).bind fun _ => (finishes_expect rfl).bind fun _ => ?_
  refine h.expression.bind fun _ => (finishes_expect rfl).bind fun _ => ?_
  exact (finishes_bodyOf h hs).bind fun _ => .pure _

theorem finishes_statementWith {statement : Parser (Located Statement)} (hs : Finishes statement) :
    Finishes (statementWith rules statement) :=
  finishes_here.bind fun _ => Finishes.bind ((finishes_nextIs _).bind fun _ =>
    .ite (finishes_whileLoop h hs) (finishes_simpleStatement h)) fun _ => finishes_located _ _

theorem finishes_statement : Finishes (statement rules) := by
  have hfor (bound : List Terminal) : Finishes (statementFor rules bound) := by
    induction bound with
    | nil => exact finishes_statementWith h (.unexpected _)
    | cons _ bound ih => exact finishes_statementWith h ih
  exact fun s => hfor s.rest s

theorem finishes_body : Finishes (body rules) := finishes_bodyOf h (finishes_statement h)

theorem finishes_blockBody : Finishes (blockBody rules) := by
  refine finishes_here.bind fun _ => (finishes_expect rfl).bind fun _ => ?_
  refine .bind_reads (moves_sequenceOf true (reads_statement h.reads).toMoves)
    (fun _ => (reads_expect _).bind fun _ => moves_located _ _) fun _ => ?_
  exact (finishes_expect rfl).bind fun _ => finishes_located _ _

-- ---------------------------------------------------------------------------
-- Expressions
-- ---------------------------------------------------------------------------

/-- A semicolon is skipped only in front of a branch, which is read then. -/
theorem finishes_elseBranch :
    Finishes (skipBeforeElse >>= fun _ => behind (.keyword .elseWord) (body rules)) := by
  intro s b u hrun
  obtain ⟨_, t, hskip, hbranch⟩ := bind_ok.mp hrun
  have hinner : (TokenKind.keyword .elseWord).isInner = false := rfl
  have hfinish := finishes_behind hinner (finishes_body h) t b u hbranch
  unfold skipBeforeElse at hskip
  rw [run_bind_ok (run_nextAre _ _ s)] at hskip
  split at hskip
  · rename_i hnext
    obtain ⟨hkind, hsecond⟩ := of_decide_eq_true hnext
    obtain ⟨x, ts, hs⟩ := State.rest_of_kind hkind (by decide)
    rw [run_expect (by decide), if_pos hkind] at hskip
    obtain ⟨-, ht⟩ := Prod.mk.inj hskip
    have hword : t.kind = .keyword .elseWord := by
      rw [← ht, State.next_of_cons hs]
      rw [State.second, hs] at hsecond
      cases ts with
      | nil => cases hsecond
      | cons y ts => exact hsecond
    refine .of_shorter (ht ▸ s.advances_next) hfinish ?_
    obtain ⟨read, v, hread, hrest⟩ := bind_ok.mp hbranch
    rw [run_accept, if_pos hword] at hread
    cases hread
    obtain ⟨y, us, hy⟩ := State.rest_of_kind hword (by decide)
    have hmoves : Moves (do return some (← body rules)) :=
      (reads_body h.reads).toMoves.bind fun _ => moves_pure _
    exact Nat.lt_of_le_of_lt (hmoves.advances_ok hrest).length_le (State.length_next hy)
  · cases hskip
    exact hfinish

theorem finishes_conditional : Finishes (conditional rules) := by
  refine (finishes_word _).bind fun _ => (finishes_expect rfl).bind fun _ => ?_
  refine h.expression.bind fun _ => (finishes_expect rfl).bind fun _ => ?_
  refine (finishes_body h).bind fun _ s e t hrun => ?_
  obtain ⟨_, u, hskip, hrest⟩ := bind_ok.mp hrun
  obtain ⟨b, v, hbranch, hend⟩ := bind_ok.mp hrest
  cases hend
  exact finishes_elseBranch h s b t (bind_ok.mpr ⟨_, u, hskip, hbranch⟩)

theorem finishes_whenCase : Finishes (whenCase rules) := by
  refine finishes_here.bind fun _ => (finishes_accept rfl).bind fun _ => .ite ?_ ?_
  · refine (finishes_expect rfl).bind fun _ => (finishes_body h).bind fun _ => ?_
    exact finishes_located _ _
  · refine (finishes_listOf h.expression).bind fun _ => (finishes_expect rfl).bind fun _ => ?_
    exact (finishes_body h).bind fun _ => finishes_located _ _

theorem finishes_closeGroup : Finishes (closeGroup rules) :=
  h.expression.bind fun _ => finishes_close rfl

theorem finishes_whenChoice : Finishes (whenChoice rules) := by
  refine (finishes_word _).bind fun _ => (finishes_behind rfl (finishes_closeGroup h)).bind fun _ => ?_
  refine (finishes_expect rfl).bind fun _ => ?_
  exact .bind_reads (moves_sequenceOf true (reads_whenCase h.reads).toMoves)
    (fun _ => (reads_expect _).bind fun _ => moves_pure _) fun _ => finishes_close rfl

theorem finishes_atom : Finishes (atom rules) := by
  refine finishes_peek.bind fun _ => ?_
  split
  · exact (finishes_expectAs _ rfl).bind fun _ => .pure _
  · exact (finishes_expectAs _ rfl).bind fun _ => .pure _
  · exact (finishes_expectAs _ rfl).bind fun _ => .pure _
  · exact (finishes_word _).bind fun _ => .pure _
  · exact (finishes_expect rfl).bind fun _ => (finishes_closeGroup h).bind fun _ => .pure _
  · refine (finishes_expect rfl).bind fun _ => ?_
    exact (finishes_listUntil rfl h.reads.expression).bind fun _ => .pure _
  · exact h.block.bind fun _ => .pure _
  · exact finishes_conditional h
  · exact finishes_whenChoice h
  · exact .unexpected _

theorem finishes_arguments : Finishes (arguments rules) :=
  (finishes_expect rfl).bind fun _ => finishes_listUntil rfl (reads_argument h.reads)

theorem finishes_callArguments : Finishes (callArguments rules) := by
  refine (finishes_arguments h).bind fun _ => (finishes_nextOnLine _).bind fun _ => .ite ?_ (.pure _)
  exact (h.block.bind fun _ => .pure _).bind fun _ => .pure _

theorem finishes_suffix? (target : Located Expr) : Finishes (suffix? rules target) := by
  refine (finishes_nextOnLine _).bind fun _ => .ite ?_ ?_
  · exact (finishes_callArguments h).bind fun _ => .pure _
  refine (finishes_nextOnLine _).bind fun _ => .ite ?_ ?_
  · exact (h.block.bind fun _ => .pure _).bind fun _ => .pure _
  refine (finishes_nextOnLine _).bind fun _ => .ite ?_ ?_
  · refine (finishes_expect rfl).bind fun _ => Finishes.bind ?_ fun _ => .pure _
    exact h.expression.bind fun _ => finishes_close rfl
  · exact .accept_bind (by decide) (reads_identifier.bind fun _ => moves_pure _)
      (finishes_identifier.bind fun _ => .pure _) (.pure _)

theorem finishes_suffixed : Finishes (suffixed rules) := by
  refine finishes_here.bind fun _ => (finishes_atom h).bind fun _ => (finishes_located _ _).bind fun _ => ?_
  refine .iterate (fun target => (finishes_suffix? h target).bind fun node => ?_) _
  cases node with
  | none => exact .pure _
  | some node => exact (finishes_located _ _).bind fun _ => .pure _

theorem finishes_unary : Finishes (unary rules) := by
  refine finishes_here.bind fun _ => (finishes_accept rfl).bind fun _ => .ite ?_ (finishes_suffixed h)
  exact h.operand.bind fun _ => finishes_located _ _

omit h in
theorem finishes_chain {operand : Parser (Located Expr)} (p : Precedence) (hr : Reads operand)
    (ho : Finishes operand) : Finishes (chain p operand) := by
  refine finishes_here.bind fun _ => ho.bind fun _ => .iterate (fun lhs => ?_) _
  intro s r u hrun
  obtain ⟨op, t, hop, hrest⟩ := bind_ok.mp hrun
  have hadv := (readsOn_operator? p).advances_ok hop
  cases op with
  | none =>
    cases hrest
    unfold operator? at hop
    rw [run_bind_ok (run_peek s)] at hop
    split at hop
    · obtain ⟨_, v, -, hop⟩ := bind_ok.mp hop
      cases hop
    · cases hop
      exact .refl _
  | some op =>
    obtain ⟨rhs, v, hrhs, hrest⟩ := bind_ok.mp hrest
    cases hrest
    exact .of_shorter hadv (ho t rhs _ hrhs) (hr.shorter hrhs)

theorem finishes_binary : Finishes (binary rules) := by
  have hu := reads_unary h.reads
  exact finishes_chain _ (reads_chain _ (reads_chain _ (reads_chain _ hu)))
    (finishes_chain _ (reads_chain _ (reads_chain _ hu))
      (finishes_chain _ (reads_chain _ hu) (finishes_chain _ hu (finishes_unary h))))

theorem finishes_assignment : Finishes (assignment rules) := by
  refine finishes_here.bind fun _ => (finishes_binary h).bind fun _ => ?_
  refine (finishes_nextIs _).bind fun _ => .ite (.ite ?_ .fail) (.pure _)
  exact (finishes_expect rfl).bind fun _ => h.expression.bind fun _ => finishes_located _ _

-- ---------------------------------------------------------------------------
-- Declarations
-- ---------------------------------------------------------------------------

theorem finishes_classDecl (ms : Modifiers) : Finishes (classDecl rules ms) := by
  refine (finishes_word _).bind fun _ => finishes_identifier.bind fun _ => Finishes.bind ?_ fun _ =>
    Finishes.bind ?_ fun _ => .pure _
  · refine finishes_here.bind fun _ => (finishes_accept rfl).bind fun _ => .ite ?_ (.pure _)
    refine (finishes_listUntil rfl (reads_constructorParam h.reads)).bind fun _ => ?_
    exact (finishes_located _ _).bind fun _ => .pure _
  · refine (finishes_accept rfl).bind fun _ => .ite ?_ (.pure _)
    exact .bind_reads (moves_sequenceOf true h.reads.declaration.toMoves)
      (fun _ => (reads_expect _).bind fun _ => moves_pure _) fun _ => finishes_close rfl

theorem finishes_declarationAfter (ms : Modifiers) : Finishes (declarationAfter rules ms) := by
  refine finishes_peek.bind fun _ => ?_
  split
  · exact (finishes_function h ms).bind fun _ => .pure _
  · exact (finishes_classDecl h ms).bind fun _ => .pure _
  · exact (finishes_property h ms).bind fun _ => .pure _
  · exact (finishes_property h ms).bind fun _ => .pure _
  · exact .unexpected _

theorem finishes_declarationBody : Finishes (declarationBody rules) := by
  refine finishes_here.bind fun _ => Finishes.bind ?_ fun _ => finishes_located _ _
  refine (finishes_nextIs _).bind fun _ => .ite ?_ ?_
  · refine Finishes.bind ?_ fun _ => .pure _
    refine finishes_here.bind fun _ => (finishes_expect rfl).bind fun _ => ?_
    exact (finishes_suffixed h).bind fun _ => .ite (.pure _) .fail
  · exact .bind_reads (moves_modifiers h.reads) (reads_declarationAfter h.reads)
      (finishes_declarationAfter h)

end

theorem rulesFinish_grammar (limit levels : Nat) : RulesFinish (grammar limit levels) := by
  induction levels with
  | zero =>
    exact ⟨rulesRead_grammar limit 0, finishes_typeRule limit 0, finishes_tooDeep, finishes_tooDeep,
      finishes_tooDeep⟩
  | succ levels ih =>
    exact
      { reads := rulesRead_grammar limit (levels + 1)
        type := finishes_typeRule limit (levels + 1)
        expression := (finishes_assignment ih).deeper limit
        operand := (finishes_unary ih).deeper limit
        block := (finishes_blockBody ih).deeper limit }

theorem finishes_declaration (limit levels : Nat) :
    Finishes (grammar limit levels).declaration := by
  cases levels with
  | zero => exact finishes_tooDeep
  | succ levels => exact (finishes_declarationBody (rulesFinish_grammar limit levels)).deeper limit

-- ---------------------------------------------------------------------------
-- The spans of items
-- ---------------------------------------------------------------------------

/-- What the parser answers covers what it has read. -/
def Covers (p : Parser (Located α)) : Prop :=
  ∀ s a t, p.run s = (.ok a, t) → a.span = s.here.merge t.previous

/-- What covers the tokens that it has read ends with the last of them, if they end one behind the other. -/
theorem Covers.stop_eq {p : Parser (Located α)} {s t : State} {a : Located α} (hc : Covers p) (hr : Reads p)
    (hs : s.rest.Pairwise fun x y => x.token.span.stop ≤ y.token.span.stop)
    (h : p.run s = (.ok a, t)) : a.span.stop = t.previous.stop := by
  obtain ⟨ws, x, hrest, hprevious⟩ := hr.split h
  rw [hrest, List.pairwise_append] at hs
  have hle : s.here.stop ≤ x.token.span.stop := by
    cases ws with
    | nil => simp [State.here, hrest]
    | cons w ws =>
      have := hs.2.2 w List.mem_cons_self x List.mem_cons_self
      simpa [State.here, hrest] using this
  rw [hc s a t h, hprevious]
  exact Nat.max_eq_right hle

theorem covers_here (p : Parser α) :
    Covers (do let start ← here; located start (← p)) := fun s a t hrun => by
  rw [run_bind_ok (run_here s)] at hrun
  obtain ⟨node, u, -, hu⟩ := bind_ok.mp hrun
  cases hu
  rfl

theorem Covers.deeper {p : Parser (Located α)} (limit : Nat) (h : Covers p) :
    Covers (deeper limit p) := fun s a t hrun => by
  obtain ⟨-, u, hu, rfl⟩ := deeper_ok.mp hrun
  exact h s.down a u hu

section
variable {rules : Rules}

theorem covers_statement : Covers (statement rules) := fun s a t hrun => by
  have hfor : (statementFor rules s.rest).run s = (.ok a, t) := hrun
  cases hs : s.rest with
  | nil => exact covers_here _ s a t (hs ▸ hfor)
  | cons x xs => exact covers_here _ s a t (hs ▸ hfor)

theorem covers_blockBody : Covers (blockBody rules) := fun s a t hrun => by
  unfold blockBody at hrun
  rw [run_bind_ok (run_here s)] at hrun
  obtain ⟨_, u, -, hrun⟩ := bind_ok.mp hrun
  obtain ⟨_, v, -, hrun⟩ := bind_ok.mp hrun
  obtain ⟨_, w, -, hrun⟩ := bind_ok.mp hrun
  cases hrun
  rfl

theorem covers_bodyOf {statement : Parser (Located Statement)} (hb : Covers rules.block)
    (hs : Covers statement) : Covers (bodyOf rules statement) := fun s a t hrun => by
  unfold bodyOf at hrun
  rw [run_bind_ok (run_nextIs _ s)] at hrun
  split at hrun
  · exact hb s a t hrun
  · obtain ⟨node, u, hnode, hrun⟩ := bind_ok.mp hrun
    cases hrun
    exact hs s node _ hnode

theorem covers_whenCase : Covers (whenCase rules) := fun s a t hrun => by
  unfold whenCase at hrun
  rw [run_bind_ok (run_here s)] at hrun
  obtain ⟨other, u, -, hrun⟩ := bind_ok.mp hrun
  split at hrun
  · obtain ⟨_, v, -, hrun⟩ := bind_ok.mp hrun
    obtain ⟨_, w, -, hrun⟩ := bind_ok.mp hrun
    cases hrun
    rfl
  · obtain ⟨_, v, -, hrun⟩ := bind_ok.mp hrun
    obtain ⟨_, w, -, hrun⟩ := bind_ok.mp hrun
    obtain ⟨_, x, -, hrun⟩ := bind_ok.mp hrun
    cases hrun
    rfl

end

theorem covers_block (limit levels : Nat) : Covers (grammar limit levels).block := by
  cases levels with
  | zero => exact fun s a t hrun => by cases hrun
  | succ levels => exact covers_blockBody.deeper limit

theorem covers_declaration (limit levels : Nat) : Covers (grammar limit levels).declaration := by
  cases levels with
  | zero => exact fun s d t hrun => by cases hrun
  | succ levels => exact (covers_here (declarationNode (grammar limit levels))).deeper limit

end Parser

end Linewise
