import Linewise.Proofs.Parsing.Atoms
import Linewise.Proofs.Parsing.FaultOrder

/-!
# The grammar reports in turn

Types report nothing. Every other production is in turn, also where it fails with the span of a node that it
has read: an expression that cannot be assigned to, one behind `#` that is no call, and a type in the place of
a function's name. The nodes end with the token read last, or in front of the parenthesis behind them.
-/

namespace Linewise.Parser

variable {α β : Type} {p : Parser α} {size : Nat} {s t : State} {start : Span}

-- ---------------------------------------------------------------------------
-- Types
-- ---------------------------------------------------------------------------

section
variable {type : Parser (Located Ty)} {ty : Located Ty}

theorem mute_typeArgs (h : Mute type) : Mute (typeArgs type) := by
  refine (mute_accept (by decide)).bind fun _ => .ite ?_ (mute_pure _)
  exact (mute_listOf h).bind fun _ => (mute_expect _).bind fun _ => mute_pure _

theorem mute_userType (h : Mute type) : Mute (userType type) := by
  refine mute_identifier.bind fun _ => (mute_typeArgs h).bind fun _ => .iterate (fun parent => ?_) _
  refine (mute_nextAre _ _).bind fun _ => .ite ?_ (mute_pure _)
  refine (mute_expect _).bind fun _ => mute_identifier.bind fun _ => ?_
  exact (mute_typeArgs h).bind fun _ => mute_pure _

theorem mute_functionType (h : Mute type) (receiver : Option (Located Ty)) :
    Mute (functionType type receiver) := by
  have hstart : Mute (startOf receiver) := by
    cases receiver with
    | none => exact mute_here
    | some r => exact mute_pure _
  refine hstart.bind fun _ => (mute_expect _).bind fun _ => ?_
  refine (mute_listUntil _ ((mute_label? _).bind fun _ => h.bind fun _ => mute_pure _)).bind fun _ => ?_
  refine (mute_accept (by decide)).bind fun _ => .ite (h.bind fun _ => mute_located _ _) ?_
  split
  · exact mute_pure _
  · exact mute_failHere rfl

theorem mute_namedType (h : Mute type) (start : Span) : Mute (namedType type start) := by
  refine (mute_userType h).bind fun _ => (mute_located _ _).bind fun _ => ?_
  refine (mute_nextAre _ _).bind fun _ => .ite ?_ (mute_pure _)
  exact (mute_expect _).bind fun _ => mute_functionType h _

theorem mute_plainType (h : Mute type) (start : Span) : Mute (plainType type start) := by
  refine mute_peek.bind fun kind => ?_
  split
  · exact mute_functionType h none
  · exact mute_namedType h start
  · exact mute_unexpected _

theorem mute_nullable (start : Span) (plain : Located Ty) : Mute (nullable start plain) :=
  (mute_accept (by decide)).bind fun _ => .ite (mute_located _ _) (mute_pure _)

theorem mute_pointerRound (start : Span) (inner : Located Ty) : Mute (pointerRound start inner) :=
  (mute_accept (by decide)).bind fun _ =>
    .ite ((mute_located _ _).bind fun _ => mute_pure _) (mute_pure _)

theorem mute_typeBody (h : Mute type) : Mute (typeBody type) := by
  refine mute_here.bind fun start => (mute_plainType h start).bind fun plain => ?_
  exact (mute_nullable start plain).bind fun base => .iterate (mute_pointerRound start) base

theorem mute_typeRule (limit levels : Nat) : Mute (typeRule limit levels) := by
  induction levels with
  | zero => exact mute_failHere rfl
  | succ levels ih => exact (mute_typeBody ih).deeper limit

theorem fits_param {params : List (Option String × Located Ty)} {param : Option String × Located Ty}
    (hr : Reads type) (hm : Mute type) (he : Ends type) (hs : s.Ready size)
    (h : (listUntil .rightParen (typeParam type)).run s = (.ok params, t)) (hp : param ∈ params) :
    t.Fits size param.2.span := by
  have hfaults := (mute_listUntil _ ((mute_label? _).bind fun _ => hm.bind fun _ => mute_pure _)).faults
    s _ t h
  obtain ⟨u, v, hsu, hparam, hvt⟩ := mem_listUntil (reads_typeParam hr) h hp
  have huv := (reads_typeParam hr).advances_ok hparam
  have hu : u.Ready size := hs.advance hsu (faults_between hsu (huv.trans hvt) hfaults)
  obtain ⟨name, w, hname, hparam⟩ := bind_ok.mp hparam
  obtain ⟨ty, x, hty, hparam⟩ := bind_ok.mp hparam
  cases hparam
  refine (he size w ty v ((mute_label? _).inTurn.ready hu hname) hty).advance hvt ?_
  rw [hfaults, faults_between (hsu.trans huv) hvt hfaults]

theorem fits_functionType (hr : Reads type) (hm : Mute type) (he : Ends type) {receiver : Option (Located Ty)}
    (hs : s.Ready size) (hb : ∀ r, receiver = some r → State.Began r.span s)
    (h : (functionType type receiver).run s = (.ok ty, t)) : t.Fits size ty.span := by
  unfold functionType at h
  obtain ⟨start, u, hstart, hrun⟩ := bind_ok.mp h
  clear h
  have hbegan : u = s ∧ State.Began start s := by
    cases receiver with
    | none => cases hstart; exact ⟨rfl, hs.began⟩
    | some r => cases hstart; exact ⟨rfl, hb r rfl⟩
  obtain ⟨rfl, hbegan⟩ := hbegan
  obtain ⟨_, t₁, hopen, h⟩ := bind_ok.mp hrun
  obtain ⟨params, t₂, hparams, h⟩ := bind_ok.mp h
  obtain ⟨arrow, t₃, harrow, h⟩ := bind_ok.mp h
  have h₁ := (mute_expect _).inTurn.ready hs hopen
  have hlist := reads_listUntil .rightParen (reads_typeParam hr)
  have hmute : Mute (listUntil .rightParen (typeParam type)) :=
    mute_listUntil _ ((mute_label? _).bind fun _ => hm.bind fun _ => mute_pure _)
  have h₂ := hmute.inTurn.ready h₁ hparams
  have harrow' : Mute (accept .arrow) := mute_accept (by decide)
  split at h
  · obtain ⟨result, t₄, hresult, h⟩ := bind_ok.mp h
    cases h
    have hsettled := hm.inTurn.settled hr (harrow'.inTurn.ready h₂ harrow) hresult
    have hadv := (((reads_expect _).advances_ok hopen).trans (hlist.advances_ok hparams)).trans
      (harrow'.advances_ok harrow)
    exact hsettled.fits (hbegan.advance hs.line (hadv.trans (hr.advances_ok hresult)))
  · split at h
    · cases h
      have hinner := fits_param hr hm he h₁ hparams List.mem_cons_self
      exact hinner.advance (harrow'.advances_ok harrow) (harrow'.faults _ _ _ harrow)
    · cases h

theorem fits_plainType (hr : Reads type) (hm : Mute type) (he : Ends type) (hs : s.Ready size)
    (h : (plainType type s.here).run s = (.ok ty, t)) : t.Fits size ty.span := by
  unfold plainType at h
  rw [run_bind_ok (run_peek s)] at h
  split at h
  · exact fits_functionType hr hm he hs (by nofun) h
  · unfold namedType at h
    obtain ⟨user, t₁, huser, h⟩ := bind_ok.mp h
    obtain ⟨named, t₂, hnamed, h⟩ := bind_ok.mp h
    cases hnamed
    have hsettled := (mute_userType hm).inTurn.settled (reads_userType hr) hs huser
    have hfits := hsettled.fits (hs.began.advance hs.line ((reads_userType hr).advances_ok huser))
    rw [run_bind_ok (run_nextAre _ _ t₁)] at h
    split at h
    · obtain ⟨_, t₃, hdot, h⟩ := bind_ok.mp h
      have hready := (mute_expect _).inTurn.ready hsettled.ready hdot
      refine fits_functionType hr hm he hready (fun r hr => ?_) h
      cases hr
      exact hfits.began.advance hsettled.line ((reads_expect _).advances_ok hdot)
    · cases h
      exact hfits
  · rw [run_unexpected] at h
    cases h

theorem ends_typeBody (hr : Reads type) (hm : Mute type) (he : Ends type) : Ends (typeBody type) := by
  intro size s ty t hs h
  unfold typeBody at h
  rw [run_bind_ok (run_here s)] at h
  obtain ⟨plain, u, hplain, h⟩ := bind_ok.mp h
  obtain ⟨base, v, hbase, h⟩ := bind_ok.mp h
  have hfits := fits_plainType hr hm he hs hplain
  have hbegan := hs.began.advance hs.line ((reads_plainType hr _).advances_ok hplain)
  have hadv := (moves_nullable s.here plain).advances_ok hbase
  have hbaseFits : v.Fits size base.span := by
    unfold nullable at hbase
    rw [run_bind, run_accept] at hbase
    by_cases hk : u.kind = .question
    · rw [if_pos hk] at hbase
      cases hbase
      obtain ⟨x, ts, hx⟩ := State.rest_of_kind hk (by decide)
      have hnext := (hadv.passes u.faults_next hfits.ready).settled (State.length_next hx)
      exact hnext.fits (hbegan.advance hfits.upto.line hadv)
    · rw [if_neg hk] at hbase
      cases hbase
      exact hfits
  refine fits_iterate (rounds_pointerRound _) (fun a => (mute_pointerRound _ a).inTurn) ?_ hbaseFits
    (hbegan.advance hfits.upto.line hadv) h
  intro inner s r t hround
  unfold pointerRound at hround
  rw [run_bind, run_accept] at hround
  by_cases hk : s.kind = .times
  · rw [if_pos hk] at hround
    cases hround
    exact .inr ⟨_, rfl⟩
  · rw [if_neg hk] at hround
    cases hround
    exact .inl ⟨rfl, rfl⟩

theorem Ends.deeper {p : Parser (Located α)} (limit : Nat) (h : Ends p) : Ends (deeper limit p) := by
  intro size s a t hs hr
  obtain ⟨-, u, hu, rfl⟩ := deeper_ok.mp hr
  have hfits := h size s.down a u (hs.congr rfl rfl) hu
  exact ⟨hfits.upto.congr rfl rfl, hfits.le, hfits.here⟩

theorem ends_typeRule (limit levels : Nat) : Ends (typeRule limit levels) := by
  induction levels with
  | zero => exact fun _ _ _ _ _ h => by cases h
  | succ levels ih =>
    exact (ends_typeBody (reads_typeRule limit levels) (mute_typeRule limit levels) ih).deeper limit

end

-- ---------------------------------------------------------------------------
-- Declarations of properties and functions
-- ---------------------------------------------------------------------------

structure RulesInTurn (rules : Rules) : Prop where
  reads : RulesRead rules
  type : Mute rules.type
  typeEnds : Ends rules.type
  expression : InTurn rules.expression
  operand : InTurn rules.operand
  block : InTurn rules.block
  declaration : InTurn rules.declaration

theorem inTurn_located (start : Span) (a : α) : InTurn (located start a) := (mute_located start a).inTurn

theorem inTurn_behind {sign : TokenKind} (hs : sign ≠ .eof) (h : InTurn p) : InTurn (behind sign p) :=
  (mute_accept hs).andThen fun _ => .ite (h.bind fun _ => inTurn_pure _) (inTurn_pure _)

section
variable {rules : Rules} (h : RulesInTurn rules)
include h

theorem inTurn_arguments : InTurn (arguments rules) := by
  refine (mute_expect _).andThen fun _ => inTurn_listUntil _ ?_
  refine mute_here.andThen fun _ => (mute_label? _).andThen fun _ => ?_
  exact h.expression.bind fun _ => inTurn_located _ _

theorem inTurn_annotated : InTurn (annotated rules) := by
  refine (mute_expect _).andThen fun _ => mute_identifier.andThen fun _ => ?_
  refine (mute_nextOnLine _).andThen fun _ => .ite ?_ (inTurn_pure _)
  exact (inTurn_arguments h).bind fun _ => inTurn_pure _

omit h in
theorem mute_modifier? : Mute modifier? := by
  refine mute_peek.bind fun kind => ?_
  split
  · refine (mute_expect _).bind fun _ => .bind ?_ fun _ => mute_pure _
    refine (mute_accept (by decide)).bind fun _ => .ite ?_ (mute_pure _)
    exact (mute_expectAs _ _).bind fun _ => (mute_expect _).bind fun _ => mute_pure _
  · exact (mute_expect _).bind fun _ => mute_pure _
  · exact (mute_expect _).bind fun _ => mute_pure _
  · exact mute_pure _

theorem inTurn_modifiers : InTurn (modifiers rules) := by
  refine .iterate (fun ms => ?_) _
  rcases ms with ⟨ms, as⟩
  refine mute_here.andThen fun _ => (mute_nextIs _).andThen fun _ => .ite ?_ ?_
  · exact (inTurn_annotated h).bind fun _ => (inTurn_located _ _).bind fun _ => inTurn_pure _
  · refine mute_modifier?.andThen fun m => ?_
    cases m with
    | none => exact inTurn_pure _
    | some m => exact (inTurn_located _ _).bind fun _ => inTurn_pure _

theorem inTurn_property (ms : Modifiers) : InTurn (property rules ms) := by
  have hbinding : Mute binding := by
    refine mute_peek.bind fun kind => ?_
    split
    · exact (mute_expect _).bind fun _ => mute_pure _
    · exact (mute_expect _).bind fun _ => mute_pure _
    · exact mute_unexpected _
  refine hbinding.andThen fun _ => mute_identifier.andThen fun _ => ?_
  refine (inTurn_behind (by decide) h.type.inTurn).bind fun _ => ?_
  exact (inTurn_behind (by decide) h.expression).bind fun _ => inTurn_pure _

/-- The type that is no name is reported as a whole, and nothing has been reported behind it. -/
theorem inTurn_functionName : InTurn (functionName rules) := by
  refine (mute_nextAre _ _).andThen fun _ => .ite ?_ fun size s hs => ?_
  · exact mute_identifier.andThen fun _ => inTurn_pure _
  refine (h.type.inTurn size s hs).bind fun type t htype => ?_
  have hfits := h.typeEnds size s type t hs htype
  have hdot : Mute (accept .dot) := mute_accept (by decide)
  refine (hdot.inTurn size t hfits.ready).bind fun dot u hrun => ?_
  have hu := hfits.advance (hdot.advances_ok hrun) (hdot.faults _ _ _ hrun)
  cases dot with
  | true => exact (mute_identifier.andThen fun _ => inTurn_pure _) size u hu.ready
  | false =>
    rw [if_neg Bool.false_ne_true]
    unfold detachName
    split
    · exact inTurn_pure _ size u hu.ready
    · exact ⟨nofun, fun x v hfail => by cases hfail; exact hu⟩

theorem inTurn_plainParam : InTurn (plainParam rules) := by
  refine mute_identifier.andThen fun _ => (mute_expect _).andThen fun _ => ?_
  exact h.type.andThen fun _ => inTurn_pure _

theorem inTurn_functionBody : InTurn (functionBody rules) := by
  refine (mute_nextIs _).andThen fun _ => .ite (h.block.bind fun _ => inTurn_pure _) ?_
  refine (mute_accept (by decide)).andThen fun _ => .ite ?_ (inTurn_pure _)
  exact h.expression.bind fun _ => inTurn_pure _

theorem inTurn_function (ms : Modifiers) : InTurn (function rules ms) := by
  refine (mute_expect _).andThen fun _ => (inTurn_functionName h).bind fun _ => ?_
  refine (mute_expect _).andThen fun _ => (inTurn_listUntil _ ?_).bind fun _ => ?_
  · exact mute_here.andThen fun _ => (inTurn_plainParam h).bind fun _ => inTurn_located _ _
  · refine (inTurn_behind (by decide) h.type.inTurn).bind fun _ => ?_
    exact (inTurn_functionBody h).bind fun _ => inTurn_pure _

-- ---------------------------------------------------------------------------
-- Statements
-- ---------------------------------------------------------------------------

theorem inTurn_localDeclaration : InTurn (localDeclaration rules) := by
  refine (inTurn_modifiers h).bind fun ms => mute_peek.andThen fun kind => ?_
  split
  · exact (inTurn_function h ms).bind fun _ => inTurn_pure _
  · exact (inTurn_property h ms).bind fun _ => inTurn_pure _
  · exact (inTurn_property h ms).bind fun _ => inTurn_pure _
  · exact (mute_unexpected _).inTurn

theorem inTurn_simpleStatement : InTurn (simpleStatement rules) := by
  refine mute_peek.andThen fun kind => ?_
  split
  all_goals first
    | exact inTurn_localDeclaration h
    | exact h.expression.bind fun _ => inTurn_pure _

variable {statement : Parser (Located Statement)}

theorem inTurn_bodyOf (hs : InTurn statement) : InTurn (bodyOf rules statement) :=
  (mute_nextIs _).andThen fun _ => .ite h.block (hs.bind fun _ => inTurn_pure _)

theorem inTurn_whileLoop (hs : InTurn statement) : InTurn (whileLoop rules statement) := by
  refine (mute_expect _).andThen fun _ => (mute_expect _).andThen fun _ => ?_
  refine h.expression.bind fun _ => (mute_expect _).andThen fun _ => ?_
  exact (inTurn_bodyOf h hs).bind fun _ => inTurn_pure _

theorem inTurn_statementWith (hs : InTurn statement) : InTurn (statementWith rules statement) := by
  refine mute_here.andThen fun _ => .bind ?_ fun _ => inTurn_located _ _
  exact (mute_nextIs _).andThen fun _ => .ite (inTurn_whileLoop h hs) (inTurn_simpleStatement h)

theorem inTurn_statement : InTurn (Parser.statement rules) := by
  suffices hall : ∀ bound, InTurn (statementFor rules bound) from fun size s hs =>
    ⟨(hall s.rest size s hs).passes, (hall s.rest size s hs).fits⟩
  intro bound
  induction bound with
  | nil => exact inTurn_statementWith h (mute_unexpected _).inTurn
  | cons _ bound ih => exact inTurn_statementWith h ih

theorem inTurn_body : InTurn (body rules) := inTurn_bodyOf h (inTurn_statement h)

theorem inTurn_blockBody : InTurn (blockBody rules) :=
  mute_here.andThen fun _ => (mute_expect _).andThen fun _ =>
    inTurn_closed true (inTurn_statement h) fun _ => inTurn_located _ _

-- ---------------------------------------------------------------------------
-- Expressions
-- ---------------------------------------------------------------------------

theorem inTurn_conditional : InTurn (conditional rules) := by
  refine (mute_expect _).andThen fun _ => (mute_expect _).andThen fun _ => ?_
  refine h.expression.bind fun _ => (mute_expect _).andThen fun _ => ?_
  refine (inTurn_body h).bind fun _ => .bind ?_ fun _ => ?_
  · exact (mute_nextAre _ _).andThen fun _ => .ite (mute_expect _).inTurn (inTurn_pure _)
  · exact (inTurn_behind (by decide) (inTurn_body h)).bind fun _ => inTurn_pure _

theorem inTurn_whenCase : InTurn (whenCase rules) := by
  have hbody : InTurn (body rules) := inTurn_body h
  refine mute_here.andThen fun _ => (mute_accept (by decide)).andThen fun _ => .ite ?_ ?_
  · exact (mute_expect _).andThen fun _ => hbody.bind fun _ => inTurn_located _ _
  · refine (inTurn_listOf h.expression).bind fun _ => (mute_expect _).andThen fun _ => ?_
    exact hbody.bind fun _ => inTurn_located _ _

theorem inTurn_closeGroup : InTurn (closeGroup rules) :=
  h.expression.bind fun _ => (mute_expect _).andThen fun _ => inTurn_pure _

theorem inTurn_whenChoice : InTurn (whenChoice rules) := by
  refine (mute_expect _).andThen fun _ => (inTurn_behind (by decide) (inTurn_closeGroup h)).bind fun _ => ?_
  exact (mute_expect _).andThen fun _ => inTurn_closed true (inTurn_whenCase h) fun _ => inTurn_pure _

theorem inTurn_atom : InTurn (atom rules) := by
  refine mute_peek.andThen fun kind => ?_
  split
  · exact (mute_expectAs _ _).andThen fun _ => inTurn_pure _
  · exact (mute_expectAs _ _).andThen fun _ => inTurn_pure _
  · exact (mute_expectAs _ _).andThen fun _ => inTurn_pure _
  · exact (mute_expect _).andThen fun _ => inTurn_pure _
  · exact (mute_expect _).andThen fun _ => (inTurn_closeGroup h).bind fun _ => inTurn_pure _
  · exact (mute_expect _).andThen fun _ => (inTurn_listUntil _ h.expression).bind fun _ => inTurn_pure _
  · exact h.block.bind fun _ => inTurn_pure _
  · exact inTurn_conditional h
  · exact inTurn_whenChoice h
  · exact (mute_unexpected _).inTurn

theorem inTurn_blockArgument : InTurn (blockArgument rules) := h.block.bind fun _ => inTurn_pure _

theorem inTurn_callArguments : InTurn (callArguments rules) := by
  refine (inTurn_arguments h).bind fun _ => (mute_nextOnLine _).andThen fun _ => ?_
  exact .ite ((inTurn_blockArgument h).bind fun _ => inTurn_pure _) (inTurn_pure _)

theorem inTurn_suffix? (target : Located Expr) : InTurn (suffix? rules target) := by
  refine (mute_nextOnLine _).andThen fun _ => .ite ?_ ?_
  · exact (inTurn_callArguments h).bind fun _ => inTurn_pure _
  refine (mute_nextOnLine _).andThen fun _ => .ite ?_ ?_
  · exact (inTurn_blockArgument h).bind fun _ => inTurn_pure _
  refine (mute_nextOnLine _).andThen fun _ => .ite ?_ ?_
  · refine (mute_expect _).andThen fun _ => .bind ?_ fun _ => inTurn_pure _
    exact h.expression.bind fun _ => (mute_expect _).andThen fun _ => inTurn_pure _
  · refine (mute_accept (by decide)).andThen fun _ => .ite ?_ (inTurn_pure _)
    exact mute_identifier.andThen fun _ => inTurn_pure _

theorem inTurn_suffixRound (start : Span) (target : Located Expr) :
    InTurn (suffixRound rules start target) := by
  refine (inTurn_suffix? h target).bind fun node => ?_
  cases node with
  | none => exact inTurn_pure _
  | some node => exact (inTurn_located _ _).bind fun _ => inTurn_pure _

theorem inTurn_suffixed : InTurn (suffixed rules) := by
  refine mute_here.andThen fun start => (inTurn_atom h).bind fun _ => ?_
  exact (inTurn_located _ _).bind fun _ => .iterate (inTurn_suffixRound h start) _

theorem ends_suffixed : Ends (suffixed rules) := by
  intro size s a t hs hrun
  unfold suffixed at hrun
  rw [run_bind_ok (run_here s)] at hrun
  obtain ⟨e, u, hatom, hrun⟩ := bind_ok.mp hrun
  rw [run_bind_ok (run_located _ _ u)] at hrun
  have hsettled := (inTurn_atom h).settled (reads_atom h.reads) hs hatom
  have hbegan := hs.began.advance hs.line ((reads_atom h.reads).advances_ok hatom)
  refine fits_iterate (rounds_suffixRound h.reads _) (inTurn_suffixRound h _) ?_ (hsettled.fits hbegan)
    hbegan hrun
  intro target s r t hround
  obtain ⟨node, u, hsuffix, hrest⟩ := bind_ok.mp hround
  rcases suffix?_ok hsuffix with ⟨rfl, rfl⟩ | ⟨e, rfl, -⟩
  · cases hrest
    exact .inl ⟨rfl, rfl⟩
  · cases hrest
    exact .inr ⟨_, rfl⟩

theorem inTurn_unary : InTurn (unary rules) := by
  refine mute_here.andThen fun _ => (mute_accept (by decide)).andThen fun _ => .ite ?_ (inTurn_suffixed h)
  exact h.operand.bind fun _ => inTurn_located _ _

theorem ends_unary : Ends (unary rules) := by
  intro size s a t hs hrun
  unfold unary at hrun
  rw [run_bind_ok (run_here s), run_bind, run_accept] at hrun
  by_cases hk : s.kind = .hash
  · rw [if_pos hk] at hrun
    obtain ⟨inner, u, hinner, hrun⟩ := bind_ok.mp hrun
    cases hrun
    have hnext := hs.advance s.advances_next s.faults_next
    have hsettled := h.operand.settled h.reads.operand hnext hinner
    have hadv := s.advances_next.trans (h.reads.operand.advances_ok hinner)
    exact hsettled.fits (hs.began.advance hs.line hadv)
  · rw [if_neg hk] at hrun
    exact ends_suffixed h size s a t hs hrun

omit h in
theorem mute_operator? (p : Precedence) : Mute (operator? p) := by
  refine mute_peek.bind fun kind => ?_
  split
  · exact (mute_expect _).bind fun _ => mute_pure _
  · exact mute_pure _

omit h in
theorem inTurn_chainRound {operand : Parser (Located Expr)} (p : Precedence) (ho : InTurn operand)
    (start : Span) (lhs : Located Expr) : InTurn (chainRound p operand start lhs) := by
  refine (mute_operator? p).andThen fun op => ?_
  cases op with
  | none => exact inTurn_pure _
  | some op => exact ho.bind fun _ => (inTurn_located _ _).bind fun _ => inTurn_pure _

omit h in
theorem inTurn_chain {operand : Parser (Located Expr)} (p : Precedence) (ho : InTurn operand) :
    InTurn (chain p operand) :=
  mute_here.andThen fun start => ho.bind fun _ => .iterate (inTurn_chainRound p ho start) _

omit h in
theorem ends_chain {operand : Parser (Located Expr)} (p : Precedence) (hr : Reads operand)
    (ho : InTurn operand) (he : Ends operand) : Ends (chain p operand) := by
  intro size s a t hs hrun
  unfold chain at hrun
  rw [run_bind_ok (run_here s)] at hrun
  obtain ⟨first, u, hfirst, hrun⟩ := bind_ok.mp hrun
  refine fits_iterate (rounds_chainRound p hr _) (inTurn_chainRound p ho _) ?_
    (he size s first u hs hfirst) (hs.began.advance hs.line (hr.advances_ok hfirst)) hrun
  intro lhs s r t hround
  unfold chainRound operator? at hround
  rw [run_bind_assoc, run_bind_ok (run_peek s)] at hround
  split at hround
  · obtain ⟨_, _, hop, hrest⟩ := bind_ok.mp hround
    obtain ⟨_, _, -, hop⟩ := bind_ok.mp hop
    cases hop
    obtain ⟨rhs, _, -, hrest⟩ := bind_ok.mp hrest
    cases hrest
    exact .inr ⟨_, rfl⟩
  · cases hround
    exact .inl ⟨rfl, rfl⟩

theorem inTurn_binary : InTurn (binary rules) :=
  inTurn_chain _ (inTurn_chain _ (inTurn_chain _ (inTurn_chain _ (inTurn_unary h))))

theorem ends_binary : Ends (binary rules) := by
  have hr := reads_unary h.reads
  have hi := inTurn_unary h
  have hfactor := ends_chain .multiplicative hr hi (ends_unary h)
  have hsum := ends_chain .additive (reads_chain _ hr) (inTurn_chain _ hi) hfactor
  have hcomparison := ends_chain .comparison (reads_chain _ (reads_chain _ hr))
    (inTurn_chain _ (inTurn_chain _ hi)) hsum
  exact ends_chain .equality (reads_chain _ (reads_chain _ (reads_chain _ hr)))
    (inTurn_chain _ (inTurn_chain _ (inTurn_chain _ hi))) hcomparison

/-- A target that cannot be assigned to is reported as a whole, after all that is reported inside of it. -/
theorem inTurn_assignment : InTurn (assignment rules) := by
  refine mute_here.andThen fun start size s hs => ?_
  refine (inTurn_binary h size s hs).bind fun target t htarget => ?_
  have hfits := ends_binary h size s target t hs htarget
  refine ((mute_nextIs .assign).inTurn size t hfits.ready).bind fun isAssign u hu => ?_
  rw [run_nextIs] at hu
  obtain ⟨-, rfl⟩ := Prod.mk.inj hu
  have hvalue : InTurn (do
      expect .assign
      let value ← rules.expression
      located start (Expr.assign target value)) :=
    (mute_expect _).andThen fun _ => h.expression.bind fun _ => inTurn_located _ _
  split
  · split
    · exact hvalue size t hfits.ready
    · exact ⟨nofun, fun x v hfail => by cases hfail; exact hfits⟩
  · exact inTurn_pure _ size t hfits.ready

-- ---------------------------------------------------------------------------
-- Declarations
-- ---------------------------------------------------------------------------

/-- What is no call behind `#` is reported with the sign. -/
theorem inTurn_compilerCall : InTurn (compilerCall rules) := by
  intro size s hs
  have hexpect : Mute (expect .hash) := mute_expect _
  refine (mute_here.inTurn size s hs).bind fun hash s' hhash => ?_
  cases hhash
  refine (hexpect.inTurn size s hs).bind fun _ u hu => ?_
  have hready := hexpect.inTurn.ready hs hu
  refine (inTurn_suffixed h size u hready).bind fun call t hcall => ?_
  have hfits := ends_suffixed h size u call t hready hcall
  have hadv := ((reads_expect _).advances_ok hu).trans ((reads_suffixed h.reads).advances_ok hcall)
  split
  · exact inTurn_pure _ size t hfits.ready
  · exact ⟨nofun, fun x v hfail => by cases hfail; exact hfits.merge (hs.began.advance hs.line hadv)⟩

theorem inTurn_constructorParam : InTurn (constructorParam rules) := by
  refine mute_here.andThen fun start => (inTurn_modifiers h).bind fun ms => ?_
  refine mute_peek.andThen fun kind => ?_
  split
  · exact (inTurn_property h ms).bind fun _ => inTurn_located _ _
  · exact (inTurn_property h ms).bind fun _ => inTurn_located _ _
  · exact .ite ((inTurn_plainParam h).bind fun _ => inTurn_located _ _) (mute_unexpected _).inTurn

theorem inTurn_constructor? : InTurn (constructor? rules) := by
  refine mute_here.andThen fun _ => (mute_accept (by decide)).andThen fun _ => .ite ?_ (inTurn_pure _)
  exact (inTurn_listUntil _ (inTurn_constructorParam h)).bind fun _ =>
    (inTurn_located _ _).bind fun _ => inTurn_pure _

theorem inTurn_members : InTurn (members rules) := by
  refine (mute_accept (by decide)).andThen fun _ => .ite ?_ (inTurn_pure _)
  exact inTurn_closed true h.declaration fun _ => inTurn_pure _

theorem inTurn_classDecl (ms : Modifiers) : InTurn (classDecl rules ms) := by
  refine (mute_expect _).andThen fun _ => mute_identifier.andThen fun _ => ?_
  exact (inTurn_constructor? h).bind fun _ => (inTurn_members h).bind fun _ => inTurn_pure _

theorem inTurn_declarationAfter (ms : Modifiers) : InTurn (declarationAfter rules ms) := by
  refine mute_peek.andThen fun kind => ?_
  split
  · exact (inTurn_function h ms).bind fun _ => inTurn_pure _
  · exact (inTurn_classDecl h ms).bind fun _ => inTurn_pure _
  · exact (inTurn_property h ms).bind fun _ => inTurn_pure _
  · exact (inTurn_property h ms).bind fun _ => inTurn_pure _
  · exact (mute_unexpected _).inTurn

theorem inTurn_declarationBody : InTurn (declarationBody rules) := by
  refine mute_here.andThen fun _ => .bind ?_ fun _ => inTurn_located _ _
  refine (mute_nextIs _).andThen fun _ => .ite ?_ ?_
  · exact (inTurn_compilerCall h).bind fun _ => inTurn_pure _
  · exact (inTurn_modifiers h).bind fun ms => inTurn_declarationAfter h ms

end

theorem rulesInTurn_grammar (limit levels : Nat) : RulesInTurn (grammar limit levels) := by
  induction levels with
  | zero =>
    have hfail {α : Type} : InTurn (do fail .nestingTooDeep (← here) : Parser α) :=
      (mute_failHere rfl).inTurn
    exact ⟨rulesRead_grammar limit 0, mute_typeRule limit 0, ends_typeRule limit 0, hfail, hfail, hfail, hfail⟩
  | succ levels ih =>
    exact ⟨rulesRead_grammar limit (levels + 1), mute_typeRule limit (levels + 1),
      ends_typeRule limit (levels + 1), (inTurn_assignment ih).deeper limit,
      (inTurn_unary ih).deeper limit, (inTurn_blockBody ih).deeper limit,
      (inTurn_declarationBody ih).deeper limit⟩

end Linewise.Parser
