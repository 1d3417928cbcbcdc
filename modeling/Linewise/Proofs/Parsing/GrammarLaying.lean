import Linewise.Proofs.Parsing.Laying
import Linewise.Proofs.Parsing.TypeSpans

/-!
# The grammar lays places

Every production lays the places of what it answers, as long as the rules for what nests do. A production
that begins a node is looked at from its first token on.
-/

namespace Linewise.Parser

variable {α β : Type} {p : Parser α} {s t : State} {ts : List Terminal} {begun : Bool} {ps : List Place}
  {start : Span}

theorem Moves.heads (h : Moves p) : Triple (Heads ts start) p fun _ => Heads ts start :=
  fun _ _ _ hs hr => hs.advance (h.advances_ok hr)

theorem Moves.sinceHeads (h : Moves p) : Triple (fun s => Since ts begun ps s ∧ Heads ts start s) p
    fun _ s => Since ts begun ps s ∧ Heads ts start s :=
  h.since.and h.heads

theorem lays_tooDeep [HasPlaces α] : Lays (do fail .nestingTooDeep (← here) : Parser α) :=
  fun _ _ _ => moves_here.since.bind fun _ => .fail

-- ---------------------------------------------------------------------------
-- Types
-- ---------------------------------------------------------------------------

section
variable {type : Parser (Located Ty)} (ht : Reads type) (h : Lays type)
include h

theorem lays_typeArgs : Lays (typeArgs type) := fun _ _ _ => by
  refine (reads_accept (by decide)).toMoves.since.bind fun _ => .ite (fun _ => ?_) fun _ => ?_
  · exact (lays_listOf h _ _ _).bind fun _ => (reads_expect _).toMoves.since.bind fun _ =>
      .pure fun _ hs => hs
  · exact .pure fun _ hs => by simpa using hs

theorem lays_typeParam : Lays (typeParam type) := fun _ _ _ =>
  (moves_label? _).since.bind fun _ => (h _ _ _).bind fun _ => .pure fun _ hs => hs

def BehindSign (ts : List Terminal) (s : State) : Prop :=
  ∀ ws y, ts = ws ++ y :: s.rest → y.token.kind ≠ .dot

omit h in
theorem Since.behindSign {what : Expectation} {kind : TokenKind} {text : String} (hs : Since ts begun ps s)
    (hk : kind ≠ .dot) (hrun : (expectAs what kind).run s = (.ok text, t)) : BehindSign ts t := by
  rintro ws y hts
  obtain ⟨x, hrest, -, hkind, -⟩ := expectAs_ok hrun
  obtain ⟨-, us, hus, -⟩ := hs
  rw [hus, hrest] at hts
  obtain ⟨-, hxy⟩ := List.append_inj' hts rfl
  rw [← (List.cons.inj hxy).1, hkind]
  exact hk

theorem triple_typeArgs :
    Triple (fun s => Since ts begun ps s ∧ BehindSign ts s) (typeArgs type) fun args t =>
      Since ts begun (ps ++ places args) t ∧ BehindSign ts t := by
  rintro s args t ⟨hs, hsign⟩ hrun
  refine ⟨lays_typeArgs h _ _ _ s args t hs hrun, ?_⟩
  cases args with
  | nil =>
    obtain rfl := typeArgs_eq_nil hrun
    exact hsign
  | cons arg args =>
    unfold typeArgs at hrun
    obtain ⟨more, u, hmore, hrun⟩ := bind_ok.mp hrun
    cases more with
    | false => cases hrun
    | true =>
      obtain ⟨read, v, hread, hrun⟩ := bind_ok.mp hrun
      obtain ⟨_, w, hclose, hrun⟩ := bind_ok.mp hrun
      cases hrun
      obtain ⟨_, hclose⟩ := expectAs_of_expect hclose
      have hs' := (reads_accept (by decide)).toMoves.since s true u hs hmore
      exact (lays_listOf h _ _ _ u _ v hs' hread).behindSign (by decide) hclose

/-- A type that ends in a name without arguments ended with a dot and the name, and what is in front of the dot
is its parent. -/
def NamesMember (ts : List Terminal) (user : UserType) (s : State) : Prop :=
  ∀ parent text, user = .member parent text [] → ∃ ws xs dot name, ts = ws ++ s.rest ∧
    EndsInMember ws xs dot name ∧ name.token.text = text ∧ Laid xs (places parent)

/-- A user type has been read since its first token. -/
structure HasRead (ts : List Terminal) (user : UserType) (s : State) : Prop where
  since : Since ts true (places user) s
  sign : BehindSign ts s
  member : NamesMember ts user s

theorem hasRead_memberRound (parent : UserType) :
    Triple (HasRead ts parent) (memberRound type parent) fun r => HasRead ts r.value := by
  intro s r t hs hrun
  unfold memberRound at hrun
  rw [run_bind_ok (run_nextAre _ _ s)] at hrun
  split at hrun
  · obtain ⟨_, t₁, hdot, hrun⟩ := bind_ok.mp hrun
    obtain ⟨text, t₂, hname, hrun⟩ := bind_ok.mp hrun
    obtain ⟨args, t₃, hargs, hrun⟩ := bind_ok.mp hrun
    cases hrun
    have hbehind := hs.since.advance ((reads_expect _).advances_ok hdot)
    have hread := hbehind.advance (reads_identifier.advances_ok hname)
    have hsign := hbehind.behindSign (by decide) hname
    obtain ⟨hlaid, hsign⟩ := triple_typeArgs h t₂ args t ⟨hread, hsign⟩ hargs
    rw [← places_memberType parent text] at hlaid
    refine ⟨hlaid, hsign, fun parent' text' heq => ?_⟩
    cases heq
    obtain rfl := typeArgs_eq_nil hargs
    obtain ⟨_, hdot⟩ := expectAs_of_expect hdot
    obtain ⟨dot, hrest, -, hkind, -⟩ := expectAs_ok hdot
    obtain ⟨name, hrest', -, hkind', rfl⟩ := expectAs_ok hname
    obtain ⟨-, ws, hws, hne, -, hlaid⟩ := hs.since
    refine ⟨ws ++ [dot, name], ws, dot, name, ?_, ⟨rfl, hne rfl, hkind, hkind'⟩, rfl, hlaid⟩
    rw [hws, hrest, hrest', List.append_assoc]
    rfl
  · cases hrun
    exact hs

theorem hasRead_userType :
    Triple (Since ts false []) (userType type) fun user => HasRead ts user := by
  have hname : Triple (Since ts false []) identifier fun _ s => Since ts true [] s ∧ BehindSign ts s :=
    fun s name t hs hrun =>
      ⟨reads_identifier.since s name t hs hrun, hs.behindSign (by decide) hrun⟩
  refine hname.bind fun name => (triple_typeArgs h).bind fun args => ?_
  intro s user t ⟨hs, hsign⟩ hrun
  have hfirst : HasRead ts (.simple name args) s := ⟨by rwa [places_simple], hsign, nofun⟩
  exact Triple.loop (hasRead_memberRound h) _ s user t hfirst hrun

omit h in
theorem triple_locatedUser (hstart : StartsAt ts start) (user : UserType) :
    Triple (HasRead ts user) (located start (Ty.user user)) fun ty t =>
      Since ts true (places ty) t ∧ Heads ts ty.span t := by
  rintro s ty t ⟨hs, hsign, hmember⟩ hrun
  cases hrun
  have hheads := hstart.heads hs
  refine ⟨hheads.place hs fun ws hws hspans hlaid => ?_, hheads.merge hs⟩
  rcases Ty.role_user user with ⟨parent, text, rfl⟩ | hrole
  · obtain ⟨ws', xs, dot, name, hws', hend, rfl, hparent⟩ := hmember _ _ rfl
    obtain rfl := List.append_cancel_right (hws.symm.trans hws')
    rw [places_memberType, places_nil, List.append_nil] at hlaid
    show Place.On ws (.node (.member name.token.text) _ (places (Ty.user _)))
    rw [places_user, places_memberType, places_nil, List.append_nil]
    exact .member List.infix_rfl hspans hend hparent.on hparent.inOrder
  · have hfits : (Ty.user user).role.Fits ws := by
      rw [hrole]
      intro y hy
      obtain ⟨us, rfl⟩ := List.getLast?_eq_some_iff.mp hy
      exact hsign us y (by rw [hws, List.append_assoc]; rfl)
    exact .covering List.infix_rfl hspans hfits hlaid.on hlaid.inOrder

include ht

theorem triple_functionType (receiver : Option (Located Ty)) :
    Triple (fun s => Since ts begun (places receiver) s ∧
        Heads ts ((receiver.map Located.span).getD s.here) s)
      (functionType type receiver) fun ty => Since ts true (places ty) := by
  have hopen : Triple (fun s => Since ts begun (places receiver) s ∧
      Heads ts ((receiver.map Located.span).getD s.here) s) (startOf receiver) fun start s =>
        Since ts begun (places receiver) s ∧ Heads ts start s := by
    rintro s start t hs hrun
    cases receiver <;> cases hrun <;> exact hs
  refine hopen.bind fun start => ?_
  refine ((reads_expect _).since.and (reads_expect _).toMoves.heads).bind fun _ => ?_
  refine ((lays_listUntil _ (lays_typeParam h) _ _ _).and
    (reads_listUntil _ (reads_typeParam ht)).toMoves.heads).bind fun params => ?_
  refine (reads_accept (by decide)).toMoves.sinceHeads.bind fun _ => .ite (fun _ => ?_) fun _ => ?_
  · refine ((h _ _ _).and ht.toMoves.heads).bind fun result => ?_
    rintro s ty t ⟨hs, hheads⟩ hrun
    cases hrun
    refine hheads.place hs fun ws _ hspans hlaid => ?_
    rw [← places_functionType] at hlaid
    exact .covering List.infix_rfl hspans trivial hlaid.on hlaid.inOrder
  · split
    · exact .pure fun _ hs => hs.1
    · exact moves_here.sinceHeads.bind fun _ => .fail

theorem lays_groupedType : Lays (functionType type none) :=
  .of_run true (reads_functionType ht none).toMoves fun s ty t hs hrun =>
    triple_functionType ht h none s ty t ⟨hs, (startsAt_here s).heads hs⟩ hrun

theorem triple_namedType (hstart : StartsAt ts start) :
    Triple (Since ts false []) (namedType type start) fun ty => Since ts true (places ty) := by
  refine (hasRead_userType h).bind fun user => (triple_locatedUser hstart user).bind fun user => ?_
  refine (moves_nextAre _ _).sinceHeads.bind fun _ =>
    .ite (fun _ => ?_) fun _ => .pure fun _ hs => hs.1
  refine (reads_expect _).toMoves.sinceHeads.bind fun _ => ?_
  exact triple_functionType ht h (some user)

theorem triple_plainType (hstart : StartsAt ts start) :
    Triple (Since ts false []) (plainType type start) fun ty => Since ts true (places ty) := by
  refine moves_peek.since.bind fun kind => ?_
  split
  · exact (lays_groupedType ht h).begins (reads_functionType ht none)
  · exact triple_namedType ht h hstart
  · exact .unexpected _

theorem lays_typeBody : Lays (typeBody type) := by
  refine .of_here true (reads_typeBody ht).toMoves fun ts start hstart => ?_
  refine (triple_plainType ht h hstart).bind fun plain => ?_
  refine Triple.bind (Q := fun ty => Since ts true (places ty)) ?_ fun base =>
    Triple.loop (I := fun ty : Located Ty => Since ts true (places ty)) (fun inner => ?_) base
  · refine (reads_accept (by decide)).toMoves.since.bind fun _ =>
      .ite (fun _ => ?_) fun _ => .pure fun _ hs => hs
    exact triple_located hstart (places_nullable plain).symm fun _ => trivial
  · refine (reads_accept (by decide)).toMoves.since.bind fun _ =>
      .ite (fun _ => ?_) fun _ => .pure fun _ hs => hs
    exact (triple_located hstart (places_pointer inner).symm fun _ => trivial).bind fun _ =>
      .pure fun _ hs => hs

end

theorem lays_typeRule (limit levels : Nat) : Lays (typeRule limit levels) := by
  induction levels with
  | zero => exact lays_tooDeep
  | succ levels ih => exact (lays_typeBody (reads_typeRule limit levels) ih).deeper limit

-- ---------------------------------------------------------------------------
-- Declarations of properties and functions
-- ---------------------------------------------------------------------------

structure RulesLay (rules : Rules) : Prop where
  reads : RulesRead rules
  type : Lays rules.type
  expression : Lays rules.expression
  operand : Lays rules.operand
  block : Lays rules.block
  declaration : Lays rules.declaration

theorem lays_behind [HasPlaces α] {sign : TokenKind} (hs : sign ≠ .eof) (h : Lays p) :
    Lays (behind sign p) := fun _ _ _ => by
  refine (reads_accept hs).toMoves.since.bind fun _ => .ite (fun _ => ?_) fun _ => ?_
  · exact (h _ _ _).bind fun _ => .pure fun _ hs => hs
  · exact .pure fun _ hs => by simpa using hs

theorem Since.receiver {type : Located Ty} (h : Since ts begun (ps ++ places type) s) (name : String) :
    Since ts begun (ps ++ receiverPlaces name (some type)) s :=
  h.map fun _ _ hlaid => hlaid.exchange type.node.role_ne_annotated (fun hon => hon.receiver name) rfl

theorem triple_detachName (type : Located Ty) :
    Triple (Since ts begun (ps ++ places type)) (detachName type) fun r =>
      Since ts begun (ps ++ receiverPlaces r.2 r.1) := by
  rcases type with ⟨node, span⟩
  cases node with
  | user user =>
    cases user with
    | simple => exact .fail
    | member parent name args =>
      cases args with
      | nil =>
        refine .pure fun s hs => hs.map fun ws _ hlaid => ?_
        rw [places_located, Located.placeAs, places_user, places_memberType, places_nil,
          List.append_nil] at hlaid
        have hrole := (Ty.user (.member parent name [])).role_ne_annotated
        refine hlaid.exchange hrole (fun hon => ?_) rfl
        rw [Located.placeAs, Ty.received_user]
        exact hon.detach
      | cons => exact .fail
  | nullable => exact .fail
  | pointer => exact .fail
  | function => exact .fail

section
variable {rules : Rules} (h : RulesLay rules)
include h

theorem lays_argument : Lays (argument rules) := by
  refine .of_here true (reads_argument h.reads).toMoves fun ts start hstart => ?_
  refine (moves_label? _).since.bind fun _ => (h.expression.begins h.reads.expression).bind fun _ => ?_
  exact triple_located hstart rfl fun _ => trivial

theorem lays_arguments : Lays (arguments rules) := fun _ _ _ =>
  (reads_expect _).toMoves.since.bind fun _ => lays_listUntil _ (lays_argument h) _ _ _

theorem lays_annotated : Lays (annotated rules) := fun _ _ _ => by
  refine (reads_expect _).toMoves.since.bind fun _ => reads_identifier.toMoves.since.bind fun _ => ?_
  refine (moves_nextOnLine _).since.bind fun _ => .ite (fun _ => ?_) fun _ => ?_
  · exact (lays_arguments h _ _ _).bind fun _ => .pure fun _ hs => by simpa using hs
  · exact .pure fun _ hs => by simpa using hs

/-- Modifiers and annotations have been read since the first of them. -/
def ModifiersRead (ts : List Terminal) (ms : Modifiers) (s : State) : Prop :=
  Since ts false (places ms.modifiers) s ∧ Since ts false (places ms.annotations) s

theorem modifiersRead_round (ms : Modifiers) :
    Triple (ModifiersRead ts ms) (modifierRound rules ms) fun r => ModifiersRead ts r.value := by
  rcases ms with ⟨ms, as⟩
  rintro s r t ⟨hms, has⟩ hrun
  have hadv := (rounds_modifierRound h.reads ⟨ms, as⟩).advances_ok hrun
  have hnone : Since s.rest false [] s := .none (hms.orderly.sublist (by
    obtain ⟨-, ws, hws, -⟩ := hms
    rw [hws]
    exact List.sublist_append_right _ _))
  unfold modifierRound at hrun
  rw [run_bind_ok (run_here s), run_bind_ok (run_nextIs _ s)] at hrun
  split at hrun
  · obtain ⟨a, u, ha, hrun⟩ := bind_ok.mp hrun
    obtain ⟨node, v, hnode, hrun⟩ := bind_ok.mp hrun
    cases hrun
    have hlaid := (lays_annotated h).begins (reads_annotated h.reads) s a u hnone ha
    have hfits (xs : List Terminal) : (HasPlaces.role a).Fits xs := trivial
    have hplace := triple_located (startsAt_here s) rfl hfits u node t hlaid hnode
    refine ⟨hms.advance hadv, ?_⟩
    simpa using has.extend hadv hplace
  · obtain ⟨m, u, hm, hrun⟩ := bind_ok.mp hrun
    cases m with
    | none =>
      cases hrun
      exact ⟨hms.advance hadv, has.advance hadv⟩
    | some m =>
      obtain ⟨node, v, hnode, hrun⟩ := bind_ok.mp hrun
      cases hrun
      have hread := (hnone.advance (readsOn_modifier?.advances_ok hm)).begins
        (readsOn_modifier?.reads s _ u hm rfl)
      have hfits (xs : List Terminal) : (HasPlaces.role m).Fits xs := trivial
      have hplace := triple_located (startsAt_here s) rfl hfits u node t hread hnode
      refine ⟨?_, has.advance hadv⟩
      simpa using hms.extend hadv hplace

theorem lays_modifiers : Lays (modifiers rules) := by
  refine .of_run false (moves_modifiers h.reads) fun s ms t hs hrun => ?_
  obtain ⟨hms, -, ws, hws, -, -, has⟩ := Triple.loop (modifiersRead_round h) _ s ms t ⟨hs, hs⟩ hrun
  obtain ⟨horderly, ws', hws', hbegun, hlast, hlaid⟩ := hms
  obtain rfl := List.append_cancel_right (hws.symm.trans hws')
  refine ⟨horderly, ws, hws, hbegun, hlast, ?_⟩
  rcases ms with ⟨ms, as⟩
  rw [places_modifiers]
  exact hlaid.both has (fun p hp => role_of_mem_places (fun _ => rfl) hp) fun p hp =>
    role_of_mem_places (fun _ => rfl) hp

theorem triple_property (ms : Modifiers) :
    Triple (Since ts begun (ps ++ places ms)) (property rules ms) fun d =>
      Since ts begun (ps ++ places d) := by
  refine reads_binding.toMoves.since.bind fun _ => reads_identifier.toMoves.since.bind fun _ => ?_
  refine (lays_behind (by decide) h.type _ _ _).bind fun type => ?_
  refine (lays_behind (by decide) h.expression _ _ _).bind fun value => .pure fun _ hs => ?_
  simpa using hs

theorem triple_functionName :
    Triple (Since ts begun ps) (functionName rules) fun r =>
      Since ts begun (ps ++ receiverPlaces r.2 r.1) := by
  refine (moves_nextAre _ _).since.bind fun _ => .ite (fun _ => ?_) fun _ => ?_
  · exact reads_identifier.toMoves.since.bind fun _ => .pure fun _ hs => by simpa [receiverPlaces] using hs
  · refine (h.type _ _ _).bind fun type => (reads_accept (by decide)).toMoves.since.bind fun _ =>
      .ite (fun _ => ?_) fun _ => triple_detachName type
    exact reads_identifier.toMoves.since.bind fun name => .pure fun _ hs => hs.receiver name

theorem lays_plainParam : Lays (plainParam rules) := fun _ _ _ => by
  refine reads_identifier.toMoves.since.bind fun _ => (reads_expect _).toMoves.since.bind fun _ => ?_
  exact (h.type _ _ _).bind fun _ => .pure fun _ hs => hs

theorem lays_param : Lays (param rules) := by
  refine .of_here true (reads_param h.reads).toMoves fun ts start hstart => ?_
  refine ((lays_plainParam h).begins (reads_plainParam h.reads)).bind fun _ => ?_
  exact triple_located hstart rfl fun _ => trivial

theorem lays_functionBody : Lays (functionBody rules) := fun _ _ _ => by
  refine (moves_nextIs _).since.bind fun _ => .ite (fun _ => ?_) fun _ => ?_
  · exact (h.block _ _ _).bind fun _ => .pure fun _ hs => hs
  refine (reads_accept (by decide)).toMoves.since.bind fun _ => .ite (fun _ => ?_) fun _ => ?_
  · refine (h.expression _ _ _).bind fun value => .pure fun _ hs => ?_
    rw [places_some, places_single]
    exact hs.wrap rfl
  · exact .pure fun _ hs => by simpa using hs

theorem triple_function (ms : Modifiers) :
    Triple (Since ts begun (ps ++ places ms)) (function rules ms) fun d =>
      Since ts begun (ps ++ places d) := by
  refine (reads_expectWord _).toMoves.since.bind fun _ => (triple_functionName h).bind fun name => ?_
  obtain ⟨receiver, name⟩ := name
  refine (reads_expect _).toMoves.since.bind fun _ => ?_
  refine (lays_listUntil _ (lays_param h) _ _ _).bind fun params => ?_
  refine (lays_behind (by decide) h.type _ _ _).bind fun result => ?_
  refine (lays_functionBody h _ _ _).bind fun body => .pure fun _ hs => ?_
  simpa using hs

-- ---------------------------------------------------------------------------
-- Statements
-- ---------------------------------------------------------------------------

theorem triple_localAfter (ms : Modifiers) :
    Triple (Since ts begun (ps ++ places ms)) (localAfter rules ms) fun a =>
      Since ts begun (ps ++ places a) := by
  refine moves_peek.since.bind fun kind => ?_
  split
  · exact (triple_function h ms).bind fun _ => .pure fun _ hs => hs
  · exact (triple_property h ms).bind fun _ => .pure fun _ hs => hs
  · exact (triple_property h ms).bind fun _ => .pure fun _ hs => hs
  · exact .unexpected _

theorem lays_localDeclaration : Lays (localDeclaration rules) := fun _ _ _ =>
  (lays_modifiers h _ _ _).bind fun ms => triple_localAfter h ms

theorem lays_simpleStatement : Lays (simpleStatement rules) := fun ts begun ps => by
  refine moves_peek.since.bind fun kind => ?_
  split
  all_goals first
    | exact lays_localDeclaration h ts begun ps
    | exact (h.expression _ _ _).bind fun _ => .pure fun _ hs => hs.unwrap rfl

section
variable {statement : Parser (Located Statement)} (hr : Reads statement) (hs : Lays statement)
include hs

theorem lays_bodyOf : Lays (bodyOf rules statement) := fun _ _ _ => by
  refine (moves_nextIs _).since.bind fun _ => .ite (fun _ => h.block _ _ _) fun _ => ?_
  refine (hs _ _ _).bind fun a => .pure fun _ hs => ?_
  rw [places_single]
  exact hs.wrap rfl

theorem lays_whileLoop : Lays (whileLoop rules statement) := fun _ _ _ => by
  refine (reads_expectWord _).toMoves.since.bind fun _ => (reads_expect _).toMoves.since.bind fun _ => ?_
  refine (h.expression _ _ _).bind fun _ => (reads_expect _).toMoves.since.bind fun _ => ?_
  exact (lays_bodyOf h hs _ _ _).bind fun _ => .pure fun _ hs => by simpa using hs

include hr in
theorem lays_statementWith : Lays (statementWith rules statement) := by
  refine .of_here true (reads_statementWith h.reads hr).toMoves fun ts start hstart => ?_
  have hnode : Lays (statementNode rules statement) := fun _ _ _ =>
    (moves_nextIs _).since.bind fun _ =>
      .ite (fun _ => lays_whileLoop h hs _ _ _) fun _ => lays_simpleStatement h _ _ _
  refine (hnode.begins (reads_statementNode h.reads hr)).bind fun _ => ?_
  exact triple_located hstart rfl fun _ => trivial

end

theorem lays_statement : Lays (statement rules) := by
  have hfor (bound : List Terminal) : Lays (statementFor rules bound) := by
    induction bound with
    | nil => exact lays_statementWith h (reads_unexpected _) fun _ _ _ => .unexpected _
    | cons _ bound ih => exact lays_statementWith h (reads_statementFor h.reads bound) ih
  exact fun _ _ _ s => hfor s.rest _ _ _ s

theorem lays_body : Lays (body rules) := lays_bodyOf h (lays_statement h)

theorem lays_blockBody : Lays (blockBody rules) := by
  refine .of_here true (reads_blockBody h.reads).toMoves fun ts start hstart => ?_
  refine (reads_expect _).since.bind fun _ => ?_
  refine (lays_sequenceOf true (reads_statement h.reads).toMoves (lays_statement h) _ _ _).bind fun _ => ?_
  refine (reads_expect _).toMoves.since.bind fun _ => ?_
  exact triple_located hstart (by simp) fun _ => trivial

-- ---------------------------------------------------------------------------
-- Expressions
-- ---------------------------------------------------------------------------

theorem lays_conditional : Lays (conditional rules) := fun _ _ _ => by
  refine (reads_expectWord _).toMoves.since.bind fun _ => (reads_expect _).toMoves.since.bind fun _ => ?_
  refine (h.expression _ _ _).bind fun _ => (reads_expect _).toMoves.since.bind fun _ => ?_
  refine (lays_body h _ _ _).bind fun _ => moves_skipBeforeElse.since.bind fun _ => ?_
  exact (lays_behind (by decide) (lays_body h) _ _ _).bind fun _ => .pure fun _ hs => by simpa using hs

theorem lays_whenCase : Lays (whenCase rules) := by
  refine .of_here true (reads_whenCase h.reads).toMoves fun ts start hstart => ?_
  refine (reads_accept (by decide)).toMoves.since.bind fun _ => .ite (fun _ => ?_) fun _ => ?_
  · refine (reads_expect _).since.bind fun _ => (lays_body h _ _ _).bind fun _ => ?_
    exact triple_located hstart rfl fun _ => trivial
  · refine (lays_listOf h.expression _ _ _).bind fun _ => (reads_expect _).since.bind fun _ => ?_
    refine (lays_body h _ _ _).bind fun _ => ?_
    exact triple_located hstart (by simp) fun _ => trivial

theorem lays_closeGroup : Lays (closeGroup rules) := fun _ _ _ =>
  (h.expression _ _ _).bind fun _ => (reads_expect _).toMoves.since.bind fun _ => .pure fun _ hs => hs

theorem lays_whenChoice : Lays (whenChoice rules) := fun _ _ _ => by
  refine (reads_expectWord _).toMoves.since.bind fun _ => ?_
  refine (lays_behind (by decide) (lays_closeGroup h) _ _ _).bind fun _ => ?_
  refine (reads_expect _).toMoves.since.bind fun _ => ?_
  refine (lays_sequenceOf true (reads_whenCase h.reads).toMoves (lays_whenCase h) _ _ _).bind fun _ => ?_
  exact (reads_expect _).toMoves.since.bind fun _ => .pure fun _ hs => by simpa using hs

theorem lays_atom : Lays (atom rules) := fun ts begun ps => by
  have hword (what : Expectation) (kind : TokenKind) (f : String → Expr)
      (hf : ∀ x, places (f x) = []) : Lays (do return f (← expectAs what kind)) := fun _ _ _ =>
    (reads_expectAs what kind).toMoves.since.bind fun x => .pure fun _ hs => by simpa [hf] using hs
  refine moves_peek.since.bind fun kind => ?_
  split
  · exact hword _ _ _ (fun _ => rfl) ts begun ps
  · exact hword _ _ _ (fun _ => rfl) ts begun ps
  · exact hword _ _ (fun text => .string (StringLiteral.decode text)) (fun _ => rfl) ts begun ps
  · exact (reads_expect _).toMoves.since.bind fun _ => .pure fun _ hs => by simpa using hs
  · exact (reads_expect _).toMoves.since.bind fun _ => (lays_closeGroup h _ _ _).bind fun _ =>
      .pure fun _ hs => hs.unwrap rfl
  · refine (reads_expect _).toMoves.since.bind fun _ => ?_
    exact (lays_listUntil _ h.expression _ _ _).bind fun _ => .pure fun _ hs => by simpa using hs
  · exact (h.block _ _ _).bind fun _ => .pure fun _ hs => hs.unwrap rfl
  · exact lays_conditional h ts begun ps
  · exact lays_whenChoice h ts begun ps
  · exact .unexpected _

theorem lays_blockArgument : Lays (blockArgument rules) := fun _ _ _ =>
  (h.block _ _ _).bind fun _ => .pure fun _ hs => hs.wrap rfl

theorem lays_callArguments : Lays (callArguments rules) := fun _ _ _ => by
  refine (lays_arguments h _ _ _).bind fun _ => (moves_nextOnLine _).since.bind fun _ =>
    .ite (fun _ => ?_) fun _ => .pure fun _ hs => hs
  exact (lays_blockArgument h _ _ _).bind fun _ => .pure fun _ hs => by simpa using hs

theorem lays_closeIndex : Lays (closeIndex rules) := fun _ _ _ =>
  (h.expression _ _ _).bind fun _ => (reads_expect _).toMoves.since.bind fun _ => .pure fun _ hs => hs

omit h in
theorem triple_expression (hstart : StartsAt ts start) {e : Expr} (hps : ps = places e) :
    Triple (Since ts true ps) (located start e) fun e => Since ts true (places e) :=
  triple_located hstart hps fun _ => trivial

theorem triple_suffixRound (hstart : StartsAt ts start) (target : Located Expr) :
    Triple (Since ts true (places target)) (suffixRound rules start target) fun r =>
      Since ts true (places r.value) := by
  refine Triple.bind (Q := fun node => Since ts true ((node.map places).getD (places target))) ?_
    fun node => ?_
  · refine (moves_nextOnLine _).since.bind fun _ => .ite (fun _ => ?_) fun _ => ?_
    · exact (lays_callArguments h _ _ _).bind fun _ => .pure fun _ hs => by simpa using hs
    refine (moves_nextOnLine _).since.bind fun _ => .ite (fun _ => ?_) fun _ => ?_
    · exact (lays_blockArgument h _ _ _).bind fun _ => .pure fun _ hs => by simpa using hs
    refine (moves_nextOnLine _).since.bind fun _ => .ite (fun _ => ?_) fun _ => ?_
    · refine (reads_expect _).toMoves.since.bind fun _ => (lays_closeIndex h _ _ _).bind fun _ => ?_
      exact .pure fun _ hs => by simpa using hs
    refine (reads_accept (by decide)).toMoves.since.bind fun _ =>
      .ite (fun _ => ?_) fun _ => .pure fun _ hs => hs
    exact reads_identifier.toMoves.since.bind fun _ => .pure fun _ hs => by simpa using hs
  · cases node with
    | none => exact .pure fun _ hs => hs
    | some node => exact (triple_expression hstart rfl).bind fun _ => .pure fun _ hs => hs

theorem lays_suffixed : Lays (suffixed rules) := by
  refine .of_here true (reads_suffixed h.reads).toMoves fun ts start hstart => ?_
  refine ((lays_atom h).begins (reads_atom h.reads)).bind fun _ => ?_
  refine (triple_expression hstart rfl).bind fun first => ?_
  exact Triple.loop (triple_suffixRound h hstart) first

theorem lays_unary : Lays (unary rules) := by
  refine .of_here true (reads_unary h.reads).toMoves fun ts start hstart => ?_
  refine (reads_accept (by decide)).toMoves.since.bind fun _ => .ite (fun _ => ?_) fun _ => ?_
  · refine (h.operand.begins h.reads.operand).bind fun _ => ?_
    exact triple_expression hstart rfl
  · exact (lays_suffixed h).begins (reads_suffixed h.reads)

omit h in
theorem lays_chain {operand : Parser (Located Expr)} (p : Precedence) (hr : Reads operand)
    (ho : Lays operand) : Lays (chain p operand) := by
  refine .of_here true (reads_chain p hr).toMoves fun ts start hstart => ?_
  refine (ho.begins hr).bind fun first =>
    Triple.loop (I := fun lhs : Located Expr => Since ts true (places lhs)) (fun lhs => ?_) first
  refine (readsOn_operator? p).toMoves.since.bind fun op => ?_
  cases op with
  | none => exact .pure fun _ hs => hs
  | some op =>
    refine (ho _ _ _).bind fun _ => (triple_expression hstart ?_).bind fun _ => .pure fun _ hs => hs
    rw [places_binary]

theorem lays_binary : Lays (binary rules) := by
  have hunary := reads_unary h.reads
  have hproduct := reads_chain .multiplicative hunary
  have hsum := reads_chain .additive hproduct
  have hcomparison := reads_chain .comparison hsum
  exact lays_chain _ hcomparison <| lays_chain _ hsum <| lays_chain _ hproduct <|
    lays_chain _ hunary <| lays_unary h

theorem lays_assignment : Lays (assignment rules) := by
  refine .of_here true (reads_assignment h.reads).toMoves fun ts start hstart => ?_
  refine ((lays_binary h).begins (reads_binary h.reads)).bind fun target => ?_
  refine (moves_nextIs _).since.bind fun _ => .ite (fun _ => ?_) fun _ => .pure fun _ hs => hs
  refine .ite (fun _ => ?_) fun _ => .fail
  refine (reads_expect _).toMoves.since.bind fun _ => (h.expression _ _ _).bind fun _ => ?_
  exact triple_expression hstart (by simp)

-- ---------------------------------------------------------------------------
-- Declarations
-- ---------------------------------------------------------------------------

theorem lays_compilerCall : Lays (compilerCall rules) := fun _ _ _ => by
  refine moves_here.since.bind fun _ => (reads_expect _).toMoves.since.bind fun _ => ?_
  exact (lays_suffixed h _ _ _).bind fun _ => .ite (fun _ => .pure fun _ hs => hs) fun _ => .fail

theorem lays_constructorParam : Lays (constructorParam rules) := by
  refine .of_here true (reads_constructorParam h.reads).toMoves fun ts start hstart => ?_
  refine (lays_modifiers h _ _ _).bind fun ms => moves_peek.since.bind fun kind => ?_
  have hproperty : Triple (Since ts false ([] ++ places ms)) (do
      let decl ← property rules ms
      located start (ClassParam.property decl)) fun a => Since ts true (places a) :=
    ((reads_property h.reads ms).begins (triple_property h ms)).bind fun _ =>
      triple_located hstart rfl fun _ => trivial
  split
  · exact hproperty
  · exact hproperty
  · refine .ite (fun hempty => ?_) fun _ => .unexpected _
    have hnone : places ms = [] := by
      rw [Modifiers.eq_of_isEmpty hempty]
      rfl
    rw [hnone]
    refine ((lays_plainParam h).begins (reads_plainParam h.reads)).bind fun _ => ?_
    exact triple_located hstart rfl fun _ => trivial

theorem lays_constructor? : Lays (constructor? rules) := by
  refine .of_here false (moves_constructor? h.reads) fun ts start hstart => ?_
  have hparams : Triple (Since ts false []) (listUntil .rightParen (constructorParam rules)) fun params =>
      Since ts true (places params) :=
    (lays_listUntil _ (lays_constructorParam h)).begins (reads_listUntil _ (reads_constructorParam h.reads))
  refine (reads_accept (by decide)).toMoves.since.bind fun _ => .ite (fun _ => ?_) fun _ => ?_
  · refine hparams.bind fun params => ?_
    have hnode : Triple (Since ts true (places params)) (located start params) fun x =>
        Since ts true (places x) := triple_located hstart rfl fun _ => trivial
    exact hnode.bind fun _ => .pure fun _ hs => hs.forget
  · exact .pure fun _ hs => by simpa using hs

theorem lays_members : Lays (members rules) := fun _ _ _ => by
  refine (reads_accept (by decide)).toMoves.since.bind fun _ =>
    .ite (fun _ => ?_) fun _ => .pure fun _ hs => by simpa using hs
  refine (lays_sequenceOf true h.reads.declaration.toMoves h.declaration _ _ _).bind fun _ => ?_
  exact (reads_expect _).toMoves.since.bind fun _ => .pure fun _ hs => hs

theorem triple_classDecl (ms : Modifiers) :
    Triple (Since ts begun (ps ++ places ms)) (classDecl rules ms) fun d =>
      Since ts begun (ps ++ places d) := by
  refine (reads_expectWord _).toMoves.since.bind fun _ => reads_identifier.toMoves.since.bind fun _ => ?_
  refine (lays_constructor? h _ _ _).bind fun _ => (lays_members h _ _ _).bind fun _ => ?_
  exact .pure fun _ hs => by simpa using hs

theorem triple_declarationAfter (ms : Modifiers) :
    Triple (Since ts begun (ps ++ places ms)) (declarationAfter rules ms) fun d =>
      Since ts begun (ps ++ places d) := by
  refine moves_peek.since.bind fun kind => ?_
  split
  · exact (triple_function h ms).bind fun _ => .pure fun _ hs => hs
  · exact (triple_classDecl h ms).bind fun _ => .pure fun _ hs => hs
  · exact (triple_property h ms).bind fun _ => .pure fun _ hs => hs
  · exact (triple_property h ms).bind fun _ => .pure fun _ hs => hs
  · exact .unexpected _

theorem lays_declarationBody : Lays (declarationBody rules) := by
  refine .of_here true (reads_declarationBody h.reads).toMoves fun ts start hstart => ?_
  have hnode : Lays (declarationNode rules) := fun _ _ _ => by
    refine (moves_nextIs _).since.bind fun _ => .ite (fun _ => ?_) fun _ => ?_
    · exact (lays_compilerCall h _ _ _).bind fun _ => .pure fun _ hs => hs
    · exact (lays_modifiers h _ _ _).bind fun ms => triple_declarationAfter h ms
  refine (hnode.begins (reads_declarationNode h.reads)).bind fun _ => ?_
  exact triple_located hstart rfl fun _ => trivial

end

theorem rulesLay_grammar (limit levels : Nat) : RulesLay (grammar limit levels) := by
  induction levels with
  | zero =>
    exact ⟨rulesRead_grammar limit 0, lays_typeRule limit 0, lays_tooDeep, lays_tooDeep, lays_tooDeep,
      lays_tooDeep⟩
  | succ levels ih =>
    exact ⟨rulesRead_grammar limit (levels + 1), lays_typeRule limit (levels + 1),
      (lays_assignment ih).deeper limit, (lays_unary ih).deeper limit, (lays_blockBody ih).deeper limit,
      (lays_declarationBody ih).deeper limit⟩

end Linewise.Parser
