import Linewise.Proofs.Parsing.GrammarFollowing
import Linewise.Proofs.Parsing.Triple
import Mathlib.Data.List.Basic

/-!
# Parsers are greedy

Where an answer is open for more, the terminals behind it do not go on with it, since the parser would have read
them. `Sated` says so of an answer and of all the terminals of a run, so what is read later does not matter.
-/

namespace Linewise

open Linewise.Parser

variable {ts : List Terminal} {sequel : Sequel}

-- ---------------------------------------------------------------------------
-- Terminals that end one behind the other
-- ---------------------------------------------------------------------------

def Rising (ts : List Terminal) : Prop := ts.Pairwise fun x y => x.token.span.stop < y.token.span.stop

theorem Rising.eq_of_stop {ws us vs rs : List Terminal} {x y : Terminal} (h : Rising ts)
    (hx : ts = ws ++ x :: us) (hy : ts = vs ++ y :: rs) (hxy : x.token.span.stop = y.token.span.stop) :
    us = rs := by
  have hpair := h
  rw [hx] at hpair hy
  obtain ⟨-, hbehind, hfront⟩ := List.pairwise_append.mp hpair
  have hws : y ∉ ws := fun hmem =>
    absurd (hxy ▸ hfront y hmem x List.mem_cons_self) (Nat.lt_irrefl _)
  have hus : y ∉ us := fun hmem =>
    absurd (hxy ▸ List.rel_of_pairwise_cons hbehind hmem) (Nat.lt_irrefl _)
  exact ((List.append_cons_inj_of_notMem hws hus).mp hy).2.2

/-- Where something is open behind one of the terminals, it does not go on with the next ones. -/
def Sated (ts : List Terminal) (isOpen : Sequel → Nat → Bool) : Prop :=
  ∀ ws x us, ts = ws ++ x :: us → ∀ sequel, isOpen sequel x.token.span.stop = true →
    ¬sequel.Begins (us.map (·.token.kind))

theorem sated_closed : Sated ts fun _ _ => false := fun _ _ _ _ _ h => by cases h

theorem Sated.or {o o' : Sequel → Nat → Bool} (h : Sated ts o) (h' : Sated ts o') :
    Sated ts fun sequel stop => o sequel stop || o' sequel stop := fun ws x us hws sequel hopen =>
  (Bool.or_eq_true_iff.mp hopen).elim (h ws x us hws sequel) (h' ws x us hws sequel)

namespace Parser

variable {α β : Type} {p : Parser α} {a : α} {s t : State}

abbrev Among (ts : List Terminal) (s : State) : Prop := s.rest <:+ ts

theorem stable_among : Stable (Among ts) := fun _ _ hst h => hst.rest.trans h

theorem stop_of_among {p : Parser (Located α)} {a : Located α} (hts : Rising ts) (hc : Covers p) (hr : Reads p)
    (hs : Among ts s) (h : p.run s = (.ok a, t)) : a.span.stop = t.previous.stop :=
  hc.stop_eq hr ((hts.sublist hs.sublist).imp Nat.le_of_lt) h

theorem sated_of_not_offers (hts : Rising ts) (hr : Reads p) (hs : Among ts s) (h : p.run s = (.ok a, t))
    (hoffers : ¬t.offers sequel) :
    Sated ts fun sequel' stop => sequel' = sequel && t.previous.stop = stop := by
  intro ws x us hws sequel' hopen
  obtain ⟨rfl, hstop⟩ : sequel' = sequel ∧ t.previous.stop = x.token.span.stop := by simpa using hopen
  obtain ⟨vs, y, hread, hprevious⟩ := hr.split h
  obtain ⟨front, hfront⟩ := hs
  have hsplit : ts = (front ++ vs) ++ y :: t.rest := by rw [← hfront, hread, List.append_assoc]
  rw [hts.eq_of_stop hws hsplit (by rw [← hstop, hprevious]), ← State.offers_iff]
  exact hoffers

def Greedy [HasOpenEnd α] (ts : List Terminal) (p : Parser α) : Prop :=
  Yields (Among ts) p fun a => Sated ts (openFor · · a)

theorem Greedy.deeper [HasOpenEnd α] (limit : Nat) (h : Greedy ts p) : Greedy ts (deeper limit p) :=
  Yields.deeper limit (fun _ hs => hs) (fun _ hs => hs) h

theorem Greedy.behind [HasOpenEnd α] {sign : TokenKind} (hs : sign ≠ .eof) (h : Greedy ts p) :
    Greedy ts (behind sign p) :=
  Yields.behind stable_among (reads_accept hs).toMoves fun _ =>
    .ite (h.bind fun _ ha => .pure ha) (.pure sated_closed)

-- ---------------------------------------------------------------------------
-- Statements
-- ---------------------------------------------------------------------------

structure RulesGreedy (ts : List Terminal) (rules : Rules) : Prop where
  read : RulesRead rules
  covers : Covers rules.block
  expression : Greedy ts rules.expression
  operand : Greedy ts rules.operand
  block : Greedy ts rules.block

variable {rules : Rules} {statement : Parser (Located Statement)}

section
variable (h : RulesGreedy ts rules)
include h

theorem greedy_property (ms : Modifiers) : Greedy ts (property rules ms) := by
  refine Yields.behind stable_among reads_binding.toMoves fun _ => ?_
  refine Yields.behind stable_among reads_identifier.toMoves fun _ => ?_
  refine Yields.behind stable_among (moves_behind (by decide) h.read.type.toMoves) fun _ => ?_
  refine Yields.bind (h.expression.behind (by decide)) fun value hvalue => .pure ?_
  cases value with
  | none => exact sated_closed
  | some value => exact hvalue

/-- A function that has no body is in front of none. -/
theorem greedy_functionBody : Triple (Among ts) (functionBody rules) fun body t =>
    (body = none → ¬t.offers .body) ∧ Sated ts (openFor · · body) := by
  intro s body t hs hrun
  unfold functionBody at hrun
  rw [run_bind_ok (run_nextIs _ s)] at hrun
  split at hrun
  · obtain ⟨block, u, hblock, hrun⟩ := bind_ok.mp hrun
    cases hrun
    exact ⟨nofun, (h.block s block _ hs hblock).1⟩
  · next hcurl =>
    obtain ⟨assign, u, hassign, hrest⟩ := bind_ok.mp hrun
    have hu := stable_among s u ((reads_accept (by decide)).advances_ok hassign) hs
    rcases accept_ok hassign with ⟨rfl, -, -⟩ | ⟨rfl, -, rfl⟩
    · obtain ⟨value, v, hvalue, hrest⟩ := bind_ok.mp hrest
      cases hrest
      exact ⟨nofun, (h.expression u value _ hu hvalue).1⟩
    · cases hrest
      exact ⟨fun _ => by simpa [State.offers_body] using hcurl, sated_closed⟩

variable (hts : Rising ts)
include hts

theorem greedy_function (ms : Modifiers) : Triple (Among ts) (function rules ms) fun decl t =>
    Sated ts fun sequel stop => decl.openFor sequel stop t.previous.stop := by
  have hbody : Triple (Among ts) (function rules ms) fun decl t =>
      (decl.body = none → ¬t.offers .body) ∧ Sated ts (openFor · · decl.body) := by
    refine .behind stable_among (reads_expectWord _).toMoves fun _ => ?_
    refine .behind stable_among (reads_functionName h.read).toMoves fun _ => ?_
    refine .behind stable_among (reads_expect _).toMoves fun _ => ?_
    refine .behind stable_among (reads_listUntil _ (reads_param h.read)).toMoves fun _ => ?_
    refine .behind stable_among (moves_behind (by decide) h.read.type.toMoves) fun _ => ?_
    exact (greedy_functionBody h).bind fun _ => .pure fun _ hbody => hbody
  intro s decl t hs hrun
  obtain ⟨hnone, hsome⟩ := hbody s decl t hs hrun
  obtain ⟨_, _, _, _, _, body⟩ := decl
  cases body with
  | none => exact sated_of_not_offers hts (reads_function h.read ms) hs hrun (hnone rfl)
  | some body => exact hsome

abbrev SatedStatement (ts : List Terminal) (node : Statement) (t : State) : Prop :=
  Sated ts fun sequel stop => node.openFor sequel stop t.previous.stop

theorem greedy_localAfter (ms : Modifiers) :
    Triple (Among ts) (localAfter rules ms) (SatedStatement ts) := by
  refine .behind stable_among moves_peek fun kind => ?_
  split
  · exact (greedy_function h hts ms).bind fun _ => .pure fun _ hdecl => hdecl
  · exact Triple.bind (greedy_property h ms) fun _ => .pure fun _ hdecl => hdecl.1
  · exact Triple.bind (greedy_property h ms) fun _ => .pure fun _ hdecl => hdecl.1
  · exact .unexpected _

theorem greedy_simpleStatement : Triple (Among ts) (simpleStatement rules) (SatedStatement ts) := by
  refine .behind stable_among moves_peek fun kind => ?_
  split
  case h_8 => exact Triple.bind h.expression fun _ => .pure fun _ hvalue => hvalue.1
  all_goals exact .behind stable_among (moves_modifiers h.read) fun ms => greedy_localAfter h hts ms

/-- What stands for a block is sated as a block of its own. -/
def GreedyStatement (ts : List Terminal) (statement : Parser (Located Statement)) : Prop :=
  Yields (Among ts) statement fun a => Sated ts (openFor · · (Block.single a))

omit hts in
theorem greedy_bodyOf (hs : GreedyStatement ts statement) : Greedy ts (bodyOf rules statement) :=
  Yields.behind stable_among (moves_nextIs _) fun _ => .ite h.block (hs.bind fun _ ha => .pure ha)

omit hts in
theorem greedy_whileLoop (hs : GreedyStatement ts statement) :
    Triple (Among ts) (whileLoop rules statement) (SatedStatement ts) := by
  refine .behind stable_among (reads_expectWord _).toMoves fun _ => ?_
  refine .behind stable_among (reads_expect _).toMoves fun _ => ?_
  refine .behind stable_among h.read.expression.toMoves fun _ => ?_
  refine .behind stable_among (reads_expect _).toMoves fun _ => ?_
  exact Triple.bind (greedy_bodyOf h hs) fun _ => .pure fun _ hbody => hbody.1

theorem greedy_statementWith (hr : Reads statement) (hs : GreedyStatement ts statement) :
    GreedyStatement ts (statementWith rules statement) := by
  intro s a t ht hrun
  have hreads := reads_statementWith h.read hr
  have hstop := stop_of_among hts (covers_here (statementNode rules statement)) hreads ht hrun
  have hnode : Triple (Among ts) (statementNode rules statement) (SatedStatement ts) :=
    .behind stable_among (moves_nextIs _) fun _ =>
      .ite (fun _ => greedy_whileLoop h hs) fun _ => greedy_simpleStatement h hts
  refine ⟨?_, stable_among s t (hreads.advances_ok hrun) ht⟩
  obtain ⟨node, u, hu, hlocated⟩ := bind_ok.mp ((run_bind_ok (run_here s)).symm.trans hrun)
  cases hlocated
  have hsated := hnode s node _ ht hu
  rwa [SatedStatement, ← hstop] at hsated

theorem greedy_statementFor (bound : List Terminal) : GreedyStatement ts (statementFor rules bound) := by
  induction bound with
  | nil => exact greedy_statementWith h hts (reads_unexpected _) (Triple.unexpected _)
  | cons _ bound ih => exact greedy_statementWith h hts (reads_statementFor h.read bound) ih

theorem greedy_statement : GreedyStatement ts (Parser.statement rules) := fun s =>
  greedy_statementFor h hts s.rest s

theorem greedy_body : Greedy ts (body rules) := greedy_bodyOf h (greedy_statement h hts)

/-- A statement in braces is sated, as no terminal ends where it ends but its last one. -/
theorem greedy_blockBody : Greedy ts (blockBody rules) := by
  have hread := reads_statement h.read
  refine Yields.behind stable_among moves_here fun _ => ?_
  refine Yields.behind stable_among (reads_expect _).toMoves fun _ => ?_
  refine Yields.bind (yields_sequenceOf stable_among
    (fun s hs => stable_among s _ (hread.advances s) hs) (greedy_statement h hts)) fun statements hall => ?_
  refine Yields.behind stable_among (reads_expect _).toMoves fun _ => ?_
  refine Yields.located (Q := fun block => Sated ts (openFor · · block)) ?_
  match statements with
  | [a] => exact hall a List.mem_cons_self
  | [] | _ :: _ :: _ => exact sated_closed

end

-- ---------------------------------------------------------------------------
-- Expressions
-- ---------------------------------------------------------------------------

theorem not_offers_of_elseBranch
    (h : (skipBeforeElse >>= fun _ => behind (.keyword .elseWord) p).run s = (.ok none, t)) :
    ¬s.offers .branch := by
  have hnone {u : State} (hu : (behind (.keyword .elseWord) p).run u = (.ok none, t)) :
      u.kind ≠ .keyword .elseWord := fun hk => by
    unfold behind at hu
    rw [run_bind, run_accept, if_pos hk] at hu
    obtain ⟨_, _, -, hu⟩ := bind_ok.mp hu
    cases hu
  obtain ⟨_, u, hskip, hbehind⟩ := bind_ok.mp h
  rw [Change.run_skipBeforeElse] at hskip
  rw [State.offers_branch, not_or]
  split at hskip
  · next hnext =>
    obtain ⟨x, ts, hs⟩ := State.rest_of_kind hnext.1 (by decide)
    obtain ⟨-, rfl⟩ := (expect_ok (by decide)).mp hskip
    rw [Change.second_eq_next hs] at hnext
    exact absurd hnext.2 (hnone hbehind)
  · next hnext =>
    cases hskip
    exact ⟨hnone hbehind, hnext⟩

section
variable (h : RulesGreedy ts rules) (hts : Rising ts)
include h hts

theorem greedy_conditional : Greedy ts (conditional rules) := by
  refine Yields.behind stable_among (reads_expectWord _).toMoves fun _ => ?_
  refine Yields.behind stable_among (reads_expect _).toMoves fun _ => ?_
  refine Yields.behind stable_among h.read.expression.toMoves fun _ => ?_
  refine Yields.behind stable_among (reads_expect _).toMoves fun _ => ?_
  intro s e t hs hrun
  have hbody := reads_body h.read
  obtain ⟨thenBody, u, hthen, hrun⟩ := bind_ok.mp hrun
  obtain ⟨hsated, hu⟩ := greedy_body h hts s thenBody u hs hthen
  obtain ⟨elseBody, v, helse, hrun⟩ := bind_ok.mp (run_bind_assoc.trans hrun)
  cases hrun
  have hbranch : Yields (Among ts) (skipBeforeElse >>= fun _ => behind (.keyword .elseWord) (body rules))
      fun e => Sated ts (openFor · · e) :=
    .behind stable_among moves_skipBeforeElse fun _ => (greedy_body h hts).behind (by decide)
  obtain ⟨helseSated, ht⟩ := hbranch u elseBody _ hu helse
  refine ⟨?_, ht⟩
  cases elseBody with
  | some elseBody => exact helseSated
  | none =>
    -- The first branch ends the `if`, which is open for a second one and for what that branch is open for.
    have hstop := stop_of_among hts (covers_bodyOf h.covers covers_statement) hbody hs hthen
    have hend := sated_of_not_offers hts hbody hs hthen (not_offers_of_elseBranch helse)
    rw [← hstop] at hend
    exact hend.or hsated

omit hts in
theorem greedy_closeGroup : Greedy ts (closeGroup rules) :=
  Yields.bind h.expression fun _ hvalue =>
    .behind stable_among (reads_expect _).toMoves fun _ => .pure hvalue

theorem greedy_atom : Greedy ts (atom rules) := by
  have hword (what : Expectation) (kind : TokenKind) (node : String → Expr)
      (hnode : ∀ text sequel stop, openFor sequel stop (node text) = false) :
      Greedy ts (do return node (← expectAs what kind)) :=
    Yields.behind stable_among (reads_expectAs _ _).toMoves fun text => .pure <| by
      simp only [hnode]
      exact sated_closed
  refine Yields.behind stable_among moves_peek fun kind => ?_
  split
  · exact hword _ _ _ fun _ _ _ => rfl
  · exact hword _ _ _ fun _ _ _ => rfl
  · exact hword _ _ _ fun _ _ _ => rfl
  · exact .behind stable_among (reads_expectWord _).toMoves fun _ => .pure sated_closed
  · exact .behind stable_among (reads_expect _).toMoves fun _ =>
      Yields.bind (greedy_closeGroup h) fun _ hvalue => .pure hvalue
  · exact .behind stable_among (reads_expect _).toMoves fun _ =>
      .behind stable_among (reads_listUntil _ h.read.expression).toMoves fun _ => .pure sated_closed
  · exact .behind stable_among h.read.block.toMoves fun _ => .pure sated_closed
  · exact greedy_conditional h hts
  · refine .behind stable_among (reads_expectWord _).toMoves fun _ => ?_
    refine .behind stable_among (moves_behind (by decide) (reads_closeGroup h.read).toMoves) fun _ => ?_
    refine .behind stable_among (reads_expect _).toMoves fun _ => ?_
    refine .behind stable_among (moves_sequenceOf true (reads_whenCase h.read).toMoves) fun _ => ?_
    exact .behind stable_among (reads_expect _).toMoves fun _ => .pure sated_closed
  · exact Triple.unexpected _

omit hts in
theorem greedy_suffix? (target : Located Expr) : Greedy ts (suffix? rules target) := by
  refine Yields.behind stable_among (moves_nextOnLine _) fun _ => .ite ?_ ?_
  · exact .behind stable_among (reads_callArguments h.read).toMoves fun _ => .pure sated_closed
  refine .behind stable_among (moves_nextOnLine _) fun _ => .ite ?_ ?_
  · exact .behind stable_among (reads_blockArgument h.read).toMoves fun _ => .pure sated_closed
  refine .behind stable_among (moves_nextOnLine _) fun _ => .ite ?_ ?_
  · exact .behind stable_among (reads_expect _).toMoves fun _ =>
      .behind stable_among (reads_closeIndex h.read).toMoves fun _ => .pure sated_closed
  refine .behind stable_among (reads_accept (by decide)).toMoves fun _ => .ite ?_ (.pure sated_closed)
  exact .behind stable_among reads_identifier.toMoves fun _ => .pure sated_closed

theorem greedy_suffixed : Greedy ts (suffixed rules) := by
  refine Yields.behind stable_among moves_here fun start => ?_
  refine Yields.bind (greedy_atom h hts) fun node hnode => ?_
  refine Yields.bind (Yields.located (Q := fun e => Sated ts (openFor · · e)) hnode) fun first hfirst => ?_
  refine Yields.iterate (S := fun e : Located Expr => Sated ts (openFor · · e))
    (fun target htarget => ?_) hfirst
  refine Yields.bind (greedy_suffix? h target) fun node hnode => ?_
  cases node with
  | none => exact .pure htarget
  | some node =>
    exact Yields.bind (Yields.located (Q := fun e => Sated ts (openFor · · e)) hnode) fun _ he => .pure he

theorem greedy_unary : Greedy ts (unary rules) := by
  refine Yields.behind stable_among moves_here fun start => ?_
  refine Yields.behind stable_among (reads_accept (by decide)).toMoves fun _ =>
    .ite ?_ (greedy_suffixed h hts)
  exact Yields.bind h.operand fun inner hinner =>
    Yields.located (Q := fun e => Sated ts (openFor · · e)) hinner

omit h hts in
theorem greedy_chain {operand : Parser (Located Expr)} (p : Precedence) (ho : Greedy ts operand) :
    Greedy ts (chain p operand) := by
  refine Yields.behind stable_among moves_here fun start => ?_
  refine Yields.bind ho fun first hfirst => ?_
  refine Yields.iterate (S := fun e : Located Expr => Sated ts (openFor · · e)) (fun lhs hlhs => ?_) hfirst
  refine Yields.behind stable_among (readsOn_operator? p).toMoves fun op => ?_
  cases op with
  | none => exact .pure hlhs
  | some op =>
    refine Yields.bind ho fun rhs hrhs => ?_
    exact Yields.bind (Yields.located (Q := fun e => Sated ts (openFor · · e)) hrhs) fun _ he => .pure he

theorem greedy_assignment : Greedy ts (assignment rules) := by
  have hbinary : Greedy ts (binary rules) :=
    greedy_chain _ (greedy_chain _ (greedy_chain _ (greedy_chain _ (greedy_unary h hts))))
  refine Yields.behind stable_among moves_here fun start => ?_
  refine Yields.bind hbinary fun target htarget => ?_
  refine Yields.behind stable_among (moves_nextIs _) fun _ => .ite (.ite ?_ Triple.fail) (.pure htarget)
  refine Yields.behind stable_among (reads_expect _).toMoves fun _ => ?_
  exact Yields.bind h.expression fun value hvalue =>
    Yields.located (Q := fun e => Sated ts (openFor · · e)) hvalue

theorem greedy_whenCase : Greedy ts (whenCase rules) := by
  have hcase (start : Span) (node : Located Block → WhenCase)
      (hnode : ∀ body, Sated ts (openFor · · body) → Sated ts (openFor · · (node body))) :
      Greedy ts (do located start (node (← body rules))) :=
    Yields.bind (greedy_body h hts) fun body hbody =>
      Yields.located (Q := fun e => Sated ts (openFor · · e)) (hnode body hbody)
  refine Yields.behind stable_among moves_here fun start => ?_
  refine Yields.behind stable_among (reads_accept (by decide)).toMoves fun _ => .ite ?_ ?_
  · exact .behind stable_among (reads_expect _).toMoves fun _ => hcase start _ fun _ hbody => hbody
  · exact .behind stable_among (moves_listOf h.read.expression) fun _ =>
      .behind stable_among (reads_expect _).toMoves fun _ => hcase start _ fun _ hbody => hbody

end

theorem rulesGreedy_grammar (hts : Rising ts) (limit levels : Nat) :
    RulesGreedy ts (grammar limit levels) := by
  induction levels with
  | zero =>
    have hdeep {α : Type} [HasOpenEnd α] : Greedy ts (do fail .nestingTooDeep (← here) : Parser α) :=
      Yields.behind stable_among moves_here fun _ => Triple.fail
    exact ⟨rulesRead_grammar limit 0, covers_block limit 0, hdeep, hdeep, hdeep⟩
  | succ levels ih =>
    exact
      { read := rulesRead_grammar limit (levels + 1)
        covers := covers_block limit (levels + 1)
        expression := (greedy_assignment ih hts).deeper limit
        operand := (greedy_unary ih hts).deeper limit
        block := (greedy_blockBody ih hts).deeper limit }

end Parser

end Linewise
