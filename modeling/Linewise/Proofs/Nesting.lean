import Linewise.Proofs.Lexing.Placement
import Linewise.Proofs.Parsing.Accepts
import Linewise.Proofs.Parsing.GrammarNesting
import Linewise.Proofs.Parsing.Changes

/-!
# How deep an accepted source nests

In a source that is accepted no path passes through more than `maxDepth` blocks, unless some of them are
loose bodies, and a source in which more would nest is rejected for it. Loose bodies open no level:
loops without braces nest in one another without any limit.
-/

namespace Linewise

open Linewise.Parser

variable {limit limit' : Nat} {tags : LayoutTags TokenKind Channel} {s : TokenStream}

-- ---------------------------------------------------------------------------
-- The limit decides between a tree and a fault
-- ---------------------------------------------------------------------------

theorem limitRaised_start (tags : LayoutTags TokenKind Channel) (s : TokenStream) :
    (limitRaised (s.terminals tags)).state (.start s tags) = .start s tags := by
  have hrest : (limitRaised (s.terminals tags)).rest (s.terminals tags) =
      (s.terminals tags).map id :=
    Change.rest_eq_map rfl fun n _ t _ => by
      unfold Change.mark
      split <;> rfl
  rw [Change.state_start rfl rfl, hrest, List.map_id]
  rfl

theorem limitRaised_faults (terminals : List Terminal) (xs : Array (Located SyntaxFault)) :
    (limitRaised terminals).faults xs = xs := by
  have hfault : (limitRaised terminals).fault = id := rfl
  have hkeeps : (limitRaised terminals).keeps = fun _ => true := rfl
  rw [Change.faults, hfault, hkeeps, Array.map_id, Array.filter_eq_self]
  exact fun _ _ => rfl

/-- A lower limit changes what becomes of a source only where it is met. -/
theorem parseWithin_le (tags : LayoutTags TokenKind Channel) (s : TokenStream) (h : limit ≤ limit') :
    parseWithin limit' tags s = parseWithin limit tags s ∨
      ∃ faults, parseWithin limit tags s = .error faults ∧
        ∃ x ∈ faults, x.node = .nestingTooDeep := by
  obtain ⟨ds, t, hrun⟩ := answers_declarations limit (.start s tags)
  have hsim := Change.sim_declarations (m := limitRaised (s.terminals tags))
    (u := .start s tags) (.inr ⟨rfl, h, h⟩) fun _ _ _ _ _ _ _ _ _ => rfl
  by_cases hdeep : Change.TooDeep ((.ok ds, t) : Outcome (List (Located Declaration)))
  · refine .inr ⟨t.faults.toList, ?_, ?_⟩
    · rcases hdeep with ⟨x, hx, -⟩ | ⟨x, hx, -⟩
      · cases hx
      · rw [parseWithin_of_run hrun, verdict_eq_error]
        exact ⟨rfl, List.ne_nil_of_mem hx⟩
    · rcases hdeep with ⟨x, hx, -⟩ | hx
      · cases hx
      · exact hx
  · have hregular : (limitRaised (s.terminals tags)).Regular 1 (.start s tags)
        ((declarations limit).run (.start s tags)) :=
      ⟨fun _ => by rwa [hrun], fun sm hsm => by cases hsm⟩
    have hrun' := hsim.run (Nat.le_refl _) hregular
    rw [limitRaised_start, hrun] at hrun'
    have hfaults : ((limitRaised (s.terminals tags)).state t).faults = t.faults :=
      limitRaised_faults _ _
    have hlower := parseWithin_of_run hrun
    have hhigher := parseWithin_of_run hrun'
    have hds : mapSpans (limitRaised (s.terminals tags)).span ds = ds := mapSpans_id ds
    rw [hds, hfaults] at hhigher
    exact .inl (hhigher.trans hlower.symm)

theorem nesting_le_of_parseWithin {file : SourceFile} (h : parseWithin limit tags s = .ok file) :
    nesting 0 file ≤ limit := by
  obtain ⟨ds, t, hrun⟩ := answers_declarations limit (.start s tags)
  rw [parseWithin_of_run hrun, verdict_eq_ok] at h
  rw [h.2]
  exact (within_declarations limit _ ds t trivial hrun).1

-- ---------------------------------------------------------------------------
-- Loops nest freely
-- ---------------------------------------------------------------------------

def TokenKind.endsExpression : TokenKind → Bool
  | eof | rightParen => true
  | _ => false

section
variable {d levels : Nat} {ks ks' : List TokenKind} {kind : TokenKind} {rules : Rules}
  {Q : Expr → Prop}

theorem ne_of_endsExpression (hk : (ks.headD .eof).endsExpression = true)
    (h : kind.endsExpression = false) : ks.headD .eof ≠ kind := by
  rintro rfl
  rw [hk] at h
  cases h

theorem at?_of_endsExpression (hk : kind.endsExpression = true) (p : Precedence) :
    BinaryOp.at? p kind = none := by
  cases kind <;> first | rfl | cases hk

theorem accepts_suffixed (hr : RulesRead rules) (h : Accepts d (atom rules) ks ks' Q)
    (hk : (ks'.headD .eof).endsExpression = true) :
    Accepts d (suffixed rules) ks ks' fun e => Q e.node := by
  have hsuffix (target : Located Expr) :
      Accepts d (suffix? rules target) ks' ks' (· = none) := by
    refine .nextOnLine_bind (ne_of_endsExpression hk rfl) ?_
    refine .nextOnLine_bind (ne_of_endsExpression hk rfl) ?_
    refine .nextOnLine_bind (ne_of_endsExpression hk rfl) ?_
    refine (accepts_accept_no (ne_of_endsExpression hk rfl)).bind ?_
    rintro _ rfl
    exact accepts_pure rfl
  have hround (start : Span) (target : Located Expr) :
      Accepts d (suffixRound rules start target) ks' ks' (· = .done target) := by
    refine (hsuffix target).bind ?_
    rintro _ rfl
    exact accepts_pure rfl
  refine .here_bind fun start => h.bind fun e he => ?_
  refine (accepts_located (Q := fun e => Q e.node) fun _ => he).bind fun first hf => ?_
  refine .iterate (rounds_suffixRound hr start) ((hround start first).bind ?_)
  rintro _ rfl
  exact accepts_pure hf

theorem accepts_chain {operand : Parser (Located Expr)} (p : Precedence) (ho : Reads operand)
    (h : Accepts d operand ks ks' fun e => Q e.node)
    (hk : (ks'.headD .eof).endsExpression = true) :
    Accepts d (chain p operand) ks ks' fun e => Q e.node := by
  have hround (start : Span) (lhs : Located Expr) :
      Accepts d (chainRound p operand start lhs) ks' ks' (· = .done lhs) := by
    have hnone : Accepts d (operator? p) ks' ks' (· = none) := by
      refine .peek_bind ?_
      rw [at?_of_endsExpression hk]
      exact accepts_pure rfl
    refine hnone.bind ?_
    rintro _ rfl
    exact accepts_pure rfl
  refine .here_bind fun start => h.bind fun first hf => ?_
  refine .iterate (rounds_chainRound p ho start) ((hround start first).bind ?_)
  rintro _ rfl
  exact accepts_pure hf

theorem accepts_assignment (hr : RulesRead rules) (h : Accepts d (atom rules) ks ks' Q)
    (hh : ks.headD .eof ≠ .hash) (hk : (ks'.headD .eof).endsExpression = true) :
    Accepts d (assignment rules) ks ks' fun e => Q e.node := by
  have hunary : Accepts d (unary rules) ks ks' fun e => Q e.node := by
    refine .here_bind fun start => (accepts_accept_no hh).bind ?_
    rintro _ rfl
    exact accepts_suffixed hr h hk
  have hu := reads_unary hr
  have hm := accepts_chain .multiplicative hu hunary hk
  have ha := accepts_chain .additive (reads_chain _ hu) hm hk
  have hc := accepts_chain .comparison (reads_chain _ (reads_chain _ hu)) ha hk
  have hb := accepts_chain .equality (reads_chain _ (reads_chain _ (reads_chain _ hu))) hc hk
  refine .here_bind fun start => hb.bind fun target ht => .nextIs_bind ?_
  rw [decide_eq_false (ne_of_endsExpression hk rfl)]
  exact accepts_pure ht

theorem accepts_expression (hd : d < limit)
    (h : Accepts (d + 1) (atom (grammar limit levels)) ks ks' Q) (hh : ks.headD .eof ≠ .hash)
    (hk : (ks'.headD .eof).endsExpression = true) :
    Accepts d (grammar limit (levels + 1)).expression ks ks' fun e => Q e.node :=
  .deeper hd (accepts_assignment (rulesRead_grammar limit levels) h hh hk)

theorem accepts_name (hd : d < limit) (hk : (ks.headD .eof).endsExpression = true) :
    Accepts d (grammar limit (levels + 1)).expression (.identifier :: ks) ks fun e =>
      nesting 1 e = 0 := by
  refine accepts_expression (Q := fun e => nesting 1 e = 0) hd (.peek_bind ?_) nofun hk
  exact (accepts_expectAs .expression).bind fun text _ => accepts_pure rfl

/-- So many loops, each the body of the one before it, around a name. -/
def loops : Nat → List TokenKind
  | 0 => [.identifier]
  | n + 1 => .keyword .whileWord :: .leftParen :: .identifier :: .rightParen :: loops n

theorem loops_head (n : Nat) : (loops n).headD .eof ≠ .leftCurl := by
  cases n with
  | zero => exact nofun
  | succ n => exact nofun

theorem accepts_loops (hd : d < limit) (n : Nat) :
    Accepts d (statement (grammar limit (levels + 1))) (loops n) [] fun s => nesting 1 s = n := by
  have hr := rulesRead_grammar limit (levels + 1)
  induction n with
  | zero =>
    refine .congr (run_statement hr) (.here_bind fun start => ?_)
    refine Accepts.bind (Q := fun s => nesting 1 s = 0) (.nextIs_bind ?_) fun s hs =>
      accepts_located (Q := fun s => nesting 1 s = 0) fun _ => hs
    refine .peek_bind ?_
    exact (accepts_name hd rfl).bind fun e he => accepts_pure he
  | succ n ih =>
    refine .congr (run_statement hr) (.here_bind fun start => ?_)
    refine Accepts.bind (Q := fun s => nesting 1 s = n + 1) (.nextIs_bind ?_) fun s hs =>
      accepts_located (Q := fun s => nesting 1 s = n + 1) fun _ => hs
    refine accepts_expect.bind fun _ _ => accepts_expect.bind fun _ _ => ?_
    refine (accepts_name hd rfl).bind fun condition hc => accepts_expect.bind fun _ _ => ?_
    have hbody : Accepts d (bodyOf (grammar limit (levels + 1)) (statement (grammar limit (levels + 1))))
        (loops n) [] fun body => bodyNesting 1 body = n + 1 := by
      refine .nextIs_bind ?_
      rw [decide_eq_false (loops_head n)]
      refine ih.bind fun s hs => accepts_pure ?_
      rw [bodyNesting_single, hs]
    refine hbody.bind fun body hb => accepts_pure ?_
    rw [nesting_while, hc, hb, Nat.zero_max]

theorem accepts_conditional (hd : d < limit) (n : Nat) :
    Accepts d (conditional (grammar limit (levels + 1)))
      (.keyword .ifWord :: .leftParen :: .identifier :: .rightParen :: loops n) []
      fun e => nesting 1 e = n + 1 := by
  have hbody : Accepts d (body (grammar limit (levels + 1))) (loops n) []
      fun body => nesting 1 body = n + 1 := by
    refine .nextIs_bind ?_
    rw [decide_eq_false (loops_head n)]
    refine (accepts_loops hd n).bind fun s hs => accepts_pure ?_
    simpa [Block.single] using hs
  refine accepts_expect.bind fun _ _ => accepts_expect.bind fun _ _ => ?_
  refine (accepts_name hd rfl).bind fun condition hc => accepts_expect.bind fun _ _ => ?_
  refine hbody.bind fun thenBody ht => ?_
  refine Accepts.bind (Q := fun _ => True) (.nextAre_bind (accepts_pure trivial)) fun _ _ => ?_
  have helse : Accepts d (behind (.keyword .elseWord) (body (grammar limit (levels + 1)))) [] []
      (· = none) := by
    refine (accepts_accept_no (by decide)).bind ?_
    rintro _ rfl
    exact accepts_pure rfl
  refine helse.bind ?_
  rintro _ rfl
  exact accepts_pure (by rw [nesting_cond, hc, ht]; simp)

abbrev loopSource (n : Nat) : List TokenKind :=
  .keyword .valWord :: .identifier :: .assign :: .keyword .ifWord :: .leftParen :: .identifier ::
    .rightParen :: loops n

theorem accepts_modifiers (hr : RulesRead rules) :
    Accepts d (modifiers rules) (.keyword .valWord :: ks) (.keyword .valWord :: ks)
      (· = ⟨[], []⟩) := by
  have hnone : Accepts d modifier? (.keyword .valWord :: ks) (.keyword .valWord :: ks) (· = none) := by
    refine .peek_bind ?_
    exact accepts_pure rfl
  have hround : Accepts d (modifierRound rules ⟨[], []⟩) (.keyword .valWord :: ks)
      (.keyword .valWord :: ks) (· = .done ⟨[], []⟩) := by
    refine .here_bind fun start => .nextIs_bind (hnone.bind ?_)
    rintro _ rfl
    exact accepts_pure rfl
  refine .iterate (rounds_modifierRound hr) (hround.bind ?_)
  rintro _ rfl
  exact accepts_pure rfl

theorem accepts_binding :
    Accepts d binding (.keyword .valWord :: ks) ks fun _ => True :=
  .peek_bind (accepts_expect.bind fun _ _ => accepts_pure trivial)

theorem accepts_behind {α : Type} {p : Parser α} {S : α → Prop} (h : Accepts d p ks ks' S) :
    Accepts d (behind kind p) (kind :: ks) ks' fun a => ∃ b, a = some b ∧ S b := by
  refine accepts_accept.bind ?_
  rintro _ rfl
  exact h.bind fun b hb => accepts_pure ⟨b, rfl, hb⟩

theorem accepts_behind_no {α : Type} {p : Parser α} (h : ks.headD .eof ≠ kind) :
    Accepts d (behind kind p) ks ks (· = none) := by
  refine (accepts_accept_no h).bind ?_
  rintro _ rfl
  exact accepts_pure rfl

theorem accepts_loopSource (levels n : Nat) :
    Accepts 0 (declarations (levels + 3)) (loopSource n) [] fun ds => nesting 1 ds = n + 1 := by
  have hr := rulesRead_grammar (levels + 3) (levels + 2)
  have hvalue : Accepts 1 (grammar (levels + 3) (levels + 2)).expression
      (.keyword .ifWord :: .leftParen :: .identifier :: .rightParen :: loops n) []
      fun e => nesting 1 e = n + 1 :=
    accepts_expression (Q := fun e => nesting 1 e = n + 1) (by omega)
      (.peek_bind (accepts_conditional (by omega) n)) nofun rfl
  have hproperty : Accepts 1 (property (grammar (levels + 3) (levels + 2)) ⟨[], []⟩) (loopSource n)
      [] fun d => nesting 1 d = n + 1 := by
    refine accepts_binding.bind fun readonly _ => (accepts_expectAs _).bind fun name _ => ?_
    refine (accepts_behind_no (by nofun)).bind fun type _ => (accepts_behind hvalue).bind ?_
    rintro _ ⟨value, rfl, hv⟩
    refine accepts_pure ?_
    rw [nesting_property, nesting_some, hv]
    simp
  have hbody : Accepts 1 (declarationBody (grammar (levels + 3) (levels + 2))) (loopSource n) []
      fun d => nesting 1 d = n + 1 := by
    refine .here_bind fun start => Accepts.bind (Q := fun d => nesting 1 d = n + 1) (.nextIs_bind ?_)
      fun d hd => accepts_located (Q := fun d => nesting 1 d = n + 1) fun _ => hd
    refine (accepts_modifiers hr).bind ?_
    rintro _ rfl
    exact .peek_bind (hproperty.bind fun d hd => accepts_pure hd)
  have hdecl : Accepts 0 (grammar (levels + 3) (levels + 3)).declaration (loopSource n) []
      fun d => nesting 1 d = n + 1 := .deeper (by omega) hbody
  refine (accepts_sequenceOf_single (rulesRead_grammar _ _).declaration hdecl nofun nofun).mono ?_
  rintro _ ⟨d, rfl, hd⟩
  simpa using hd

end

theorem exists_kinds (tags : LayoutTags TokenKind Channel) {ks : List TokenKind}
    (hk : ∀ k ∈ ks, k.channel = .visible ∧ k ≠ .eof) :
    ∃ s : TokenStream, (State.start s tags).kinds = ks := by
  let items : List Item := ks.map fun k => (k, "")
  have hkinds : (placed 0 0 .origin items).map Token.kind = ks :=
    calc (placed 0 0 .origin items).map Token.kind
        = ((placed 0 0 .origin items).map Token.item).map Prod.fst := by rw [List.map_map]; rfl
      _ = ks := by rw [map_item_placed, List.map_map]; exact List.map_id ks
  have hmem (t : Token) (ht : t ∈ placed 0 0 .origin items) : t.isVisible = true ∧ t.kind ≠ .eof := by
    have hkind := hk t.kind (hkinds ▸ List.mem_map_of_mem ht)
    rw [Token.isVisible, channel_of_mem_placed ht, hkind.1]
    exact ⟨rfl, hkind.2⟩
  refine ⟨.ofList items, ?_⟩
  show (((TokenStream.ofList items).terminals tags).map (·.token.kind)) = ks
  have hwhole : (placed 0 0 .origin items).takeWhile (fun t => t.kind != .eof) =
      placed 0 0 .origin items := by
    have hall : ∀ t ∈ placed 0 0 .origin items, (t.kind != .eof) = true :=
      fun t ht => bne_iff_ne.mpr (hmem t ht).2
    rw [← List.append_nil (placed 0 0 .origin items), List.takeWhile_append_of_pos hall,
      List.takeWhile_nil]
  rw [TokenStream.terminals, TokenStream.visible, toList_tokens_ofList,
    List.filter_eq_self.mpr fun t ht => (hmem t ht).1, hwhole, List.map_map]
  exact hkinds

theorem visible_loops (n : Nat) : ∀ k ∈ loops n, k.channel = .visible ∧ k ≠ .eof := by
  induction n with
  | zero => decide
  | succ n ih => simpa [loops, TokenKind.channel, TokenKind.isLayout] using ih

theorem exists_nesting (tags : LayoutTags TokenKind Channel) (n : Nat) :
    ∃ s file, parse tags s = .ok file ∧ nesting 1 file = n + 1 := by
  have hvisible : ∀ k ∈ loopSource n, k.channel = .visible ∧ k ≠ .eof := by
    simpa [TokenKind.channel, TokenKind.isLayout] using visible_loops n
  obtain ⟨s, hs⟩ := exists_kinds tags hvisible
  obtain ⟨ds, t, hrun, hds, -, -, hfaults⟩ :=
    accepts_loopSource 125 n (.start s tags) rfl hs
  refine ⟨s, ⟨ds⟩, ?_, hds⟩
  have hparse : parseWithin maxDepth tags s = verdict ds t.faults.toList := parseWithin_of_run hrun
  rw [parse, hparse, hfaults]
  rfl

-- ---------------------------------------------------------------------------
-- The limit of a source
-- ---------------------------------------------------------------------------

/-- The limit holds for the blocks of a source that are not loose bodies: with more of them on a path it
is never accepted, and what would be accepted otherwise is rejected for its nesting. Of loose bodies any
number is accepted. -/
theorem parse_nesting (tags : LayoutTags TokenKind Channel) :
    (∀ s file, parse tags s = .ok file → nesting 0 file ≤ maxDepth) ∧
    (∀ s limit file, parseWithin limit tags s = .ok file → maxDepth < nesting 0 file →
      ∃ faults, parse tags s = .error faults ∧
        ∃ x ∈ faults, x.node.message = "Nesting exceeds 128 levels") ∧
    (∀ n, ∃ s file, parse tags s = .ok file ∧ n < nesting 1 file) := by
  refine ⟨fun s file => nesting_le_of_parseWithin, fun s limit file h hlt => ?_, fun n => ?_⟩
  · have hle : maxDepth ≤ limit := Nat.le_of_lt (Nat.lt_of_lt_of_le hlt (nesting_le_of_parseWithin h))
    rcases parseWithin_le tags s hle with heq | ⟨faults, hfaults, x, hx, hn⟩
    · have := nesting_le_of_parseWithin (heq ▸ h)
      omega
    · refine ⟨faults, hfaults, x, hx, ?_⟩
      rw [hn]
      decide +kernel
  · obtain ⟨s, file, hparse, hn⟩ := exists_nesting tags n
    exact ⟨s, file, hparse, by omega⟩

end Linewise
