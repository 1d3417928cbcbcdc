import Linewise.Proofs.Ast.Gaps
import Linewise.Proofs.Parsing.Endings
import Linewise.Proofs.Parsing.Items

/-!
# What a run tells about gaps

A run in which nothing but separators is missing reports each of them once, in the order of the gaps of
what it answers: `Told` says so between two states, and `Tells` of a parser, given the gaps of what has
been read in front of it. Between the items of a sequence it follows from where the separator is looked for.
-/

namespace Linewise

open Linewise.Parser

/-- The terminals of a source as they stand in a row, and which gaps in it have no separator. -/
structure Row where
  terminals : List Terminal
  lacks : Gap → Bool
  ordered : terminals.Pairwise fun x y => x.token.span.stop ≤ y.token.span.start
  covers : ∀ x ∈ terminals, x.token.span.start < x.token.span.stop
  closes : ∀ x ∈ terminals, x.closing = decide (x.token.kind = .rightCurl)
  adjacent : ∀ ws x y us, terminals = ws ++ x :: y :: us → ∀ a b,
    lacks (⟨a, x.token.span.stop⟩, ⟨y.token.span.start, b⟩) = !y.terminated
  semicolon : ∀ ws x us y vs, terminals = ws ++ x :: us ++ y :: vs →
    (∃ z ∈ us, z.token.kind = .semicolon) → ∀ a b,
    lacks (⟨a, x.token.span.stop⟩, ⟨y.token.span.start, b⟩) = false

namespace Row

variable {α β : Type} {r : Row} {s t u : State} {G H : List Gap} {n : Nat}

def fault? (r : Row) (g : Gap) : Option (Located SyntaxFault) :=
  (r.terminals.find? fun y => y.token.span.start = g.2.start).map fun y =>
    ⟨.missingSeparator y.token.kind, y.token.span⟩

/-- Between two states the gaps without a separator are reported, in their order and at tokens that are
read between the states, but for the first `n` of these. -/
def Told (r : Row) (n : Nat) (s : State) (G : List Gap) (t : State) : Prop :=
  ∃ new ws, s.rest = ws ++ t.rest ∧ t.faults.toList = s.faults.toList ++ new ∧
    new.map some = (G.filter r.lacks).map r.fault? ∧
    (new.map (·.span)).Sublist ((ws.drop n).map (·.token.span))

theorem Told.of_advances (h : Advances s t) (hf : t.faults = s.faults) : r.Told n s [] t := by
  obtain ⟨ws, hws⟩ := h.rest
  exact ⟨[], ws, hws.symm, by simp [hf], rfl, List.nil_sublist _⟩

theorem Told.forget (h : r.Told (n + 1) s G t) : r.Told n s G t := by
  obtain ⟨new, ws, hws, hnew, hnames, hsub⟩ := h
  refine ⟨new, ws, hws, hnew, hnames, hsub.trans ?_⟩
  rw [← List.drop_drop]
  exact ((List.drop_sublist _ _).map _)

theorem sublist_append {xs ys : List (Located SyntaxFault)} {ws vs : List Terminal}
    (hx : (xs.map (·.span)).Sublist ((ws.drop n).map (·.token.span)))
    (hy : (ys.map (·.span)).Sublist (vs.map (·.token.span))) (hn : n ≤ ws.length) :
    ((xs ++ ys).map (·.span)).Sublist (((ws ++ vs).drop n).map (·.token.span)) := by
  rw [List.map_append, List.drop_append_of_le_length hn, List.map_append]
  exact hx.append hy

theorem Told.trans (h : r.Told 1 s G u) (h' : r.Told 1 u H t) : r.Told 1 s (G ++ H) t := by
  obtain ⟨xs, ws, hws, hxs, hG, hsub⟩ := h
  obtain ⟨ys, vs, hvs, hys, hH, hsub'⟩ := h'
  refine ⟨xs ++ ys, ws ++ vs, by rw [hws, hvs, List.append_assoc],
    by rw [hys, hxs, List.append_assoc], ?_, ?_⟩
  · rw [List.filter_append, List.map_append, List.map_append, hG, hH]
  · cases ws with
    | nil =>
      have hnil : xs = [] := by simpa using hsub
      rw [hnil]
      exact hsub'
    | cons w ws =>
      exact sublist_append hsub (hsub'.trans ((List.drop_sublist _ _).map _)) (by simp)

theorem Told.trans_read (h : r.Told 1 s G u) (hlt : u.rest.length < s.rest.length)
    (h' : r.Told 0 u H t) : r.Told 1 s (G ++ H) t := by
  obtain ⟨xs, ws, hws, hxs, hG, hsub⟩ := h
  obtain ⟨ys, vs, hvs, hys, hH, hsub'⟩ := h'
  refine ⟨xs ++ ys, ws ++ vs, by rw [hws, hvs, List.append_assoc],
    by rw [hys, hxs, List.append_assoc], ?_, ?_⟩
  · rw [List.filter_append, List.map_append, List.map_append, hG, hH]
  · have hpos : 1 ≤ ws.length := by
      rw [hws, List.length_append] at hlt
      omega
    exact sublist_append hsub hsub' hpos

-- ---------------------------------------------------------------------------
-- Places in a row
-- ---------------------------------------------------------------------------

variable {x y : Terminal} {ws us : List Terminal}

theorem mem_of_suffix (hs : s.rest <:+ r.terminals) (h : s.rest = ws ++ y :: us) :
    y ∈ r.terminals :=
  hs.subset (by simp [h])

theorem ordered_of_suffix (hs : s.rest <:+ r.terminals) (h : s.rest = x :: ws ++ y :: us) :
    x.token.span.stop ≤ y.token.span.start := by
  have hpair := r.ordered.sublist hs.sublist
  rw [h, List.cons_append, List.pairwise_cons] at hpair
  exact hpair.1 y (by simp)

theorem merge_here (hs : s.rest <:+ r.terminals) (h : s.rest = ws ++ y :: us) :
    s.here.merge y.token.span = ⟨s.here.start, y.token.span.stop⟩ := by
  have hy := r.covers y (mem_of_suffix hs h)
  cases ws with
  | nil =>
    have hhere : s.here = y.token.span := by simp [State.here, h]
    rw [hhere, Span.merge_self]
  | cons x ws =>
    have hx := r.covers x (hs.subset (by simp [h]))
    have hle := ordered_of_suffix hs h
    have hhere : s.here = x.token.span := by simp [State.here, h]
    rw [hhere, Span.merge, Nat.min_eq_left (by omega), Nat.max_eq_right (by omega)]

theorem fault?_here {a : Span} (hs : s.rest <:+ r.terminals) (h : s.rest = y :: us) {b : Span}
    (hb : b.start = y.token.span.start) : r.fault? (a, b) = some ⟨.missingSeparator s.kind, s.here⟩ := by
  have hfind : r.terminals.find? (fun z => z.token.span.start = b.start) = some y := by
    obtain ⟨ws, hws⟩ := hs
    have hpair := r.ordered
    rw [← hws, h, List.pairwise_append] at hpair
    rw [← hws, h, List.find?_append, List.find?_eq_none.mpr fun z hz => ?_, Option.none_or,
      List.find?_cons_of_pos (by simp [hb])]
    have hle := hpair.2.2 z hz y List.mem_cons_self
    have hlt := r.covers z (hws ▸ List.mem_append_left _ hz)
    simp only [hb, decide_eq_true_eq]
    omega
  rw [fault?, hfind, State.kind, State.here, h]
  rfl

def Ended (r : Row) (span : Span) (s : State) : Prop :=
  ∃ ws x, r.terminals = ws ++ x :: s.rest ∧ x.token.span.stop = span.stop

theorem Ended.suffix {span : Span} (h : r.Ended span s) : s.rest <:+ r.terminals := by
  obtain ⟨ws, x, hws, -⟩ := h
  exact ⟨ws ++ [x], by simp [hws]⟩

theorem Ended.lacks_next {span next : Span} (h : r.Ended span s) (hs : s.rest = y :: us)
    (hn : next.start = y.token.span.start) : r.lacks (span, next) = !y.terminated := by
  obtain ⟨ws, x, hws, hx⟩ := h
  have := r.adjacent ws x y us (hs ▸ hws) span.start next.stop
  rwa [hx, ← hn] at this

theorem Ended.lacks_skipped {span next : Span} (h : r.Ended span s) (hk : s.kind = .semicolon)
    (hs : s.skipped.rest = y :: us) (hn : next.start = y.token.span.start) :
    r.lacks (span, next) = false := by
  obtain ⟨ws, x, hws, hx⟩ := h
  obtain ⟨vs, hvs⟩ := s.advances_skipped.rest
  have hsemicolon : ∃ z ∈ vs, z.token.kind = .semicolon := by
    cases vs with
    | nil =>
      have hkind : s.skipped.kind = s.kind := by simp [State.kind, ← hvs]
      exact absurd (hkind.trans hk) s.kind_skipped
    | cons v vs =>
      refine ⟨v, List.mem_cons_self, ?_⟩
      rw [← hk, State.kind, ← hvs, List.cons_append]
  have := r.semicolon ws x vs y us (by rw [hws, ← hvs, hs]; simp) hsemicolon span.start next.stop
  rwa [hx, ← hn] at this

end Row

-- ---------------------------------------------------------------------------
-- Parsers that tell
-- ---------------------------------------------------------------------------

/-- Behind what has these gaps, the parser answers what has more of them, and tells about these. -/
structure Tells {α : Type} (r : Row) (pre : List Gap) (p : Parser α) (post : α → List Gap) : Prop where
  moves : Moves p
  told : ∀ s a t, s.rest <:+ r.terminals → p.run s = (.ok a, t) → OnlySeparators s t →
    ∃ G, post a = pre ++ G ∧ r.Told 1 s G t

section
variable {α β : Type} {r : Row} {pre : List Gap} {p q : Parser α} {f : α → Parser β}
  {post : α → List Gap} {mid : β → List Gap}

theorem Tells.mono {post' : α → List Gap} (h : Tells r pre p post') (hpost : ∀ a, post' a = post a) :
    Tells r pre p post where
  moves := h.moves
  told s a t hs hrun honly := hpost a ▸ h.told s a t hs hrun honly

theorem Tells.bind {Q : α → List Gap} (hp : Tells r pre p Q) (hf : ∀ a, Tells r (Q a) (f a) mid) :
    Tells r pre (p >>= f) mid where
  moves := hp.moves.bind fun a => (hf a).moves
  told s b t hs hrun honly := by
    obtain ⟨a, u, ha, hb⟩ := bind_ok.mp hrun
    have hsu := hp.moves.advances_ok ha
    obtain ⟨honly', honly''⟩ := honly.split hsu ((hf a).moves.advances_ok hb)
    obtain ⟨G, hG, htold⟩ := hp.told s a u hs ha honly'
    obtain ⟨H, hH, htold'⟩ := (hf a).told u b t (hsu.rest.trans hs) hb honly''
    exact ⟨G ++ H, by rw [hH, hG, List.append_assoc], htold.trans htold'⟩

theorem Tells.pure {a : α} (h : post a = pre) : Tells r pre (pure a) post where
  moves := moves_pure a
  told s b t _ hrun _ := by
    cases hrun
    exact ⟨[], by rw [h, List.append_nil], .of_advances (.refl s) rfl⟩

theorem Tells.ite {c : Prop} [Decidable c] (hp : Tells r pre p post) (hq : Tells r pre q post) :
    Tells r pre (if c then p else q) post := by
  split
  · exact hp
  · exact hq

theorem Tells.never (hm : Moves p) (h : ∀ s a t, p.run s ≠ (.ok a, t)) : Tells r pre p post where
  moves := hm
  told s a t _ hrun _ := absurd hrun (h s a t)

theorem Tells.fail {x : SyntaxFault} {span : Span} (hx : x.isMissingSeparator = false) :
    Tells r pre (fail x span : Parser α) post :=
  .never (reads_fail (P := fun _ => True) hx).toMoves nofun

theorem Tells.unexpected (what : Expectation) :
    Tells r pre (unexpected what : Parser α) post :=
  .never (reads_unexpected (P := fun _ => True) what).toMoves fun s a t h => by
    rw [run_unexpected] at h
    cases h

theorem Tells.deeper (limit : Nat) (h : Tells r pre p post) : Tells r pre (deeper limit p) post where
  moves := h.moves.deeper limit
  told s a t hs hrun honly := by
    obtain ⟨-, u, hu, rfl⟩ := deeper_ok.mp hrun
    exact h.told s.down a u hs hu honly

theorem Tells.iterate {step : α → Parser (ForInStep α)} {I : α → List Gap}
    (h : ∀ a, Tells r (I a) (step a) fun x => I x.value) (a : α) :
    Tells r (I a) (iterate step a) I := by
  have hfor : ∀ bound a, Tells r (I a) (iterateFor step bound a) I :=
    iterateFor_induction (C := fun a p => Tells r (I a) p I) (fun _ => .pure rfl)
      fun a _ hrest => (h a).bind hrest
  exact ⟨moves_iterate (fun b => (h b).moves) a, fun s => (hfor s.rest a).told s⟩

abbrev Silent (r : Row) (p : Parser α) : Prop := ∀ pre, Tells r pre p fun _ => pre

theorem silent_of_faults (hm : Moves p) (h : ∀ s a t, p.run s = (.ok a, t) → t.faults = s.faults) :
    Silent r p := fun pre =>
  { moves := hm
    told := fun s a t _ hrun _ => ⟨[], (List.append_nil pre).symm,
      .of_advances (hm.advances_ok hrun) (h s a t hrun)⟩ }

theorem silent_look (h : ∀ s, ∃ a, p.run s = (.ok a, s)) : Silent r p :=
  silent_of_faults (.of_look h) fun s a t hrun => by
    obtain ⟨b, hb⟩ := h s
    rw [hb] at hrun
    cases hrun
    rfl

theorem silent_accept {kind : TokenKind} (hk : kind ≠ .eof) : Silent r (accept kind) :=
  silent_of_faults (reads_accept hk).toMoves fun s a t hrun => by
    rcases accept_ok hrun with ⟨-, -, rfl⟩ | ⟨-, -, rfl⟩
    · exact s.faults_next
    · rfl

theorem silent_expectAs (what : Expectation) (kind : TokenKind) : Silent r (expectAs what kind) :=
  silent_of_faults (reads_expectAs what kind).toMoves fun s a t hrun => by
    rw [run_expectAs] at hrun
    split at hrun
    · split at hrun
      · cases hrun
        exact s.faults_next
      · cases hrun
    · cases hrun

theorem silent_expect (kind : TokenKind) : Silent r (expect kind) := fun pre =>
  (silent_expectAs _ kind pre).bind fun _ => .pure rfl

theorem silent_peek : Silent r peek := silent_look fun s => ⟨_, run_peek s⟩

theorem silent_here : Silent r here := silent_look fun _ => ⟨_, rfl⟩

theorem silent_nextIs (kind : TokenKind) : Silent r (nextIs kind) :=
  silent_look fun s => ⟨_, run_nextIs kind s⟩

theorem silent_nextAre (first second : TokenKind) : Silent r (nextAre first second) :=
  silent_look fun s => ⟨_, run_nextAre first second s⟩

theorem silent_nextOnLine (kind : TokenKind) : Silent r (nextOnLine kind) :=
  silent_look fun s => ⟨_, run_nextOnLine kind s⟩

theorem tells_located {start : Span} {a : α} {post : Located α → List Gap}
    (h : ∀ span, post ⟨a, span⟩ = pre) : Tells r pre (located start a) post where
  moves := moves_located start a
  told s b t _ hrun _ := by
    cases hrun
    exact ⟨[], by rw [h, List.append_nil], .of_advances (.refl s) rfl⟩

theorem silent_located (start : Span) (a : α) : Silent r (located start a) :=
  fun _ => tells_located fun _ => rfl

theorem tells_node [HasGaps α] (start : Span) (a : α) :
    Tells r (pre ++ gaps a) (located start a) fun x => pre ++ gaps x :=
  tells_located fun _ => rfl

end

-- ---------------------------------------------------------------------------
-- Lists
-- ---------------------------------------------------------------------------

section
variable {α β : Type} {r : Row} {p : Parser α} {g : α → List Gap}

theorem tells_goOnAt {sign : TokenKind} (hs : sign ≠ .eof) (I : β → List Gap) (b : β) :
    Tells r (I b) (goOnAt sign b) fun x => I x.value :=
  (silent_accept hs _).bind fun _ => .ite (.pure rfl) (.pure rfl)

theorem tells_listRound (hp : ∀ pre, Tells r pre p fun a => pre ++ g a) (pre : List Gap)
    (items : Array α) :
    Tells r (pre ++ items.toList.flatMap g) (listRound p items) fun x =>
      pre ++ x.value.toList.flatMap g := by
  refine (hp _).bind fun a => ?_
  have hcomma : TokenKind.comma ≠ .eof := by decide
  have hgo := tells_goOnAt (r := r) hcomma
    (fun items : Array α => pre ++ items.toList.flatMap g) (items.push a)
  simpa using hgo

theorem tells_listOf (hp : ∀ pre, Tells r pre p fun a => pre ++ g a) (pre : List Gap) :
    Tells r pre (listOf p) fun as => pre ++ as.flatMap g := by
  have hloop := Tells.iterate (I := fun items : Array α => pre ++ items.toList.flatMap g)
    (tells_listRound hp pre) #[]
  simp only [List.flatMap_nil, List.append_nil] at hloop
  exact hloop.bind fun items => .pure rfl

theorem tells_listUntil (close : TokenKind) (hp : ∀ pre, Tells r pre p fun a => pre ++ g a)
    (pre : List Gap) : Tells r pre (listUntil close p) fun as => pre ++ as.flatMap g := by
  have hround (items : Array α) : Tells r (pre ++ items.toList.flatMap g)
      (listUntilRound close p items) fun x => pre ++ x.value.toList.flatMap g :=
    (silent_nextIs close _).bind fun _ => .ite (.pure rfl) (tells_listRound hp pre items)
  have hloop := Tells.iterate (I := fun items : Array α => pre ++ items.toList.flatMap g) hround #[]
  simp only [List.flatMap_nil, List.append_nil] at hloop
  exact hloop.bind fun items => (silent_expect close _).bind fun _ => .pure rfl

theorem silent_listOf (hp : Silent r p) : Silent r (listOf p) := fun pre =>
  (tells_listOf (g := fun _ => []) (fun pre => (hp pre).mono (by simp)) pre).mono (by simp)

theorem silent_listUntil (close : TokenKind) (hp : Silent r p) : Silent r (listUntil close p) :=
  fun pre =>
    (tells_listUntil close (g := fun _ => []) (fun pre => (hp pre).mono (by simp)) pre).mono (by simp)

end

-- ---------------------------------------------------------------------------
-- Sequences
-- ---------------------------------------------------------------------------

section
variable {α : Type} [HasGaps α] {r : Row} {p : Parser (Located α)} {node : Located α}
  {nodes : List (Located α)} {span : Span} {inBlock : Bool} {s t u : State} {G : List Gap}

theorem rest_of_not_separated (inBlock : Bool) (h : u.separated = false) :
    u.kind ≠ .semicolon ∧ u.stops inBlock = false ∧
      ∃ y us, u.rest = y :: us ∧ y.terminated = false := by
  simp only [State.separated, Bool.or_eq_false_iff, decide_eq_false_iff_not] at h
  obtain ⟨hk, ⟨hempty, hclosing⟩, hterminated⟩ := h
  cases hu : u.rest with
  | nil => simp [hu] at hempty
  | cons y us =>
    simp only [hu, List.head?_cons, Option.any_some, Option.all_some] at hclosing hterminated
    exact ⟨hk, by simp [State.stops, hu, hclosing], y, us, rfl, hterminated⟩

theorem after_of_not_separated (h : u.separated = false) :
    u.after.skipped = { u with faults := u.faults.push ⟨.missingSeparator u.kind, u.here⟩ } := by
  obtain ⟨hk, -⟩ := rest_of_not_separated false h
  rw [State.after, h, if_neg Bool.false_ne_true]
  exact State.skipped_of_ne hk

theorem Row.Told.behind (hadv : Advances s u) (hf : u.faults = s.faults) (h : r.Told 1 u G t) :
    r.Told 0 s G t := by
  obtain ⟨new, ws, hws, hnew, hG, hsub⟩ := h.forget
  obtain ⟨vs, hvs⟩ := hadv.rest
  refine ⟨new, vs ++ ws, by rw [← hvs, hws, List.append_assoc], by rw [hnew, hf], hG, hsub.trans ?_⟩
  exact (List.sublist_append_right vs ws).map _

omit [HasGaps α] in
theorem ended_of_covers (hc : Covers p) (hr : Reads p) (hs : s.rest <:+ r.terminals)
    (h : p.run s = (.ok node, t)) : r.Ended node.span t ∧ node.span.start = s.here.start := by
  obtain ⟨ws, x, hrest, hprevious⟩ := hr.split h
  have hspan : node.span = ⟨s.here.start, x.token.span.stop⟩ := by
    rw [hc s node t h, hprevious, Row.merge_here hs hrest]
  obtain ⟨vs, hvs⟩ := hs
  exact ⟨⟨vs ++ ws, x, by rw [← hvs, hrest, List.append_assoc], by rw [hspan]⟩, by rw [hspan]⟩

omit [HasGaps α] in
theorem Row.Ended.lacks_separated {y : Terminal} {us : List Terminal} (hu : r.Ended span u)
    (hsep : u.separated = true) (hs : u.skipped.stops inBlock = false)
    (hopen : inBlock = false → u.skipped.kind ≠ .rightCurl) (hy : u.skipped.rest = y :: us)
    (hstart : node.span.start = y.token.span.start) : r.lacks (span, node.span) = false := by
  by_cases hk : u.kind = .semicolon
  · exact hu.lacks_skipped hk hy hstart
  · rw [State.skipped_of_ne hk] at hy hs hopen
    have hclosing : y.closing = false := by
      cases inBlock with
      | true => simpa [State.stops, hy] using hs
      | false =>
        have hkind := hopen rfl
        rw [State.kind, hy] at hkind
        rw [r.closes y (hu.suffix.subset (hy ▸ List.mem_cons_self))]
        simpa using hkind
    have hterminated : y.terminated = true := by
      simpa [State.separated, hk, hy, hclosing] using hsep
    rw [hu.lacks_next hy hstart, hterminated]
    rfl

omit [HasGaps α] in
/-- Behind an item, what separates it from the next one decides about the gap between them. -/
theorem Row.Ended.told_after (hu : r.Ended span u) (hs : u.after.skipped.stops inBlock = false)
    (hopen : inBlock = false → u.after.skipped.kind ≠ .rightCurl)
    (hstart : node.span.start = u.after.skipped.here.start)
    (hlt : t.rest.length < u.after.skipped.rest.length) (h : r.Told 1 u.after.skipped G t) :
    r.Told 0 u ((span, node.span) :: G) t := by
  obtain ⟨y, us, hy⟩ := State.rest_of_stops hs
  have hhere : u.after.skipped.here = y.token.span := by simp [State.here, hy]
  rw [hhere] at hstart
  cases hsep : u.separated with
  | true =>
    rw [State.after_of_separated hsep, u.skipped_skipped] at *
    have hlacks := hu.lacks_separated hsep hs hopen hy hstart
    obtain ⟨new, ws, hws, hnew, hG, hsub⟩ := h.behind u.advances_skipped u.faults_skipped
    exact ⟨new, ws, hws, hnew, by rw [List.filter_cons_of_neg (by simp [hlacks]), hG], hsub⟩
  | false =>
    obtain ⟨-, -, z, us', hz, hterminated⟩ := rest_of_not_separated inBlock hsep
    rw [after_of_not_separated hsep] at hy hlt h
    obtain ⟨rfl, rfl⟩ := List.cons.inj (hz.symm.trans hy)
    have hlacks : r.lacks (span, node.span) = true := by
      rw [hu.lacks_next hy hstart, hterminated]
      rfl
    obtain ⟨new, ws, hws, hnew, hG, hsub⟩ := h
    refine ⟨⟨.missingSeparator u.kind, u.here⟩ :: new, ws, hws, by rw [hnew]; simp, ?_, ?_⟩
    · rw [List.filter_cons_of_pos hlacks, List.map_cons, List.map_cons, hG,
        Row.fault?_here hu.suffix hy hstart]
    · cases ws with
      | nil =>
        rw [hws, List.nil_append] at hlt
        exact absurd hlt (Nat.lt_irrefl _)
      | cons w ws =>
        have hw : u.here = w.token.span := by simp [State.here, show u.rest = w :: (ws ++ t.rest) from hws]
        rw [List.map_cons, hw]
        exact hsub.cons_cons _

variable (hp : ∀ pre, Tells r pre p fun a => pre ++ gaps a) (hc : Covers p) (hr : Reads p)
  (hopen : inBlock = false → ∀ s a t, p.run s = (.ok a, t) → s.kind ≠ .rightCurl)
include hp hc hr hopen

theorem told_behind (h : Items inBlock p u.after nodes t) (ht : t.stops inBlock = true)
    (honly : OnlySeparators u t) (hu : r.Ended span u) :
    r.Told 0 u (itemGaps (some span) nodes) t := by
  generalize hv : u.after = v at h
  induction h generalizing u span with
  | nil v =>
    subst hv
    have hsep : u.separated = true := by
      cases hsep : u.separated with
      | true => rfl
      | false =>
        obtain ⟨-, hstops, -⟩ := rest_of_not_separated inBlock hsep
        rw [after_of_not_separated hsep] at ht
        exact absurd (hstops.symm.trans ht) Bool.false_ne_true
    rw [State.after_of_separated hsep, u.skipped_skipped]
    exact .of_advances u.advances_skipped u.faults_skipped
  | @cons v w t node nodes hs hnode hrest ih =>
    subst hv
    have hadv := u.advances_after.trans u.after.advances_skipped
    have hitem := hr.advances_ok hnode
    have hlast := w.advances_after.trans (hrest.advances hr.toMoves)
    have hsuffix := hadv.rest.trans hu.suffix
    obtain ⟨honly₁, honly₂⟩ := (honly.split hadv (hitem.trans hlast)).2.split hitem hlast
    obtain ⟨hended, hstart⟩ := ended_of_covers hc hr hsuffix hnode
    obtain ⟨G, hG, htold⟩ := (hp []).told _ _ _ hsuffix hnode honly₁
    rw [List.nil_append, List.nil_append] at hG
    have hboth := htold.trans_read (hr.shorter hnode) (ih ht honly₂ hended rfl)
    rw [← hG] at hboth
    have hlt := Nat.lt_of_le_of_lt hlast.length_le (hr.shorter hnode)
    exact hu.told_after hs (fun h => hopen h _ _ _ hnode) hstart hlt hboth

theorem tells_sequenceOf (pre : List Gap) :
    Tells r pre (sequenceOf inBlock p) fun nodes => pre ++ itemGaps none nodes where
  moves := moves_sequenceOf inBlock hr.toMoves
  told s nodes t hs hrun honly := by
    obtain ⟨hitems, ht⟩ := items_of_run hr hrun honly
    refine ⟨_, rfl, ?_⟩
    cases hitems with
    | nil => exact .of_advances s.advances_skipped s.faults_skipped
    | @cons _ u _ node nodes _ hnode hrest =>
      have hitem := hr.advances_ok hnode
      have hlast := u.advances_after.trans (hrest.advances hr.toMoves)
      have hsuffix := s.advances_skipped.rest.trans hs
      have hskipped := (honly.split s.advances_skipped (hitem.trans hlast)).2
      obtain ⟨honly₁, honly₂⟩ := hskipped.split hitem hlast
      obtain ⟨hended, -⟩ := ended_of_covers hc hr hsuffix hnode
      obtain ⟨G, hG, htold⟩ := (hp []).told _ _ _ hsuffix hnode honly₁
      rw [List.nil_append, List.nil_append] at hG
      have hboth := htold.trans_read (hr.shorter hnode)
        (told_behind hp hc hr hopen hrest ht honly₂ hended)
      rw [← hG] at hboth
      have hskip : r.Told 1 s [] s.skipped := .of_advances s.advances_skipped s.faults_skipped
      exact hskip.trans hboth

end

end Linewise
