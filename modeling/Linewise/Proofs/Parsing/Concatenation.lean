import Linewise.Proofs.Parsing.Beginnings
import Linewise.Proofs.Parsing.Changes
import Linewise.Proofs.Parsing.GrammarFollowing
import Linewise.Proofs.Parsing.Items

/-!
# Items behind items

Two sequences of items are read as one where the first of them ends, if the second one stands on a line of its
own there: all items of the first sequence but the last one are read as before, and so is the last one, unless
it is open for what the second sequence begins with.
-/

namespace Linewise

namespace Parser

variable {α : Type} {p : Parser α} {P : TokenKind → Prop} {nodes nodes' : List α} {inBlock : Bool}
  {s s' t t' : State}

-- ---------------------------------------------------------------------------
-- How sequences begin
-- ---------------------------------------------------------------------------

def ClosedByCurl (ts : List Terminal) : Prop := ∀ x ∈ ts, x.closing = true → x.token.kind = .rightCurl

theorem ClosedByCurl.suffix {ts us : List Terminal} (h : ClosedByCurl ts) (hs : us <:+ ts) :
    ClosedByCurl us :=
  fun x hx => h x (hs.subset hx)

theorem ClosedByCurl.append {ts us : List Terminal} (ht : ClosedByCurl ts) (hu : ClosedByCurl us) :
    ClosedByCurl (ts ++ us) :=
  List.forall_mem_append.mpr ⟨ht, hu⟩

def Leads (P : TokenKind → Prop) (kind : TokenKind) : Prop :=
  kind = .semicolon ∨ kind = .eof ∨ kind = .rightCurl ∨ P kind

theorem kind_of_stops (hc : ClosedByCurl s.rest) (h : s.stops inBlock = true) :
    s.kind = .eof ∨ s.kind = .rightCurl := by
  cases hs : s.rest with
  | nil => exact .inl (by rw [State.kind, hs])
  | cons x ts =>
    have hclosing : x.closing = true := by
      simp only [State.stops, hs, List.isEmpty_cons, List.head?_cons, Option.any_some, Bool.false_or,
        Bool.and_eq_true] at h
      exact h.2
    exact .inr (by rw [State.kind, hs]; exact hc x (hs ▸ List.mem_cons_self) hclosing)

theorem Faultless.leads (hb : Begins P p) (hc : ClosedByCurl s.rest)
    (h : Faultless inBlock p s nodes t) : Leads P s.kind := by
  by_cases hk : s.kind = .semicolon
  · exact .inl hk
  · have hitems := h.items
    cases hitems with
    | nil =>
      have hstop := h.stops
      rw [State.skipped_of_ne hk] at hstop
      exact .inr ((kind_of_stops hc hstop).imp_right .inl)
    | cons _ hnode =>
      rw [State.skipped_of_ne hk] at hnode
      exact .inr (.inr (.inr (hb _ _ _ hnode)))

theorem Faultless.congr (h : Faultless inBlock p s nodes t) (hs : s.skipped = s'.skipped)
    (hf : s'.faults = s.faults) : Faultless inBlock p s' nodes t :=
  ⟨h.items.congr hs, h.stops, h.faults.trans hf.symm⟩

theorem Faultless.leads_second (hb : Begins P p) (hc : ClosedByCurl s.rest)
    (h : Faultless inBlock p s nodes t) (hk : s.kind = .semicolon) : Leads P s.second := by
  obtain ⟨x, ts, hs⟩ := State.rest_of_kind hk (by decide)
  rw [Change.second_eq_next hs]
  refine (h.congr (State.skipped_of_semicolon hk) ?_).leads hb (hc.suffix s.advances_next.rest)
  rw [State.next_of_cons hs]

theorem Faultless.not_offers {sequel : Sequel} (hb : Begins P p) (hP : ¬P sequel.kind)
    (hc : ClosedByCurl s.rest) (h : Faultless inBlock p s nodes t) : ¬s.offers sequel := by
  have hne {kind : TokenKind} (hkind : Leads P kind) : kind ≠ sequel.kind := by
    rintro rfl
    rcases hkind with hk | hk | hk | hk
    · cases sequel <;> cases hk
    · cases sequel <;> cases hk
    · cases sequel <;> cases hk
    · exact hP hk
  rintro (hk | ⟨-, hk, hsecond⟩)
  · exact hne (h.leads hb hc) hk
  · exact hne (h.leads_second hb hc hk) hsecond

-- ---------------------------------------------------------------------------
-- Semicolons in front of something else
-- ---------------------------------------------------------------------------

def State.facing (s : State) (rest : List Terminal) (finish : Span) : State := { s with rest, finish }

theorem State.skipped_facing (s : State) :
    ∃ ws, s.rest = ws ++ s.skipped.rest ∧ (∀ x ∈ ws, x.token.kind = .semicolon) ∧
      ∀ rest finish, (s.facing (ws ++ rest) finish).skipped = (s.skipped.facing rest finish).skipped := by
  induction s using State.skipped_induction with
  | stay s hk =>
    rw [State.skipped_of_ne hk]
    exact ⟨[], rfl, List.forall_mem_nil _, fun rest finish => by rw [List.nil_append]⟩
  | skip s hk ih =>
    obtain ⟨x, ts, hs⟩ := State.rest_of_kind hk (by decide)
    obtain ⟨ws, hws, hsemicolons, hskipped⟩ := ih
    have hx : x.token.kind = .semicolon := by rwa [State.kind, hs] at hk
    rw [State.next_of_cons hs] at hws
    refine ⟨x :: ws, ?_, ?_, fun rest finish => ?_⟩
    · rw [State.skipped_of_semicolon hk, State.next_of_cons hs, hs, List.cons_append, ← hws]
    · exact List.forall_mem_cons.mpr ⟨hx, hsemicolons⟩
    · have hk' : (s.facing (x :: ws ++ rest) finish).kind = .semicolon := hx
      have hnext : (s.facing (x :: ws ++ rest) finish).next = s.next.facing (ws ++ rest) finish := by
        rw [State.next_of_cons hs]
        rfl
      rw [State.skipped_of_semicolon hk, ← hskipped, State.skipped_of_semicolon hk', hnext]

/-- Where one sequence ends, the state that another one is read from. -/
structure Meets (t s' : State) : Prop where
  previous : s'.previous = t.previous
  depth : s'.depth = t.depth
  faults : s'.faults = t.faults
  terminated : s'.rest.head?.all (·.terminated) = true
  onNewLine : s'.rest.head?.all (·.onNewLine) = true

theorem Meets.skipped (h : Meets s.skipped s') {ws : List Terminal}
    (hws : s.rest = ws ++ s.skipped.rest) :
    (∀ x ∈ ws, x.token.kind = .semicolon) ∧
      (s.facing (ws ++ s'.rest) s'.finish).skipped = s'.skipped := by
  obtain ⟨vs, hvs, hsemicolons, hskipped⟩ := s.skipped_facing
  obtain rfl : ws = vs := List.append_cancel_right (hws.symm.trans hvs)
  refine ⟨hsemicolons, ?_⟩
  have hfacing : s.skipped.facing s'.rest s'.finish = s' := by
    rw [State.facing, ← h.previous, ← h.depth, ← h.faults]
  rw [hskipped, hfacing]

theorem Meets.faultless (h : Meets s.skipped s') {ws : List Terminal}
    (hws : s.rest = ws ++ s.skipped.rest) (h' : Faultless inBlock p s' nodes' t') :
    Faultless inBlock p (s.facing (ws ++ s'.rest) s'.finish) nodes' t' :=
  h'.congr (h.skipped hws).2.symm (s.faults_skipped.symm.trans h.faults.symm)

theorem Meets.separated (h : Meets s.skipped s') {ws : List Terminal}
    (hws : s.rest = ws ++ s.skipped.rest) : (s.facing (ws ++ s'.rest) s'.finish).separated = true := by
  cases ws with
  | nil => simp [State.separated, State.facing, h.terminated]
  | cons x ws =>
    simp [State.separated, State.facing, State.kind, (h.skipped hws).1 x List.mem_cons_self]

end Parser

namespace Change

open Linewise.Parser

variable {α : Type} [HasSpans α] {m : Change} {p q : Parser α} {nodes : List α} {node : α}
  {inBlock : Bool} {s t u v : State}

-- ---------------------------------------------------------------------------
-- Items in front of a seam
-- ---------------------------------------------------------------------------

theorem Before.of_advances {k : Nat} (h : m.Before k t) (hst : Advances s t) : m.Before k s :=
  fun sm hsm => Nat.le_trans (h sm hsm) hst.length_le

omit [HasSpans α] in
theorem skipped_state (hs : m.fits s.rest) (hi : m.Inside s.skipped) :
    (m.state s).skipped = m.state s.skipped := by
  induction s using State.skipped_induction with
  | stay s hk =>
    rw [State.skipped_of_ne hk] at hi ⊢
    rw [State.skipped_of_ne (kind_state hi ▸ hk)]
  | skip s hk ih =>
    have hi' : m.Inside s := hi.of_advances s.advances_skipped
    rw [State.skipped_of_semicolon hk] at hi ⊢
    rw [State.skipped_of_semicolon ((kind_state hi').trans hk), next_state hi' hs]
    exact ih (m.fits_suffix _ _ s.advances_next.rest hs) hi

omit [HasSpans α] in
theorem after_state (hs : m.fits s.rest) (hi : m.Inside s.skipped) (hsep : s.separated = true) :
    (m.state s).after = m.state s.after := by
  have hi' : m.Inside s := hi.of_advances s.advances_skipped
  have hsep' : (m.state s).separated = true := by
    rw [State.separated, kind_state hi', separated_state hi', ← Bool.or_assoc]
    rw [State.separated] at hsep
    rw [hsep, Bool.true_or]
  rw [State.after_of_separated hsep, State.after_of_separated hsep', skipped_state hs hi]

omit [HasSpans α] in
theorem regular_ok (hc : m.capped = false) {k : Nat} (hb : m.Before k t) (hf : t.faults = s.faults)
    (a : α) : m.Regular k s ((.ok a, t) : Outcome α) where
  capped h := by simp [hc] at h
  clean sm hsm := ⟨⟨a, rfl⟩, hf, hb sm hsm⟩

theorem items_state (hc : m.capped = false) (hp : Moves p) (hsim : ∀ s, m.Sim 1 s p q)
    (h : Items inBlock p s nodes v) (hs : m.fits s.rest) (hi : m.Inside v)
    (hf : v.faults = s.faults) : Items inBlock q (m.state s) (mapSpans m.span nodes) (m.state v) := by
  induction h with
  | nil s =>
    rw [← skipped_state hs hi]
    exact .nil _
  | @cons s u v node nodes hmore hnode hrest ih =>
    have hsu := s.advances_skipped.trans (hp.advances_ok hnode)
    have hafter := u.advances_after
    have huv := hrest.advances hp
    have hfu : u.faults = s.faults := faults_between hsu (hafter.trans huv) hf
    have hfa : u.after.faults = u.faults :=
      (faults_between (hsu.trans hafter) huv hf).trans hfu.symm
    have hsep := State.separated_of_faults hfa
    have hskipped : u.after = u.skipped := State.after_of_separated hsep
    have hiu : m.Inside u.skipped := hskipped ▸ hi.of_advances huv
    have hinner : m.Inside u := hiu.of_advances u.advances_skipped
    have his : m.Inside s.skipped := hinner.of_advances (hp.advances_ok hnode)
    have hfits := m.fits_suffix _ _ s.advances_skipped.rest hs
    have hfitsu := m.fits_suffix _ _ hsu.rest hs
    have hrun : q.run (m.state s).skipped = (.ok (mapSpans m.span node), m.state u) := by
      rw [skipped_state hs his, (hsim s.skipped).run hfits ?_, hnode]
      · rfl
      · rw [hnode]
        exact regular_ok hc hinner (hfu.trans s.faults_skipped.symm) node
    have hmore' : (m.state s).skipped.stops inBlock = false := by
      rw [skipped_state hs his, stops_state his, hmore]
    refine .cons hmore' hrun ?_
    rw [after_state hfitsu hiu hsep]
    exact ih (m.fits_suffix _ _ hafter.rest hfitsu) hi (hf.trans (hfa.trans hfu).symm)

theorem faultless_state (hn : m.seam = none) (hc : m.capped = false) (hp : Moves p)
    (hsim : ∀ s, m.Sim 1 s p q) (hs : m.fits s.rest) (h : Faultless inBlock p s nodes t) :
    Faultless inBlock q (m.state s) (mapSpans m.span nodes) (m.state t) := by
  have hi : m.Inside t := fun sm hsm => by simp [hn] at hsm
  exact ⟨items_state hc hp hsim h.items hs hi h.faults, (stops_state hi inBlock).trans h.stops,
    congrArg m.faults h.faults⟩

theorem items_behind {init nodes' : List α} {last : α} {w : State} (hc : m.capped = false)
    (hp : Moves p) (hsim : ∀ s, m.Sim 1 s p q) (hinit : Items inBlock p s init v)
    (hs : m.fits s.rest) (hf : v.faults = s.faults) (hi : m.Inside v.skipped)
    (hmore : v.skipped.stops inBlock = false)
    (hlast : q.run (m.state v.skipped) = m.outcome (.ok last, w))
    (hsep : (m.state w).separated = true) (hrest : Items inBlock q (m.state w) nodes' t) :
    Items inBlock q (m.state s) (mapSpans m.span (init ++ [last]) ++ nodes') t := by
  have hskipped := skipped_state (m.fits_suffix _ _ (hinit.advances hp).rest hs) hi
  have hitems := items_state hc hp hsim hinit hs (hi.of_advances v.advances_skipped) hf
  have hafter : Items inBlock q (m.state w).after nodes' t :=
    hrest.congr (by rw [State.after_of_separated hsep, State.skipped_skipped])
  have hnode : Items inBlock q (m.state v) (mapSpans m.span last :: nodes') t :=
    .cons (by rw [hskipped, stops_state hi, hmore]) (by rw [hskipped]; exact hlast) hafter
  have hmap : mapSpans m.span (init ++ [last]) = mapSpans m.span init ++ [mapSpans m.span last] :=
    List.map_append
  rw [hmap, ← List.append_cons]
  exact hitems.append hnode

-- ---------------------------------------------------------------------------
-- States in which a seam is grafted
-- ---------------------------------------------------------------------------

variable {g : Graft} {ws us : List Terminal}

omit [HasSpans α] in
theorem grafted_rest (hws : (ws ++ us).length ≤ g.terminals.length) (hus : us.length = g.seam.kept) :
    (grafted g).rest (ws ++ us) = ws ++ g.seam.new := by
  induction ws with
  | nil =>
    have hseam : (grafted g).seam = some g.seam := rfl
    exact rest_at_seam hseam hus
  | cons x ws ih =>
    rw [List.cons_append, List.length_cons] at hws
    have hmark : (grafted g).mark ((ws ++ us).length + 1) x = x :=
      if_pos (Nat.lt_succ_of_le hws)
    have hrest : (grafted g).rest (x :: (ws ++ us)) =
        (grafted g).mark ((ws ++ us).length + 1) x :: (grafted g).rest (ws ++ us) := by
      refine if_neg ?_
      rw [List.length_append, hus]
      omega
    rw [List.cons_append, hrest, hmark, ih (Nat.le_of_succ_le hws), List.cons_append]

omit [HasSpans α] in
theorem grafted_state (hs : s.rest <:+ g.terminals) (hrest : s.rest = ws ++ us)
    (hus : us.length = g.seam.kept) :
    (grafted g).state s = s.facing (ws ++ g.seam.new) g.seam.finish := by
  have hread : s.rest.length < (grafted g).total := Nat.lt_succ_of_le hs.length_le
  have hnew : (grafted g).rest s.rest = ws ++ g.seam.new := by
    rw [hrest]
    exact grafted_rest (hrest ▸ hs.length_le) hus
  rw [state, hnew, if_pos hread, faults_of_id rfl rfl]
  rfl

theorem inOrder_grafted (g : Graft) : (grafted g).InOrder := fun _ hts => g.ordered.sublist hts.sublist

omit [HasSpans α] in
theorem rest_grafted (hb : (grafted g).Before 0 s) (hi : ¬(grafted g).Inside s) :
    ((grafted g).state s).rest = g.seam.new := by
  obtain ⟨sm, hsm, hlen⟩ := hb.at_seam hi
  obtain rfl := Option.some.inj hsm
  exact rest_at_seam hsm hlen

end Change

namespace Parser

open Change

variable {α : Type} {p : Parser α} {P : TokenKind → Prop} {nodes nodes' : List α} {inBlock : Bool}
  {O : Graft → α → State → Prop} {s s' t t' : State} {ws : List Terminal}

/-- What is known of a rule for items that begin with such tokens. -/
structure ItemRule (P : TokenKind → Prop) [HasSpans α] (p : Parser α) : Prop where
  reads : Reads p
  finishes : Finishes p
  begins : Begins P p
  unjoined : ∀ kind, P kind → kind.joins = false
  sim : ∀ m : Change, m.DetachesAll maxDepth → ∀ s, m.Sim 1 s p p

structure InRow (ts : List Terminal) : Prop where
  closed : ClosedByCurl ts
  ordered : ts.Pairwise fun x y => x.token.span.stop ≤ y.token.span.stop

/-- The last item of a sequence, with the semicolons behind it. -/
structure EndsWith (p : Parser α) (s t : State) (node : α) (v w : State) (semicolons : List Terminal) :
    Prop where
  front : v.rest <:+ s.rest
  run : p.run v = (.ok node, w)
  rest : w.rest = semicolons ++ t.rest
  separated : ∀ x ∈ semicolons, x.token.kind = .semicolon

/-- The item goes on with the sequence put behind the semicolons. -/
structure Absorbs (O : Graft → α → State → Prop) (p : Parser α) (s t s' : State) (node : α) (v w : State)
    (semicolons : List Terminal) : Prop extends EndsWith p s t node v w semicolons where
  goesOn : ∃ g, g.terminals = s.rest ∧
    (grafted g).state w = w.facing (semicolons ++ s'.rest) s'.finish ∧ O g node w

theorem EndsWith.split {node : α} {v w : State} {semicolons : List Terminal} (hr : Reads p)
    (h : EndsWith p s t node v w semicolons) :
    ∃ ws x, s.rest = ws ++ x :: (semicolons ++ t.rest) ∧ w.previous = x.token.span := by
  obtain ⟨us, x, hread, hprevious⟩ := hr.split h.run
  obtain ⟨front, hfront⟩ := h.front
  exact ⟨front ++ us, x, by rw [← hfront, hread, h.rest, List.append_assoc], hprevious⟩

theorem Absorbs.closed {node : α} {v w : State} {semicolons : List Terminal} (hr : Reads p)
    (hs : ClosedByCurl s.rest) (h : Absorbs O p s t s' node v w semicolons) : ClosedByCurl semicolons := by
  have hw := hs.suffix ((hr.advances_ok h.run).rest.trans h.front)
  intro x hx
  exact hw x (by rw [h.rest]; exact List.mem_append_left _ hx)

theorem eq_of_suffix {ts us vs : List Terminal} (ht : ts <:+ vs) (hu : us <:+ vs)
    (hlen : ts.length = us.length) : ts = us :=
  (List.suffix_of_suffix_length_le ht hu (Nat.le_of_eq hlen)).eq_of_length hlen

theorem Leads.unjoined {kind : TokenKind} (hP : ∀ kind, P kind → kind.joins = false)
    (h : Leads P kind) : kind.joins = false := by
  rcases h with rfl | rfl | rfl | h
  · rfl
  · rfl
  · rfl
  · exact hP kind h

/-- The place behind the last item of a sequence, with the semicolons there and another sequence put behind
them. -/
theorem exists_graft {v w : State} {semicolons : List Terminal} {node : α} (hr : Reads p)
    (hf : Finishes p) (hvs : v.rest <:+ s.rest) (hrun : p.run v = (.ok node, w))
    (hw : w.rest = semicolons ++ t.rest) (hsemicolons : ∀ x ∈ semicolons, x.token.kind = .semicolon)
    (ht : t.kind = .eof ∨ t.kind = .rightCurl)
    (ho : s.rest.Pairwise fun x y => x.token.span.stop ≤ y.token.span.stop)
    (hj : (w.facing (semicolons ++ s'.rest) s'.finish).kind.joins = false)
    (hline : s'.rest.head?.all (·.onNewLine) = true) :
    ∃ g : Graft, g.terminals = s.rest ∧ g.seam.kept = w.rest.length ∧ g.seam.new = semicolons ++ s'.rest ∧
      g.seam.finish = s'.finish := by
  have hws : w.rest <:+ s.rest := (hr.advances_ok hrun).rest.trans hvs
  obtain ⟨x, hxs, hx⟩ : ∃ x, x :: w.rest <:+ s.rest ∧ x.token.kind.isInner = false := by
    obtain ⟨us, x, hsplit, hx⟩ := (hf v node w hrun).split (hr.shorter hrun)
    exact ⟨x, List.IsSuffix.trans ⟨us, hsplit.symm⟩ hvs, hx⟩
  have hkind : w.kind.endsItem = true := by
    cases semicolons with
    | nil =>
      have hwt : w.kind = t.kind := by rw [State.kind, hw]; rfl
      rcases ht with ht | ht <;> rw [hwt, ht] <;> rfl
    | cons y ys =>
      have hwy : w.kind = .semicolon := by
        rw [State.kind, hw]
        exact hsemicolons y List.mem_cons_self
      rw [hwy]
      rfl
  have hnew {y : Terminal} {ys : List Terminal} (h : semicolons ++ s'.rest = y :: ys) :
      (w.facing (semicolons ++ s'.rest) s'.finish).kind = y.token.kind := by
    rw [h]
    rfl
  refine ⟨⟨s.rest, ⟨w.rest.length, semicolons ++ s'.rest, s'.finish, fun y ys h => hnew h ▸ hj,
    fun y ys h hopens => ?_⟩, ho, fun y ys hys hlen => ?_, fun y ys hys hlen => ?_⟩, rfl, rfl, rfl, rfl⟩
  · cases semicolons with
    | nil =>
      rw [List.nil_append] at h
      rw [h] at hline
      exact hline
    | cons z zs =>
      obtain ⟨rfl, -⟩ := List.cons.inj h
      rw [hsemicolons z List.mem_cons_self] at hopens
      cases hopens
  · have heq : y :: ys = w.rest := eq_of_suffix hys hws hlen
    rw [State.kind, ← heq] at hkind
    exact hkind
  · have heq : y :: ys = x :: w.rest := eq_of_suffix hys hxs (by simp [hlen])
    rw [(List.cons.inj heq).1]
    exact hx

theorem Faultless.last {init : List α} {last : α} (hp : Moves p)
    (h : Faultless inBlock p s (init ++ [last]) t) :
    ∃ v w, Items inBlock p s init v ∧ v.skipped.stops inBlock = false ∧
      p.run v.skipped = (.ok last, w) ∧ t = w.skipped ∧ v.faults = s.faults ∧ w.faults = s.faults := by
  obtain ⟨v, w, hinit, hmore, hrun, rfl⟩ := h.items.last
  have hsv := hinit.advances hp
  have hvw := v.advances_skipped.trans (hp.advances_ok hrun)
  have hwt := w.advances_after.trans w.after.advances_skipped
  have hfw : w.faults = s.faults := faults_between (hsv.trans hvw) hwt h.faults
  have hfa : w.after.faults = s.faults :=
    faults_between ((hsv.trans hvw).trans w.advances_after) w.after.advances_skipped h.faults
  have hsep := State.separated_of_faults (hfa.trans hfw.symm)
  refine ⟨v, w, hinit, hmore, hrun, ?_, faults_between hsv (hvw.trans hwt) h.faults, hfw⟩
  rw [State.after_of_separated hsep, w.skipped_skipped]

theorem Faultless.endsWith {init : List α} {last : α} (hr : Reads p)
    (h : Faultless inBlock p s (init ++ [last]) t) :
    ∃ v w semicolons, EndsWith p s t last v w semicolons := by
  obtain ⟨v, w, hinit, -, hrun, rfl, -⟩ := h.last hr.toMoves
  obtain ⟨semicolons, hrest, hsemicolons, -⟩ := w.skipped_facing
  have hfront := v.advances_skipped.rest.trans (hinit.advances hr.toMoves).rest
  exact ⟨v.skipped, w, semicolons, hfront, hrun, hrest, hsemicolons⟩

theorem detachesAll_grafted (g : Graft) : (grafted g).DetachesAll maxDepth := fun _ _ _ _ _ _ _ _ _ => rfl

theorem regular_grafted {g : Graft} {node : α} {v w : State} (hr : Reads p) (hrun : p.run v = (.ok node, w))
    (hkept : g.seam.kept = w.rest.length) (hf : w.faults = v.faults) :
    (grafted g).Inside v ∧ (grafted g).Regular 0 v (p.run v) := by
  constructor
  · intro sm hsm
    obtain rfl := Option.some.inj hsm
    exact hkept ▸ hr.shorter hrun
  · rw [hrun]
    refine regular_ok rfl (fun sm hsm => ?_) hf node
    obtain rfl := Option.some.inj hsm
    exact Nat.le_of_eq hkept

/-- Items are read behind items, unless the last one in front of them goes on with the first of them. -/
theorem Faultless.append [HasSpans α] [LawfulSpans α] (hp : ItemRule P p)
    (hlast : ∀ g j, j.rest = g.seam.new → ClosedByCurl j.rest → Faultless inBlock p j nodes' t' →
      ∀ s, (grafted g).Follows (O g) s p p)
    (h : Faultless inBlock p s nodes t) (h' : Faultless inBlock p s' nodes' t')
    (hs : InRow s.rest) (hs' : InRow s'.rest) (hmeets : Meets t s') (hws : s.rest = ws ++ t.rest) :
    Faultless inBlock p (s.facing (ws ++ s'.rest) s'.finish) (nodes ++ nodes') t' ∨
      ∃ init last v w semicolons, nodes = init ++ [last] ∧ Absorbs O p s t s' last v w semicolons ∧
        Faultless inBlock p (w.facing (semicolons ++ s'.rest) s'.finish) nodes' t' := by
  have hr := hp.reads
  rcases List.eq_nil_or_concat nodes with rfl | ⟨init, last, hnodes⟩
  · left
    have hitems := h.items
    cases hitems with
    | nil => exact hmeets.faultless hws h'
  rw [List.concat_eq_append] at hnodes
  subst hnodes
  obtain ⟨v, w, hinit, hmore, hrun, rfl, hfv, hfw⟩ := h.last hr.toMoves
  have hsv := hinit.advances hr.toMoves
  have hvw := v.advances_skipped.trans (hr.advances_ok hrun)
  have hvs : v.skipped.rest <:+ s.rest := v.advances_skipped.rest.trans hsv.rest
  have hsw := (hsv.trans hvw).rest
  -- What stands behind the last item.
  obtain ⟨semicolons, hw⟩ := w.advances_skipped.rest
  obtain ⟨pre, hpre⟩ := id hsw
  obtain rfl : pre ++ semicolons = ws := by
    rw [← hpre, ← hw, ← List.append_assoc] at hws
    exact List.append_cancel_right hws
  have hj := hmeets.faultless hw.symm h'
  have hcw := hs.closed.suffix hsw
  have hcj : ClosedByCurl (semicolons ++ s'.rest) :=
    .append (fun x hx => hcw x (hw ▸ List.mem_append_left _ hx)) hs'.closed
  have ht := kind_of_stops (hcw.suffix w.advances_skipped.rest) h.stops
  obtain ⟨g, hterminals, hkept, hnew, hfinish⟩ := exists_graft hr hp.finishes hvs hrun hw.symm
    (hmeets.skipped hw.symm).1 ht hs.ordered ((hj.leads hp.begins hcj).unjoined hp.unjoined)
    hmeets.onNewLine
  -- What becomes of the states in front of it.
  have hfits {u : State} (hu : u.rest <:+ s.rest) : (grafted g).fits u.rest := by
    show u.rest <:+ g.terminals
    rwa [hterminals]
  have hstate {u : State} {xs : List Terminal} (hxs : u.rest = xs ++ w.rest) (hu : u.rest <:+ s.rest) :
      (grafted g).state u = u.facing (xs ++ (semicolons ++ s'.rest)) s'.finish := by
    rw [grafted_state (hfits hu) hxs hkept.symm, hnew, hfinish]
  have hstatew := hstate (List.nil_append w.rest).symm hsw
  rw [List.nil_append] at hstatew
  obtain ⟨hinner, hregular⟩ :=
    regular_grafted hr hrun hkept (hfw.trans (hfv.symm.trans v.faults_skipped.symm))
  rcases (hlast g _ hnew.symm hcj hj v.skipped).run (hfits hvs) hregular with hsame | habsorbs
  · left
    rw [hrun] at hsame
    have hall := items_behind rfl hr.toMoves (hp.sim _ (detachesAll_grafted g)) hinit
      (hfits List.suffix_rfl) hfv hinner hmore hsame (hstatew ▸ hmeets.separated hw.symm)
      (hstatew ▸ hj.items)
    have hid : mapSpans (grafted g).span (init ++ [last]) = init ++ [last] := LawfulSpans.mapSpans_id _
    rw [hstate hpre.symm List.suffix_rfl, hid, ← List.append_assoc] at hall
    exact ⟨hall, hj.stops, hj.faults.trans hfw⟩
  · right
    obtain ⟨a, u, hau, -, hopen⟩ := habsorbs
    rw [hrun] at hau
    obtain ⟨ha, rfl⟩ := Prod.mk.inj hau
    obtain rfl := Except.ok.inj ha
    exact ⟨init, last, v.skipped, w, semicolons, rfl,
      ⟨⟨hvs, hrun, hw.symm, (hmeets.skipped hw.symm).1⟩, g, hterminals, hstatew, hopen⟩, hj⟩

end Parser

end Linewise
