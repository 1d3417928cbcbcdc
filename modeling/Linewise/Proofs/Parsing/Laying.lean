import Linewise.Proofs.Parsing.GrammarProgress
import Linewise.Proofs.Parsing.Standing
import Linewise.Proofs.Parsing.Triple

/-!
# Parsers lay places

`Since ts begun ps s`: of the terminals `ts` some have been read, and the places `ps` stand on these. `Lays`
says of a parser that the places of its answer stand on what it reads, behind those that were laid before. A
node stands on what has been read since it began, so for this the terminals `ts` are those from its first one
on.
-/

namespace Linewise.Parser

variable {α β : Type} {p : Parser α} {f : Span → Parser α} {s t : State} {ts : List Terminal}
  {begun : Bool} {q : Place} {ps qs : List Place} {start : Span}

structure Since (ts : List Terminal) (begun : Bool) (ps : List Place) (s : State) : Prop where
  orderly : Orderly ts
  read : ∃ ws, ts = ws ++ s.rest ∧ (begun = true → ws ≠ []) ∧
    (∀ x, ws.getLast? = some x → s.previous = x.token.span) ∧ Laid ws ps

theorem Since.none (h : Orderly s.rest) : Since s.rest false [] s :=
  ⟨h, [], rfl, nofun, nofun, laid_nil _⟩

theorem Since.advance (h : Since ts begun ps s) (hst : Advances s t) : Since ts begun ps t := by
  obtain ⟨horderly, ws, hws, hbegun, hlast, hlaid⟩ := h
  refine ⟨horderly, ?_⟩
  rcases hst.between with ⟨hrest, hprevious⟩ | ⟨us, x, hrest, hprevious⟩
  · exact ⟨ws, by rw [hws, hrest], hbegun, by rw [hprevious]; exact hlast, hlaid⟩
  · refine ⟨ws ++ (us ++ [x]), by rw [hws, hrest]; simp, by simp, fun y hy => ?_, ?_⟩
    · have hyx : x = y := by simpa using hy
      rw [hprevious, hyx]
    · exact hlaid.mono (List.prefix_append _ _).isInfix

theorem Since.begins (h : Since ts begun ps t) (hlt : t.rest.length < ts.length) : Since ts true ps t := by
  obtain ⟨horderly, ws, hws, -, hrest⟩ := h
  refine ⟨horderly, ws, hws, fun _ hnil => ?_, hrest⟩
  rw [hws, hnil, List.nil_append] at hlt
  exact Nat.lt_irrefl _ hlt

theorem Since.forget (h : Since ts begun ps s) : Since ts false ps s := by
  obtain ⟨horderly, ws, hws, -, hrest⟩ := h
  exact ⟨horderly, ws, hws, nofun, hrest⟩

/-- What is laid from a later state on comes behind. -/
theorem Since.extend {later : Bool} (h : Since ts begun ps s) (hst : Advances s t)
    (h' : Since s.rest later qs t) : Since ts begun (ps ++ qs) t := by
  obtain ⟨horderly, ws, hws, hbegun, hlast, hlaid⟩ := h
  obtain ⟨-, vs, hvs, -, hlast', hlaid'⟩ := h'
  refine ⟨horderly, ws ++ vs, by rw [hws, hvs, List.append_assoc], fun hb hnil => ?_, fun x hx => ?_, ?_⟩
  · exact hbegun hb (List.append_eq_nil_iff.mp hnil).1
  · cases vs with
    | nil =>
      rcases hst.between with ⟨-, hprevious⟩ | ⟨us, y, hrest, -⟩
      · rw [List.append_nil] at hx
        exact hprevious.trans (hlast x hx)
      · have hlength := congrArg List.length (hvs.symm.trans hrest)
        simp only [List.nil_append, List.length_append, List.length_cons] at hlength
        omega
    | cons v vs => exact hlast' x (by simpa [List.getLast?_append] using hx)
  · have hboth : Orderly (ws ++ vs) := horderly.sublist (by rw [hws, hvs]; simp)
    exact hlaid.append hlaid' hboth

-- ---------------------------------------------------------------------------
-- Nodes
-- ---------------------------------------------------------------------------

def StartsAt (ts : List Terminal) (start : Span) : Prop := ∀ x ∈ ts.head?, start = x.token.span

/-- The node begins with the first terminal, and ends with it or with one that has been read. -/
def Heads (ts : List Terminal) (start : Span) (s : State) : Prop :=
  ∃ ws, ts = ws ++ s.rest ∧ ∀ x ∈ ts.head?, start.start = x.token.span.start ∧
    ∃ y ∈ x :: ws, start.stop = y.token.span.stop

theorem startsAt_here (s : State) : StartsAt s.rest s.here := fun x hx => by
  obtain ⟨xs, hxs⟩ := List.head?_eq_some_iff.mp hx
  simp [State.here, hxs]

theorem StartsAt.heads (h : StartsAt ts start) (hs : Since ts begun ps s) : Heads ts start s := by
  obtain ⟨-, ws, hws, -⟩ := hs
  exact ⟨ws, hws, fun x hx => by rw [h x hx]; exact ⟨rfl, x, List.mem_cons_self, rfl⟩⟩

theorem Heads.advance (h : Heads ts start s) (hst : Advances s t) : Heads ts start t := by
  obtain ⟨ws, hws, hstart⟩ := h
  obtain ⟨vs, hvs⟩ := hst.rest
  refine ⟨ws ++ vs, by rw [hws, ← hvs, List.append_assoc], fun x hx => ?_⟩
  obtain ⟨hx, y, hy, hstop⟩ := hstart x hx
  exact ⟨hx, y, List.mem_append_left vs hy, hstop⟩

/-- From the start of a node to the token read last the span covers what has been read. -/
theorem Heads.spans (h : Heads ts start s) (hs : Since ts true ps s) :
    ∃ ws, ts = ws ++ s.rest ∧ Spans ws (start.merge s.previous) ∧ Laid ws ps := by
  obtain ⟨ws, hws, hstart⟩ := h
  obtain ⟨horderly, ws', hws', hne, hlast, hlaid⟩ := hs
  obtain rfl := List.append_cancel_right (hws.symm.trans hws')
  refine ⟨ws, hws, ?_, hlaid⟩
  have ho : Orderly ws := horderly.sublist (by rw [hws]; exact List.sublist_append_left _ _)
  obtain ⟨x, xs, rfl⟩ := List.exists_cons_of_ne_nil (hne rfl)
  obtain ⟨hx, y, hy, hstop⟩ := hstart x (by rw [hws]; rfl)
  have hyws : y ∈ x :: xs := (List.mem_cons.mp hy).elim (fun h => h ▸ List.mem_cons_self) id
  obtain ⟨z, hz⟩ := Option.isSome_iff_exists.mp (List.getLast?_isSome.mpr (List.cons_ne_nil x xs))
  have hspans : Spans (x :: xs) ⟨x.token.span.start, z.token.span.stop⟩ := ⟨x, z, rfl, hz, rfl⟩
  have hxz := (hspans.mem ho (List.mem_of_getLast? hz)).1
  have hyz := (hspans.mem ho hyws).2
  rw [hlast z hz, Span.merge, hx, hstop, Nat.min_eq_left hxz, Nat.max_eq_right hyz]
  exact hspans

theorem Heads.merge (h : Heads ts start s) (hs : Since ts true ps s) :
    Heads ts (start.merge s.previous) s := by
  obtain ⟨ws, hws, ⟨x, y, hx, hy, hspan⟩, -⟩ := h.spans hs
  refine ⟨ws, hws, fun z hz => ?_⟩
  have hxz : x = z := by
    rw [hws, List.head?_append, hx] at hz
    exact Option.some.inj hz
  rw [hspan, hxz]
  exact ⟨rfl, y, List.mem_cons_of_mem z (List.mem_of_getLast? hy), rfl⟩

/-- A place that stands on all that has been read stands for all that is laid on it. -/
theorem Heads.place (h : Heads ts start s) (hs : Since ts true ps s)
    (hq : ∀ ws, ts = ws ++ s.rest → Spans ws (start.merge s.previous) → Laid ws ps → q.On ws) :
    Since ts true [q] s := by
  obtain ⟨ws, hws, hspans, hlaid⟩ := h.spans hs
  obtain ⟨horderly, ws', hws', hne, hlast, -⟩ := hs
  obtain rfl := List.append_cancel_right (hws.symm.trans hws')
  exact ⟨horderly, ws, hws, hne, hlast, laid_one (hq ws hws hspans hlaid)⟩

theorem triple_located [HasPlaces α] (hstart : StartsAt ts start) {a : α} (hps : ps = places a)
    (hrole : ∀ xs, (HasPlaces.role a).Fits xs) :
    Triple (Since ts true ps) (located start a) fun x => Since ts true (places x) :=
  fun s x t hs h => by
    cases h
    refine (hstart.heads hs).place hs fun ws _ hspans hlaid => ?_
    rw [hps] at hlaid
    exact .covering List.infix_rfl hspans (hrole ws) hlaid.on hlaid.inOrder

-- ---------------------------------------------------------------------------
-- Parsers that lay
-- ---------------------------------------------------------------------------

theorem Moves.since (h : Moves p) : Triple (Since ts begun ps) p fun _ => Since ts begun ps :=
  fun _ _ _ hs hr => hs.advance (h.advances_ok hr)

theorem Since.length_le (h : Since ts begun ps s) : s.rest.length ≤ ts.length := by
  obtain ⟨-, ws, hws, -⟩ := h
  rw [hws, List.length_append]
  exact Nat.le_add_left _ _

theorem Reads.begins {Q : α → List Place} (h : Reads p)
    (hp : Triple (Since ts begun ps) p fun a => Since ts begun (Q a)) :
    Triple (Since ts begun ps) p fun a => Since ts true (Q a) :=
  fun s a t hs hr => (hp s a t hs hr).begins (Nat.lt_of_lt_of_le (h.shorter hr) hs.length_le)

theorem Reads.since (h : Reads p) : Triple (Since ts begun ps) p fun _ => Since ts true ps :=
  h.begins h.toMoves.since

def Lays [HasPlaces α] (p : Parser α) : Prop :=
  ∀ ts begun ps, Triple (Since ts begun ps) p fun a => Since ts begun (ps ++ places a)

variable [HasPlaces α] [HasPlaces β]

theorem Lays.begins (h : Lays p) (hr : Reads p) :
    Triple (Since ts begun ps) p fun a => Since ts true (ps ++ places a) :=
  hr.begins (h ts begun ps)

theorem Lays.of_run (later : Bool) (hm : Moves p)
    (h : ∀ s a t, Since s.rest false [] s → p.run s = (.ok a, t) → Since s.rest later (places a) t) :
    Lays p := fun ts begun ps s a t hs hr => by
  have horderly : Orderly s.rest := by
    obtain ⟨horderly, ws, hws, -⟩ := hs
    exact horderly.sublist (by rw [hws]; exact List.sublist_append_right _ _)
  exact hs.extend (hm.advances_ok hr) (h s a t (.none horderly) hr)

theorem Lays.of_here (later : Bool) (hm : Moves (here >>= f))
    (h : ∀ ts start, StartsAt ts start →
      Triple (Since ts false []) (f start) fun a => Since ts later (places a)) : Lays (here >>= f) :=
  .of_run later hm fun s a t hs hr => by
    rw [run_bind_ok (run_here s)] at hr
    exact h s.rest s.here (startsAt_here s) s a t hs hr

theorem Since.map (h : Since ts begun ps s) (hps : ∀ ws, Orderly ws → Laid ws ps → Laid ws qs) :
    Since ts begun qs s := by
  obtain ⟨horderly, ws, hws, hbegun, hlast, hlaid⟩ := h
  have ho : Orderly ws := horderly.sublist (by rw [hws]; exact List.sublist_append_left _ _)
  exact ⟨horderly, ws, hws, hbegun, hlast, hps ws ho hlaid⟩

theorem Since.unwrap {a : Located α} (h : Since ts begun (ps ++ places a) s)
    (hrole : HasPlaces.role a.node = .part) : Since ts begun (ps ++ places a.node) s :=
  h.map fun _ ho hlaid => hlaid.unwrap ho (by
    show HasPlaces.role a.node ≠ .annotated
    rw [hrole]
    exact nofun)

theorem Since.wrap {a : Located α} (h : Since ts begun (ps ++ places a) s)
    (hrole : HasPlaces.role a.node = .part) : Since ts begun (ps ++ [.node .part a.span (places a)]) s := by
  have hplaces : places a = [.node .part a.span (places a.node)] := by
    rw [places_located, hrole]
    rfl
  rw [hplaces] at h ⊢
  exact h.map fun _ _ hlaid => hlaid.exchange nofun Place.On.wrap rfl

theorem Lays.deeper (limit : Nat) (h : Lays p) : Lays (deeper limit p) := fun ts begun ps s a t hs hr => by
  obtain ⟨-, u, hu, rfl⟩ := deeper_ok.mp hr
  obtain ⟨horderly, hread⟩ := h ts begun ps s.down a u ⟨hs.orderly, hs.read⟩ hu
  exact ⟨horderly, hread⟩

-- ---------------------------------------------------------------------------
-- Lists and sequences
-- ---------------------------------------------------------------------------

omit [HasPlaces α] in
theorem triple_goOnAt {sign : TokenKind} (hs : sign ≠ .eof) (I : α → List Place) (a : α) :
    Triple (Since ts begun (I a)) (goOnAt sign a) fun r => Since ts begun (I r.value) :=
  (reads_accept hs).toMoves.since.bind fun _ =>
    .ite (fun _ => .pure fun _ hs => hs) fun _ => .pure fun _ hs => hs

abbrev itemPlaces (ps : List Place) (items : Array α) : List Place := ps ++ places items.toList

theorem itemPlaces_push (a : α) (items : Array α) :
    itemPlaces ps (items.push a) = itemPlaces ps items ++ places a := by
  simp [itemPlaces]

theorem triple_listRound (h : Lays p) (items : Array α) :
    Triple (Since ts begun (itemPlaces ps items)) (listRound p items) fun r =>
      Since ts begun (itemPlaces ps r.value) := by
  refine (h ts begun _).bind fun a => ?_
  rw [← itemPlaces_push]
  exact triple_goOnAt (by decide) (itemPlaces ps) (items.push a)

theorem lays_listOf (h : Lays p) : Lays (listOf p) := fun ts begun ps => by
  have hloop := Triple.loop (I := fun items => Since ts begun (itemPlaces ps items))
    (triple_listRound h) #[]
  simp only [itemPlaces, places_nil, List.append_nil] at hloop
  exact hloop.bind fun items => .pure fun _ hs => hs

theorem lays_listUntil (close : TokenKind) (h : Lays p) : Lays (listUntil close p) := fun ts begun ps => by
  have hround (items : Array α) : Triple (Since ts begun (itemPlaces ps items))
      (listUntilRound close p items) fun r => Since ts begun (itemPlaces ps r.value) :=
    (moves_nextIs close).since.bind fun _ =>
      .ite (fun _ => .pure fun _ hs => hs) fun _ => triple_listRound h items
  have hloop := Triple.loop (I := fun items => Since ts begun (itemPlaces ps items)) hround #[]
  simp only [itemPlaces, places_nil, List.append_nil] at hloop
  exact hloop.bind fun items => (reads_expect close).toMoves.since.bind fun _ => .pure fun _ hs => hs

theorem triple_attempt (hm : Moves p) (h : Lays p) :
    Triple (Since ts begun ps) (attempt p) fun r =>
      Since ts begun (match r with | .ok a => ps ++ places a | .error _ => ps) := fun s r t hs hr => by
  rw [run_attempt] at hr
  obtain ⟨hr, rfl⟩ := Prod.mk.inj hr
  cases hr
  cases ha : (p.run s).1 with
  | ok a => exact h ts begun ps s a _ hs (Prod.ext ha rfl)
  | error e => exact hs.advance (hm.advances s)

theorem triple_sequenceRound (inBlock : Bool) (hm : Moves p) (h : Lays p) (items : Array α) :
    Triple (Since ts begun (itemPlaces ps items)) (sequenceRound inBlock p items) fun r =>
      Since ts begun (itemPlaces ps r.value) := by
  refine moves_skipSemicolons.since.bind fun _ => (moves_atStop inBlock).since.bind fun _ =>
    .ite (fun _ => .pure fun _ hs => hs) fun _ => ?_
  refine moves_get.since.bind fun _ => (triple_attempt hm h).bind fun r => ?_
  cases r with
  | ok a => exact moves_separator.since.bind fun _ => .pure fun _ hs => itemPlaces_push a items ▸ hs
  | error fault =>
    refine (moves_report fault).since.bind fun _ => moves_get.since.bind fun _ => ?_
    exact (moves_recover inBlock _).since.bind fun _ => .pure fun _ hs => hs

/-- What is skipped between items, or of an item that cannot be read, has no places. -/
theorem lays_sequenceOf (inBlock : Bool) (hm : Moves p) (h : Lays p) : Lays (sequenceOf inBlock p) :=
  fun ts begun ps => by
    have hloop := Triple.loop (I := fun items => Since ts begun (itemPlaces ps items))
      (triple_sequenceRound inBlock hm h) #[]
    simp only [itemPlaces, places_nil, List.append_nil] at hloop
    exact hloop.bind fun items => .pure fun _ hs => hs

end Linewise.Parser
