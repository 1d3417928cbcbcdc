import Linewise.Proofs.Parsing.Run

/-!
# What a run passes through

A parser is a function of the state that it begins in, and shows no state of its run but the last one.
`Trace` follows the way a parser is put together and lists the states between: a path of steps, each of
which reads a token, reports a fault, or opens or closes a level of nesting. Every way to put parsers
together keeps that there is such a path (`Traced`), and what each step keeps holds all along it
(`Steps.keeps`).
-/

namespace Linewise.Parser

variable {α β : Type} {p : Parser α} {f : α → Parser β} {step : β → Parser (ForInStep β)}
  {out : Outcome α} {s t u : State} {us vs : List State} {limit : Nat}

/-- One change of a state. At the end of input there is nothing to read. -/
inductive Step (limit : Nat) (s : State) : State → Prop
  | reads : Step limit s s.next
  | reports (fault : Located SyntaxFault) : Step limit s { s with faults := s.faults.push fault }
  | opens (h : s.depth < limit) : Step limit s s.down
  | closes (h : 0 < s.depth) : Step limit s s.up

inductive Steps (limit : Nat) : State → List State → State → Prop
  | none (s : State) : Steps limit s [] s
  | cons {s t u : State} {us : List State} (h : Step limit s t) (hus : Steps limit t us u) :
      Steps limit s (t :: us) u

theorem Steps.append (h : Steps limit s us t) (h' : Steps limit t vs u) : Steps limit s (us ++ vs) u := by
  induction h with
  | none s => exact h'
  | cons hstep _ ih => exact .cons hstep (ih h')

theorem Steps.keeps {I : State → Prop} (hI : ∀ s t, I s → Step limit s t → I t) (h : Steps limit s us t)
    (hs : I s) : ∀ u ∈ s :: us, I u := by
  induction h with
  | none s => exact fun u hu => List.mem_singleton.mp hu ▸ hs
  | cons hstep _ ih =>
    intro u hu
    rcases List.mem_cons.mp hu with rfl | hu
    · exact hs
    · exact ih (hI _ _ hs hstep) u hu

/-- The states that a run of a parser passes through behind the one that it begins in, and what it answers.
What reads, reports, or opens and closes a level is a step; all else is looking, answering and failing. -/
inductive Trace (limit : Nat) : {α : Type} → Parser α → State → List State → Outcome α → Prop
  | pure {α : Type} (a : α) (s : State) : Trace limit (pure a) s [] (.ok a, s)
  | get (s : State) : Trace limit get s [] (.ok s, s)
  | fail {α : Type} (fault : SyntaxFault) (span : Span) (s : State) :
      Trace limit (fail fault span : Parser α) s [] (.error ⟨fault, span⟩, s)
  | advance (s : State) : Trace limit advance s [s.next] (.ok (), s.next)
  | report (fault : Located SyntaxFault) (s : State) :
      Trace limit (report fault) s [{ s with faults := s.faults.push fault }]
        (.ok (), { s with faults := s.faults.push fault })
  | attempt {α : Type} {p : Parser α} {s : State} {us : List State} {out : Outcome α}
      (h : Trace limit p s us out) : Trace limit (attempt p) s us (.ok out.1, out.2)
  | full {α : Type} (p : Parser α) {s : State} (hs : limit ≤ s.depth) :
      Trace limit (deeper limit p) s [] (.error ⟨.nestingTooDeep, s.here⟩, s)
  | deeper {α : Type} {p : Parser α} {s : State} {us : List State} {out : Outcome α} (hs : s.depth < limit)
      (h : Trace limit p s.down us out) :
      Trace limit (deeper limit p) s (s.down :: us ++ [out.2.up]) (out.1, out.2.up)
  | fails {α β : Type} {p : Parser α} (f : α → Parser β) {s t : State} {us : List State}
      {x : Located SyntaxFault} (h : Trace limit p s us (.error x, t)) :
      Trace limit (p >>= f) s us (.error x, t)
  | bind {α β : Type} {p : Parser α} {f : α → Parser β} {a : α} {s t : State} {us vs : List State}
      {out : Outcome β} (h : Trace limit p s us (.ok a, t)) (hf : Trace limit (f a) t vs out) :
      Trace limit (p >>= f) s (us ++ vs) out

namespace Trace

theorem run_eq (h : Trace limit p s us out) : p.run s = out := by
  induction h with
  | pure a s => exact run_pure a s
  | get s => exact run_get s
  | fail fault span s => exact run_fail fault span s
  | advance s => exact run_advance s
  | report fault s => exact run_report fault s
  | attempt _ ih => rw [run_attempt, ih]
  | full p hs => rw [run_deeper, if_pos hs]
  | deeper hs _ ih => rw [run_deeper, if_neg (Nat.not_le.mpr hs), ih]
  | fails f _ ih => exact run_bind_error ih
  | bind _ _ ih ihf => rw [run_bind_ok ih, ihf]

theorem depth_eq (h : Trace limit p s us out) : out.2.depth = s.depth := by
  induction h with
  | pure | get | fail | report | full => rfl
  | advance s =>
    dsimp only [State.next]
    split <;> rfl
  | attempt _ ih | fails _ _ ih => exact ih
  | deeper _ _ ih => exact congrArg (· - 1) ih
  | bind _ _ ih ihf => exact ihf.trans ih

theorem steps (h : Trace limit p s us out) : Steps limit s us out.2 := by
  induction h with
  | pure _ s | get s | fail _ _ s | full _ _ => exact .none _
  | advance s => exact .cons .reads (.none _)
  | report fault s => exact .cons (.reports fault) (.none _)
  | attempt _ ih | fails _ _ ih => exact ih
  | @deeper _ _ s _ out hs h ih =>
    have hopen : 0 < out.2.depth := h.depth_eq ▸ Nat.succ_pos s.depth
    exact .cons (.opens hs) (ih.append (.cons (.closes hopen) (.none _)))
  | bind _ _ ih ihf => exact ih.append ihf

end Trace

def Traced (limit : Nat) (p : Parser α) : Prop := ∀ s, ∃ us, Trace limit p s us (p.run s)

-- ---------------------------------------------------------------------------
-- Putting parsers together
-- ---------------------------------------------------------------------------

theorem Traced.bind (hp : Traced limit p) (hf : ∀ a, Traced limit (f a)) : Traced limit (p >>= f) := by
  intro s
  obtain ⟨us, hus⟩ := hp s
  rcases hrun : p.run s with ⟨x | a, t⟩
  · rw [hrun] at hus
    rw [run_bind_error hrun]
    exact ⟨us, .fails f hus⟩
  · obtain ⟨vs, hvs⟩ := hf a t
    rw [hrun] at hus
    rw [run_bind_ok hrun]
    exact ⟨us ++ vs, .bind hus hvs⟩

theorem Traced.ite {c : Prop} [Decidable c] {q : Parser α} (hp : Traced limit p) (hq : Traced limit q) :
    Traced limit (if c then p else q) := by
  split
  · exact hp
  · exact hq

theorem Traced.attempt (h : Traced limit p) : Traced limit (attempt p) := by
  intro s
  obtain ⟨us, hus⟩ := h s
  exact ⟨us, .attempt hus⟩

theorem Traced.deeper (h : Traced limit p) : Traced limit (deeper limit p) := by
  intro s
  rw [run_deeper]
  by_cases hs : limit ≤ s.depth
  · rw [if_pos hs]
    exact ⟨[], .full p hs⟩
  · obtain ⟨us, hus⟩ := h s.down
    rw [if_neg hs]
    exact ⟨_, .deeper (Nat.not_le.mp hs) hus⟩

theorem traced_pure (a : α) : Traced limit (pure a : Parser α) := fun s => ⟨[], .pure a s⟩

theorem traced_get : Traced limit (get : Parser State) := fun s => ⟨[], .get s⟩

theorem Traced.iterate (h : ∀ b, Traced limit (step b)) (b : β) : Traced limit (iterate step b) :=
  traced_get.bind fun s =>
    iterateFor_induction (C := fun _ => Traced limit) traced_pure (fun b _ hrest => (h b).bind hrest) s.rest b

-- ---------------------------------------------------------------------------
-- Primitives
-- ---------------------------------------------------------------------------

theorem traced_peek : Traced limit peek := by
  refine traced_get.bind fun s => ?_
  split
  · exact traced_pure _
  · exact traced_pure _

theorem traced_nextIs (kind : TokenKind) : Traced limit (nextIs kind) := traced_peek.bind fun _ => traced_pure _

theorem traced_nextAre (first second : TokenKind) : Traced limit (nextAre first second) := by
  refine traced_peek.bind fun _ => .bind (traced_get.bind fun s => ?_) fun _ => traced_pure _
  split
  · exact traced_pure _
  · exact traced_pure _

theorem traced_onNewLine : Traced limit onNewLine := traced_get.bind fun _ => traced_pure _

theorem traced_nextOnLine (kind : TokenKind) : Traced limit (nextOnLine kind) :=
  (traced_nextIs kind).bind fun _ => traced_onNewLine.bind fun _ => traced_pure _

theorem traced_here : Traced limit here := traced_get.bind fun _ => traced_pure _

theorem traced_located (start : Span) (a : α) : Traced limit (located start a) :=
  .bind (traced_get.bind fun _ => traced_pure _) fun _ => traced_pure _

theorem traced_fail (fault : SyntaxFault) (span : Span) : Traced limit (fail fault span : Parser α) :=
  fun s => ⟨[], .fail fault span s⟩

theorem traced_unexpected (what : Expectation) : Traced limit (unexpected what : Parser α) :=
  traced_peek.bind fun _ => traced_here.bind fun _ => traced_fail _ _

theorem traced_advance : Traced limit advance := fun s => ⟨_, .advance s⟩

theorem traced_report (fault : Located SyntaxFault) : Traced limit (report fault) :=
  fun s => ⟨_, .report fault s⟩

theorem traced_accept (kind : TokenKind) : Traced limit (accept kind) :=
  (traced_nextIs kind).bind fun _ => .ite (traced_advance.bind fun _ => traced_pure _) (traced_pure _)

theorem traced_expectAs (what : Expectation) (kind : TokenKind) : Traced limit (expectAs what kind) := by
  refine traced_get.bind fun s => ?_
  split
  · exact .ite (traced_advance.bind fun _ => traced_pure _) (traced_unexpected what)
  · exact traced_unexpected what

theorem traced_expect (kind : TokenKind) : Traced limit (expect kind) :=
  (traced_expectAs _ kind).bind fun _ => traced_pure _

theorem traced_label? (sign : TokenKind) : Traced limit (label? sign) := by
  refine (traced_nextAre _ sign).bind fun _ => .ite ?_ (traced_pure _)
  exact (traced_expectAs _ _).bind fun _ => (traced_expect sign).bind fun _ => traced_pure _

-- ---------------------------------------------------------------------------
-- Lists
-- ---------------------------------------------------------------------------

theorem traced_goOnAt (sign : TokenKind) (b : β) : Traced limit (goOnAt sign b) :=
  (traced_accept sign).bind fun _ => .ite (traced_pure _) (traced_pure _)

theorem traced_listRound (h : Traced limit p) (items : Array α) : Traced limit (listRound p items) :=
  h.bind fun _ => traced_goOnAt _ _

theorem traced_listOf (h : Traced limit p) : Traced limit (listOf p) :=
  (Traced.iterate (traced_listRound h) _).bind fun _ => traced_pure _

theorem traced_listUntil (close : TokenKind) (h : Traced limit p) : Traced limit (listUntil close p) := by
  refine (Traced.iterate (fun items => ?_) _).bind fun _ => ?_
  · exact (traced_nextIs close).bind fun _ => .ite (traced_pure _) (traced_listRound h items)
  · exact (traced_expect close).bind fun _ => traced_pure _

-- ---------------------------------------------------------------------------
-- Sequences
-- ---------------------------------------------------------------------------

theorem traced_skipSemicolons : Traced limit skipSemicolons := .iterate (traced_goOnAt _) _

theorem traced_atEnd : Traced limit atEnd := traced_get.bind fun _ => traced_pure _

theorem traced_atClosing : Traced limit atClosing := traced_get.bind fun _ => traced_pure _

theorem traced_separator : Traced limit separator := by
  refine (traced_nextIs _).bind fun _ => .ite traced_skipSemicolons ?_
  refine traced_atEnd.bind fun _ => traced_atClosing.bind fun _ => ?_
  refine .bind (traced_get.bind fun _ => traced_pure _) fun _ => .ite (traced_pure _) ?_
  exact traced_peek.bind fun _ => traced_here.bind fun _ => traced_report _

theorem traced_atStop (inBlock : Bool) : Traced limit (atStop inBlock) :=
  traced_atEnd.bind fun _ => traced_atClosing.bind fun _ => traced_pure _

theorem traced_recover (inBlock progressed : Bool) : Traced limit (recover inBlock progressed) := by
  refine (Traced.iterate (fun _ => ?_) _).bind fun _ => traced_pure _
  refine (traced_atStop inBlock).bind fun _ => .ite (traced_pure _) ?_
  refine (traced_accept _).bind fun _ => .ite (traced_pure _) ?_
  refine traced_onNewLine.bind fun _ => .ite (traced_pure _) ?_
  exact traced_advance.bind fun _ => traced_pure _

theorem traced_itemRound (inBlock : Bool) (h : Traced limit p) (items : Array α) :
    Traced limit (itemRound inBlock p items) := by
  refine traced_get.bind fun before => h.attempt.bind fun r => ?_
  cases r with
  | ok node => exact traced_separator.bind fun _ => traced_pure _
  | error fault =>
    refine (traced_report fault).bind fun _ => traced_get.bind fun _ => ?_
    exact (traced_recover inBlock _).bind fun _ => traced_pure _

theorem traced_sequenceOf (inBlock : Bool) (h : Traced limit p) : Traced limit (sequenceOf inBlock p) := by
  refine (Traced.iterate (fun items => ?_) _).bind fun _ => traced_pure _
  refine traced_skipSemicolons.bind fun _ => (traced_atStop inBlock).bind fun _ => ?_
  exact .ite (traced_pure _) (traced_itemRound inBlock h items)

end Linewise.Parser
