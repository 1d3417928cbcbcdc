import Linewise.Proofs.Ast.Words
import Linewise.Proofs.Parsing.GrammarProgress
import Linewise.Proofs.Parsing.Standing
import Linewise.Proofs.Parsing.Triple

/-!
# Parsers gather words

`Gathered all ws s`: of all the words of a source, `ws` have been read and the others are still to be read,
as long as nothing is reported. `Gathers` says of a parser that what it reads are the words of its answer, and
`Wordless` that it reads none. A fault that is reported may cost words, and nothing is said from then on.
-/

namespace Linewise.Parser

variable {α β : Type} {p : Parser α} {f : α → Parser β} {s t : State} {all ws : List Word}

def State.words (s : State) : List Word := s.rest.filterMap fun x => x.token.word?

structure Gathered (all ws : List Word) (s : State) : Prop where
  orderly : Orderly s.rest
  words : s.faults = #[] → all = ws ++ s.words

theorem Advances.faultless (h : Advances s t) (ht : t.faults = #[]) : s.faults = #[] := by
  have hprefix := h.faults
  rw [ht] at hprefix
  exact Array.toList_inj.mp (List.prefix_nil.mp hprefix)

theorem Gathered.advance {vs : List Word} (h : Gathered all ws s) (hst : Advances s t)
    (hwords : s.words = vs ++ t.words) : Gathered all (ws ++ vs) t where
  orderly := h.orderly.sublist hst.rest.sublist
  words ht := by rw [h.words (hst.faultless ht), hwords, List.append_assoc]

/-- Once a fault has been reported, nothing is said about words. -/
structure Spoiled (s : State) : Prop where
  orderly : Orderly s.rest
  faults : s.faults ≠ #[]

theorem Spoiled.gathered (h : Spoiled s) : Gathered all ws s := ⟨h.orderly, fun hs => absurd hs h.faults⟩

theorem Moves.spoiled (h : Moves p) : Triple Spoiled p fun _ => Spoiled := fun _ _ _ hs hr =>
  have hst := h.advances_ok hr
  ⟨hs.orderly.sublist hst.rest.sublist, fun ht => hs.faults (hst.faultless ht)⟩

theorem triple_report (x : Located SyntaxFault) :
    Triple (fun s => Orderly s.rest) (report x) fun _ => Spoiled := fun s _ t hs hr => by
  cases hr
  exact ⟨hs, fun h => absurd (congrArg Array.size h) (by simp)⟩

-- ---------------------------------------------------------------------------
-- Parsers that gather
-- ---------------------------------------------------------------------------

def Gathers [HasWords α] (p : Parser α) : Prop :=
  ∀ all ws, Triple (Gathered all ws) p fun a => Gathered all (ws ++ words a)

def Wordless (p : Parser α) : Prop := ∀ all ws, Triple (Gathered all ws) p fun _ => Gathered all ws

theorem Wordless.bind {S : β → State → Prop} (hp : Wordless p)
    (hf : ∀ a, Triple (Gathered all ws) (f a) S) : Triple (Gathered all ws) (p >>= f) S :=
  (hp all ws).bind hf

theorem Gathers.bind [HasWords α] {S : β → State → Prop} (hp : Gathers p)
    (hf : ∀ a, Triple (Gathered all (ws ++ words a)) (f a) S) : Triple (Gathered all ws) (p >>= f) S :=
  (hp all ws).bind hf

theorem wordless_of_words (hm : Moves p) (h : ∀ s a t, p.run s = (.ok a, t) → s.words = t.words) :
    Wordless p := fun all ws s a t hs hr => by
  have hnone : s.words = [] ++ t.words := h s a t hr
  simpa using hs.advance (hm.advances_ok hr) hnone

theorem wordless_look (h : ∀ s, ∃ a, p.run s = (.ok a, s)) : Wordless p :=
  wordless_of_words (.of_look h) fun s a t hr => by
    obtain ⟨b, hb⟩ := h s
    rw [hb] at hr
    cases hr
    rfl

theorem wordless_get : Wordless (get : Parser State) := wordless_look fun s => ⟨_, run_get s⟩

theorem wordless_peek : Wordless peek := wordless_look fun s => ⟨_, run_peek s⟩

theorem wordless_here : Wordless here := wordless_look fun _ => ⟨_, rfl⟩

theorem wordless_nextIs (kind : TokenKind) : Wordless (nextIs kind) :=
  wordless_look fun s => ⟨_, run_nextIs kind s⟩

theorem wordless_nextAre (first second : TokenKind) : Wordless (nextAre first second) :=
  wordless_look fun s => ⟨_, run_nextAre first second s⟩

theorem wordless_nextOnLine (kind : TokenKind) : Wordless (nextOnLine kind) :=
  wordless_look fun s => ⟨_, run_nextOnLine kind s⟩

theorem wordless_atEnd : Wordless atEnd := wordless_look fun s => ⟨_, run_atEnd s⟩

theorem wordless_atClosing : Wordless atClosing := wordless_look fun s => ⟨_, run_atClosing s⟩

theorem wordless_atTerminator : Wordless atTerminator := wordless_look fun s => ⟨_, run_atTerminator s⟩

theorem wordless_atStop (inBlock : Bool) : Wordless (atStop inBlock) :=
  wordless_look fun s => ⟨_, run_atStop inBlock s⟩

def Unspoken (kind : TokenKind) : Prop := ∀ text, Word.of? kind text = none

theorem State.words_of_cons {x : Terminal} {ts : List Terminal} (h : s.rest = x :: ts) (ht : t.rest = ts) :
    s.words = (Word.of? x.token.kind x.token.text).toList ++ t.words := by
  rw [State.words, h, State.words, ht, List.filterMap_cons, Token.word?]
  cases Word.of? x.token.kind x.token.text <;> rfl

theorem gathered_expectAs (what : Expectation) (kind : TokenKind) :
    Triple (Gathered all ws) (expectAs what kind) fun text =>
      Gathered all (ws ++ (Word.of? kind text).toList) := fun s text t hs hr => by
  obtain ⟨x, hrest, -, rfl, rfl⟩ := expectAs_ok hr
  exact hs.advance ((reads_expectAs what _).advances_ok hr) (State.words_of_cons hrest rfl)

theorem gathered_identifier :
    Triple (Gathered all ws) identifier fun text => Gathered all (ws ++ [.name text]) :=
  gathered_expectAs .identifier .identifier

theorem wordless_expect {kind : TokenKind} (hk : Unspoken kind) : Wordless (expect kind) := fun all ws => by
  refine (gathered_expectAs _ kind).bind fun text => .pure fun s hs => ?_
  simpa [hk text] using hs

theorem wordless_accept {kind : TokenKind} (hk : Unspoken kind) (heof : kind ≠ .eof) :
    Wordless (accept kind) :=
  wordless_of_words (reads_accept heof).toMoves fun s a t hr => by
    rcases accept_ok hr with ⟨-, hkind, rfl⟩ | ⟨-, -, rfl⟩
    · obtain ⟨x, ts, hs⟩ := State.rest_of_kind hkind heof
      have hx : x.token.kind = kind := by rw [← hkind, State.kind, hs]
      rw [State.words_of_cons hs (congrArg State.rest (State.next_of_cons hs)), hx, hk]
      rfl
    · rfl

theorem gathered_pure {a : α} {post : α → List Word} (h : ws = post a) :
    Triple (Gathered all ws) (pure a) fun a => Gathered all (post a) :=
  .pure fun _ hs => h ▸ hs

theorem gathered_located {start : Span} {a : α} {post : Located α → List Word}
    (h : ∀ span, ws = post ⟨a, span⟩) :
    Triple (Gathered all ws) (located start a) fun x => Gathered all (post x) := fun s x t hs hr => by
  cases hr
  exact h _ ▸ hs

theorem gathered_node [HasWords α] (start : Span) (a : α) :
    Triple (Gathered all (ws ++ words a)) (located start a) fun x => Gathered all (ws ++ words x) :=
  gathered_located fun _ => rfl

theorem Gathers.deeper [HasWords α] (limit : Nat) (h : Gathers p) : Gathers (deeper limit p) :=
  fun all ws s a t hs hr => by
    obtain ⟨-, u, hu, rfl⟩ := deeper_ok.mp hr
    obtain ⟨horderly, hwords⟩ := h all ws s.down a u ⟨hs.orderly, hs.words⟩ hu
    exact ⟨horderly, hwords⟩

-- ---------------------------------------------------------------------------
-- Lists and sequences
-- ---------------------------------------------------------------------------

theorem gathered_goOnAt {sign : TokenKind} (hk : Unspoken sign) (heof : sign ≠ .eof) (I : β → List Word)
    (b : β) : Triple (Gathered all (I b)) (goOnAt sign b) fun r => Gathered all (I r.value) :=
  (wordless_accept hk heof).bind fun _ =>
    .ite (fun _ => gathered_pure rfl) fun _ => gathered_pure rfl

theorem wordless_skipSemicolons : Wordless skipSemicolons := fun all ws =>
  Triple.loop (I := fun _ => Gathered all ws)
    (gathered_goOnAt (fun _ => rfl) (by decide) fun _ => ws) ()

theorem wordless_separator : Wordless separator := fun all ws => by
  refine (wordless_nextIs _).bind fun _ => .ite (fun _ => wordless_skipSemicolons _ _) fun _ => ?_
  refine wordless_atEnd.bind fun _ => wordless_atClosing.bind fun _ => ?_
  refine wordless_atTerminator.bind fun _ => .ite (fun _ => gathered_pure rfl) fun _ => ?_
  refine wordless_peek.bind fun _ => wordless_here.bind fun _ => ?_
  exact fun s a t hs hr => (triple_report _ s a t hs.orderly hr).gathered

section
variable [HasWords α]

/-- The words of the items read so far stand behind those that were read before. -/
abbrev itemWords (ws : List Word) (items : Array α) : List Word := ws ++ words items.toList

theorem itemWords_push (a : α) (items : Array α) :
    itemWords ws (items.push a) = itemWords ws items ++ words a := by
  simp [itemWords]

theorem gathered_listRound (h : Gathers p) (items : Array α) :
    Triple (Gathered all (itemWords ws items)) (listRound p items) fun r =>
      Gathered all (itemWords ws r.value) := by
  refine h.bind fun a => ?_
  rw [← itemWords_push]
  exact gathered_goOnAt (fun _ => rfl) (by decide) (itemWords ws) (items.push a)

theorem gathers_listOf (h : Gathers p) : Gathers (listOf p) := fun all ws => by
  have hloop := Triple.loop (I := fun items => Gathered all (itemWords ws items))
    (gathered_listRound h) #[]
  simp only [itemWords, words_nil, List.append_nil] at hloop
  exact hloop.bind fun items => gathered_pure rfl

theorem gathers_listUntil {close : TokenKind} (hk : Unspoken close) (h : Gathers p) :
    Gathers (listUntil close p) := fun all ws => by
  have hround (items : Array α) : Triple (Gathered all (itemWords ws items))
      (listUntilRound close p items) fun r => Gathered all (itemWords ws r.value) :=
    (wordless_nextIs _).bind fun _ =>
      .ite (fun _ => gathered_pure rfl) fun _ => gathered_listRound h items
  have hloop := Triple.loop (I := fun items => Gathered all (itemWords ws items)) hround #[]
  simp only [itemWords, words_nil, List.append_nil] at hloop
  exact hloop.bind fun items => (wordless_expect hk).bind fun _ => gathered_pure rfl

/-- What an item that cannot be read costs is not known. -/
theorem gathered_attempt (hm : Moves p) (h : Gathers p) :
    Triple (Gathered all ws) (attempt p) fun r t =>
      match r with
      | .ok a => Gathered all (ws ++ words a) t
      | .error _ => Orderly t.rest := fun s r t hs hr => by
  rw [run_attempt] at hr
  obtain ⟨hr, rfl⟩ := Prod.mk.inj hr
  cases hr
  cases ha : (p.run s).1 with
  | ok a => exact h all ws s a _ hs (Prod.ext ha rfl)
  | error e => exact hs.orderly.sublist (hm.advances s).rest.sublist

theorem gathered_itemRound (inBlock : Bool) (hm : Moves p) (h : Gathers p) (items : Array α) :
    Triple (Gathered all (itemWords ws items)) (itemRound inBlock p items) fun r =>
      Gathered all (itemWords ws r.value) := by
  refine wordless_get.bind fun _ => (gathered_attempt hm h).bind fun r => ?_
  cases r with
  | ok a => exact wordless_separator.bind fun _ => gathered_pure (itemWords_push a items).symm
  | error fault =>
    refine (triple_report fault).bind fun _ => moves_get.spoiled.bind fun _ => ?_
    exact (moves_recover inBlock _).spoiled.bind fun _ => .pure fun _ hs => hs.gathered

theorem gathers_sequenceOf (inBlock : Bool) (hm : Moves p) (h : Gathers p) :
    Gathers (sequenceOf inBlock p) := fun all ws => by
  have hround (items : Array α) : Triple (Gathered all (itemWords ws items))
      (sequenceRound inBlock p items) fun r => Gathered all (itemWords ws r.value) :=
    wordless_skipSemicolons.bind fun _ => (wordless_atStop _).bind fun _ =>
      .ite (fun _ => gathered_pure rfl) fun _ => gathered_itemRound inBlock hm h items
  have hloop := Triple.loop (I := fun items => Gathered all (itemWords ws items)) hround #[]
  simp only [itemWords, words_nil, List.append_nil] at hloop
  exact hloop.bind fun items => gathered_pure rfl

end

-- ---------------------------------------------------------------------------
-- Nodes that start where they are read
-- ---------------------------------------------------------------------------

theorem starts_of_between (ho : Orderly s.rest) (h : Between s t) (hlt : t.rest.length < s.rest.length) :
    ∃ x ∈ s.rest, (s.here.merge t.previous).start = x.token.span.start ∧
      ∀ z ∈ t.rest, x.token.span.start < z.token.span.start := by
  obtain ⟨x, xs, hs⟩ := List.exists_cons_of_length_pos (Nat.zero_lt_of_lt hlt)
  have hhere : s.here = x.token.span := by rw [State.here, hs]
  rw [hs] at ho
  have hx := ho.covers x List.mem_cons_self
  have hfirst : ∀ y ∈ x :: xs, x.token.span.start ≤ y.token.span.start := fun y hy => by
    rcases List.mem_cons.mp hy with rfl | hy
    · exact Nat.le_refl _
    · have hle := List.rel_of_pairwise_cons ho.ordered hy
      omega
  rcases h with ⟨hrest, -⟩ | ⟨ws, y, hrest, hprevious⟩
  · rw [hrest] at hlt
    exact absurd hlt (Nat.lt_irrefl _)
  · rw [hs] at hrest
    have hxy := hfirst y (by simp [hrest])
    refine ⟨x, by simp [hs], ?_, fun z hz => ?_⟩
    · rw [hhere, hprevious]
      exact Nat.min_eq_left hxy
    · rw [hrest] at ho
      have hy := ho.covers y (by simp)
      have hyz := List.rel_of_pairwise_cons (List.pairwise_append.mp ho.ordered).2.1 hz
      omega

def Ahead (as : List (Located α)) (s : State) : Prop :=
  ∀ a ∈ as, ∀ x ∈ s.rest, a.span.start < x.token.span.start

section
variable {as : List (Located α)} {a : Located α} {x : Terminal}

theorem Ahead.advance (h : Ahead as s) (hst : Advances s t) : Ahead as t := fun a ha x hx =>
  h a ha x (hst.rest.subset hx)

theorem Ahead.push (h : Ahead as s) (hst : Advances s t) (hstart : a.span.start = x.token.span.start)
    (hbehind : ∀ z ∈ t.rest, x.token.span.start < z.token.span.start) :
    Ahead (as ++ [a]) t := fun b hb z hz => by
  rcases List.mem_append.mp hb with hb | hb
  · exact h.advance hst b hb z hz
  · rw [List.mem_singleton.mp hb, hstart]
    exact hbehind z hz

end

/-- Modifiers and annotations have been read, all of them in front of what is left. -/
structure Merged (all ws : List Word) (ms : Modifiers) (s : State) : Prop where
  gathered : Gathered all (ws ++ words ms) s
  modifiers : Ahead ms.modifiers s
  annotations : Ahead ms.annotations s

theorem Merged.none (h : Gathered all ws s) : Merged all ws ⟨[], []⟩ s :=
  ⟨by simpa using h, nofun, nofun⟩

section
variable {ms : List (Located Modifier)} {as : List (Located Annotated)} {m : Modifier} {a : Annotated}

theorem Merged.modifier (h : Merged all ws ⟨ms, as⟩ s) (hst : Advances s t)
    (hlt : t.rest.length < s.rest.length)
    (hread : Gathered all (ws ++ words (Modifiers.mk ms as) ++ words m) t) :
    Merged all ws ⟨ms ++ [⟨m, s.here.merge t.previous⟩], as⟩ t := by
  obtain ⟨x, hx, hstart, hbehind⟩ := starts_of_between h.gathered.orderly hst.between hlt
  refine ⟨?_, h.modifiers.push hst hstart hbehind, h.annotations.advance hst⟩
  rw [words_push_modifier fun a ha => hstart ▸ h.annotations a ha x hx, ← List.append_assoc]
  exact hread

theorem Merged.annotated (h : Merged all ws ⟨ms, as⟩ s) (hst : Advances s t)
    (hlt : t.rest.length < s.rest.length)
    (hread : Gathered all (ws ++ words (Modifiers.mk ms as) ++ words a) t) :
    Merged all ws ⟨ms, as ++ [⟨a, s.here.merge t.previous⟩]⟩ t := by
  obtain ⟨x, hx, hstart, hbehind⟩ := starts_of_between h.gathered.orderly hst.between hlt
  refine ⟨?_, h.modifiers.advance hst, h.annotations.push hst hstart hbehind⟩
  rw [words_push_annotated fun m hm => hstart ▸ h.modifiers m hm x hx, ← List.append_assoc]
  exact hread

end

end Linewise.Parser
