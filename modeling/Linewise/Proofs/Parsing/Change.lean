import Linewise.Proofs.Ast.Spans
import Linewise.Proofs.Parsing.Endings

/-!
# Changes of the input

A `Change` says how the input of a parser is changed in ways that the grammar should not notice: spans
are mapped, layout is judged otherwise, other tokens are put behind those that are read. What the
parser sees of a changed state is the changed view of the state, up to the place where tokens differ.
-/

namespace Linewise

/-- A token of this kind never goes on with the item in front of it. -/
def TokenKind.endsItem : TokenKind → Bool
  | eof | rightCurl | semicolon | hash | atSign => true
  | keyword word => word.category == .declaration || word.category == .modifier
  | _ => false

/-- A token of this kind goes on with the item in front of it, wherever it stands. -/
def TokenKind.joins : TokenKind → Bool
  | rightParen | rightSquare | comma | dot | colon | question | arrow | assign | equals | notEquals
  | leftAngle | rightAngle | lessEqual | greaterEqual | plus | minus | times | divide => true
  | _ => false

/-- A token of this kind goes on with an expression in front of it that ends on the same line. -/
def TokenKind.opens : TokenKind → Bool
  | leftParen | leftCurl | leftSquare => true
  | _ => false

theorem TokenKind.endsItem_of_joins {kind : TokenKind} (h : kind.joins = true) :
    kind.endsItem = false := by
  cases kind <;> first | rfl | cases h

theorem TokenKind.endsItem_of_opens {kind : TokenKind} (h : kind.opens = true) :
    kind.endsItem = false := by
  cases kind <;> first | rfl | cases h

/-- A place in the input behind which the tokens are others after a change. -/
structure Seam where
  /-- How many terminals stand behind the seam. -/
  kept : Nat
  new : List Terminal
  finish : Span
  unjoined : ∀ t ts, new = t :: ts → t.token.kind.joins = false
  apart : ∀ t ts, new = t :: ts → t.token.kind.opens = true → t.onNewLine = true

structure Change where
  span : Span → Span
  span_merge : ∀ a b, span (a.merge b) = (span a).merge (span b)
  terminal : Terminal → Terminal
  /-- Whether the first of all terminals begins a line, which nothing asks for. -/
  firstLine : Bool → Bool
  total : Nat
  /-- The span of the token in front of the first one. -/
  before : Span
  /-- Missing separators stay faults. -/
  strict : Bool
  /-- The changed parser may nest deeper. -/
  capped : Bool
  seam : Option Seam
  fits : List Terminal → Prop
  kind : ∀ t, (terminal t).token.kind = t.token.kind
  text : ∀ t, (terminal t).token.text = t.token.text
  token_span : ∀ t, (terminal t).token.span = span t.token.span
  closing : ∀ t, (terminal t).closing = t.closing
  onNewLine : ∀ t, (terminal t).onNewLine = t.onNewLine
  terminated : ∀ t, (terminal t).terminated = (t.terminated || !strict)
  fits_suffix : ∀ ts us, us <:+ ts → fits ts → fits us
  fits_total : ∀ ts, fits ts → ts.length ≤ total
  fits_seam : ∀ sm, seam = some sm → ∀ t ts, fits (t :: ts) → ts.length + 1 = sm.kept →
    t.token.kind.endsItem = true
  /-- The token in front of the seam does not ask for one behind it. -/
  fits_front : ∀ sm, seam = some sm → ∀ t ts, fits (t :: ts) → ts.length = sm.kept →
    t.token.kind.isInner = false

namespace Change

open Linewise.Parser

variable {α β : Type} {m : Change} {s t u : State} {j k : Nat} {b : Bool}

-- ---------------------------------------------------------------------------
-- States and answers after a change
-- ---------------------------------------------------------------------------

/-- A terminal after the change; it is the first of all if `n` of `n` terminals are left with it. -/
def mark (m : Change) (n : Nat) (t : Terminal) : Terminal :=
  if n < m.total then m.terminal t
  else { m.terminal t with onNewLine := m.firstLine t.onNewLine }

def rest (m : Change) : List Terminal → List Terminal
  | [] =>
    match m.seam with
    | none => []
    | some sm => sm.new
  | t :: ts =>
    match m.seam with
    | none => m.mark (ts.length + 1) t :: m.rest ts
    | some sm => if ts.length < sm.kept then sm.new else m.mark (ts.length + 1) t :: m.rest ts

def finish (m : Change) (span : Span) : Span :=
  match m.seam with
  | none => m.span span
  | some sm => sm.finish

def fault (m : Change) (x : Located SyntaxFault) : Located SyntaxFault := ⟨x.node, m.span x.span⟩

def keeps (m : Change) (x : Located SyntaxFault) : Bool := m.strict || !x.node.isMissingSeparator

def faults (m : Change) (xs : Array (Located SyntaxFault)) : Array (Located SyntaxFault) :=
  (xs.filter m.keeps).map m.fault

def state (m : Change) (s : State) : State where
  rest := m.rest s.rest
  finish := m.finish s.finish
  previous := if s.rest.length < m.total then m.span s.previous else m.before
  depth := s.depth
  faults := m.faults s.faults

def answer [HasSpans α] (m : Change) :
    Except (Located SyntaxFault) α → Except (Located SyntaxFault) α
  | .ok a => .ok (mapSpans m.span a)
  | .error x => .error (m.fault x)

def outcome [HasSpans α] (m : Change) (r : Outcome α) : Outcome α := (m.answer r.1, m.state r.2)

def Read (m : Change) (s : State) : Prop := s.rest.length < m.total

/-- At least `k` terminals are left in front of the seam, if there is one. -/
def Before (m : Change) (k : Nat) (s : State) : Prop :=
  ∀ sm, m.seam = some sm → sm.kept + k ≤ s.rest.length

abbrev Inside (m : Change) (s : State) : Prop := m.Before 1 s

theorem Before.mono (h : m.Before k s) (hjk : j ≤ k) : m.Before j s := fun sm hsm => by
  have := h sm hsm
  omega

theorem Before.at_seam (h : m.Before 0 s) (hi : ¬m.Inside s) :
    ∃ sm, m.seam = some sm ∧ s.rest.length = sm.kept := by
  simp only [Before, Classical.not_forall] at hi
  obtain ⟨sm, hsm, hlt⟩ := hi
  have := h sm hsm
  exact ⟨sm, hsm, by omega⟩

theorem Read.advances (h : m.Read s) (hst : Advances s t) : m.Read t :=
  Nat.lt_of_le_of_lt hst.length_le h

theorem faults_of_strict (h : m.strict = true) (xs : Array (Located SyntaxFault)) :
    m.faults xs = xs.map m.fault := by
  have hkeeps : ∀ x ∈ xs, m.keeps x = true := fun x _ => by rw [keeps, h, Bool.true_or]
  rw [faults, Array.filter_eq_self.mpr hkeeps]

theorem faults_of_id (h : m.strict = true) (hs : m.span = id) (xs : Array (Located SyntaxFault)) :
    m.faults xs = xs := by
  have hfault : m.fault = id := by
    funext x
    rw [fault, hs]
    rfl
  rw [faults_of_strict h, hfault, Array.map_id]

theorem rest_nil (h : m.seam = none) : m.rest [] = [] := by rw [rest, h]

theorem rest_cons (hs : s.rest = x :: ts) (hi : m.Inside s) :
    m.rest (x :: ts) = m.mark (ts.length + 1) x :: m.rest ts := by
  rw [rest]
  cases hsm : m.seam with
  | none => rfl
  | some sm =>
    have := hi sm hsm
    simp only [hs, List.length_cons] at this
    exact if_neg (by omega)

theorem rest_at_seam {sm : Seam} (hsm : m.seam = some sm) {ts : List Terminal}
    (h : ts.length = sm.kept) : m.rest ts = sm.new := by
  cases ts with
  | nil => rw [rest, hsm]
  | cons x ts =>
    rw [rest, hsm]
    simp only [List.length_cons] at h
    exact if_pos (by omega)

@[simp] theorem mark_kind (m : Change) (n : Nat) (t : Terminal) :
    (m.mark n t).token.kind = t.token.kind := by
  unfold mark
  split <;> exact m.kind t

@[simp] theorem mark_text (m : Change) (n : Nat) (t : Terminal) :
    (m.mark n t).token.text = t.token.text := by
  unfold mark
  split <;> exact m.text t

@[simp] theorem mark_span (m : Change) (n : Nat) (t : Terminal) :
    (m.mark n t).token.span = m.span t.token.span := by
  unfold mark
  split <;> exact m.token_span t

@[simp] theorem mark_closing (m : Change) (n : Nat) (t : Terminal) :
    (m.mark n t).closing = t.closing := by
  unfold mark
  split <;> exact m.closing t

@[simp] theorem mark_terminated (m : Change) (n : Nat) (t : Terminal) :
    (m.mark n t).terminated = (t.terminated || !m.strict) := by
  unfold mark
  split <;> exact m.terminated t

theorem mark_onNewLine {n : Nat} (h : n < m.total) (t : Terminal) :
    (m.mark n t).onNewLine = t.onNewLine := by
  rw [mark, if_pos h]
  exact m.onNewLine t

-- ---------------------------------------------------------------------------
-- What the next tokens are after a change
-- ---------------------------------------------------------------------------

theorem Inside.seam_none (hi : m.Inside s) (hs : s.rest = []) : m.seam = none := by
  cases hsm : m.seam with
  | none => rfl
  | some sm =>
    have := hi sm hsm
    simp [hs] at this

theorem head?_state (hi : m.Inside s) :
    (m.state s).rest.head? = s.rest.head?.map (m.mark s.rest.length) := by
  show (m.rest s.rest).head? = _
  cases hs : s.rest with
  | nil => rw [rest_nil (hi.seam_none hs)]; rfl
  | cons x ts => rw [rest_cons hs hi]; rfl

theorem isEmpty_state (hi : m.Inside s) : (m.state s).rest.isEmpty = s.rest.isEmpty := by
  show (m.rest s.rest).isEmpty = _
  cases hs : s.rest with
  | nil => rw [rest_nil (hi.seam_none hs)]
  | cons x ts => rw [rest_cons hs hi]; rfl

theorem kind_eq_head? (s : State) : s.kind = (s.rest.head?.map (·.token.kind)).getD .eof := by
  unfold State.kind
  cases s.rest <;> rfl

theorem kind_state (hi : m.Inside s) : (m.state s).kind = s.kind := by
  rw [kind_eq_head?, kind_eq_head?, head?_state hi]
  cases s.rest <;> simp

theorem here_eq_head? (s : State) : s.here = (s.rest.head?.map (·.token.span)).getD s.finish := by
  unfold State.here
  cases s.rest <;> rfl

theorem here_state (hi : m.Inside s) : (m.state s).here = m.span s.here := by
  rw [here_eq_head?, here_eq_head?, head?_state hi]
  cases hs : s.rest with
  | nil => simp [state, finish, hi.seam_none hs]
  | cons x ts => simp

theorem next_state (hi : m.Inside s) (hf : m.fits s.rest) : (m.state s).next = m.state s.next := by
  have hrest : (m.state s).rest = m.rest s.rest := rfl
  cases hs : s.rest with
  | nil =>
    rw [hs, rest_nil (hi.seam_none hs)] at hrest
    simp only [State.next, hrest, hs]
  | cons x ts =>
    have htotal := m.fits_total _ hf
    simp only [hs, List.length_cons] at htotal
    rw [hs, rest_cons hs hi] at hrest
    rw [State.next_of_cons hrest, State.next_of_cons hs]
    simp only [state, mark_span, if_pos (show ts.length < m.total by omega)]

theorem stops_state (hi : m.Inside s) (inBlock : Bool) :
    (m.state s).stops inBlock = s.stops inBlock := by
  unfold State.stops
  rw [isEmpty_state hi, head?_state hi]
  cases s.rest.head? <;> simp

theorem endsItem_at_seam (h0 : m.Before 0 s) (hf : m.fits s.rest) (hi : ¬m.Inside s) :
    s.kind.endsItem = true := by
  obtain ⟨sm, hsm, hlen⟩ := h0.at_seam hi
  unfold State.kind
  cases hs : s.rest with
  | nil => rfl
  | cons x ts =>
    rw [hs] at hf hlen
    exact m.fits_seam sm hsm x ts hf hlen

theorem unjoined_at_seam (h0 : m.Before 0 s) (hi : ¬m.Inside s) :
    (m.state s).kind.joins = false := by
  obtain ⟨sm, hsm, hlen⟩ := h0.at_seam hi
  have hrest : (m.state s).rest = sm.new := rest_at_seam hsm hlen
  unfold State.kind
  rw [hrest]
  cases hn : sm.new with
  | nil => rfl
  | cons x ts => exact sm.unjoined x ts hn

theorem apart_at_seam (h0 : m.Before 0 s) (hi : ¬m.Inside s)
    (hk : (m.state s).kind.opens = true) : (m.state s).rest.head?.all (·.onNewLine) = true := by
  obtain ⟨sm, hsm, hlen⟩ := h0.at_seam hi
  have hrest : (m.state s).rest = sm.new := rest_at_seam hsm hlen
  unfold State.kind at hk
  rw [hrest] at hk ⊢
  cases hn : sm.new with
  | nil => rfl
  | cons x ts =>
    rw [hn] at hk
    exact sm.apart x ts hn hk

theorem kind_eq_state {kind : TokenKind} (hk : kind.joins = true) (h0 : m.Before 0 s)
    (hf : m.fits s.rest) : (m.state s).kind = kind ↔ s.kind = kind := by
  by_cases hi : m.Inside s
  · rw [kind_state hi]
  · constructor <;> rintro rfl
    · simp [unjoined_at_seam h0 hi] at hk
    · have hends := endsItem_at_seam h0 hf hi
      simp [TokenKind.endsItem_of_joins hk] at hends

theorem second_eq_next (h : s.rest = x :: ts) : s.second = s.next.kind := by
  rw [State.next_of_cons h, State.second, State.kind, h]
  cases ts <;> rfl

theorem Before.next (h : m.Before (k + 1) s) : m.Before k s.next := fun sm hsm => by
  have := h sm hsm
  cases hs : s.rest with
  | nil => simp [hs] at this
  | cons x ts =>
    simp only [State.next_of_cons hs, hs, List.length_cons] at this ⊢
    omega

theorem second_state (hi : m.Inside s) (hf : m.fits s.rest) (hs : s.rest = x :: ts) :
    (m.state s).second = (m.state s.next).kind := by
  have hrest : (m.state s).rest = m.rest s.rest := rfl
  rw [hs, rest_cons hs hi] at hrest
  rw [second_eq_next hrest, next_state hi hf]

theorem second_state_nil (hi : m.Inside s) (hs : s.rest = []) : (m.state s).second = s.second := by
  have hrest : (m.state s).rest = m.rest s.rest := rfl
  rw [hs, rest_nil (hi.seam_none hs)] at hrest
  simp [State.second, hrest, hs]

theorem second_eq_state {kind : TokenKind} (hk : kind.joins = true) (hi : m.Inside s)
    (hf : m.fits s.rest) : (m.state s).second = kind ↔ s.second = kind := by
  cases hs : s.rest with
  | nil => rw [second_state_nil hi hs]
  | cons x ts =>
    rw [second_state hi hf hs, second_eq_next hs]
    exact kind_eq_state hk hi.next (m.fits_suffix _ _ s.advances_next.rest hf)

/-- The second token is seen if it stands in front of the seam, and behind a dot or a semicolon too. -/
theorem second_eq_of_front (hi : m.Inside s) (hf : m.fits s.rest)
    (h : m.Before 2 s ∨ s.kind = .dot ∨ s.kind = .semicolon) : (m.state s).second = s.second := by
  cases hs : s.rest with
  | nil => exact second_state_nil hi hs
  | cons x ts =>
    rw [second_state hi hf hs, second_eq_next hs]
    refine kind_state ?_
    rcases h with h | h
    · exact h.next
    · intro sm hsm
      have hle := hi sm hsm
      have hfront := m.fits_front sm hsm x ts (hs ▸ hf)
      simp only [State.kind, hs] at h
      simp only [State.next_of_cons hs, hs, List.length_cons] at hle ⊢
      by_cases hlen : ts.length = sm.kept
      · rcases h with h | h <;> simp [h, TokenKind.isInner] at hfront <;> exact absurd hlen hfront
      · omega

end Change

end Linewise
