import Linewise.Proofs.Lexing.Reading
import Linewise.Proofs.Parsing.TypeSpans
import Linewise.Proofs.Parsing.Sources

/-!
# The changes that are made

Each of them changes one thing and leaves the rest of the input alone: what separates items, the places of
the tokens, the limit of nesting, what stands behind a seam.
-/

namespace Linewise

open Linewise.Parser

def Change.nothing (total : Nat) : Change where
  span := id
  span_merge _ _ := rfl
  terminal := id
  firstLine := id
  total := total
  before := ⟨0, 0⟩
  strict := true
  capped := false
  seam := none
  fits ts := ts.length ≤ total
  kind _ := rfl
  text _ := rfl
  token_span _ := rfl
  closing _ := rfl
  onNewLine _ := rfl
  terminated t := by simp
  fits_suffix _ _ h := Nat.le_trans h.length_le
  fits_total _ h := h
  fits_seam _ h := by cases h
  fits_front _ h := by cases h

def separatorsDropped (terminals : List Terminal) : Change :=
  { Change.nothing terminals.length with
    terminal := fun t => { t with terminated := true }
    strict := false
    kind := fun _ => rfl
    text := fun _ => rfl
    token_span := fun _ => rfl
    closing := fun _ => rfl
    onNewLine := fun _ => rfl
    terminated := fun t => by simp }

def limitRaised (terminals : List Terminal) : Change :=
  { Change.nothing terminals.length with capped := true }

def noSpan : Span → Span := fun _ => ⟨0, 0⟩

/-- Places are forgotten, and with them whether the first token begins a line. -/
def placesDropped (terminals : List Terminal) : Change :=
  { Change.nothing terminals.length with
    span := noSpan
    span_merge := fun _ _ => rfl
    terminal := fun t => { t with token := ⟨t.token.kind, .visible, t.token.text, ⟨0, 0⟩, 0, .origin⟩ }
    firstLine := fun _ => false
    kind := fun _ => rfl
    text := fun _ => rfl
    token_span := fun _ => rfl
    closing := fun _ => rfl
    onNewLine := fun _ => rfl
    terminated := fun t => by simp [Change.nothing] }

def bared (total : Nat) : Change :=
  { Change.nothing total with
    terminal := bare
    kind := fun _ => rfl
    text := fun _ => rfl
    token_span := fun _ => rfl
    closing := fun _ => rfl
    onNewLine := fun _ => rfl
    terminated := fun t => by simp [Change.nothing, bare] }

/-- Terminals are moved behind so many bytes, and a line break. -/
def moved (n : Nat) (before : Span) (total : Nat) : Change :=
  { Change.nothing total with
    span := shift n
    span_merge := fun a b => by
      simp [shift, Span.merge, Nat.add_min_add_right, Nat.add_max_add_right]
    terminal := .shift n
    firstLine := fun _ => true
    before := before
    fits := fun ts => ts.length ≤ total ∧ Spaced ts
    kind := fun _ => rfl
    text := fun _ => rfl
    token_span := fun _ => rfl
    closing := fun _ => rfl
    onNewLine := fun _ => rfl
    terminated := fun t => by simp [Change.nothing, Terminal.shift]
    fits_suffix := fun _ _ h hs => ⟨Nat.le_trans h.length_le hs.1, hs.2.suffix h⟩
    fits_total := fun _ h => h.1
    fits_seam := fun _ h => by cases h
    fits_front := fun _ h => by cases h }

/-- A seam in a row of terminals, where an item ends. -/
structure Graft where
  terminals : List Terminal
  seam : Seam
  ordered : terminals.Pairwise fun x y => x.token.span.stop ≤ y.token.span.stop
  ends : ∀ t ts, t :: ts <:+ terminals → ts.length + 1 = seam.kept → t.token.kind.endsItem = true
  front : ∀ t ts, t :: ts <:+ terminals → ts.length = seam.kept → t.token.kind.isInner = false

def grafted (g : Graft) : Change :=
  { Change.nothing (g.terminals.length + 1) with
    seam := some g.seam
    fits := (· <:+ g.terminals)
    fits_suffix := fun _ _ h hs => h.trans hs
    fits_total := fun _ h => Nat.le_succ_of_le h.length_le
    fits_seam := fun _ h t ts hs hlen => g.ends t ts hs (Option.some.inj h ▸ hlen)
    fits_front := fun _ h t ts hs hlen => g.front t ts hs (Option.some.inj h ▸ hlen) }

end Linewise
