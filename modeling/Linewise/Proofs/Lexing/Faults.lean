import Linewise.Proofs.Lexing.Reading

/-!
# The faults of a text

The faults of a text are those of its lexemes, one lexeme after the other. A lexeme knows its faults by
characters of its own, so only their places depend on what stands in front of it.
-/

namespace Linewise

open Lexeme

/-- The faults of lexemes that follow each other from a byte offset on. -/
def faultsFrom (offset : Nat) : List Lexeme → List (Located LexicalFault)
  | [] => []
  | l :: ls => l.faultsAt offset ++ faultsFrom (offset + Text.byteSize l.text) ls

variable {offset : Nat} {ls ms : List Lexeme} {source : String} {faults : List (Located LexicalFault)}

theorem toList_collectFaults (offset : Nat) (found : Array (Located LexicalFault)) (ls : List Lexeme) :
    (collectFaults offset found ls).toList = found.toList ++ faultsFrom offset ls := by
  induction ls generalizing offset found with
  | nil => simp [collectFaults, faultsFrom]
  | cons l ls ih => simp [collectFaults, faultsFrom, ih]

theorem lex_eq_error :
    lex source = .error faults ↔ faultsFrom 0 (lexemes source.toList) = faults ∧ faults ≠ [] := by
  have hfaults := toList_collectFaults 0 #[] (lexemes source.toList)
  rw [List.nil_append] at hfaults
  unfold lex
  dsimp only
  rw [hfaults]
  split
  · rename_i hnil
    simp [hnil, eq_comm]
  · rename_i hne
    rw [Except.error.injEq, iff_self_and]
    rintro rfl
    exact hne

theorem faultsFrom_append (offset : Nat) (ls ms : List Lexeme) :
    faultsFrom offset (ls ++ ms) =
      faultsFrom offset ls ++ faultsFrom (offset + Text.byteSize (ls.flatMap Lexeme.text)) ms := by
  induction ls generalizing offset with
  | nil => rfl
  | cons l ls ih =>
    rw [List.cons_append, faultsFrom, faultsFrom, ih, List.flatMap_cons, Text.byteSize_append,
      List.append_assoc, Nat.add_assoc]

theorem faultsFrom_eq_nil (offset : Nat) (h : ∀ l ∈ ls, l.flaws = []) : faultsFrom offset ls = [] := by
  induction ls generalizing offset with
  | nil => rfl
  | cons l ls ih =>
    obtain ⟨hl, hls⟩ := List.forall_mem_cons.mp h
    rw [faultsFrom, ih _ hls, faultsAt, hl]
    rfl

def LexicalFault.moved (n : Nat) (x : Located LexicalFault) : Located LexicalFault :=
  ⟨x.node, shift n x.span⟩

theorem faultsFrom_add (offset n : Nat) (ls : List Lexeme) :
    faultsFrom (offset + n) ls = (faultsFrom offset ls).map (LexicalFault.moved n) := by
  induction ls generalizing offset with
  | nil => rfl
  | cons l ls ih =>
    rw [faultsFrom, faultsFrom, List.map_append, Nat.add_right_comm, ih]
    simp [faultsAt, LexicalFault.moved, shift, Function.comp_def, Nat.add_right_comm]

end Linewise
