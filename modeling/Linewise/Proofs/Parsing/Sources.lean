import Linewise.Proofs.Parsing.GrammarSimulation
import Linewise.Proofs.Parsing.Items

/-!
# Whole sources

A run over a whole source never fails: it builds a list of declarations and reports faults, and the
source is accepted if there are none. A change without a seam is carried through such a run.
-/

namespace Linewise

open Linewise.Parser

variable {limit limit' : Nat} {tags : LayoutTags TokenKind Channel} {s : TokenStream}

/-- What becomes of a source for which this was built and reported. -/
def verdict (ds : List (Located Declaration)) :
    List (Located SyntaxFault) → Except (List (Located SyntaxFault)) SourceFile
  | [] => .ok ⟨ds⟩
  | faults => .error faults

theorem verdict_eq_ok {ds : List (Located Declaration)} {xs : List (Located SyntaxFault)}
    {file : SourceFile} : verdict ds xs = .ok file ↔ xs = [] ∧ file = ⟨ds⟩ := by
  cases xs with
  | nil => simp [verdict, eq_comm]
  | cons x xs => simp [verdict]

theorem verdict_eq_error {ds : List (Located Declaration)} {xs ys : List (Located SyntaxFault)} :
    verdict ds xs = .error ys ↔ xs = ys ∧ ys ≠ [] := by
  cases xs with
  | nil => simp [verdict, eq_comm]
  | cons x xs =>
    simp only [verdict, Except.error.injEq, iff_self_and]
    rintro rfl
    exact List.cons_ne_nil x xs

theorem answers_declarations (limit : Nat) : Answers (declarations limit) := answers_sequenceOf _ _

theorem parseWithin_of_run {ds : List (Located Declaration)} {t : State}
    (h : (declarations limit).run (.start s tags) = (.ok ds, t)) :
    parseWithin limit tags s = verdict ds t.faults.toList := by
  unfold parseWithin
  rw [h]
  dsimp only
  cases t.faults.toList <;> rfl

/-- A source is accepted if all of its declarations are read without a fault. -/
theorem parseWithin_eq_ok {file : SourceFile} :
    parseWithin limit tags s = .ok file ↔
      ∃ t, Faultless false (grammar limit limit).declaration (.start s tags) file.declarations t := by
  have hr := (rulesRead_grammar limit limit).declaration
  obtain ⟨ds, t, hrun⟩ := answers_declarations limit (.start s tags)
  rw [parseWithin_of_run hrun, verdict_eq_ok]
  constructor
  · rintro ⟨hfaults, rfl⟩
    exact ⟨t, (run_sequenceOf_iff hr).mp ⟨hrun, Array.toList_inj.mp hfaults⟩⟩
  · rintro ⟨u, hu⟩
    obtain ⟨hfile, hfaults⟩ := (run_sequenceOf_iff hr).mpr hu
    rw [declarations, hfile] at hrun
    cases hrun
    exact ⟨congrArg Array.toList hfaults, rfl⟩

namespace Change

variable {m : Change} {k : Nat} {u : State}

theorem sim_declarations (hl : m.Levels limit limit' limit limit') (hd : m.DetachesAll limit) :
    m.Sim 1 u (declarations limit) (declarations limit') := by
  have h := rulesSim_grammar hl hd
  exact sim_sequenceOf h.left.declaration h.right.declaration h.declaration

/-- Runs are always regular for a change that moves neither the tokens nor the limit. -/
theorem regular_of_plain {α : Type} (hn : m.seam = none) (hc : m.capped = false) (r : Outcome α) :
    m.Regular k u r where
  capped h := by simp [hc] at h
  clean sm hsm := by simp [hn] at hsm

theorem run_declarations (hn : m.seam = none) (hc : m.capped = false) (hd : m.DetachesAll limit)
    (hs : m.fits u.rest) {ds : List (Located Declaration)} {t : State}
    (h : (declarations limit).run u = (.ok ds, t)) :
    (declarations limit).run (m.state u) = (.ok (mapSpans m.span ds), m.state t) := by
  have hrun := (sim_declarations (.inl ⟨rfl, rfl⟩) hd).run hs (regular_of_plain hn hc _)
  rw [hrun, h]
  rfl

theorem rest_eq_map (hn : m.seam = none) {f : Terminal → Terminal} {ts : List Terminal}
    (hf : ∀ n ≤ ts.length, ∀ t ∈ ts, m.mark n t = f t) : m.rest ts = ts.map f := by
  induction ts with
  | nil => exact rest_nil hn
  | cons x ts ih =>
    simp only [rest, hn, List.map_cons]
    rw [hf (ts.length + 1) (Nat.le_refl _) x List.mem_cons_self, ih fun n hle t ht =>
      hf n (Nat.le_succ_of_le hle) t (List.mem_cons_of_mem x ht)]

theorem rest_cons_of_total (hn : m.seam = none) {x : Terminal} {ts : List Terminal}
    (ht : m.total = ts.length + 1) :
    m.rest (x :: ts) =
      { m.terminal x with onNewLine := m.firstLine x.onNewLine } :: ts.map m.terminal := by
  simp only [rest, hn, mark, ht, Nat.lt_irrefl, ↓reduceIte]
  rw [rest_eq_map hn fun n hle t _ => if_pos (by omega)]

theorem state_start (hn : m.seam = none) (ht : m.total = (s.terminals tags).length) :
    m.state (.start s tags) = ⟨m.rest (s.terminals tags), m.span s.finish, m.before, 0, #[]⟩ := by
  have hread : ¬(State.start s tags).rest.length < m.total := ht ▸ Nat.lt_irrefl _
  rw [state, if_neg hread]
  simp [State.start, finish, hn, faults]

end Change

end Linewise
