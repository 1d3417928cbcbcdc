import Linewise.Proofs.Parsing.Changes

/-!
# Lenient parsing

Whether a statement may end in front of a token on the same line decides about one thing only: whether a
missing separator is a fault. What is read, built and reported otherwise is the same either way.
-/

namespace Linewise

theorem Expectation.display_head (what : Expectation) :
    ∃ c cs, what.display.toList = c :: cs ∧ c ≠ 'n' := by
  have h : what.display.toList.head?.any (· != 'n') = true := by
    cases what with
    | token kind =>
      cases kind with
      | keyword word => cases word <;> decide
      | _ => decide
    | _ => decide
  obtain ⟨c, hc, hn⟩ := Option.any_eq_true _ _ |>.mp h
  obtain ⟨cs, hcs⟩ := List.head?_eq_some_iff.mp hc
  exact ⟨c, cs, hcs, by simpa using hn⟩

theorem not_prefix_of_ne {e p d f g : String} {c c' : Char} {cs cs' : List Char}
    (hp : p.toList = e.toList ++ c :: cs) (hd : d.toList = c' :: cs') (hc : c' ≠ c) :
    ¬p.toList <+: (e ++ d ++ f ++ g).toList := by
  rw [hp, String.toList_append, String.toList_append, String.toList_append, hd, List.append_assoc,
    List.append_assoc, List.cons_append, List.prefix_append_right_inj, List.cons_prefix_cons]
  exact fun h => hc h.1.symm

theorem SyntaxFault.isMissingSeparator_iff (x : SyntaxFault) :
    x.isMissingSeparator = true ↔ "Expected newline or ';' before ".toList <+: x.message.toList := by
  cases x with
  | expected what found =>
    obtain ⟨c, cs, hd, hc⟩ := what.display_head
    have hsplit : "Expected newline or ';' before ".toList =
        "Expected ".toList ++ 'n' :: "ewline or ';' before ".toList := by decide
    exact iff_of_false Bool.false_ne_true (not_prefix_of_ne hsplit hd hc)
  | missingSeparator found =>
    have happend (p f : String) : p.toList <+: (p ++ f).toList := by simp
    exact iff_of_true rfl (happend _ _)
  | nestingTooDeep => decide +kernel
  | _ => decide

def asksForSeparator (x : Located SyntaxFault) : Bool :=
  "Expected newline or ';' before ".toList.isPrefixOf x.node.message.toList

theorem asksForSeparator_eq (x : Located SyntaxFault) :
    asksForSeparator x = x.node.isMissingSeparator := by
  rw [Bool.eq_iff_iff, x.node.isMissingSeparator_iff, asksForSeparator, List.isPrefixOf_iff_prefix]

namespace LayoutTags

variable {τ κ χ : Type}

/-- The same layout, read strictly or not. -/
def withFallthrough (tags : LayoutTags κ χ) (fallthrough : Fallthrough) : LayoutTags κ χ :=
  { tags with fallthrough }

variable [TokenLike τ κ χ] [DecidableEq κ] [DecidableEq χ]

theorem walkBack_withFallthrough (tags : LayoutTags κ χ) (f : Fallthrough) (tokens : Array τ)
    (i : Nat) : (tags.withFallthrough f).walkBack tokens i = tags.walkBack tokens i := by
  induction i with
  | zero => rfl
  | succ i ih =>
    simp only [walkBack, withFallthrough] at ih ⊢
    rw [ih]
    rfl

theorem preceding_withFallthrough (tags : LayoutTags κ χ) (f : Fallthrough) (tokens : Array τ)
    (i : Nat) : (tags.withFallthrough f).preceding tokens i = tags.preceding tokens i :=
  walkBack_withFallthrough tags f tokens _

end LayoutTags

open Linewise.Parser

theorem terminal_accept (tags : LayoutTags TokenKind Channel) (s : TokenStream) (t : Token) :
    s.terminal (tags.withFallthrough .accept) t =
      { s.terminal (tags.withFallthrough .reject) t with terminated := true } := by
  simp only [TokenStream.terminal, LayoutTags.endsStatement, LayoutTags.preceding_withFallthrough]
  congr 1
  exact Preceding.endsStatement_accept _

theorem separatorsDropped_rest (terminals : List Terminal) :
    (separatorsDropped terminals).rest terminals =
      terminals.map fun t => { t with terminated := true } :=
  Change.rest_eq_map rfl fun n _ t _ => by
    unfold Change.mark
    split <;> rfl

theorem separatorsDropped_start (tags : LayoutTags TokenKind Channel) (s : TokenStream) :
    (separatorsDropped (s.terminals (tags.withFallthrough .reject))).state
        (.start s (tags.withFallthrough .reject)) =
      .start s (tags.withFallthrough .accept) := by
  have hterminals : s.terminals (tags.withFallthrough .accept) =
      (s.terminals (tags.withFallthrough .reject)).map fun t => { t with terminated := true } := by
    simp only [TokenStream.terminals, List.map_map]
    exact List.map_congr_left fun t _ => terminal_accept tags s t
  rw [Change.state_start rfl rfl, separatorsDropped_rest, ← hterminals]
  rfl

theorem separatorsDropped_faults (terminals : List Terminal) (xs : Array (Located SyntaxFault)) :
    ((separatorsDropped terminals).faults xs).toList =
      xs.toList.filter fun x => !asksForSeparator x := by
  have hfault : (separatorsDropped terminals).fault = id := rfl
  simp only [Change.faults, hfault, Array.map_id, Array.toList_filter, asksForSeparator_eq]
  rfl

theorem run_withFallthrough (limit : Nat) (tags : LayoutTags TokenKind Channel) (s : TokenStream) :
    ∃ ds strict lenient,
      (declarations limit).run (.start s (tags.withFallthrough .reject)) = (.ok ds, strict) ∧
      (declarations limit).run (.start s (tags.withFallthrough .accept)) = (.ok ds, lenient) ∧
      lenient.faults.toList = strict.faults.toList.filter fun x => !asksForSeparator x := by
  obtain ⟨ds, strict, hstrict⟩ := answers_declarations limit (.start s (tags.withFallthrough .reject))
  have hlenient := Change.run_declarations
    (m := separatorsDropped (s.terminals (tags.withFallthrough .reject))) rfl rfl
    (fun _ _ _ _ _ _ _ _ _ => rfl) (Nat.le_refl _) hstrict
  rw [separatorsDropped_start] at hlenient
  exact ⟨ds, strict, _, hstrict, by rw [hlenient]; congr; exact mapSpans_id ds,
    separatorsDropped_faults _ _⟩

/-- Reading a source leniently drops the faults of missing separators and changes nothing else: not the
declarations that are built, and not the other faults, their order, places and hints. -/
theorem parse_withFallthrough (tags : LayoutTags TokenKind Channel) (s : TokenStream) :
    ∃ ds strict lenient,
      (declarations maxDepth).run (.start s (tags.withFallthrough .reject)) = (.ok ds, strict) ∧
      (declarations maxDepth).run (.start s (tags.withFallthrough .accept)) = (.ok ds, lenient) ∧
      lenient.faults.toList = (strict.faults.toList.filter fun x => !asksForSeparator x) ∧
      parse (tags.withFallthrough .reject) s = verdict ds strict.faults.toList ∧
      parse (tags.withFallthrough .accept) s = verdict ds lenient.faults.toList ∧
      (∀ file, parse (tags.withFallthrough .reject) s = .ok file →
        parse (tags.withFallthrough .accept) s = .ok file) ∧
      (∀ file faults, parse (tags.withFallthrough .accept) s = .ok file →
        parse (tags.withFallthrough .reject) s = .error faults →
        ∀ x ∈ faults, asksForSeparator x = true) := by
  obtain ⟨ds, strict, lenient, hstrict, hlenient, hfaults⟩ := run_withFallthrough maxDepth tags s
  have hs : parse (tags.withFallthrough .reject) s = _ := parseWithin_of_run hstrict
  have hl : parse (tags.withFallthrough .accept) s = _ := parseWithin_of_run hlenient
  refine ⟨ds, strict, lenient, hstrict, hlenient, hfaults, hs, hl, fun file hok => ?_,
    fun file faults hok herror x hx => ?_⟩
  · rw [hs, verdict_eq_ok] at hok
    rw [hl, verdict_eq_ok, hfaults, hok.1]
    exact ⟨rfl, hok.2⟩
  · rw [hl, verdict_eq_ok, hfaults, List.filter_eq_nil_iff] at hok
    rw [hs, verdict_eq_error] at herror
    have := hok.1 x (herror.1 ▸ hx)
    simpa using this

end Linewise
