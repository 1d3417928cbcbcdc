import Linewise.Proofs.Lexing.Concatenation
import Linewise.Proofs.Lexing.Faults
import Linewise.Proofs.Lexing.Language

/-!
# Where the faults of a text stand

Each fault of a text is about some of its characters. A fault of a string literal that has no closing quote
begins in front of the escapes inside of it, and it is found behind them: faults are in the order of their
ends, not of their beginnings.
-/

namespace Linewise

-- ---------------------------------------------------------------------------
-- Flaws of a lexeme
-- ---------------------------------------------------------------------------

namespace Lexeme

variable {c : Char} {cs ds : List Char} {flaws : List Flaw} {n first last : Nat}

/-- The flaws are about characters in front of an end, one at least each, and their ends are in order. -/
structure FlawsInOrder (stop : Nat) (flaws : List Flaw) : Prop where
  within : ∀ f ∈ flaws, f.first < f.last ∧ f.last ≤ stop
  ends : flaws.Pairwise fun f g => f.last ≤ g.last

/-- A literal goes on so far at least, and nothing is found wrong with it before. -/
def EndsFrom (n : Nat) (e : Nat × List Flaw) : Prop := n ≤ e.1 ∧ ∀ f ∈ e.2, n ≤ f.last

theorem EndsFrom.mono {e : Nat × List Flaw} {m : Nat} (h : EndsFrom n e) (hm : m ≤ n) : EndsFrom m e :=
  ⟨Nat.le_trans hm h.1, fun f hf => Nat.le_trans hm (h.2 f hf)⟩

theorem EndsFrom.cons {f : Flaw} (h : EndsFrom n (last, flaws)) (hf : n ≤ f.last) :
    EndsFrom n (last, f :: flaws) :=
  ⟨h.1, List.forall_mem_cons.mpr ⟨hf, h.2⟩⟩

theorem FlawsInOrder.nil : FlawsInOrder n [] := ⟨nofun, .nil⟩

theorem FlawsInOrder.singleton {fault : LexicalFault} (h : first < last) :
    FlawsInOrder last [⟨fault, first, last⟩] :=
  ⟨fun _ hf => List.mem_singleton.mp hf ▸ ⟨h, Nat.le_refl last⟩, List.pairwise_singleton _ _⟩

theorem FlawsInOrder.cons {fault : LexicalFault} (h : FlawsInOrder n flaws) (hlt : first < last)
    (hlast : EndsFrom last (n, flaws)) : FlawsInOrder n (⟨fault, first, last⟩ :: flaws) :=
  ⟨List.forall_mem_cons.mpr ⟨⟨hlt, hlast.1⟩, h.within⟩, List.pairwise_cons.mpr ⟨hlast.2, h.ends⟩⟩

theorem countWhile_take_le (p : Char → Bool) (n : Nat) (cs : List Char) :
    countWhile p (cs.take n) ≤ countWhile p cs := by
  induction cs generalizing n with
  | nil => simp
  | cons c cs ih =>
    cases n with
    | zero => exact Nat.zero_le _
    | succ n =>
      rw [List.take_succ_cons, countWhile_cons, countWhile_cons]
      split
      · exact Nat.succ_le_succ (ih n)
      · exact Nat.le_refl 0

theorem endsFrom_stringEnd (read : Nat) (cs : List Char) :
    EndsFrom (read + countWhile Text.isHexDigit cs) (stringEnd read cs) := by
  have hnone {c : Char} (cs : List Char) (hc : Text.isHexDigit c = false) :
      countWhile Text.isHexDigit (c :: cs) = 0 := by rw [countWhile_cons, hc]; rfl
  fun_induction stringEnd read cs with
  | case1 read => simp [EndsFrom, countWhile]
  | case2 read cs => simp [EndsFrom, hnone cs (c := '"') rfl]
  | case3 read cs digits hdigits ih =>
    rw [hnone _ rfl]
    exact ih.mono (by omega)
  | case4 read cs digits hdigits stop flaws hrest ih =>
    rw [hnone _ rfl]
    exact .cons (hrest ▸ ih.mono (by omega)) (by simp only; omega)
  | case5 read c cs hu hbreak => simp [EndsFrom, hnone (c :: cs) (c := '\\') rfl]
  | case6 read c cs hu hbreak hescape ih =>
    rw [hnone _ rfl]
    exact ih.mono (by omega)
  | case7 read c cs hu hbreak hescape stop flaws hrest ih =>
    rw [hnone _ rfl]
    exact .cons (hrest ▸ ih.mono (by omega)) (by simp only; omega)
  | case8 read c cs hquote hunicode hescape hbreak =>
    have hc : Text.isHexDigit c = false := by
      refine Bool.eq_false_iff.mpr fun hc => ?_
      rw [(plain_of_isHexDigit hc).2.2] at hbreak
      cases hbreak
    simp [EndsFrom, hnone cs hc]
  | case9 read c cs hquote hunicode hescape hbreak ih =>
    refine ih.mono ?_
    rw [countWhile_cons]
    split <;> omega

theorem flawsInOrder_stringEnd {read : Nat} (cs : List Char) (h : 0 < read) :
    FlawsInOrder (stringEnd read cs).1 (stringEnd read cs).2 := by
  have hbehind (read : Nat) (cs : List Char) {n : Nat} (hn : n ≤ countWhile Text.isHexDigit cs) :
      EndsFrom (read + 2 + n) (stringEnd (read + 2) cs) := (endsFrom_stringEnd _ _).mono (by omega)
  fun_induction stringEnd read cs with
  | case1 read => exact .singleton h
  | case2 read cs => exact .nil
  | case3 read cs digits hdigits ih => exact ih (by omega)
  | case4 read cs digits hdigits stop flaws hrest ih =>
    rw [hrest] at ih
    exact (ih (by omega)).cons (by omega) (hrest ▸ hbehind read cs (countWhile_take_le _ _ _))
  | case5 read c cs hu hbreak => exact .singleton (by omega)
  | case6 read c cs hu hbreak hescape ih => exact ih (by omega)
  | case7 read c cs hu hbreak hescape stop flaws hrest ih =>
    rw [hrest] at ih
    exact (ih (by omega)).cons (by omega) (hrest ▸ hbehind read cs (Nat.zero_le _))
  | case8 read c cs hquote hunicode hescape hbreak => exact .singleton h
  | case9 read c cs hquote hunicode hescape hbreak ih => exact ih (by omega)

theorem flawsInOrder_string (cs : List Char) : FlawsInOrder ((string cs).more + 1) (string cs).flaws := by
  have hstop : (string cs).more + 1 = (stringEnd 1 cs).1 := by
    have := (endsFrom_stringEnd 1 cs).1
    show (stringEnd 1 cs).1 - 1 + 1 = _
    omega
  rw [hstop]
  exact flawsInOrder_stringEnd cs Nat.one_pos

theorem flawsInOrder_comment (cs : List Char) : FlawsInOrder ((comment cs).more + 1) (comment cs).flaws := by
  unfold comment
  split
  · exact .nil
  · exact .singleton (Nat.succ_pos _)

theorem flawsInOrder_based (isDigit : Char → Bool) (cs : List Char) :
    FlawsInOrder ((based isDigit cs).more + 1) (based isDigit cs).flaws := by
  unfold based
  dsimp only
  split
  · exact .nil
  · exact .singleton (Nat.succ_pos _)

theorem flawsInOrder_integer (c : Char) (cs : List Char) :
    FlawsInOrder ((integer c cs).more + 1) (integer c cs).flaws := by
  unfold integer
  dsimp only
  split
  · split
    · exact flawsInOrder_based _ _
    · split
      · exact flawsInOrder_based _ _
      · exact .nil
  · exact .nil

theorem flaws_name (c : Char) (cs : List Char) : (name c cs).flaws = [] := by
  unfold name
  dsimp only
  split <;> rfl

theorem flawsInOrder_scan (c : Char) (cs : List Char) :
    FlawsInOrder ((scan c cs).more + 1) (scan c cs).flaws := by
  have hunexpected : FlawsInOrder ((unexpected c).more + 1) (unexpected c).flaws := .singleton Nat.one_pos
  unfold scan
  split
  case h_3 =>
    split
    · exact .nil
    · exact flawsInOrder_comment _
    · exact .nil
  all_goals first
    | exact .nil
    | rw [flaws_pair]; exact .nil
    | exact flawsInOrder_string cs
    | skip
  · split
    · exact .nil
    · exact hunexpected
  · split
    · exact .nil
    · split
      · exact flawsInOrder_integer c cs
      · split
        · rw [flaws_name]
          exact .nil
        · exact hunexpected

end Lexeme

-- ---------------------------------------------------------------------------
-- Parts of a text
-- ---------------------------------------------------------------------------

namespace Text

variable {cs ds : List Char} {span : Span} {offset first last : Nat} {text : String}

/-- The span covers some characters, one at least, of a text that begins at a byte offset. -/
def Covers (offset : Nat) (cs : List Char) (span : Span) : Prop :=
  ∃ front part rest, cs = front ++ part ++ rest ∧ part ≠ [] ∧
    span = ⟨offset + byteSize front, offset + byteSize (front ++ part)⟩

theorem Covers.append_right (h : Covers offset cs span) (ds : List Char) : Covers offset (cs ++ ds) span := by
  obtain ⟨front, part, rest, rfl, hpart, hspan⟩ := h
  exact ⟨front, part, rest ++ ds, List.append_assoc _ _ _, hpart, hspan⟩

theorem Covers.append_left (ds : List Char) (h : Covers (offset + byteSize ds) cs span) :
    Covers offset (ds ++ cs) span := by
  obtain ⟨front, part, rest, rfl, hpart, rfl⟩ := h
  refine ⟨ds ++ front, part, rest, by simp only [List.append_assoc], hpart, ?_⟩
  simp only [List.append_assoc, byteSize_append, Nat.add_assoc]

theorem covers_take (hlt : first < last) (hlast : last ≤ cs.length) :
    Covers offset cs ⟨offset + byteSize (cs.take first), offset + byteSize (cs.take last)⟩ := by
  have htake : cs.take first ++ (cs.take last).drop first = cs.take last := by
    have h := List.take_append_drop first (cs.take last)
    rwa [List.take_take, Nat.min_eq_left (Nat.le_of_lt hlt)] at h
  refine ⟨cs.take first, (cs.take last).drop first, cs.drop last, ?_, ?_, by rw [htake]⟩
  · rw [htake, List.take_append_drop]
  · refine List.ne_nil_of_length_pos ?_
    rw [List.length_drop, List.length_take]
    omega

theorem byteSize_take_le {m n : Nat} (h : m ≤ n) (cs : List Char) :
    byteSize (cs.take m) ≤ byteSize (cs.take n) := by
  obtain ⟨k, rfl⟩ := Nat.exists_eq_add_of_le h
  rw [List.take_add, byteSize_append]
  exact Nat.le_add_right _ _

theorem Covers.bounds (h : Covers offset cs span) :
    offset ≤ span.start ∧ span.start < span.stop ∧ span.stop ≤ offset + byteSize cs := by
  obtain ⟨front, part, rest, rfl, hpart, rfl⟩ := h
  have := byteSize_pos hpart
  simp only [byteSize_append]
  omega

theorem isValid_byteSize (h : text.toList = cs ++ ds) :
    (String.Pos.Raw.mk (byteSize cs)).IsValid text := by
  refine String.Pos.Raw.isValid_iff_exists_append.mpr ⟨String.ofList cs, String.ofList ds, ?_, ?_⟩
  · rw [← String.ofList_append, ← h, String.ofList_toList]
  · rw [String.rawEndPos, utf8ByteSize_ofList]

theorem Covers.isValid (h : Covers 0 text.toList span) :
    (String.Pos.Raw.mk span.start).IsValid text ∧ (String.Pos.Raw.mk span.stop).IsValid text := by
  obtain ⟨front, part, rest, htext, -, rfl⟩ := h
  rw [Nat.zero_add, Nat.zero_add]
  exact ⟨isValid_byteSize (htext.trans (List.append_assoc _ _ _)), isValid_byteSize htext⟩

end Text

-- ---------------------------------------------------------------------------
-- Faults of a text
-- ---------------------------------------------------------------------------

open Lexeme

structure FaultsInOrder (offset : Nat) (cs : List Char) (faults : List (Located LexicalFault)) : Prop where
  covers : ∀ x ∈ faults, Text.Covers offset cs x.span
  ends : faults.Pairwise fun x y => x.span.stop ≤ y.span.stop

variable {offset : Nat} {cs ds : List Char} {xs ys : List (Located LexicalFault)} {source : String}
  {faults : List (Located LexicalFault)}

theorem FaultsInOrder.append (hx : FaultsInOrder offset cs xs)
    (hy : FaultsInOrder (offset + Text.byteSize cs) ds ys) : FaultsInOrder offset (cs ++ ds) (xs ++ ys) where
  covers := List.forall_mem_append.mpr
    ⟨fun x h => (hx.covers x h).append_right ds, fun y h => (hy.covers y h).append_left cs⟩
  ends := List.pairwise_append.mpr ⟨hx.ends, hy.ends, fun x h y h' => by
    have := (hx.covers x h).bounds
    have := (hy.covers y h').bounds
    omega⟩

theorem Lexeme.faultsInOrder_faultsAt (offset : Nat) {l : Lexeme} (h : FlawsInOrder l.text.length l.flaws) :
    FaultsInOrder offset l.text (l.faultsAt offset) where
  covers := List.forall_mem_map.mpr fun f hf =>
    have ⟨hlt, hlast⟩ := h.within f hf
    Text.covers_take hlt hlast
  ends := List.pairwise_map.mpr (h.ends.imp fun hle => Nat.add_le_add_left (Text.byteSize_take_le hle _) offset)

theorem Lexeme.length_ofScan (c : Char) (cs : List Char) :
    (ofScan c cs (scan c cs)).text.length = (scan c cs).more + 1 := by
  rw [ofScan, List.length_cons, List.length_take, Nat.min_eq_left (sound_scan c cs).more_le]

theorem faultsInOrder_lexemes (offset : Nat) (cs : List Char) :
    FaultsInOrder offset cs (faultsFrom offset (lexemes cs)) := by
  induction cs using lexemes_induction generalizing offset with
  | nil => exact ⟨nofun, .nil⟩
  | cons c cs ih =>
    have htext : c :: cs = (ofScan c cs (scan c cs)).text ++ cs.drop (scan c cs).more := by
      rw [ofScan, List.cons_append, List.take_append_drop]
    have hflaws := flawsInOrder_scan c cs
    rw [← length_ofScan] at hflaws
    have hfaults := (faultsInOrder_faultsAt offset hflaws).append (ih _)
    rw [← htext] at hfaults
    rwa [lexemes_cons, faultsFrom]

/-- Every fault of a source that does not lex is about one character of it or more: its span is not empty, stays
within the source and cuts no character. The faults are listed in the order in which they end. -/
theorem lex_faults_inOrder (h : lex source = .error faults) :
    (∀ x ∈ faults, x.span.start < x.span.stop ∧ x.span.stop ≤ source.utf8ByteSize ∧
        (String.Pos.Raw.mk x.span.start).IsValid source ∧ (String.Pos.Raw.mk x.span.stop).IsValid source) ∧
      faults.Pairwise fun x y => x.span.stop ≤ y.span.stop := by
  obtain ⟨rfl, -⟩ := lex_eq_error.mp h
  have hfaults := faultsInOrder_lexemes 0 source.toList
  refine ⟨fun x hx => ?_, hfaults.ends⟩
  have hcovers := hfaults.covers x hx
  obtain ⟨-, hlt, hstop⟩ := hcovers.bounds
  rw [Nat.zero_add, Text.byteSize_toList] at hstop
  exact ⟨hlt, hstop, hcovers.isValid⟩

theorem lex_faults_inOrder_escapes :
    ∃ source faults, source = "é\"\\é\\u1ß" ∧ lex source = .error faults ∧
      faults.map (·.span) = [⟨0, 2⟩, ⟨3, 6⟩, ⟨6, 9⟩, ⟨2, 11⟩] ∧
      (∀ x ∈ faults, x.span.start < x.span.stop ∧ x.span.stop ≤ source.utf8ByteSize ∧
        (String.Pos.Raw.mk x.span.start).IsValid source ∧ (String.Pos.Raw.mk x.span.stop).IsValid source) ∧
      faults.Pairwise fun x y => x.span.stop ≤ y.span.stop := by
  have h : lex "é\"\\é\\u1ß" = .error _ := lex_eq_error.mpr ⟨rfl, by decide +kernel⟩
  exact ⟨_, _, rfl, h, by decide +kernel, lex_faults_inOrder h⟩

end Linewise
