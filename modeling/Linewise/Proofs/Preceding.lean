import Mathlib.Order.Bounds.Basic
import Linewise.Terminal

/-!
# What precedes a position

The walk back from a position ends at the nearest token in front of it that is no plain layout, and the kind and
the text of this token say how it is reported. So the answer depends on the tokens from that one on up to the
position, and on no others.
-/

namespace Linewise.LayoutTags

variable {τ κ χ : Type} [TokenLike τ κ χ] {tags : LayoutTags κ χ} {tokens others : Array τ} {t : τ}
  {i j n index : Nat} {p q : Preceding}

def SpansLines (tags : LayoutTags κ χ) (t : τ) : Prop :=
  TokenLike.kind t = tags.blockComment ∧ ∃ c ∈ (TokenLike.text t).toList, c = '\n' ∨ c = '\r'

/-- The token is no plain layout: a line break, a comment with one in it, or a token that is not hidden. -/
def Stops (tags : LayoutTags κ χ) (t : τ) : Prop :=
  TokenLike.kind t = tags.lineBreak ∨ tags.SpansLines t ∨ TokenLike.channel t ≠ tags.hidden

/-- How a token that is no plain layout is reported. A line break is one, even if it is a comment too, and the
channel does not matter to either. -/
inductive Reports (tags : LayoutTags κ χ) (t : τ) (j : Nat) : Preceding → Prop
  | lineBreak (hbreak : TokenLike.kind t = tags.lineBreak) : Reports tags t j (.lineBreak j)
  | multiLineComment (hbreak : TokenLike.kind t ≠ tags.lineBreak) (hcomment : tags.SpansLines t) :
      Reports tags t j (.multiLineComment j)
  | visibleToken (hbreak : TokenLike.kind t ≠ tags.lineBreak) (hcomment : ¬tags.SpansLines t) :
      Reports tags t j (.visibleToken j)

def stopsBelow (tags : LayoutTags κ χ) (tokens : Array τ) (n : Nat) : Set Nat :=
  {j | j < n ∧ ∃ t, tokens[j]? = some t ∧ tags.Stops t}

/-- The greatest of these indices, reported as its token is, or the start of the stream if there are none. -/
inductive Nearest (tags : LayoutTags κ χ) (tokens : Array τ) (n : Nat) : Preceding → Prop
  | startOfStream (hnone : ∀ j, j ∉ tags.stopsBelow tokens n) : Nearest tags tokens n .startOfStream
  | stop {j : Nat} {t : τ} {p : Preceding} (hj : IsGreatest (tags.stopsBelow tokens n) j)
      (ht : tokens[j]? = some t) (hp : tags.Reports t j p) : Nearest tags tokens n p

-- ---------------------------------------------------------------------------
-- Stops
-- ---------------------------------------------------------------------------

theorem spansLines_iff : tags.SpansLines t ↔
    TokenLike.kind t = tags.blockComment ∧ Text.hasLineBreak (TokenLike.text t) = true := by
  simp [SpansLines, Text.hasLineBreak, Text.isLineBreak]

theorem isGreatest_stopsBelow (hi : tokens[i]? = some t) (ht : tags.Stops t) :
    IsGreatest (tags.stopsBelow tokens (i + 1)) i :=
  ⟨⟨Nat.lt_succ_self i, t, hi, ht⟩, fun _ hj => Nat.le_of_lt_succ hj.1⟩

theorem stopsBelow_succ (hi : tokens[i]? = some t) (ht : ¬tags.Stops t) :
    tags.stopsBelow tokens (i + 1) = tags.stopsBelow tokens i := by
  ext j
  refine ⟨fun ⟨hlt, u, hu, hstops⟩ => ⟨?_, u, hu, hstops⟩, fun ⟨hlt, h⟩ => ⟨Nat.lt_succ_of_lt hlt, h⟩⟩
  refine Nat.lt_of_le_of_ne (Nat.le_of_lt_succ hlt) ?_
  rintro rfl
  exact ht (Option.some.inj (hi.symm.trans hu) ▸ hstops)

theorem Reports.unique (hp : tags.Reports t j p) (hq : tags.Reports t j q) : p = q := by
  cases hp <;> cases hq <;> first | rfl | contradiction

theorem Nearest.unique (hp : tags.Nearest tokens n p) (hq : tags.Nearest tokens n q) : p = q := by
  cases hp with
  | startOfStream hnone =>
    cases hq with
    | startOfStream => rfl
    | stop hj => exact absurd hj.1 (hnone _)
  | stop hi ht hp =>
    cases hq with
    | startOfStream hnone => exact absurd hi.1 (hnone _)
    | stop hj hu hq =>
      obtain rfl := hi.unique hj
      obtain rfl := Option.some.inj (ht.symm.trans hu)
      exact hp.unique hq

theorem Nearest.congr {m : Nat} (hp : tags.Nearest tokens n p)
    (h : tags.stopsBelow tokens n = tags.stopsBelow tokens m) : tags.Nearest tokens m p := by
  cases hp with
  | startOfStream hnone => exact .startOfStream (h ▸ hnone)
  | stop hj ht hp => exact .stop (h ▸ hj) ht hp

-- ---------------------------------------------------------------------------
-- The walk back
-- ---------------------------------------------------------------------------

section
variable [DecidableEq κ] [DecidableEq χ]

theorem reports_walkBack (hi : tokens[i]? = some t) (ht : tags.Stops t) :
    tags.Reports t i (tags.walkBack tokens (i + 1)) := by
  rw [walkBack, hi]
  dsimp only
  by_cases hbreak : TokenLike.kind t = tags.lineBreak
  · rw [if_pos hbreak]
    exact .lineBreak hbreak
  rw [if_neg hbreak]
  by_cases hcomment : tags.SpansLines t
  · rw [if_pos (spansLines_iff.mp hcomment)]
    exact .multiLineComment hbreak hcomment
  -- What is left to stop the walk is that the token is not hidden.
  have hvisible : TokenLike.channel t ≠ tags.hidden := (ht.resolve_left hbreak).resolve_left hcomment
  rw [if_neg (mt spansLines_iff.mpr hcomment), if_neg hvisible]
  exact .visibleToken hbreak hcomment

theorem walkBack_succ_of_not_stops (hi : tokens[i]? = some t) (ht : ¬tags.Stops t) :
    tags.walkBack tokens (i + 1) = tags.walkBack tokens i := by
  obtain ⟨hbreak, hcomment, hhidden⟩ : TokenLike.kind t ≠ tags.lineBreak ∧ ¬tags.SpansLines t ∧
      TokenLike.channel t = tags.hidden := by simpa [Stops] using ht
  rw [walkBack, hi]
  dsimp only
  rw [if_neg hbreak, if_neg (mt spansLines_iff.mpr hcomment), if_pos hhidden]

theorem nearest_walkBack (hn : n ≤ tokens.size) : tags.Nearest tokens n (tags.walkBack tokens n) := by
  induction n with
  | zero => exact .startOfStream fun j hj => Nat.not_lt_zero j hj.1
  | succ i ih =>
    have hi : tokens[i]? = some tokens[i] := Array.getElem?_eq_getElem hn
    by_cases ht : tags.Stops tokens[i]
    · exact .stop (isGreatest_stopsBelow hi ht) hi (reports_walkBack hi ht)
    · have hrest := ih (Nat.le_of_succ_le hn)
      rw [← walkBack_succ_of_not_stops hi ht] at hrest
      exact hrest.congr (stopsBelow_succ hi ht).symm

theorem walkBack_congr (hj : j ∈ tags.stopsBelow tokens n)
    (h : ∀ i, j ≤ i → i < n → others[i]? = tokens[i]?) : tags.walkBack others n = tags.walkBack tokens n := by
  induction n with
  | zero => exact absurd hj.1 (Nat.not_lt_zero j)
  | succ i ih =>
    have hle : j ≤ i := Nat.le_of_lt_succ hj.1
    have hothers := h i hle (Nat.lt_succ_self i)
    cases hi : tokens[i]? with
    | none => rw [walkBack, walkBack, hothers, hi]
    | some t =>
      by_cases ht : tags.Stops t
      · exact (reports_walkBack (hothers.trans hi) ht).unique (reports_walkBack hi ht)
      · rw [walkBack_succ_of_not_stops (hothers.trans hi) ht, walkBack_succ_of_not_stops hi ht]
        exact ih (stopsBelow_succ hi ht ▸ hj) fun k hk hlt => h k hk (Nat.lt_succ_of_lt hlt)

theorem min_size_congr (hj : j < min index tokens.size) (h : ∀ i, j ≤ i → i < index → others[i]? = tokens[i]?) :
    min index others.size = min index tokens.size := by
  have hwithin (i : Nat) (hle : j ≤ i) (hlt : i < index) : i < others.size ↔ i < tokens.size := by
    rw [← not_iff_not, Nat.not_lt, Nat.not_lt, ← Array.getElem?_eq_none_iff, ← Array.getElem?_eq_none_iff,
      h i hle hlt]
  have hfirst := hwithin j (Nat.le_refl j) (by omega)
  have hothers := hwithin others.size
  have htokens := hwithin tokens.size
  omega

theorem preceding_congr (hj : j ∈ tags.stopsBelow tokens (min index tokens.size))
    (h : ∀ i, j ≤ i → i < index → others[i]? = tokens[i]?) :
    tags.preceding others index = tags.preceding tokens index := by
  rw [preceding, preceding, min_size_congr hj.1 h]
  exact walkBack_congr hj fun i hle hlt => h i hle (by omega)

theorem preceding_eq_iff : tags.preceding tokens index = p ↔ tags.Nearest tokens (min index tokens.size) p := by
  have hnearest : tags.Nearest tokens (min index tokens.size) (tags.preceding tokens index) :=
    nearest_walkBack (Nat.min_le_right index tokens.size)
  refine ⟨?_, hnearest.unique⟩
  rintro rfl
  exact hnearest

/-- What precedes a position is the nearest token in front of it that is no plain layout, reported as its kind
and its text say, or the start of the stream if there is none. Tokens from the position on make no difference
to it, nor do tokens in front of a token that is no plain layout. -/
theorem preceding_nearest (tags : LayoutTags κ χ) (tokens : Array τ) (index : Nat) :
    (∀ p, tags.preceding tokens index = p ↔ tags.Nearest tokens (min index tokens.size) p) ∧
      (∀ others : Array τ, (∀ i < index, others[i]? = tokens[i]?) →
        tags.preceding others index = tags.preceding tokens index) ∧
      ∀ j ∈ tags.stopsBelow tokens (min index tokens.size), ∀ others : Array τ,
        (∀ i, j ≤ i → i < index → others[i]? = tokens[i]?) →
          tags.preceding others index = tags.preceding tokens index := by
  refine ⟨fun p => preceding_eq_iff, fun others h => ?_, fun j hj others h => preceding_congr hj h⟩
  by_cases hstop : ∃ j, j ∈ tags.stopsBelow tokens (min index tokens.size)
  · obtain ⟨j, hj⟩ := hstop
    exact preceding_congr hj fun i _ hlt => h i hlt
  · have hnone := not_exists.mp hstop
    rw [preceding_eq_iff.mpr (.startOfStream hnone)]
    refine preceding_eq_iff.mpr (.startOfStream fun j hj => hnone j ?_)
    obtain ⟨hlt, t, ht, hstops⟩ := hj
    have htokens : tokens[j]? = some t := (h j (by omega)).symm.trans ht
    have hsize := (Array.getElem?_eq_some_iff.mp htokens).1
    exact ⟨by omega, t, htokens, hstops⟩

theorem preceding_nearest_comment :
    ∃ (tags : LayoutTags TokenKind Channel) (tokens others : Array Token),
      tags.lineBreak = tags.blockComment ∧ tokens ≠ others ∧
        (∀ i, 1 ≤ i → i < 9 → others[i]? = tokens[i]?) ∧ 1 ∈ tags.stopsBelow tokens (min 9 tokens.size) ∧
        tags.preceding tokens 9 = .lineBreak 1 ∧ tags.preceding others 9 = tags.preceding tokens 9 ∧
        tags.Nearest tokens (min 9 tokens.size) (.lineBreak 1) := by
  let tags : LayoutTags TokenKind Channel := ⟨.blockComment, .blockComment, .rightCurl, .hidden, .reject⟩
  let tokens := (TokenStream.ofList [(.identifier, "x"), (.blockComment, "/*\n*/"), (.whitespace, " ")]).tokens
  let others := (TokenStream.ofList [(.semicolon, ";"), (.blockComment, "/*\n*/"), (.whitespace, " ")]).tokens
  obtain ⟨hnearest, -, hlocal⟩ := preceding_nearest tags tokens 9
  have hsame : ∀ i < 9, 1 ≤ i → others[i]? = tokens[i]? := by decide
  have hstop : 1 ∈ tags.stopsBelow tokens (min 9 tokens.size) := ⟨by decide, _, rfl, .inl rfl⟩
  have hothers := hlocal 1 hstop others fun i hle hlt => hsame i hlt hle
  have hbreak : tags.preceding tokens 9 = .lineBreak 1 := by decide
  exact ⟨tags, tokens, others, rfl, by decide, fun i hle hlt => hsame i hlt hle, hstop, hbreak, hothers,
    (hnearest _).mp hbreak⟩

end

end Linewise.LayoutTags
