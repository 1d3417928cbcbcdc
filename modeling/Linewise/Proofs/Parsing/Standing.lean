import Linewise.Proofs.Ast.Places
import Linewise.Terminal

/-!
# Places on terminals

`Place.On ws p`: the place stands on some of the terminals `ws`, from the first one to the last, and the places
inside of it stand on these, in their order. Two places are the exception that make up a receiver: a type that
ends in a member's name stands on the terminals up to the name, but its parts are in front of the dot, and the
receiver that is made of it ends one byte in front of the name.
-/

namespace Linewise

variable {vs ws xs ys : List Terminal} {dot name z : Terminal} {span : Span} {p q : Place}
  {ps qs : List Place}

-- ---------------------------------------------------------------------------
-- Terminals in a row
-- ---------------------------------------------------------------------------

structure Orderly (ws : List Terminal) : Prop where
  ordered : ws.Pairwise fun x y => x.token.span.stop ≤ y.token.span.start
  covers : ∀ x ∈ ws, x.token.span.start < x.token.span.stop
  sized : ∀ x ∈ ws, x.token.span.stop = x.token.span.start + x.token.text.utf8ByteSize

theorem Orderly.sublist (h : Orderly ws) (hs : xs.Sublist ws) : Orderly xs :=
  ⟨h.ordered.sublist hs, fun x hx => h.covers x (hs.subset hx), fun x hx => h.sized x (hs.subset hx)⟩

def Spans (ws : List Terminal) (span : Span) : Prop :=
  ∃ x y, ws.head? = some x ∧ ws.getLast? = some y ∧ span = ⟨x.token.span.start, y.token.span.stop⟩

theorem Spans.mem (h : Spans ws span) (ho : Orderly ws) (hz : z ∈ ws) :
    span.start ≤ z.token.span.start ∧ z.token.span.stop ≤ span.stop := by
  obtain ⟨x, y, hx, hy, rfl⟩ := h
  constructor
  · obtain ⟨rest, rfl⟩ := List.head?_eq_some_iff.mp hx
    rcases List.mem_cons.mp hz with rfl | hz
    · exact Nat.le_refl _
    · have hle := List.rel_of_pairwise_cons ho.ordered hz
      have hlt := ho.covers x List.mem_cons_self
      exact Nat.le_trans (Nat.le_of_lt hlt) hle
  · obtain ⟨rest, rfl⟩ := List.getLast?_eq_some_iff.mp hy
    rcases List.mem_append.mp hz with hz | hz
    · have hle := (List.pairwise_append.mp ho.ordered).2.2 z hz y List.mem_cons_self
      have hlt := ho.covers y (by simp)
      exact Nat.le_trans hle (Nat.le_of_lt hlt)
    · exact List.mem_singleton.mp hz ▸ Nat.le_refl _

structure EndsInMember (ws xs : List Terminal) (dot name : Terminal) : Prop where
  eq : ws = xs ++ [dot, name]
  ne_nil : xs ≠ []
  dot : dot.token.kind = .dot
  name : name.token.kind = .identifier

theorem EndsInMember.front (h : EndsInMember ws xs dot name) : xs <:+: ws := by
  rw [h.eq]
  exact (List.prefix_append _ _).isInfix

/-- Where a type ends that ends in a member's name, once the name is taken off and a byte for the dot. -/
def Terminal.cut (name : Terminal) (span : Span) : Nat :=
  span.stop - (name.token.text.utf8ByteSize + 1)

theorem EndsInMember.cut (h : EndsInMember ws xs dot name) (ho : Orderly ws) (hs : Spans ws span) :
    name.cut span + 1 = name.token.span.start ∧ dot.token.span.start ≤ name.cut span ∧
      ∀ z ∈ xs, z.token.span.stop ≤ dot.token.span.start := by
  obtain ⟨x, y, -, hy, rfl⟩ := hs
  obtain ⟨rfl, -, -, -⟩ := h
  have hname : y = name := by simpa using hy.symm
  subst hname
  obtain ⟨-, hpair, hcross⟩ := List.pairwise_append.mp ho.ordered
  have hle := List.rel_of_pairwise_cons hpair List.mem_cons_self
  have hlt := ho.covers dot (by simp)
  have hsize := ho.sized y (by simp)
  refine ⟨?_, ?_, fun z hz => hcross z hz dot List.mem_cons_self⟩ <;> simp only [Terminal.cut] <;> omega

-- ---------------------------------------------------------------------------
-- Places
-- ---------------------------------------------------------------------------

def Role.Fits (xs : List Terminal) : Role → Prop
  | .member _ => False
  | .user | .receiver _ => ∀ y, xs.getLast? = some y → y.token.kind ≠ .dot
  | _ => True

namespace Place

/-- Where a place stands: on terminals in a row and its parts on these, on a type whose last name is not for
its parts, or on such a type once the name is taken off. -/
inductive On : List Terminal → Place → Prop
  | covering {ws xs : List Terminal} {role : Role} {span : Span} {parts : List Place}
      (hxs : xs <:+: ws) (hspan : Spans xs span) (hrole : role.Fits xs)
      (hparts : ∀ p ∈ parts, On xs p) (horder : InOrder parts) : On ws (.node role span parts)
  | member {ws xs ys : List Terminal} {dot name : Terminal} {span : Span} {parts : List Place}
      (hxs : xs <:+: ws) (hspan : Spans xs span) (hend : EndsInMember xs ys dot name)
      (hparts : ∀ p ∈ parts, On ys p) (horder : InOrder parts) :
      On ws (.node (.member name.token.text) span parts)
  | detached {ws xs ys : List Terminal} {dot name : Terminal} {span : Span} {parts : List Place}
      (hxs : xs <:+: ws) (hspan : Spans xs span) (hend : EndsInMember xs ys dot name)
      (hparts : ∀ p ∈ parts, On ys p) (horder : InOrder parts) :
      On ws (.node (.receiver name.token.text) ⟨span.start, name.cut span⟩ parts)

theorem On.mono (h : p.On xs) (hxs : xs <:+: ws) : p.On ws := by
  cases h with
  | covering hys hspan hrole hparts horder => exact .covering (hys.trans hxs) hspan hrole hparts horder
  | member hys hspan hend hparts horder => exact .member (hys.trans hxs) hspan hend hparts horder
  | detached hys hspan hend hparts horder => exact .detached (hys.trans hxs) hspan hend hparts horder

theorem On.bounds (h : p.On ws) (ho : Orderly ws) :
    (∃ x ∈ ws, p.span.start = x.token.span.start) ∧ p.span.start < p.span.stop ∧
      ∃ y ∈ ws, p.span.stop ≤ y.token.span.stop := by
  have hwhole {xs : List Terminal} {span : Span} (hxs : xs <:+: ws) (hspan : Spans xs span) :
      (∃ x ∈ ws, span.start = x.token.span.start) ∧ span.start < span.stop ∧
        ∃ y ∈ ws, span.stop ≤ y.token.span.stop := by
    obtain ⟨x, y, hx, hy, rfl⟩ := id hspan
    have hxmem := List.mem_of_head? hx
    have hlt := (ho.sublist hxs.sublist).covers x hxmem
    have hle := (hspan.mem (ho.sublist hxs.sublist) hxmem).2
    exact ⟨⟨x, hxs.subset hxmem, rfl⟩, Nat.lt_of_lt_of_le hlt hle, y, hxs.subset (List.mem_of_getLast? hy),
      Nat.le_refl _⟩
  cases h with
  | covering hxs hspan => exact hwhole hxs hspan
  | member hxs hspan => exact hwhole hxs hspan
  | @detached ws xs ys dot name span parts hxs hspan hend =>
    obtain ⟨hstart, -, y, hy, hstop⟩ := hwhole hxs hspan
    have hoxs := ho.sublist hxs.sublist
    obtain ⟨-, hdot, hys⟩ := hend.cut hoxs hspan
    obtain ⟨v, hv⟩ := List.exists_mem_of_ne_nil _ hend.ne_nil
    have hvx := (hspan.mem hoxs (hend.front.subset hv)).1
    have hlt := hoxs.covers v (hend.front.subset hv)
    have hle := hys v hv
    refine ⟨hstart, ?_, y, hy, Nat.le_trans (Nat.sub_le _ _) hstop⟩
    show span.start < name.cut span
    omega

theorem On.before (hp : p.On ws) (hq : q.On vs) (ho : Orderly (ws ++ vs)) : p.Before q := by
  obtain ⟨-, -, y, hy, hstop⟩ := hp.bounds (ho.sublist (List.sublist_append_left _ _))
  obtain ⟨⟨x, hx, hstart⟩, -⟩ := hq.bounds (ho.sublist (List.sublist_append_right _ _))
  have hle := (List.pairwise_append.mp ho.ordered).2.2 y hy x hx
  rw [Before]
  omega

theorem On.holds (h : p.On ws) (ho : Orderly ws) (hq : q ∈ p.parts) :
    p.span.start ≤ q.span.start ∧ q.span.stop ≤ p.span.stop := by
  have hwhole {xs ys : List Terminal} {span : Span} (hspan : Spans xs span) (hys : ys <:+: xs)
      (hxs : xs <:+: ws) (hq : q.On ys) :
      span.start ≤ q.span.start ∧ ∃ y ∈ ys, q.span.stop ≤ y.token.span.stop ∧
        y.token.span.stop ≤ span.stop := by
    have hoxs := ho.sublist hxs.sublist
    obtain ⟨⟨x, hx, hstart⟩, -, y, hy, hstop⟩ := hq.bounds (hoxs.sublist hys.sublist)
    exact ⟨hstart ▸ (hspan.mem hoxs (hys.subset hx)).1, y, hy, hstop, (hspan.mem hoxs (hys.subset hy)).2⟩
  cases h with
  | covering hxs hspan _ hparts =>
    obtain ⟨hstart, y, -, hy, hstop⟩ := hwhole hspan List.infix_rfl hxs (hparts q hq)
    exact ⟨hstart, Nat.le_trans hy hstop⟩
  | member hxs hspan hend hparts =>
    obtain ⟨hstart, y, -, hy, hstop⟩ := hwhole hspan hend.front hxs (hparts q hq)
    exact ⟨hstart, Nat.le_trans hy hstop⟩
  | detached hxs hspan hend hparts =>
    obtain ⟨hstart, y, hmem, hy, -⟩ := hwhole hspan hend.front hxs (hparts q hq)
    obtain ⟨-, hdot, hys⟩ := hend.cut (ho.sublist hxs.sublist) hspan
    exact ⟨hstart, Nat.le_trans hy (Nat.le_trans (hys y hmem) hdot)⟩

theorem On.inOrder (h : p.On ws) : InOrder p.parts := by
  cases h with
  | covering _ _ _ _ horder => exact horder
  | member _ _ _ _ horder => exact horder
  | detached _ _ _ _ horder => exact horder

theorem On.throughout {P : Place → Prop} (h : p.On ws)
    (hP : ∀ xs q, xs <:+: ws → q.On xs → P q) : p.Throughout P := by
  induction h with
  | covering hxs hspan hrole hparts horder ih =>
    exact .node (hP _ _ List.infix_rfl (.covering hxs hspan hrole hparts horder)) fun q hq =>
      ih q hq fun _ r hys => hP _ r (hys.trans hxs)
  | member hxs hspan hend hparts horder ih =>
    exact .node (hP _ _ List.infix_rfl (.member hxs hspan hend hparts horder)) fun q hq =>
      ih q hq fun _ r hys => hP _ r (hys.trans (hend.front.trans hxs))
  | detached hxs hspan hend hparts horder ih =>
    exact .node (hP _ _ List.infix_rfl (.detached hxs hspan hend hparts horder)) fun q hq =>
      ih q hq fun _ r hys => hP _ r (hys.trans (hend.front.trans hxs))

theorem On.receiver {role : Role} {parts : List Place} (h : (node role span parts).On ws) (name : String) :
    (node (role.received name) span parts).On ws := by
  cases h with
  | covering hxs hspan hrole hparts horder =>
    refine .covering hxs hspan ?_ hparts horder
    cases role with
    | member => exact hrole.elim
    | _ => exact hrole
  | member hxs hspan hend hparts horder =>
    refine .covering hxs hspan (fun y hy => ?_) (fun p hp => (hparts p hp).mono hend.front) horder
    rw [hend.eq, List.getLast?_append, List.getLast?_cons_cons, List.getLast?_singleton] at hy
    rw [← Option.some.inj hy, hend.name]
    exact nofun
  | detached hxs hspan hend hparts horder => exact .detached hxs hspan hend hparts horder

theorem On.detach {name : String} {parts : List Place} (h : (node (.member name) span parts).On ws) :
    (node (.receiver name) ⟨span.start, span.stop - (name.utf8ByteSize + 1)⟩ parts).On ws := by
  cases h with
  | covering _ _ hrole => exact hrole.elim
  | member hxs hspan hend hparts horder => exact .detached hxs hspan hend hparts horder

theorem On.wrap {parts : List Place} (h : (node .part span parts).On ws) :
    (node .part span [node .part span parts]).On ws := by
  cases h with
  | covering hxs hspan _ hparts horder =>
    refine .covering hxs hspan trivial (fun p hp => ?_) (List.pairwise_singleton _ _)
    rw [List.mem_singleton.mp hp]
    exact .covering List.infix_rfl hspan trivial hparts horder

theorem On.parts (h : p.On ws) : ∀ q ∈ p.parts, q.On ws := by
  cases h with
  | covering hxs _ _ hparts => exact fun q hq => (hparts q hq).mono hxs
  | member hxs _ hend hparts => exact fun q hq => (hparts q hq).mono (hend.front.trans hxs)
  | detached hxs _ hend hparts => exact fun q hq => (hparts q hq).mono (hend.front.trans hxs)

end Place

/-- The places stand on some of the terminals, in their order. -/
structure Laid (ws : List Terminal) (ps : List Place) : Prop where
  on : ∀ p ∈ ps, p.On ws
  inOrder : Place.InOrder ps

theorem laid_nil (ws : List Terminal) : Laid ws [] := ⟨nofun, .nil⟩

theorem Laid.mono (h : Laid xs ps) (hxs : xs <:+: ws) : Laid ws ps :=
  ⟨fun p hp => (h.on p hp).mono hxs, h.inOrder⟩

theorem Laid.append (h : Laid ws ps) (h' : Laid vs qs) (ho : Orderly (ws ++ vs)) :
    Laid (ws ++ vs) (ps ++ qs) where
  on p hp := by
    rcases List.mem_append.mp hp with hp | hp
    · exact (h.on p hp).mono (List.prefix_append _ _).isInfix
    · exact (h'.on p hp).mono (List.suffix_append _ _).isInfix
  inOrder := List.pairwise_append.mpr ⟨h.inOrder, h'.inOrder, fun p hp q hq =>
    .inr ((h.on p hp).before (h'.on q hq) ho)⟩

/-- Modifiers and annotations do not have to wait for each other. -/
theorem Laid.both (h : Laid ws ps) (h' : Laid ws qs) (hps : ∀ p ∈ ps, p.role = .modifier)
    (hqs : ∀ q ∈ qs, q.role = .annotated) : Laid ws (ps ++ qs) where
  on p hp := (List.mem_append.mp hp).elim (h.on p) (h'.on p)
  inOrder := List.pairwise_append.mpr ⟨h.inOrder, h'.inOrder, fun p hp q hq => .inl ⟨hps p hp, hqs q hq⟩⟩

theorem laid_one (h : p.On ws) : Laid ws [p] :=
  ⟨fun _ hq => List.mem_singleton.mp hq ▸ h, List.pairwise_singleton _ p⟩

theorem Laid.replace (h : Laid ws (ps ++ [p])) (hp : p.role ≠ .annotated) (hqs : Laid ws qs)
    (hstart : ∀ q ∈ qs, p.span.start ≤ q.span.start) : Laid ws (ps ++ qs) := by
  obtain ⟨horder, -, hcross⟩ := List.pairwise_append.mp h.inOrder
  refine ⟨fun r hr => ?_, List.pairwise_append.mpr ⟨horder, hqs.inOrder, fun r hr q hq => .inr ?_⟩⟩
  · exact (List.mem_append.mp hr).elim (fun hr => h.on r (List.mem_append_left _ hr)) (hqs.on r)
  · rcases hcross r hr p List.mem_cons_self with ⟨-, hrole⟩ | hbefore
    · exact absurd hrole hp
    · exact Nat.le_trans hbefore (hstart q hq)

theorem Laid.unwrap (h : Laid ws (ps ++ [p])) (ho : Orderly ws) (hp : p.role ≠ .annotated) :
    Laid ws (ps ++ p.parts) := by
  have hon := h.on p (List.mem_append_right _ List.mem_cons_self)
  exact h.replace hp ⟨hon.parts, hon.inOrder⟩ fun q hq => (hon.holds ho hq).1

theorem Laid.exchange (h : Laid ws (ps ++ [p])) (hp : p.role ≠ .annotated) (hq : p.On ws → q.On ws)
    (hstart : q.span.start = p.span.start) : Laid ws (ps ++ [q]) := by
  refine h.replace hp (laid_one (hq (h.on p (by simp)))) fun r hr => ?_
  exact Nat.le_of_eq (by rw [List.mem_singleton.mp hr, hstart])

end Linewise
