import Linewise.Proofs.Parsing.GrammarProgress
import Linewise.Proofs.Parsing.Triple

/-!
# The spans of types

Where terminals stand behind one another, a type that ends in a member's name covers the name and the dot
in front of it. So the name can be taken off its span.
-/

namespace Linewise.Parser

variable {ts us : List Terminal} {s t : State} {type : Parser (Located Ty)}

/-- Each terminal covers its text, and all but the first stand behind some other text. -/
structure Spaced (ts : List Terminal) : Prop where
  covers : ∀ x ∈ ts, x.token.span.stop = x.token.span.start + x.token.text.utf8ByteSize
  behind : ∀ x ∈ ts.tail, 1 ≤ x.token.span.start

theorem Spaced.suffix (h : Spaced ts) (hs : us <:+ ts) : Spaced us where
  covers x hx := h.covers x (hs.subset hx)
  behind x hx := by
    obtain ⟨ws, rfl⟩ := hs
    cases ws with
    | nil => exact h.behind x hx
    | cons w ws => exact h.behind x (List.mem_append_right ws (List.mem_of_mem_tail hx))

theorem stable_spaced : Stable fun s => Spaced s.rest := fun _ _ hst h => h.suffix hst.rest

def EndsInName (user : UserType) (t : State) : Prop :=
  ∀ parent name, user = .member parent name [] → name.utf8ByteSize + 1 ≤ t.previous.stop

/-- The span has room for the name at its end and the dot. -/
def HasRoom (type : Located Ty) : Prop :=
  ∀ parent name, type.node = .user (.member parent name []) → name.utf8ByteSize + 1 ≤ type.span.stop

theorem typeArgs_eq_nil (h : (typeArgs type).run s = (.ok [], t)) : t = s := by
  unfold typeArgs at h
  rw [run_bind, run_accept] at h
  by_cases hk : s.kind = .leftAngle
  · rw [if_pos hk] at h
    obtain ⟨args, u, hargs, h⟩ := bind_ok.mp h
    obtain ⟨_, v, -, h⟩ := bind_ok.mp h
    cases h
    exact absurd rfl (yields_listOf_ne_nil _ _ _ trivial hargs).1
  · rw [if_neg hk] at h
    cases h
    rfl

theorem name_behind_dot {name : String} (hs : Spaced s.rest) (ht : (expect .dot).run s = (.ok (), t))
    (hu : identifier.run t = (.ok name, u)) : name.utf8ByteSize + 1 ≤ u.previous.stop := by
  obtain ⟨_, hdot⟩ := expectAs_of_expect ht
  obtain ⟨x, hrest, -⟩ := expectAs_ok hdot
  obtain ⟨y, hrest', hprevious, -, rfl⟩ := expectAs_ok hu
  rw [hrest'] at hrest
  have hcovers := hs.covers y (by simp [hrest])
  have hbehind := hs.behind y (by simp [hrest])
  rw [hprevious]
  omega

theorem triple_memberRound (ht : Reads type) (parent : UserType) :
    Triple (fun s => Spaced s.rest ∧ EndsInName parent s) (memberRound type parent) fun r t =>
      Spaced t.rest ∧ EndsInName r.value t := by
  intro s r t hs h
  have hadv := (rounds_memberRound ht parent).advances_ok h
  refine ⟨hs.1.suffix hadv.rest, ?_⟩
  unfold memberRound at h
  rw [run_bind_ok (run_nextAre _ _ s)] at h
  split at h
  · obtain ⟨_, t₁, h₁, h⟩ := bind_ok.mp h
    obtain ⟨name, t₂, h₂, h⟩ := bind_ok.mp h
    obtain ⟨args, t₃, h₃, h⟩ := bind_ok.mp h
    cases h
    intro parent' name' heq
    cases heq
    obtain rfl := typeArgs_eq_nil h₃
    exact name_behind_dot hs.1 h₁ h₂
  · cases h
    exact hs.2

theorem triple_userType (ht : Reads type) :
    Triple (fun s => Spaced s.rest) (userType type) fun user t =>
      Spaced t.rest ∧ EndsInName user t := by
  refine Triple.bind (reads_identifier.toMoves.yields stable_spaced) fun name => ?_
  refine Triple.bind (Q := fun _ t => Spaced t.rest) (fun s args t hs h => ?_) fun args => ?_
  · exact hs.2.suffix ((moves_typeArgs ht).advances_ok h).rest
  · intro s user t hs h
    let inv (user : UserType) (t : State) : Prop := Spaced t.rest ∧ EndsInName user t
    have hround (parent : UserType) : Triple (inv parent) (memberRound type parent) fun r t =>
        inv r.value t ∧ inv r.value t :=
      (triple_memberRound ht parent).mono fun _ _ h => ⟨h, h⟩
    exact Triple.iterate hround (.simple name args) s user t ⟨hs, nofun⟩ h

theorem hasRoom_of_ne {ty : Located Ty} (h : ∀ user, ty.node ≠ .user user) : HasRoom ty :=
  fun _ _ hn => absurd hn (h _)

abbrev Roomy (p : Parser (Located Ty)) : Prop := Yields (fun s => Spaced s.rest) p HasRoom

theorem roomy_located (start : Span) {node : Ty} (h : ∀ user, node ≠ .user user) :
    Roomy (located start node) :=
  (Yields.located (Q := fun node => ∀ user, node ≠ .user user) h).mono fun _ => hasRoom_of_ne

theorem roomy_functionType (ht : Reads type) (h : Roomy type) (receiver : Option (Located Ty)) :
    Roomy (functionType type receiver) := by
  have hparam : Yields (fun s => Spaced s.rest) (typeParam type) fun p => HasRoom p.2 :=
    .behind stable_spaced (moves_label? _) fun _ => h.bind fun _ hp => .pure hp
  refine .behind stable_spaced (moves_startOf receiver) fun start => ?_
  refine .behind stable_spaced (reads_expect _).toMoves fun _ => ?_
  refine (yields_listUntil stable_spaced hparam).bind fun params hparams => ?_
  refine .behind stable_spaced (reads_accept (by decide)).toMoves fun _ => .ite ?_ ?_
  · refine .behind stable_spaced ht.toMoves fun result => ?_
    exact roomy_located start (by nofun)
  · split
    · exact .pure (hparams _ List.mem_cons_self)
    · exact .behind stable_spaced moves_here fun _ => Triple.fail

theorem roomy_namedType (ht : Reads type) (h : Roomy type) (start : Span) :
    Roomy (namedType type start) := by
  refine Triple.bind (triple_userType ht) fun user => ?_
  refine Triple.bind (Q := fun ty t => HasRoom ty ∧ Spaced t.rest) (fun s ty t hs h => ?_) fun ty => ?_
  · cases h
    refine ⟨fun parent name hn => ?_, hs.1⟩
    have hle := hs.2 parent name (Ty.user.inj hn)
    exact Nat.le_trans hle (Nat.le_max_right _ _)
  · intro s result t hs hrun
    have hrest : Roomy (do
        if ← nextAre .dot .leftParen then
          expect .dot
          functionType type (some ty)
        else
          return ty) := by
      refine .behind stable_spaced (moves_nextAre _ _) fun _ => .ite ?_ (.pure hs.1)
      exact .behind stable_spaced (reads_expect _).toMoves fun _ => roomy_functionType ht h (some ty)
    exact hrest s result t hs.2 hrun

theorem roomy_typeBody (ht : Reads type) (h : Roomy type) : Roomy (typeBody type) := by
  have hplain (start : Span) : Roomy (plainType type start) := by
    refine .behind stable_spaced moves_peek fun kind => ?_
    split
    · exact roomy_functionType ht h none
    · exact roomy_namedType ht h start
    · exact Triple.unexpected _
  have hnullable (start : Span) {plain : Located Ty} (hp : HasRoom plain) :
      Roomy (nullable start plain) := by
    refine .behind stable_spaced (reads_accept (by decide)).toMoves fun _ => .ite ?_ (.pure hp)
    exact roomy_located start (by nofun)
  refine .behind stable_spaced moves_here fun start => (hplain start).bind fun plain hp => ?_
  refine (hnullable start hp).bind fun base hb => .iterate (fun inner hi => ?_) hb
  refine .behind stable_spaced (reads_accept (by decide)).toMoves fun _ => .ite ?_ ?_
  · exact (roomy_located start (by nofun)).bind fun ty h => .pure (a := ForInStep.yield ty) h
  · exact .pure (a := ForInStep.done inner) hi

theorem roomy_typeRule (limit levels : Nat) : Roomy (typeRule limit levels) := by
  induction levels with
  | zero => exact .behind stable_spaced moves_here fun _ => Triple.fail
  | succ levels ih =>
    exact .deeper limit (fun _ h => h) (fun _ h => h) (roomy_typeBody (reads_typeRule _ _) ih)

end Linewise.Parser
