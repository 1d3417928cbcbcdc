import Linewise.Proofs.Ast.Places
import Linewise.Proofs.Ast.Spans

/-!
# All spans are spans of places

No span of a tree is missing among its places: two ways of moving spans that agree on the places of a tree move
the tree to the same one.
-/

namespace Linewise

variable {α : Type} {f g : Span → Span} {role : Role} {s : Span} {ps qs : List Place}

/-- The functions agree on the spans of the places and of all places inside of them. -/
def Agree (f g : Span → Span) (ps : List Place) : Prop :=
  ∀ p ∈ ps, p.Throughout fun q => f q.span = g q.span

theorem agree_append : Agree f g (ps ++ qs) ↔ Agree f g ps ∧ Agree f g qs := List.forall_mem_append

theorem agree_cons : Agree f g (.node role s ps :: qs) ↔ f s = g s ∧ Agree f g ps ∧ Agree f g qs := by
  refine List.forall_mem_cons.trans ?_
  rw [← and_assoc]
  refine and_congr_left' ⟨?_, fun h => .node h.1 h.2⟩
  rintro ⟨hs, hps⟩
  exact ⟨hs, hps⟩

theorem agree_node : Agree f g [.node role s ps] ↔ f s = g s ∧ Agree f g ps := by
  rw [agree_cons]
  exact and_congr_right' (and_iff_left nofun)

class Placed (α : Type) [HasSpans α] [HasPlaces α] : Prop where
  mapSpans_congr : ∀ {f g : Span → Span} (a : α), Agree f g (places a) → mapSpans f a = mapSpans g a

export Placed (mapSpans_congr)

instance : Placed Modifier := ⟨fun _ _ => rfl⟩

section
variable [HasSpans α] [HasPlaces α] [Placed α]

theorem Located.mapSpans_congr {a : Located α} (h : Agree f g [a.placeAs role]) :
    mapSpans f a = mapSpans g a := by
  obtain ⟨hspan, hnode⟩ := agree_node.mp h
  show (⟨mapSpans f a.node, f a.span⟩ : Located α) = ⟨mapSpans g a.node, g a.span⟩
  rw [Placed.mapSpans_congr a.node hnode, hspan]

instance : Placed (Located α) := ⟨fun _ h => Located.mapSpans_congr h⟩
instance : Placed (Option α) := ⟨fun a h => by
  cases a with
  | none => rfl
  | some a => exact congrArg some (mapSpans_congr a h)⟩
instance : Placed (List α) := ⟨fun as h => by
  induction as with
  | nil => rfl
  | cons a as ih =>
    obtain ⟨ha, has⟩ := agree_append.mp h
    rw [mapSpans_cons, mapSpans_cons, mapSpans_congr a ha, ih has]⟩

end

theorem receiver_congr {name : String} [Placed Ty] {receiver : Option (Located Ty)}
    (h : Agree f g (receiverPlaces name receiver)) : mapSpans f receiver = mapSpans g receiver := by
  cases receiver with
  | none => rfl
  | some r => exact congrArg some (Located.mapSpans_congr h)

-- ---------------------------------------------------------------------------
-- Types
-- ---------------------------------------------------------------------------

mutual
theorem Ty.mapSpans_congr : ∀ t : Ty, Agree f g t.places → t.mapSpans f = t.mapSpans g
  | .user t, h => by rw [Ty.mapSpans, Ty.mapSpans, UserType.mapSpans_congr t h]
  | .nullable ⟨t, s⟩, h => by
    obtain ⟨hs, ht⟩ := agree_node.mp h
    rw [Ty.mapSpans, Ty.mapSpans, Ty.mapSpans_congr t ht, hs]
  | .pointer ⟨t, s⟩, h => by
    obtain ⟨hs, ht⟩ := agree_node.mp h
    rw [Ty.mapSpans, Ty.mapSpans, Ty.mapSpans_congr t ht, hs]
  | .function none params ⟨t, s⟩, h => by
    obtain ⟨hparams, h⟩ := agree_append.mp h
    obtain ⟨hs, ht⟩ := agree_node.mp h
    rw [Ty.mapSpans, Ty.mapSpans, Ty.mapParams_congr params hparams, Ty.mapSpans_congr t ht, hs]
  | .function (some ⟨r, rs⟩) params ⟨t, s⟩, h => by
    obtain ⟨hrs, hr, h⟩ := agree_cons.mp h
    obtain ⟨hparams, h⟩ := agree_append.mp h
    obtain ⟨hs, ht⟩ := agree_node.mp h
    rw [Ty.mapSpans, Ty.mapSpans, Ty.mapSpans_congr r hr, Ty.mapParams_congr params hparams,
      Ty.mapSpans_congr t ht, hs, hrs]
theorem UserType.mapSpans_congr : ∀ t : UserType, Agree f g t.places → t.mapSpans f = t.mapSpans g
  | .simple name args, h => by rw [UserType.mapSpans, UserType.mapSpans, Ty.mapList_congr args h]
  | .member parent name args, h => by
    obtain ⟨hparent, hargs⟩ := agree_append.mp h
    rw [UserType.mapSpans, UserType.mapSpans, UserType.mapSpans_congr parent hparent,
      Ty.mapList_congr args hargs]
theorem Ty.mapList_congr : ∀ ts : List (Located Ty),
    Agree f g (Ty.listPlaces ts) → Ty.mapList f ts = Ty.mapList g ts
  | [], _ => rfl
  | ⟨t, s⟩ :: ts, h => by
    obtain ⟨hs, ht, hts⟩ := agree_cons.mp h
    rw [Ty.mapList, Ty.mapList, Ty.mapSpans_congr t ht, Ty.mapList_congr ts hts, hs]
theorem Ty.mapParams_congr : ∀ ps : List (Option String × Located Ty),
    Agree f g (Ty.paramPlaces ps) → Ty.mapParams f ps = Ty.mapParams g ps
  | [], _ => rfl
  | (name, ⟨t, s⟩) :: ps, h => by
    obtain ⟨hs, ht, hps⟩ := agree_cons.mp h
    rw [Ty.mapParams, Ty.mapParams, Ty.mapSpans_congr t ht, Ty.mapParams_congr ps hps, hs]
end

instance : Placed Ty := ⟨Ty.mapSpans_congr⟩
instance : Placed Param := ⟨fun p h => congrArg (Param.mk p.name) (mapSpans_congr p.type h)⟩

-- ---------------------------------------------------------------------------
-- Expressions and statements
-- ---------------------------------------------------------------------------

mutual
theorem Expr.mapSpans_congr : ∀ e : Expr, Agree f g e.places → e.mapSpans f = e.mapSpans g
  | .name _, _ | .integer _, _ | .string _, _ | .null, _ => rfl
  | .array elements, h => by rw [Expr.mapSpans, Expr.mapSpans, Expr.mapList_congr elements h]
  | .lambda body, h => by rw [Expr.mapSpans, Expr.mapSpans, Block.mapSpans_congr body h]
  | .call ⟨callee, s⟩ args, h => by
    obtain ⟨hs, hcallee, hargs⟩ := agree_cons.mp h
    rw [Expr.mapSpans, Expr.mapSpans, Expr.mapSpans_congr callee hcallee,
      Argument.mapList_congr args hargs, hs]
  | .member ⟨target, s⟩ name, h => by
    obtain ⟨hs, htarget⟩ := agree_node.mp h
    rw [Expr.mapSpans, Expr.mapSpans, Expr.mapSpans_congr target htarget, hs]
  | .index ⟨target, s⟩ ⟨index, t⟩, h => by
    obtain ⟨hs, htarget, h⟩ := agree_cons.mp h
    obtain ⟨ht, hindex⟩ := agree_node.mp h
    rw [Expr.mapSpans, Expr.mapSpans, Expr.mapSpans_congr target htarget,
      Expr.mapSpans_congr index hindex, hs, ht]
  | .binary op ⟨lhs, s⟩ ⟨rhs, t⟩, h => by
    obtain ⟨hs, hlhs, h⟩ := agree_cons.mp h
    obtain ⟨ht, hrhs⟩ := agree_node.mp h
    rw [Expr.mapSpans, Expr.mapSpans, Expr.mapSpans_congr lhs hlhs, Expr.mapSpans_congr rhs hrhs, hs, ht]
  | .assign ⟨target, s⟩ ⟨value, t⟩, h => by
    obtain ⟨hs, htarget, h⟩ := agree_cons.mp h
    obtain ⟨ht, hvalue⟩ := agree_node.mp h
    rw [Expr.mapSpans, Expr.mapSpans, Expr.mapSpans_congr target htarget,
      Expr.mapSpans_congr value hvalue, hs, ht]
  | .compilerExec ⟨inner, s⟩, h => by
    obtain ⟨hs, hinner⟩ := agree_node.mp h
    rw [Expr.mapSpans, Expr.mapSpans, Expr.mapSpans_congr inner hinner, hs]
  | .cond ⟨condition, s⟩ ⟨thenBody, t⟩ none, h => by
    obtain ⟨hs, hcondition, h⟩ := agree_cons.mp h
    obtain ⟨ht, hthen⟩ := agree_node.mp h
    rw [Expr.mapSpans, Expr.mapSpans, Expr.mapSpans_congr condition hcondition,
      Block.mapSpans_congr thenBody hthen, hs, ht]
  | .cond ⟨condition, s⟩ ⟨thenBody, t⟩ (some ⟨elseBody, u⟩), h => by
    obtain ⟨hs, hcondition, h⟩ := agree_cons.mp h
    obtain ⟨ht, hthen, h⟩ := agree_cons.mp h
    obtain ⟨hu, helse⟩ := agree_node.mp h
    rw [Expr.mapSpans, Expr.mapSpans, Expr.mapSpans_congr condition hcondition,
      Block.mapSpans_congr thenBody hthen, Block.mapSpans_congr elseBody helse, hs, ht, hu]
  | .whenCase none cases, h => by rw [Expr.mapSpans, Expr.mapSpans, WhenCase.mapList_congr cases h]
  | .whenCase (some ⟨subject, s⟩) cases, h => by
    obtain ⟨hs, hsubject, hcases⟩ := agree_cons.mp h
    rw [Expr.mapSpans, Expr.mapSpans, Expr.mapSpans_congr subject hsubject,
      WhenCase.mapList_congr cases hcases, hs]
theorem Expr.mapList_congr : ∀ es : List (Located Expr),
    Agree f g (Expr.listPlaces es) → Expr.mapList f es = Expr.mapList g es
  | [], _ => rfl
  | ⟨e, s⟩ :: es, h => by
    obtain ⟨hs, he, hes⟩ := agree_cons.mp h
    rw [Expr.mapList, Expr.mapList, Expr.mapSpans_congr e he, Expr.mapList_congr es hes, hs]
theorem Argument.mapSpans_congr : ∀ a : Argument, Agree f g a.places → a.mapSpans f = a.mapSpans g
  | ⟨name, ⟨e, s⟩⟩, h => by
    obtain ⟨hs, he⟩ := agree_node.mp h
    rw [Argument.mapSpans, Argument.mapSpans, Expr.mapSpans_congr e he, hs]
theorem Argument.mapList_congr : ∀ as : List (Located Argument),
    Agree f g (Argument.listPlaces as) → Argument.mapList f as = Argument.mapList g as
  | [], _ => rfl
  | ⟨a, s⟩ :: as, h => by
    obtain ⟨hs, ha, has⟩ := agree_cons.mp h
    rw [Argument.mapList, Argument.mapList, Argument.mapSpans_congr a ha, Argument.mapList_congr as has, hs]
theorem WhenCase.mapSpans_congr : ∀ c : WhenCase, Agree f g c.places → c.mapSpans f = c.mapSpans g
  | .matching conditions ⟨body, s⟩, h => by
    obtain ⟨hconditions, h⟩ := agree_append.mp h
    obtain ⟨hs, hbody⟩ := agree_node.mp h
    rw [WhenCase.mapSpans, WhenCase.mapSpans, Expr.mapList_congr conditions hconditions,
      Block.mapSpans_congr body hbody, hs]
  | .otherwise ⟨body, s⟩, h => by
    obtain ⟨hs, hbody⟩ := agree_node.mp h
    rw [WhenCase.mapSpans, WhenCase.mapSpans, Block.mapSpans_congr body hbody, hs]
theorem WhenCase.mapList_congr : ∀ cs : List (Located WhenCase),
    Agree f g (WhenCase.listPlaces cs) → WhenCase.mapList f cs = WhenCase.mapList g cs
  | [], _ => rfl
  | ⟨c, s⟩ :: cs, h => by
    obtain ⟨hs, hc, hcs⟩ := agree_cons.mp h
    rw [WhenCase.mapList, WhenCase.mapList, WhenCase.mapSpans_congr c hc, WhenCase.mapList_congr cs hcs, hs]
theorem Block.mapSpans_congr : ∀ b : Block, Agree f g b.places → b.mapSpans f = b.mapSpans g
  | ⟨statements⟩, h => by rw [Block.mapSpans, Block.mapSpans, Statement.mapList_congr statements h]
theorem Statement.mapSpans_congr : ∀ a : Statement, Agree f g a.places → a.mapSpans f = a.mapSpans g
  | .expr e, h => by rw [Statement.mapSpans, Statement.mapSpans, Expr.mapSpans_congr e h]
  | .property d, h => by rw [Statement.mapSpans, Statement.mapSpans, PropertyDef.mapSpans_congr d h]
  | .while ⟨condition, s⟩ ⟨body, t⟩, h => by
    obtain ⟨hs, hcondition, h⟩ := agree_cons.mp h
    obtain ⟨ht, hbody⟩ := agree_node.mp h
    rw [Statement.mapSpans, Statement.mapSpans, Expr.mapSpans_congr condition hcondition,
      Block.mapSpans_congr body hbody, hs, ht]
  | .function d, h => by rw [Statement.mapSpans, Statement.mapSpans, FunctionDef.mapSpans_congr d h]
theorem Statement.mapList_congr : ∀ ss : List (Located Statement),
    Agree f g (Statement.listPlaces ss) → Statement.mapList f ss = Statement.mapList g ss
  | [], _ => rfl
  | ⟨a, s⟩ :: ss, h => by
    obtain ⟨hs, ha, hss⟩ := agree_cons.mp h
    rw [Statement.mapList, Statement.mapList, Statement.mapSpans_congr a ha,
      Statement.mapList_congr ss hss, hs]
theorem Annotated.mapSpans_congr : ∀ a : Annotated, Agree f g a.places → a.mapSpans f = a.mapSpans g
  | ⟨name, args⟩, h => by rw [Annotated.mapSpans, Annotated.mapSpans, Argument.mapList_congr args h]
theorem Annotated.mapList_congr : ∀ as : List (Located Annotated),
    Agree f g (Annotated.listPlaces as) → Annotated.mapList f as = Annotated.mapList g as
  | [], _ => rfl
  | ⟨a, s⟩ :: as, h => by
    obtain ⟨hs, ha, has⟩ := agree_cons.mp h
    rw [Annotated.mapList, Annotated.mapList, Annotated.mapSpans_congr a ha,
      Annotated.mapList_congr as has, hs]
theorem Modifiers.mapSpans_congr : ∀ ms : Modifiers, Agree f g ms.places → ms.mapSpans f = ms.mapSpans g
  | ⟨ms, as⟩, h => by
    obtain ⟨hms, has⟩ := agree_append.mp h
    rw [Modifiers.mapSpans, Modifiers.mapSpans, Placed.mapSpans_congr ms hms,
      Annotated.mapList_congr as has]
theorem PropertyDef.mapSpans_congr : ∀ d : PropertyDef, Agree f g d.places → d.mapSpans f = d.mapSpans g
  | ⟨ms, readonly, name, type, none⟩, h => by
    obtain ⟨hms, htype⟩ := agree_append.mp h
    rw [PropertyDef.mapSpans, PropertyDef.mapSpans, Modifiers.mapSpans_congr ms hms,
      Placed.mapSpans_congr type htype]
  | ⟨ms, readonly, name, type, some ⟨value, s⟩⟩, h => by
    obtain ⟨h, hvalue⟩ := agree_append.mp h
    obtain ⟨hms, htype⟩ := agree_append.mp h
    obtain ⟨hs, hvalue⟩ := agree_node.mp hvalue
    rw [PropertyDef.mapSpans, PropertyDef.mapSpans, Modifiers.mapSpans_congr ms hms,
      Placed.mapSpans_congr type htype, Expr.mapSpans_congr value hvalue, hs]
theorem FunctionDef.mapSpans_congr : ∀ d : FunctionDef, Agree f g d.places → d.mapSpans f = d.mapSpans g
  | ⟨ms, receiver, name, params, result, none⟩, h => by
    obtain ⟨h, hresult⟩ := agree_append.mp h
    obtain ⟨h, hparams⟩ := agree_append.mp h
    obtain ⟨hms, hreceiver⟩ := agree_append.mp h
    rw [FunctionDef.mapSpans, FunctionDef.mapSpans, Modifiers.mapSpans_congr ms hms,
      receiver_congr hreceiver, Placed.mapSpans_congr params hparams, Placed.mapSpans_congr result hresult]
  | ⟨ms, receiver, name, params, result, some ⟨body, s⟩⟩, h => by
    obtain ⟨h, hbody⟩ := agree_append.mp h
    obtain ⟨h, hresult⟩ := agree_append.mp h
    obtain ⟨h, hparams⟩ := agree_append.mp h
    obtain ⟨hms, hreceiver⟩ := agree_append.mp h
    obtain ⟨hs, hbody⟩ := agree_node.mp hbody
    rw [FunctionDef.mapSpans, FunctionDef.mapSpans, Modifiers.mapSpans_congr ms hms,
      receiver_congr hreceiver, Placed.mapSpans_congr params hparams, Placed.mapSpans_congr result hresult,
      Block.mapSpans_congr body hbody, hs]
end

instance : Placed Expr := ⟨Expr.mapSpans_congr⟩
instance : Placed ClassParam := ⟨fun p h => by
  cases p with
  | property decl => exact congrArg ClassParam.property (PropertyDef.mapSpans_congr decl h)
  | plain param => exact congrArg ClassParam.plain (mapSpans_congr param h)⟩

-- ---------------------------------------------------------------------------
-- Declarations
-- ---------------------------------------------------------------------------

mutual
theorem Declaration.mapSpans_congr : ∀ d : Declaration, Agree f g d.places → d.mapSpans f = d.mapSpans g
  | .function d, h => by
    rw [Declaration.mapSpans, Declaration.mapSpans, FunctionDef.mapSpans_congr d h]
  | .classDecl d, h => by rw [Declaration.mapSpans, Declaration.mapSpans, ClassDef.mapSpans_congr d h]
  | .property d, h => by
    rw [Declaration.mapSpans, Declaration.mapSpans, PropertyDef.mapSpans_congr d h]
  | .compilerCall call, h => by
    rw [Declaration.mapSpans, Declaration.mapSpans, Placed.mapSpans_congr call h]
theorem ClassDef.mapSpans_congr : ∀ d : ClassDef, Agree f g d.places → d.mapSpans f = d.mapSpans g
  | ⟨ms, name, constructor, members⟩, h => by
    obtain ⟨h, hmembers⟩ := agree_append.mp h
    obtain ⟨hms, hconstructor⟩ := agree_append.mp h
    rw [ClassDef.mapSpans, ClassDef.mapSpans, Modifiers.mapSpans_congr ms hms,
      Placed.mapSpans_congr constructor hconstructor, Declaration.mapList_congr members hmembers]
theorem Declaration.mapList_congr : ∀ ds : List (Located Declaration),
    Agree f g (Declaration.listPlaces ds) → Declaration.mapList f ds = Declaration.mapList g ds
  | [], _ => rfl
  | ⟨d, s⟩ :: ds, h => by
    obtain ⟨hs, hd, hds⟩ := agree_cons.mp h
    rw [Declaration.mapList, Declaration.mapList, Declaration.mapSpans_congr d hd,
      Declaration.mapList_congr ds hds, hs]
end

instance : Placed Declaration := ⟨Declaration.mapSpans_congr⟩

/-- Two ways of moving spans that agree on the places of a source move it to the same tree. -/
theorem SourceFile.mapSpans_congr (file : SourceFile) (h : Agree f g (places file)) :
    mapSpans f file = mapSpans g file :=
  congrArg SourceFile.mk (Placed.mapSpans_congr file.declarations h)

theorem SourceFile.mapSpans_eq {P : Place → Prop} {file : SourceFile}
    (h : ∀ p ∈ places file, p.Throughout P) (hf : ∀ p, P p → f p.span = p.span) :
    mapSpans f file = file := by
  have hagree : Agree f id (places file) := fun p hp => (h p hp).mono hf
  rw [file.mapSpans_congr hagree]
  exact congrArg SourceFile.mk (mapSpans_id file.declarations)

end Linewise
