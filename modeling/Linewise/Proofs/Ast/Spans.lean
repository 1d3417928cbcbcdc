import Linewise.Ast

/-!
# Moving the spans of a tree

`mapSpans f` applies `f` to every span that a value holds and leaves the rest of it alone. A constant
`f` erases the spans; adding an offset moves a tree to another place of the source.
-/

namespace Linewise

class HasSpans (α : Type) where
  mapSpans : (Span → Span) → α → α

export HasSpans (mapSpans)

class LawfulSpans (α : Type) [HasSpans α] : Prop where
  mapSpans_id : ∀ a : α, mapSpans id a = a

variable {α β : Type} {f : Span → Span}

instance : HasSpans Span := ⟨fun f s => f s⟩
instance : HasSpans Unit := ⟨fun _ a => a⟩
instance : HasSpans Bool := ⟨fun _ a => a⟩
instance : HasSpans String := ⟨fun _ a => a⟩
instance : HasSpans BinaryOp := ⟨fun _ a => a⟩
instance : HasSpans Modifier := ⟨fun _ a => a⟩
instance [HasSpans α] : HasSpans (Located α) := ⟨fun f a => ⟨mapSpans f a.node, f a.span⟩⟩
instance [HasSpans α] : HasSpans (Option α) := ⟨fun f a => a.map (mapSpans f)⟩
instance [HasSpans α] : HasSpans (List α) := ⟨fun f as => as.map (mapSpans f)⟩
instance [HasSpans α] : HasSpans (Array α) := ⟨fun f as => as.map (mapSpans f)⟩
instance [HasSpans α] [HasSpans β] : HasSpans (α × β) :=
  ⟨fun f a => (mapSpans f a.1, mapSpans f a.2)⟩
instance [HasSpans α] : HasSpans (ForInStep α) where
  mapSpans f
    | .done a => .done (mapSpans f a)
    | .yield a => .yield (mapSpans f a)

-- ---------------------------------------------------------------------------
-- Types
-- ---------------------------------------------------------------------------

mutual
def Ty.mapSpans (f : Span → Span) : Ty → Ty
  | .user t => .user (t.mapSpans f)
  | .nullable ⟨t, s⟩ => .nullable ⟨t.mapSpans f, f s⟩
  | .pointer ⟨t, s⟩ => .pointer ⟨t.mapSpans f, f s⟩
  | .function none params ⟨t, s⟩ => .function none (Ty.mapParams f params) ⟨t.mapSpans f, f s⟩
  | .function (some ⟨r, rs⟩) params ⟨t, s⟩ =>
    .function (some ⟨r.mapSpans f, f rs⟩) (Ty.mapParams f params) ⟨t.mapSpans f, f s⟩
def UserType.mapSpans (f : Span → Span) : UserType → UserType
  | .simple name args => .simple name (Ty.mapList f args)
  | .member parent name args => .member (parent.mapSpans f) name (Ty.mapList f args)
def Ty.mapList (f : Span → Span) : List (Located Ty) → List (Located Ty)
  | [] => []
  | ⟨t, s⟩ :: ts => ⟨t.mapSpans f, f s⟩ :: Ty.mapList f ts
def Ty.mapParams (f : Span → Span) :
    List (Option String × Located Ty) → List (Option String × Located Ty)
  | [] => []
  | (name, ⟨t, s⟩) :: ps => (name, ⟨t.mapSpans f, f s⟩) :: Ty.mapParams f ps
end

instance : HasSpans Ty := ⟨Ty.mapSpans⟩
instance : HasSpans UserType := ⟨UserType.mapSpans⟩
instance : HasSpans Param := ⟨fun f p => ⟨p.name, mapSpans f p.type⟩⟩

-- ---------------------------------------------------------------------------
-- Expressions and statements
-- ---------------------------------------------------------------------------

mutual
def Expr.mapSpans (f : Span → Span) : Expr → Expr
  | .name text => .name text
  | .integer text => .integer text
  | .string parts => .string parts
  | .null => .null
  | .array elements => .array (Expr.mapList f elements)
  | .lambda body => .lambda (body.mapSpans f)
  | .call ⟨callee, s⟩ args => .call ⟨callee.mapSpans f, f s⟩ (Argument.mapList f args)
  | .member ⟨target, s⟩ name => .member ⟨target.mapSpans f, f s⟩ name
  | .index ⟨target, s⟩ ⟨index, t⟩ => .index ⟨target.mapSpans f, f s⟩ ⟨index.mapSpans f, f t⟩
  | .binary op ⟨lhs, s⟩ ⟨rhs, t⟩ => .binary op ⟨lhs.mapSpans f, f s⟩ ⟨rhs.mapSpans f, f t⟩
  | .assign ⟨target, s⟩ ⟨value, t⟩ => .assign ⟨target.mapSpans f, f s⟩ ⟨value.mapSpans f, f t⟩
  | .compilerExec ⟨inner, s⟩ => .compilerExec ⟨inner.mapSpans f, f s⟩
  | .cond ⟨condition, s⟩ ⟨thenBody, t⟩ none =>
    .cond ⟨condition.mapSpans f, f s⟩ ⟨thenBody.mapSpans f, f t⟩ none
  | .cond ⟨condition, s⟩ ⟨thenBody, t⟩ (some ⟨elseBody, u⟩) =>
    .cond ⟨condition.mapSpans f, f s⟩ ⟨thenBody.mapSpans f, f t⟩
      (some ⟨elseBody.mapSpans f, f u⟩)
  | .whenCase none cases => .whenCase none (WhenCase.mapList f cases)
  | .whenCase (some ⟨subject, s⟩) cases =>
    .whenCase (some ⟨subject.mapSpans f, f s⟩) (WhenCase.mapList f cases)
def Expr.mapList (f : Span → Span) : List (Located Expr) → List (Located Expr)
  | [] => []
  | ⟨e, s⟩ :: es => ⟨e.mapSpans f, f s⟩ :: Expr.mapList f es
def Argument.mapSpans (f : Span → Span) : Argument → Argument
  | ⟨name, ⟨e, s⟩⟩ => ⟨name, ⟨e.mapSpans f, f s⟩⟩
def Argument.mapList (f : Span → Span) : List (Located Argument) → List (Located Argument)
  | [] => []
  | ⟨a, s⟩ :: as => ⟨a.mapSpans f, f s⟩ :: Argument.mapList f as
def WhenCase.mapSpans (f : Span → Span) : WhenCase → WhenCase
  | .matching conditions ⟨body, s⟩ => .matching (Expr.mapList f conditions) ⟨body.mapSpans f, f s⟩
  | .otherwise ⟨body, s⟩ => .otherwise ⟨body.mapSpans f, f s⟩
def WhenCase.mapList (f : Span → Span) : List (Located WhenCase) → List (Located WhenCase)
  | [] => []
  | ⟨c, s⟩ :: cs => ⟨c.mapSpans f, f s⟩ :: WhenCase.mapList f cs
def Block.mapSpans (f : Span → Span) : Block → Block
  | ⟨statements⟩ => ⟨Statement.mapList f statements⟩
def Statement.mapSpans (f : Span → Span) : Statement → Statement
  | .expr e => .expr (e.mapSpans f)
  | .property d => .property (d.mapSpans f)
  | .while ⟨condition, s⟩ ⟨body, t⟩ => .while ⟨condition.mapSpans f, f s⟩ ⟨body.mapSpans f, f t⟩
  | .function d => .function (d.mapSpans f)
def Statement.mapList (f : Span → Span) : List (Located Statement) → List (Located Statement)
  | [] => []
  | ⟨a, s⟩ :: as => ⟨a.mapSpans f, f s⟩ :: Statement.mapList f as
def Annotated.mapSpans (f : Span → Span) : Annotated → Annotated
  | ⟨name, args⟩ => ⟨name, Argument.mapList f args⟩
def Annotated.mapList (f : Span → Span) : List (Located Annotated) → List (Located Annotated)
  | [] => []
  | ⟨a, s⟩ :: as => ⟨a.mapSpans f, f s⟩ :: Annotated.mapList f as
def Modifiers.mapSpans (f : Span → Span) : Modifiers → Modifiers
  | ⟨ms, as⟩ => ⟨HasSpans.mapSpans f ms, Annotated.mapList f as⟩
def PropertyDef.mapSpans (f : Span → Span) : PropertyDef → PropertyDef
  | ⟨ms, readonly, name, type, none⟩ =>
    ⟨ms.mapSpans f, readonly, name, HasSpans.mapSpans f type, none⟩
  | ⟨ms, readonly, name, type, some ⟨value, s⟩⟩ =>
    ⟨ms.mapSpans f, readonly, name, HasSpans.mapSpans f type, some ⟨value.mapSpans f, f s⟩⟩
def FunctionDef.mapSpans (f : Span → Span) : FunctionDef → FunctionDef
  | ⟨ms, receiver, name, params, result, none⟩ =>
    ⟨ms.mapSpans f, HasSpans.mapSpans f receiver, name, HasSpans.mapSpans f params,
      HasSpans.mapSpans f result, none⟩
  | ⟨ms, receiver, name, params, result, some ⟨body, s⟩⟩ =>
    ⟨ms.mapSpans f, HasSpans.mapSpans f receiver, name, HasSpans.mapSpans f params,
      HasSpans.mapSpans f result, some ⟨body.mapSpans f, f s⟩⟩
end

instance : HasSpans Expr := ⟨Expr.mapSpans⟩
instance : HasSpans Argument := ⟨Argument.mapSpans⟩
instance : HasSpans WhenCase := ⟨WhenCase.mapSpans⟩
instance : HasSpans Block := ⟨Block.mapSpans⟩
instance : HasSpans Statement := ⟨Statement.mapSpans⟩
instance : HasSpans Annotated := ⟨Annotated.mapSpans⟩
instance : HasSpans Modifiers := ⟨Modifiers.mapSpans⟩
instance : HasSpans PropertyDef := ⟨PropertyDef.mapSpans⟩
instance : HasSpans FunctionDef := ⟨FunctionDef.mapSpans⟩

-- ---------------------------------------------------------------------------
-- Declarations
-- ---------------------------------------------------------------------------

def ClassParam.mapSpans (f : Span → Span) : ClassParam → ClassParam
  | .property decl => .property (decl.mapSpans f)
  | .plain param => .plain (HasSpans.mapSpans f param)

instance : HasSpans ClassParam := ⟨ClassParam.mapSpans⟩

mutual
def Declaration.mapSpans (f : Span → Span) : Declaration → Declaration
  | .function decl => .function (decl.mapSpans f)
  | .classDecl decl => .classDecl (decl.mapSpans f)
  | .property decl => .property (decl.mapSpans f)
  | .compilerCall call => .compilerCall (HasSpans.mapSpans f call)
def ClassDef.mapSpans (f : Span → Span) : ClassDef → ClassDef
  | ⟨ms, name, constructor, members⟩ =>
    ⟨ms.mapSpans f, name, HasSpans.mapSpans f constructor, Declaration.mapList f members⟩
def Declaration.mapList (f : Span → Span) : List (Located Declaration) → List (Located Declaration)
  | [] => []
  | ⟨d, s⟩ :: ds => ⟨d.mapSpans f, f s⟩ :: Declaration.mapList f ds
end

instance : HasSpans Declaration := ⟨Declaration.mapSpans⟩
instance : HasSpans ClassDef := ⟨ClassDef.mapSpans⟩
instance : HasSpans SourceFile := ⟨fun f file => ⟨mapSpans f file.declarations⟩⟩

-- ---------------------------------------------------------------------------
-- Equations
-- ---------------------------------------------------------------------------

@[simp] theorem mapSpans_span (s : Span) : mapSpans f s = f s := rfl
@[simp] theorem mapSpans_unit (a : Unit) : mapSpans f a = a := rfl
@[simp] theorem mapSpans_bool (b : Bool) : mapSpans f b = b := rfl
@[simp] theorem mapSpans_string (s : String) : mapSpans f s = s := rfl
@[simp] theorem mapSpans_binaryOp (op : BinaryOp) : mapSpans f op = op := rfl
@[simp] theorem mapSpans_modifier (m : Modifier) : mapSpans f m = m := rfl

section
variable [HasSpans α] [HasSpans β]

@[simp] theorem node_mapSpans (a : Located α) : (mapSpans f a).node = mapSpans f a.node := rfl
@[simp] theorem span_mapSpans (a : Located α) : (mapSpans f a).span = f a.span := rfl
@[simp] theorem mapSpans_located (a : α) (s : Span) :
    mapSpans f (⟨a, s⟩ : Located α) = ⟨mapSpans f a, f s⟩ := rfl
@[simp] theorem mapSpans_none : mapSpans f (none : Option α) = none := rfl
@[simp] theorem mapSpans_some (a : α) : mapSpans f (some a) = some (mapSpans f a) := rfl
@[simp] theorem mapSpans_nil : mapSpans f ([] : List α) = [] := rfl
@[simp] theorem mapSpans_cons (a : α) (as : List α) :
    mapSpans f (a :: as) = mapSpans f a :: mapSpans f as := rfl
@[simp] theorem mapSpans_append (as bs : List α) :
    mapSpans f (as ++ bs) = mapSpans f as ++ mapSpans f bs := List.map_append
@[simp] theorem mapSpans_done (a : α) :
    mapSpans f (ForInStep.done a) = .done (mapSpans f a) := rfl
@[simp] theorem mapSpans_yield (a : α) :
    mapSpans f (ForInStep.yield a) = .yield (mapSpans f a) := rfl
@[simp] theorem mapSpans_pair (a : α) (b : β) : mapSpans f (a, b) = (mapSpans f a, mapSpans f b) := rfl
@[simp] theorem mapSpans_empty : mapSpans f (#[] : Array α) = #[] := Array.map_empty
@[simp] theorem mapSpans_push (as : Array α) (a : α) :
    mapSpans f (as.push a) = (mapSpans f as).push (mapSpans f a) := Array.map_push
@[simp] theorem toList_mapSpans (as : Array α) : (mapSpans f as).toList = mapSpans f as.toList :=
  Array.toList_map

theorem eq_mapSpans {g : List α → List α} (hnil : g [] = [])
    (hcons : ∀ a as, g (a :: as) = mapSpans f a :: g as) (as : List α) : g as = mapSpans f as := by
  induction as with
  | nil => exact hnil
  | cons a as ih => rw [hcons, ih, mapSpans_cons]

end

theorem Ty.mapList_eq (ts : List (Located Ty)) : Ty.mapList f ts = HasSpans.mapSpans f ts :=
  eq_mapSpans rfl (fun _ _ => rfl) ts

theorem Ty.mapParams_eq (ps : List (Option String × Located Ty)) :
    Ty.mapParams f ps = HasSpans.mapSpans f ps := by
  induction ps with
  | nil => rfl
  | cons p ps ih =>
    rcases p with ⟨_ | name, t⟩ <;> (rw [mapSpans_cons, ← ih]; rfl)

theorem Expr.mapList_eq (es : List (Located Expr)) : Expr.mapList f es = HasSpans.mapSpans f es :=
  eq_mapSpans rfl (fun _ _ => rfl) es

theorem Argument.mapList_eq (as : List (Located Argument)) :
    Argument.mapList f as = HasSpans.mapSpans f as :=
  eq_mapSpans rfl (fun _ _ => rfl) as

theorem WhenCase.mapList_eq (cs : List (Located WhenCase)) :
    WhenCase.mapList f cs = HasSpans.mapSpans f cs :=
  eq_mapSpans rfl (fun _ _ => rfl) cs

theorem Statement.mapList_eq (ss : List (Located Statement)) :
    Statement.mapList f ss = HasSpans.mapSpans f ss :=
  eq_mapSpans rfl (fun _ _ => rfl) ss

theorem Annotated.mapList_eq (as : List (Located Annotated)) :
    Annotated.mapList f as = HasSpans.mapSpans f as :=
  eq_mapSpans rfl (fun _ _ => rfl) as

theorem Declaration.mapList_eq (ds : List (Located Declaration)) :
    Declaration.mapList f ds = HasSpans.mapSpans f ds :=
  eq_mapSpans rfl (fun _ _ => rfl) ds

-- A node's spans are those of its parts.

@[simp] theorem mapSpans_maybeName (name : Option String) : mapSpans f name = name := by
  cases name <;> rfl

@[simp] theorem mapSpans_param (name : String) (type : Located Ty) :
    mapSpans f (Param.mk name type) = ⟨name, mapSpans f type⟩ := rfl

@[simp] theorem mapSpans_user (t : UserType) : mapSpans f (Ty.user t) = .user (mapSpans f t) := rfl

@[simp] theorem mapSpans_nullable (t : Located Ty) :
    mapSpans f (Ty.nullable t) = .nullable (mapSpans f t) := rfl

@[simp] theorem mapSpans_pointer (t : Located Ty) :
    mapSpans f (Ty.pointer t) = .pointer (mapSpans f t) := rfl

@[simp] theorem mapSpans_functionType (receiver : Option (Located Ty))
    (params : List (Option String × Located Ty)) (result : Located Ty) :
    mapSpans f (Ty.function receiver params result) =
      .function (mapSpans f receiver) (mapSpans f params) (mapSpans f result) := by
  rw [← Ty.mapParams_eq]
  cases receiver <;> rfl

@[simp] theorem mapSpans_simple (name : String) (args : List (Located Ty)) :
    mapSpans f (UserType.simple name args) = .simple name (mapSpans f args) := by
  rw [← Ty.mapList_eq]
  rfl

@[simp] theorem mapSpans_typeMember (parent : UserType) (name : String) (args : List (Located Ty)) :
    mapSpans f (UserType.member parent name args) =
      .member (mapSpans f parent) name (mapSpans f args) := by
  rw [← Ty.mapList_eq]
  rfl

@[simp] theorem mapSpans_array (es : List (Located Expr)) :
    mapSpans f (Expr.array es) = .array (mapSpans f es) := by
  rw [← Expr.mapList_eq]
  rfl

@[simp] theorem mapSpans_call (callee : Located Expr) (args : List (Located Argument)) :
    mapSpans f (Expr.call callee args) = .call (mapSpans f callee) (mapSpans f args) := by
  rw [← Argument.mapList_eq]
  rfl

@[simp] theorem mapSpans_cond (condition : Located Expr) (thenBody : Located Block)
    (elseBody : Option (Located Block)) :
    mapSpans f (Expr.cond condition thenBody elseBody) =
      .cond (mapSpans f condition) (mapSpans f thenBody) (mapSpans f elseBody) := by
  cases elseBody <;> rfl

@[simp] theorem mapSpans_whenChoice (subject : Option (Located Expr))
    (cases : List (Located WhenCase)) :
    mapSpans f (Expr.whenCase subject cases) =
      .whenCase (mapSpans f subject) (mapSpans f cases) := by
  rw [← WhenCase.mapList_eq]
  cases subject <;> rfl

@[simp] theorem mapSpans_argument (name : Option String) (value : Located Expr) :
    mapSpans f (Argument.mk name value) = ⟨name, mapSpans f value⟩ := rfl

@[simp] theorem mapSpans_matching (conditions : List (Located Expr)) (body : Located Block) :
    mapSpans f (WhenCase.matching conditions body) =
      .matching (mapSpans f conditions) (mapSpans f body) := by
  rw [← Expr.mapList_eq]
  rfl

@[simp] theorem mapSpans_block (statements : List (Located Statement)) :
    mapSpans f (Block.mk statements) = ⟨mapSpans f statements⟩ := by
  rw [← Statement.mapList_eq]
  rfl

@[simp] theorem mapSpans_exprStatement (e : Expr) :
    mapSpans f (Statement.expr e) = .expr (mapSpans f e) := rfl

@[simp] theorem mapSpans_annotated (name : String) (args : List (Located Argument)) :
    mapSpans f (Annotated.mk name args) = ⟨name, mapSpans f args⟩ := by
  rw [← Argument.mapList_eq]
  rfl

@[simp] theorem mapSpans_modifiers (ms : List (Located Modifier)) (as : List (Located Annotated)) :
    mapSpans f (Modifiers.mk ms as) = ⟨mapSpans f ms, mapSpans f as⟩ := by
  rw [← Annotated.mapList_eq]
  rfl

@[simp] theorem mapSpans_property (ms : Modifiers) (readonly : Bool) (name : String)
    (type : Option (Located Ty)) (value : Option (Located Expr)) :
    mapSpans f (PropertyDef.mk ms readonly name type value) =
      ⟨mapSpans f ms, readonly, name, mapSpans f type, mapSpans f value⟩ := by
  cases value <;> rfl

@[simp] theorem mapSpans_function (ms : Modifiers) (receiver : Option (Located Ty)) (name : String)
    (params : List (Located Param)) (result : Option (Located Ty)) (body : Option (Located Block)) :
    mapSpans f (FunctionDef.mk ms receiver name params result body) =
      ⟨mapSpans f ms, mapSpans f receiver, name, mapSpans f params, mapSpans f result,
        mapSpans f body⟩ := by
  cases body <;> rfl

@[simp] theorem mapSpans_class (ms : Modifiers) (name : String)
    (constructor : Option (Located (List (Located ClassParam))))
    (members : List (Located Declaration)) :
    mapSpans f (ClassDef.mk ms name constructor members) =
      ⟨mapSpans f ms, name, mapSpans f constructor, mapSpans f members⟩ := by
  rw [← Declaration.mapList_eq]
  rfl

@[simp] theorem isEmpty_mapSpans (ms : Modifiers) : (mapSpans f ms).isEmpty = ms.isEmpty := by
  rcases ms with ⟨ms, as⟩
  rw [mapSpans_modifiers]
  cases ms <;> cases as <;> rfl

@[simp] theorem isPlace_mapSpans (e : Expr) : (mapSpans f e).isPlace = e.isPlace := by
  cases e <;> first | rfl | simp [Expr.isPlace]

@[simp] theorem isCall_mapSpans (e : Expr) : (mapSpans f e).isCall = e.isCall := by
  cases e <;> first | rfl | simp [Expr.isCall]

-- ---------------------------------------------------------------------------
-- The identity moves nothing
-- ---------------------------------------------------------------------------

export LawfulSpans (mapSpans_id)

instance : LawfulSpans Unit := ⟨fun _ => rfl⟩
instance : LawfulSpans String := ⟨fun _ => rfl⟩
instance : LawfulSpans Modifier := ⟨fun _ => rfl⟩

section
variable [HasSpans α] [LawfulSpans α] [HasSpans β] [LawfulSpans β]

instance : LawfulSpans (Located α) := ⟨fun a => by rw [mapSpans_located, mapSpans_id, id]⟩
instance : LawfulSpans (Option α) := ⟨fun a => by
  cases a with
  | none => rfl
  | some a => rw [mapSpans_some, mapSpans_id]⟩
instance : LawfulSpans (List α) := ⟨fun as => by
  induction as with
  | nil => rfl
  | cons a as ih => rw [mapSpans_cons, mapSpans_id, ih]⟩
instance : LawfulSpans (α × β) := ⟨fun a => by rw [mapSpans_pair, mapSpans_id, mapSpans_id]⟩

end

mutual
theorem Ty.mapSpans_id : ∀ t : Ty, t.mapSpans id = t
  | .user t => by rw [Ty.mapSpans, UserType.mapSpans_id t]
  | .nullable ⟨t, s⟩ => by rw [Ty.mapSpans, Ty.mapSpans_id t, id]
  | .pointer ⟨t, s⟩ => by rw [Ty.mapSpans, Ty.mapSpans_id t, id]
  | .function none params ⟨t, s⟩ => by
    rw [Ty.mapSpans, Ty.mapParams_id params, Ty.mapSpans_id t, id]
  | .function (some ⟨r, rs⟩) params ⟨t, s⟩ => by
    rw [Ty.mapSpans, Ty.mapSpans_id r, Ty.mapParams_id params, Ty.mapSpans_id t, id, id]
theorem UserType.mapSpans_id : ∀ t : UserType, t.mapSpans id = t
  | .simple name args => by rw [UserType.mapSpans, Ty.mapList_id args]
  | .member parent name args => by
    rw [UserType.mapSpans, UserType.mapSpans_id parent, Ty.mapList_id args]
theorem Ty.mapList_id : ∀ ts : List (Located Ty), Ty.mapList id ts = ts
  | [] => rfl
  | ⟨t, s⟩ :: ts => by rw [Ty.mapList, Ty.mapSpans_id t, Ty.mapList_id ts, id]
theorem Ty.mapParams_id : ∀ ps : List (Option String × Located Ty), Ty.mapParams id ps = ps
  | [] => rfl
  | (name, ⟨t, s⟩) :: ps => by rw [Ty.mapParams, Ty.mapSpans_id t, Ty.mapParams_id ps, id]
end

instance : LawfulSpans Ty := ⟨Ty.mapSpans_id⟩
instance : LawfulSpans Param := ⟨fun p => congrArg (Param.mk p.name) (mapSpans_id p.type)⟩

mutual
theorem Expr.mapSpans_id : ∀ e : Expr, e.mapSpans id = e
  | .name _ | .integer _ | .string _ | .null => rfl
  | .array elements => by rw [Expr.mapSpans, Expr.mapList_id elements]
  | .lambda body => by rw [Expr.mapSpans, Block.mapSpans_id body]
  | .call ⟨callee, s⟩ args => by
    rw [Expr.mapSpans, Expr.mapSpans_id callee, Argument.mapList_id args, id]
  | .member ⟨target, s⟩ name => by rw [Expr.mapSpans, Expr.mapSpans_id target, id]
  | .index ⟨target, s⟩ ⟨index, t⟩ => by
    rw [Expr.mapSpans, Expr.mapSpans_id target, Expr.mapSpans_id index, id, id]
  | .binary op ⟨lhs, s⟩ ⟨rhs, t⟩ => by
    rw [Expr.mapSpans, Expr.mapSpans_id lhs, Expr.mapSpans_id rhs, id, id]
  | .assign ⟨target, s⟩ ⟨value, t⟩ => by
    rw [Expr.mapSpans, Expr.mapSpans_id target, Expr.mapSpans_id value, id, id]
  | .compilerExec ⟨inner, s⟩ => by rw [Expr.mapSpans, Expr.mapSpans_id inner, id]
  | .cond ⟨condition, s⟩ ⟨thenBody, t⟩ none => by
    rw [Expr.mapSpans, Expr.mapSpans_id condition, Block.mapSpans_id thenBody, id, id]
  | .cond ⟨condition, s⟩ ⟨thenBody, t⟩ (some ⟨elseBody, u⟩) => by
    rw [Expr.mapSpans, Expr.mapSpans_id condition, Block.mapSpans_id thenBody,
      Block.mapSpans_id elseBody, id, id, id]
  | .whenCase none cases => by rw [Expr.mapSpans, WhenCase.mapList_id cases]
  | .whenCase (some ⟨subject, s⟩) cases => by
    rw [Expr.mapSpans, Expr.mapSpans_id subject, WhenCase.mapList_id cases, id]
theorem Expr.mapList_id : ∀ es : List (Located Expr), Expr.mapList id es = es
  | [] => rfl
  | ⟨e, s⟩ :: es => by rw [Expr.mapList, Expr.mapSpans_id e, Expr.mapList_id es, id]
theorem Argument.mapSpans_id : ∀ a : Argument, a.mapSpans id = a
  | ⟨name, ⟨e, s⟩⟩ => by rw [Argument.mapSpans, Expr.mapSpans_id e, id]
theorem Argument.mapList_id : ∀ as : List (Located Argument), Argument.mapList id as = as
  | [] => rfl
  | ⟨a, s⟩ :: as => by rw [Argument.mapList, Argument.mapSpans_id a, Argument.mapList_id as, id]
theorem WhenCase.mapSpans_id : ∀ c : WhenCase, c.mapSpans id = c
  | .matching conditions ⟨body, s⟩ => by
    rw [WhenCase.mapSpans, Expr.mapList_id conditions, Block.mapSpans_id body, id]
  | .otherwise ⟨body, s⟩ => by rw [WhenCase.mapSpans, Block.mapSpans_id body, id]
theorem WhenCase.mapList_id : ∀ cs : List (Located WhenCase), WhenCase.mapList id cs = cs
  | [] => rfl
  | ⟨c, s⟩ :: cs => by rw [WhenCase.mapList, WhenCase.mapSpans_id c, WhenCase.mapList_id cs, id]
theorem Block.mapSpans_id : ∀ b : Block, b.mapSpans id = b
  | ⟨statements⟩ => by rw [Block.mapSpans, Statement.mapList_id statements]
theorem Statement.mapSpans_id : ∀ s : Statement, s.mapSpans id = s
  | .expr e => by rw [Statement.mapSpans, Expr.mapSpans_id e]
  | .property d => by rw [Statement.mapSpans, PropertyDef.mapSpans_id d]
  | .while ⟨condition, s⟩ ⟨body, t⟩ => by
    rw [Statement.mapSpans, Expr.mapSpans_id condition, Block.mapSpans_id body, id, id]
  | .function d => by rw [Statement.mapSpans, FunctionDef.mapSpans_id d]
theorem Statement.mapList_id : ∀ ss : List (Located Statement), Statement.mapList id ss = ss
  | [] => rfl
  | ⟨a, s⟩ :: ss => by rw [Statement.mapList, Statement.mapSpans_id a, Statement.mapList_id ss, id]
theorem Annotated.mapSpans_id : ∀ a : Annotated, a.mapSpans id = a
  | ⟨name, args⟩ => by rw [Annotated.mapSpans, Argument.mapList_id args]
theorem Annotated.mapList_id : ∀ as : List (Located Annotated), Annotated.mapList id as = as
  | [] => rfl
  | ⟨a, s⟩ :: as => by rw [Annotated.mapList, Annotated.mapSpans_id a, Annotated.mapList_id as, id]
theorem Modifiers.mapSpans_id : ∀ ms : Modifiers, ms.mapSpans id = ms
  | ⟨ms, as⟩ => by rw [Modifiers.mapSpans, LawfulSpans.mapSpans_id ms, Annotated.mapList_id as]
theorem PropertyDef.mapSpans_id : ∀ d : PropertyDef, d.mapSpans id = d
  | ⟨ms, readonly, name, type, none⟩ => by
    rw [PropertyDef.mapSpans, Modifiers.mapSpans_id ms, LawfulSpans.mapSpans_id type]
  | ⟨ms, readonly, name, type, some ⟨value, s⟩⟩ => by
    rw [PropertyDef.mapSpans, Modifiers.mapSpans_id ms, LawfulSpans.mapSpans_id type,
      Expr.mapSpans_id value, id]
theorem FunctionDef.mapSpans_id : ∀ d : FunctionDef, d.mapSpans id = d
  | ⟨ms, receiver, name, params, result, none⟩ => by
    rw [FunctionDef.mapSpans, Modifiers.mapSpans_id ms, LawfulSpans.mapSpans_id receiver,
      LawfulSpans.mapSpans_id params, LawfulSpans.mapSpans_id result]
  | ⟨ms, receiver, name, params, result, some ⟨body, s⟩⟩ => by
    rw [FunctionDef.mapSpans, Modifiers.mapSpans_id ms, LawfulSpans.mapSpans_id receiver,
      LawfulSpans.mapSpans_id params, LawfulSpans.mapSpans_id result, Block.mapSpans_id body, id]
end

theorem ClassParam.mapSpans_id (p : ClassParam) : p.mapSpans id = p := by
  cases p with
  | property decl => rw [ClassParam.mapSpans, PropertyDef.mapSpans_id]
  | plain param => rw [ClassParam.mapSpans, LawfulSpans.mapSpans_id param]

instance : LawfulSpans Expr := ⟨Expr.mapSpans_id⟩
instance : LawfulSpans Statement := ⟨Statement.mapSpans_id⟩
instance : LawfulSpans WhenCase := ⟨WhenCase.mapSpans_id⟩
instance : LawfulSpans ClassParam := ⟨ClassParam.mapSpans_id⟩

mutual
theorem Declaration.mapSpans_id : ∀ d : Declaration, d.mapSpans id = d
  | .function decl => by rw [Declaration.mapSpans, FunctionDef.mapSpans_id decl]
  | .classDecl decl => by rw [Declaration.mapSpans, ClassDef.mapSpans_id decl]
  | .property decl => by rw [Declaration.mapSpans, PropertyDef.mapSpans_id decl]
  | .compilerCall call => by rw [Declaration.mapSpans, LawfulSpans.mapSpans_id call]
theorem ClassDef.mapSpans_id : ∀ d : ClassDef, d.mapSpans id = d
  | ⟨ms, name, constructor, members⟩ => by
    rw [ClassDef.mapSpans, Modifiers.mapSpans_id ms, LawfulSpans.mapSpans_id constructor,
      Declaration.mapList_id members]
theorem Declaration.mapList_id : ∀ ds : List (Located Declaration), Declaration.mapList id ds = ds
  | [] => rfl
  | ⟨d, s⟩ :: ds => by rw [Declaration.mapList, Declaration.mapSpans_id d, Declaration.mapList_id ds, id]
end

instance : LawfulSpans Declaration := ⟨Declaration.mapSpans_id⟩

end Linewise
