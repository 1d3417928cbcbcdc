import Linewise.Ast

/-!
# The types in a tree

`types` lists the types that stand in a tree, in the order of the source and each in front of those inside of
it. A parent of a user type is no type of its own, but its arguments are.
-/

namespace Linewise

class HasTypes (α : Type) where
  types : α → List Ty

export HasTypes (types)

variable {α : Type}

instance [HasTypes α] : HasTypes (Located α) := ⟨fun a => types a.node⟩
instance [HasTypes α] : HasTypes (Option α) := ⟨fun a => (a.map types).getD []⟩
instance [HasTypes α] : HasTypes (List α) := ⟨fun as => as.flatMap types⟩
instance [HasTypes α] : HasTypes (Option String × α) := ⟨fun a => types a.2⟩

-- ---------------------------------------------------------------------------
-- Types
-- ---------------------------------------------------------------------------

mutual
def Ty.types : Ty → List Ty
  | .user t => .user t :: t.types
  | .nullable ⟨t, s⟩ => .nullable ⟨t, s⟩ :: t.types
  | .pointer ⟨t, s⟩ => .pointer ⟨t, s⟩ :: t.types
  | .function none params ⟨t, s⟩ => .function none params ⟨t, s⟩ :: (Ty.paramTypes params ++ t.types)
  | .function (some ⟨r, u⟩) params ⟨t, s⟩ =>
    .function (some ⟨r, u⟩) params ⟨t, s⟩ :: (r.types ++ Ty.paramTypes params ++ t.types)
def UserType.types : UserType → List Ty
  | .simple _ args => Ty.listTypes args
  | .member parent _ args => parent.types ++ Ty.listTypes args
def Ty.listTypes : List (Located Ty) → List Ty
  | [] => []
  | ⟨t, _⟩ :: ts => t.types ++ Ty.listTypes ts
def Ty.paramTypes : List (Option String × Located Ty) → List Ty
  | [] => []
  | (_, ⟨t, _⟩) :: ps => t.types ++ Ty.paramTypes ps
end

instance : HasTypes Ty := ⟨Ty.types⟩
instance : HasTypes UserType := ⟨UserType.types⟩
instance : HasTypes Param := ⟨fun p => types p.type⟩

-- ---------------------------------------------------------------------------
-- Expressions and statements
-- ---------------------------------------------------------------------------

mutual
def Expr.types : Expr → List Ty
  | .name _ | .integer _ | .string _ | .null => []
  | .array elements => Expr.listTypes elements
  | .lambda body => body.types
  | .call ⟨callee, _⟩ args => callee.types ++ Argument.listTypes args
  | .member ⟨target, _⟩ _ => target.types
  | .index ⟨target, _⟩ ⟨index, _⟩ => target.types ++ index.types
  | .binary _ ⟨lhs, _⟩ ⟨rhs, _⟩ => lhs.types ++ rhs.types
  | .assign ⟨target, _⟩ ⟨value, _⟩ => target.types ++ value.types
  | .compilerExec ⟨inner, _⟩ => inner.types
  | .cond ⟨condition, _⟩ ⟨thenBody, _⟩ none => condition.types ++ thenBody.types
  | .cond ⟨condition, _⟩ ⟨thenBody, _⟩ (some ⟨elseBody, _⟩) =>
    condition.types ++ thenBody.types ++ elseBody.types
  | .whenCase none cases => WhenCase.listTypes cases
  | .whenCase (some ⟨subject, _⟩) cases => subject.types ++ WhenCase.listTypes cases
def Expr.listTypes : List (Located Expr) → List Ty
  | [] => []
  | ⟨e, _⟩ :: es => e.types ++ Expr.listTypes es
def Argument.types : Argument → List Ty
  | ⟨_, ⟨e, _⟩⟩ => e.types
def Argument.listTypes : List (Located Argument) → List Ty
  | [] => []
  | ⟨a, _⟩ :: as => a.types ++ Argument.listTypes as
def WhenCase.types : WhenCase → List Ty
  | .matching conditions ⟨body, _⟩ => Expr.listTypes conditions ++ body.types
  | .otherwise ⟨body, _⟩ => body.types
def WhenCase.listTypes : List (Located WhenCase) → List Ty
  | [] => []
  | ⟨c, _⟩ :: cs => c.types ++ WhenCase.listTypes cs
def Block.types : Block → List Ty
  | ⟨statements⟩ => Statement.listTypes statements
def Statement.types : Statement → List Ty
  | .expr e => e.types
  | .property d => d.types
  | .while ⟨condition, _⟩ ⟨body, _⟩ => condition.types ++ body.types
  | .function d => d.types
def Statement.listTypes : List (Located Statement) → List Ty
  | [] => []
  | ⟨a, _⟩ :: as => a.types ++ Statement.listTypes as
def Annotated.types : Annotated → List Ty
  | ⟨_, args⟩ => Argument.listTypes args
def Annotated.listTypes : List (Located Annotated) → List Ty
  | [] => []
  | ⟨a, _⟩ :: as => a.types ++ Annotated.listTypes as
def Modifiers.types : Modifiers → List Ty
  | ⟨_, as⟩ => Annotated.listTypes as
def PropertyDef.types : PropertyDef → List Ty
  | ⟨ms, _, _, type, none⟩ => ms.types ++ HasTypes.types type
  | ⟨ms, _, _, type, some ⟨value, _⟩⟩ => ms.types ++ HasTypes.types type ++ value.types
def FunctionDef.types : FunctionDef → List Ty
  | ⟨ms, receiver, _, params, result, none⟩ =>
    ms.types ++ HasTypes.types receiver ++ HasTypes.types params ++ HasTypes.types result
  | ⟨ms, receiver, _, params, result, some ⟨body, _⟩⟩ =>
    ms.types ++ HasTypes.types receiver ++ HasTypes.types params ++ HasTypes.types result ++ body.types
end

instance : HasTypes Expr := ⟨Expr.types⟩
instance : HasTypes Argument := ⟨Argument.types⟩
instance : HasTypes WhenCase := ⟨WhenCase.types⟩
instance : HasTypes Block := ⟨Block.types⟩
instance : HasTypes Statement := ⟨Statement.types⟩
instance : HasTypes Annotated := ⟨Annotated.types⟩
instance : HasTypes Modifiers := ⟨Modifiers.types⟩
instance : HasTypes PropertyDef := ⟨PropertyDef.types⟩
instance : HasTypes FunctionDef := ⟨FunctionDef.types⟩

-- ---------------------------------------------------------------------------
-- Declarations
-- ---------------------------------------------------------------------------

instance : HasTypes ClassParam where
  types
    | .property decl => types decl
    | .plain param => types param

mutual
def Declaration.types : Declaration → List Ty
  | .function decl => decl.types
  | .classDecl decl => decl.types
  | .property decl => decl.types
  | .compilerCall call => HasTypes.types call
def ClassDef.types : ClassDef → List Ty
  | ⟨ms, _, constructor, members⟩ =>
    ms.types ++ HasTypes.types constructor ++ Declaration.listTypes members
def Declaration.listTypes : List (Located Declaration) → List Ty
  | [] => []
  | ⟨d, _⟩ :: ds => d.types ++ Declaration.listTypes ds
end

instance : HasTypes Declaration := ⟨Declaration.types⟩
instance : HasTypes ClassDef := ⟨ClassDef.types⟩
instance : HasTypes SourceFile := ⟨fun file => types file.declarations⟩

-- ---------------------------------------------------------------------------
-- Equations
-- ---------------------------------------------------------------------------

section
variable [HasTypes α]

@[simp] theorem types_located (a : Located α) : types a = types a.node := rfl
@[simp] theorem types_none : types (none : Option α) = [] := rfl
@[simp] theorem types_some (a : α) : types (some a) = types a := rfl
@[simp] theorem types_nil : types ([] : List α) = [] := rfl
@[simp] theorem types_cons (a : α) (as : List α) : types (a :: as) = types a ++ types as := rfl
@[simp] theorem types_append (as bs : List α) : types (as ++ bs) = types as ++ types bs :=
  List.flatMap_append
@[simp] theorem types_named (name : Option String) (a : α) : types (name, a) = types a := rfl

theorem mem_types_list {as : List α} {t : Ty} : t ∈ types as ↔ ∃ a ∈ as, t ∈ types a :=
  List.mem_flatMap

theorem eq_types {g : List α → List Ty} (hnil : g [] = [])
    (hcons : ∀ a as, g (a :: as) = types a ++ g as) (as : List α) : g as = types as := by
  induction as with
  | nil => exact hnil
  | cons a as ih => rw [hcons, ih, types_cons]

end

theorem Ty.listTypes_eq (ts : List (Located Ty)) : Ty.listTypes ts = HasTypes.types ts :=
  eq_types rfl (fun _ _ => rfl) ts

theorem Ty.paramTypes_eq (ps : List (Option String × Located Ty)) : Ty.paramTypes ps = HasTypes.types ps :=
  eq_types rfl (fun _ _ => rfl) ps

theorem Expr.listTypes_eq (es : List (Located Expr)) : Expr.listTypes es = HasTypes.types es :=
  eq_types rfl (fun _ _ => rfl) es

theorem Argument.listTypes_eq (as : List (Located Argument)) : Argument.listTypes as = HasTypes.types as :=
  eq_types rfl (fun _ _ => rfl) as

theorem WhenCase.listTypes_eq (cs : List (Located WhenCase)) : WhenCase.listTypes cs = HasTypes.types cs :=
  eq_types rfl (fun _ _ => rfl) cs

theorem Statement.listTypes_eq (ss : List (Located Statement)) :
    Statement.listTypes ss = HasTypes.types ss :=
  eq_types rfl (fun _ _ => rfl) ss

theorem Annotated.listTypes_eq (as : List (Located Annotated)) :
    Annotated.listTypes as = HasTypes.types as :=
  eq_types rfl (fun _ _ => rfl) as

theorem Declaration.listTypes_eq (ds : List (Located Declaration)) :
    Declaration.listTypes ds = HasTypes.types ds :=
  eq_types rfl (fun _ _ => rfl) ds

@[simp] theorem types_user (t : UserType) : types (Ty.user t) = .user t :: types t := rfl

@[simp] theorem types_nullable (t : Located Ty) : types (Ty.nullable t) = .nullable t :: types t := rfl

@[simp] theorem types_pointer (t : Located Ty) : types (Ty.pointer t) = .pointer t :: types t := rfl

@[simp] theorem types_functionType (receiver : Option (Located Ty))
    (params : List (Option String × Located Ty)) (result : Located Ty) :
    types (Ty.function receiver params result) =
      .function receiver params result :: (types receiver ++ types params ++ types result) := by
  rw [← Ty.paramTypes_eq]
  cases receiver <;> rfl

@[simp] theorem types_simple (name : String) (args : List (Located Ty)) :
    types (UserType.simple name args) = types args := Ty.listTypes_eq args

@[simp] theorem types_memberType (parent : UserType) (name : String) (args : List (Located Ty)) :
    types (UserType.member parent name args) = types parent ++ types args := by
  rw [← Ty.listTypes_eq]
  rfl

@[simp] theorem types_param (name : String) (type : Located Ty) : types (Param.mk name type) = types type :=
  rfl

@[simp] theorem types_name (text : String) : types (Expr.name text) = [] := rfl
@[simp] theorem types_integer (text : String) : types (Expr.integer text) = [] := rfl
@[simp] theorem types_string (parts : List StringPart) : types (Expr.string parts) = [] := rfl
@[simp] theorem types_null : types Expr.null = [] := rfl

@[simp] theorem types_array (es : List (Located Expr)) : types (Expr.array es) = types es :=
  Expr.listTypes_eq es

@[simp] theorem types_lambda (body : Block) : types (Expr.lambda body) = types body := rfl

@[simp] theorem types_call (callee : Located Expr) (args : List (Located Argument)) :
    types (Expr.call callee args) = types callee ++ types args := by
  rw [← Argument.listTypes_eq]
  rfl

@[simp] theorem types_member (target : Located Expr) (name : String) :
    types (Expr.member target name) = types target := rfl

@[simp] theorem types_index (target index : Located Expr) :
    types (Expr.index target index) = types target ++ types index := rfl

@[simp] theorem types_binary (op : BinaryOp) (lhs rhs : Located Expr) :
    types (Expr.binary op lhs rhs) = types lhs ++ types rhs := rfl

@[simp] theorem types_assign (target value : Located Expr) :
    types (Expr.assign target value) = types target ++ types value := rfl

@[simp] theorem types_compilerExec (inner : Located Expr) :
    types (Expr.compilerExec inner) = types inner := rfl

@[simp] theorem types_cond (condition : Located Expr) (thenBody : Located Block)
    (elseBody : Option (Located Block)) :
    types (Expr.cond condition thenBody elseBody) =
      types condition ++ types thenBody ++ types elseBody := by
  cases elseBody with
  | none => exact (List.append_nil _).symm
  | some body => rfl

@[simp] theorem types_whenChoice (subject : Option (Located Expr)) (cases : List (Located WhenCase)) :
    types (Expr.whenCase subject cases) = types subject ++ types cases := by
  rw [← WhenCase.listTypes_eq]
  cases subject <;> rfl

@[simp] theorem types_argument (name : Option String) (value : Located Expr) :
    types (Argument.mk name value) = types value := rfl

@[simp] theorem types_matching (conditions : List (Located Expr)) (body : Located Block) :
    types (WhenCase.matching conditions body) = types conditions ++ types body := by
  rw [← Expr.listTypes_eq]
  rfl

@[simp] theorem types_otherwise (body : Located Block) : types (WhenCase.otherwise body) = types body := rfl

@[simp] theorem types_block (statements : List (Located Statement)) :
    types (Block.mk statements) = types statements := Statement.listTypes_eq statements

@[simp] theorem types_exprStatement (e : Expr) : types (Statement.expr e) = types e := rfl

@[simp] theorem types_propertyStatement (d : PropertyDef) : types (Statement.property d) = types d := rfl

@[simp] theorem types_functionStatement (d : FunctionDef) : types (Statement.function d) = types d := rfl

@[simp] theorem types_while (condition : Located Expr) (body : Located Block) :
    types (Statement.while condition body) = types condition ++ types body := rfl

@[simp] theorem types_annotated (name : String) (args : List (Located Argument)) :
    types (Annotated.mk name args) = types args := Argument.listTypes_eq args

@[simp] theorem types_modifiers (ms : List (Located Modifier)) (as : List (Located Annotated)) :
    types (Modifiers.mk ms as) = types as := Annotated.listTypes_eq as

@[simp] theorem types_property (ms : Modifiers) (readonly : Bool) (name : String)
    (type : Option (Located Ty)) (value : Option (Located Expr)) :
    types (PropertyDef.mk ms readonly name type value) = types ms ++ types type ++ types value := by
  cases value with
  | none => exact (List.append_nil _).symm
  | some value => rfl

@[simp] theorem types_function (ms : Modifiers) (receiver : Option (Located Ty)) (name : String)
    (params : List (Located Param)) (result : Option (Located Ty)) (body : Option (Located Block)) :
    types (FunctionDef.mk ms receiver name params result body) =
      types ms ++ types receiver ++ types params ++ types result ++ types body := by
  cases body with
  | none => exact (List.append_nil _).symm
  | some body => rfl

@[simp] theorem types_propertyParam (d : PropertyDef) : types (ClassParam.property d) = types d := rfl

@[simp] theorem types_plainParam (p : Param) : types (ClassParam.plain p) = types p := rfl

@[simp] theorem types_functionDecl (d : FunctionDef) : types (Declaration.function d) = types d := rfl

@[simp] theorem types_classDecl (d : ClassDef) : types (Declaration.classDecl d) = types d := rfl

@[simp] theorem types_propertyDecl (d : PropertyDef) : types (Declaration.property d) = types d := rfl

@[simp] theorem types_compilerCall (call : Located Expr) :
    types (Declaration.compilerCall call) = types call := rfl

@[simp] theorem types_class (ms : Modifiers) (name : String)
    (constructor : Option (Located (List (Located ClassParam)))) (members : List (Located Declaration)) :
    types (ClassDef.mk ms name constructor members) = types ms ++ types constructor ++ types members := by
  rw [← Declaration.listTypes_eq]
  rfl

@[simp] theorem types_single (s : Located Statement) : types (Block.single s) = types s := by
  simp [Block.single]

end Linewise
