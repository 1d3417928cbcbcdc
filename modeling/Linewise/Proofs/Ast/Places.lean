import Linewise.Ast

/-!
# The places of a tree

A place is the part of the source that a node of a tree stands for, with the places of the nodes inside of the
node, in the order of the grammar. `places` lists those of a tree. What is not `Located` has no place of its
own: what stands inside of it belongs to the node around it.
-/

namespace Linewise

/-- What a node is to the one around it, as far as it matters to where the node stands. -/
inductive Role where
  | part
  | modifier
  | annotated
  | user
  /-- A user type that ends in a member of this name, without arguments behind the name. -/
  | member (name : String)
  /-- The receiver of a function of this name, if it is a user type. -/
  | receiver (name : String)

def Role.received (name : String) : Role → Role
  | .user | .member _ => .receiver name
  | role => role

inductive Place where
  | node (role : Role) (span : Span) (parts : List Place)

namespace Place

def role : Place → Role
  | node role _ _ => role

def span : Place → Span
  | node _ span _ => span

def parts : Place → List Place
  | node _ _ parts => parts

@[simp] theorem role_node (role : Role) (span : Span) (parts : List Place) :
    (node role span parts).role = role := rfl
@[simp] theorem span_node (role : Role) (span : Span) (parts : List Place) :
    (node role span parts).span = span := rfl
@[simp] theorem parts_node (role : Role) (span : Span) (parts : List Place) :
    (node role span parts).parts = parts := rfl

/-- This holds of the place and of all places inside of it. -/
inductive Throughout (P : Place → Prop) : Place → Prop
  | node {role : Role} {span : Span} {parts : List Place} (h : P (node role span parts))
      (hparts : ∀ p ∈ parts, Throughout P p) : Throughout P (node role span parts)

theorem Throughout.mono {P Q : Place → Prop} {p : Place} (h : p.Throughout P) (hPQ : ∀ p, P p → Q p) :
    p.Throughout Q := by
  induction h with
  | node hp _ ih => exact .node (hPQ _ hp) ih

def Before (p q : Place) : Prop := p.span.stop ≤ q.span.start

/-- Places in the order of the source. Modifiers and annotations may stand in any order, but there is an order
among the modifiers and one among the annotations. -/
def InOrder (ps : List Place) : Prop :=
  ps.Pairwise fun p q => p.role = .modifier ∧ q.role = .annotated ∨ p.Before q

end Place

class HasPlaces (α : Type) where
  places : α → List Place
  role : α → Role := fun _ => .part

export HasPlaces (places)

variable {α β : Type}

def Located.placeAs [HasPlaces α] (role : Role) (a : Located α) : Place := .node role a.span (places a.node)

instance [HasPlaces α] : HasPlaces (Located α) where
  places a := [a.placeAs (HasPlaces.role a.node)]
instance [HasPlaces α] : HasPlaces (Option α) where places a := (a.map places).getD []
instance [HasPlaces α] : HasPlaces (List α) where places as := as.flatMap places
instance [HasPlaces α] : HasPlaces (Option String × α) where places a := places a.2

-- ---------------------------------------------------------------------------
-- Types
-- ---------------------------------------------------------------------------

def Ty.role : Ty → Role
  | .user (.member _ name []) => .member name
  | .user _ => .user
  | _ => .part

theorem Ty.role_user (user : UserType) :
    (∃ parent name, user = .member parent name []) ∨ (Ty.user user).role = .user := by
  cases user with
  | simple => exact .inr rfl
  | member parent name args =>
    cases args with
    | nil => exact .inl ⟨parent, name, rfl⟩
    | cons => exact .inr rfl

theorem Ty.received_user (user : UserType) (name : String) :
    (Ty.user user).role.received name = .receiver name := by
  rcases Ty.role_user user with ⟨parent, text, rfl⟩ | hrole
  · rfl
  · rw [hrole]
    rfl

theorem Ty.role_ne_annotated (t : Ty) : t.role ≠ .annotated := by
  unfold Ty.role
  split <;> nofun

mutual
def Ty.places : Ty → List Place
  | .user t => t.places
  | .nullable ⟨t, s⟩ => [.node t.role s t.places]
  | .pointer ⟨t, s⟩ => [.node t.role s t.places]
  | .function none params ⟨t, s⟩ => Ty.paramPlaces params ++ [.node t.role s t.places]
  | .function (some ⟨r, rs⟩) params ⟨t, s⟩ =>
    .node r.role rs r.places :: Ty.paramPlaces params ++ [.node t.role s t.places]
def UserType.places : UserType → List Place
  | .simple _ args => Ty.listPlaces args
  | .member parent _ args => parent.places ++ Ty.listPlaces args
def Ty.listPlaces : List (Located Ty) → List Place
  | [] => []
  | ⟨t, s⟩ :: ts => .node t.role s t.places :: Ty.listPlaces ts
def Ty.paramPlaces : List (Option String × Located Ty) → List Place
  | [] => []
  | (_, ⟨t, s⟩) :: ps => .node t.role s t.places :: Ty.paramPlaces ps
end

instance : HasPlaces Ty := ⟨Ty.places, Ty.role⟩
instance : HasPlaces UserType where places := UserType.places
instance : HasPlaces Param where places p := places p.type

-- ---------------------------------------------------------------------------
-- Expressions and statements
-- ---------------------------------------------------------------------------

instance : HasPlaces Modifier where
  places _ := []
  role _ := .modifier

def receiverPlaces (name : String) : Option (Located Ty) → List Place
  | none => []
  | some r => [r.placeAs (r.node.role.received name)]

mutual
def Expr.places : Expr → List Place
  | .name _ | .integer _ | .string _ | .null => []
  | .array elements => Expr.listPlaces elements
  | .lambda body => body.places
  | .call ⟨callee, s⟩ args => .node .part s callee.places :: Argument.listPlaces args
  | .member ⟨target, s⟩ _ => [.node .part s target.places]
  | .index ⟨target, s⟩ ⟨index, t⟩ => [.node .part s target.places, .node .part t index.places]
  | .binary _ ⟨lhs, s⟩ ⟨rhs, t⟩ => [.node .part s lhs.places, .node .part t rhs.places]
  | .assign ⟨target, s⟩ ⟨value, t⟩ => [.node .part s target.places, .node .part t value.places]
  | .compilerExec ⟨inner, s⟩ => [.node .part s inner.places]
  | .cond ⟨condition, s⟩ ⟨thenBody, t⟩ none =>
    [.node .part s condition.places, .node .part t thenBody.places]
  | .cond ⟨condition, s⟩ ⟨thenBody, t⟩ (some ⟨elseBody, u⟩) =>
    [.node .part s condition.places, .node .part t thenBody.places, .node .part u elseBody.places]
  | .whenCase none cases => WhenCase.listPlaces cases
  | .whenCase (some ⟨subject, s⟩) cases => .node .part s subject.places :: WhenCase.listPlaces cases
def Expr.listPlaces : List (Located Expr) → List Place
  | [] => []
  | ⟨e, s⟩ :: es => .node .part s e.places :: Expr.listPlaces es
def Argument.places : Argument → List Place
  | ⟨_, ⟨e, s⟩⟩ => [.node .part s e.places]
def Argument.listPlaces : List (Located Argument) → List Place
  | [] => []
  | ⟨a, s⟩ :: as => .node .part s a.places :: Argument.listPlaces as
def WhenCase.places : WhenCase → List Place
  | .matching conditions ⟨body, s⟩ => Expr.listPlaces conditions ++ [.node .part s body.places]
  | .otherwise ⟨body, s⟩ => [.node .part s body.places]
def WhenCase.listPlaces : List (Located WhenCase) → List Place
  | [] => []
  | ⟨c, s⟩ :: cs => .node .part s c.places :: WhenCase.listPlaces cs
def Block.places : Block → List Place
  | ⟨statements⟩ => Statement.listPlaces statements
def Statement.places : Statement → List Place
  | .expr e => e.places
  | .property d => d.places
  | .while ⟨condition, s⟩ ⟨body, t⟩ => [.node .part s condition.places, .node .part t body.places]
  | .function d => d.places
def Statement.listPlaces : List (Located Statement) → List Place
  | [] => []
  | ⟨a, s⟩ :: as => .node .part s a.places :: Statement.listPlaces as
def Annotated.places : Annotated → List Place
  | ⟨_, args⟩ => Argument.listPlaces args
def Annotated.listPlaces : List (Located Annotated) → List Place
  | [] => []
  | ⟨a, s⟩ :: as => .node .annotated s a.places :: Annotated.listPlaces as
def Modifiers.places : Modifiers → List Place
  | ⟨ms, as⟩ => HasPlaces.places ms ++ Annotated.listPlaces as
def PropertyDef.places : PropertyDef → List Place
  | ⟨ms, _, _, type, none⟩ => ms.places ++ HasPlaces.places type
  | ⟨ms, _, _, type, some ⟨value, s⟩⟩ =>
    ms.places ++ HasPlaces.places type ++ [.node .part s value.places]
def FunctionDef.places : FunctionDef → List Place
  | ⟨ms, receiver, name, params, result, none⟩ =>
    ms.places ++ receiverPlaces name receiver ++ HasPlaces.places params ++ HasPlaces.places result
  | ⟨ms, receiver, name, params, result, some ⟨body, s⟩⟩ =>
    ms.places ++ receiverPlaces name receiver ++ HasPlaces.places params ++ HasPlaces.places result ++
      [.node .part s body.places]
end

instance : HasPlaces Expr where places := Expr.places
instance : HasPlaces Argument where places := Argument.places
instance : HasPlaces WhenCase where places := WhenCase.places
instance : HasPlaces Block where places := Block.places
instance : HasPlaces Statement where places := Statement.places
instance : HasPlaces Annotated := ⟨Annotated.places, fun _ => .annotated⟩
instance : HasPlaces Modifiers where places := Modifiers.places
instance : HasPlaces PropertyDef where places := PropertyDef.places
instance : HasPlaces FunctionDef where places := FunctionDef.places

-- ---------------------------------------------------------------------------
-- Declarations
-- ---------------------------------------------------------------------------

instance : HasPlaces ClassParam where
  places
    | .property decl => places decl
    | .plain param => places param

mutual
def Declaration.places : Declaration → List Place
  | .function decl => decl.places
  | .classDecl decl => decl.places
  | .property decl => decl.places
  | .compilerCall call => HasPlaces.places call
def ClassDef.places : ClassDef → List Place
  | ⟨ms, _, constructor, members⟩ =>
    ms.places ++ HasPlaces.places constructor ++ Declaration.listPlaces members
def Declaration.listPlaces : List (Located Declaration) → List Place
  | [] => []
  | ⟨d, s⟩ :: ds => .node .part s d.places :: Declaration.listPlaces ds
end

instance : HasPlaces Declaration where places := Declaration.places
instance : HasPlaces ClassDef where places := ClassDef.places
instance : HasPlaces SourceFile where places file := places file.declarations

-- ---------------------------------------------------------------------------
-- Equations
-- ---------------------------------------------------------------------------

section
variable [HasPlaces α]

theorem places_located (a : Located α) : places a = [a.placeAs (HasPlaces.role a.node)] := rfl
@[simp] theorem places_none : places (none : Option α) = [] := rfl
@[simp] theorem places_some (a : α) : places (some a) = places a := rfl
@[simp] theorem places_nil : places ([] : List α) = [] := rfl
@[simp] theorem places_cons (a : α) (as : List α) : places (a :: as) = places a ++ places as := rfl
@[simp] theorem places_append (as bs : List α) : places (as ++ bs) = places as ++ places bs :=
  List.flatMap_append
theorem role_of_mem_places {role : Role} (h : ∀ a : α, HasPlaces.role a = role) {as : List (Located α)}
    {p : Place} (hp : p ∈ places as) : p.role = role := by
  obtain ⟨a, -, ha⟩ := List.mem_flatMap.mp hp
  rw [List.mem_singleton.mp ha]
  exact h a.node
@[simp] theorem places_pair (name : Option String) (a : α) : places (name, a) = places a := rfl

theorem eq_places {g : List α → List Place} (hnil : g [] = [])
    (hcons : ∀ a as, g (a :: as) = places a ++ g as) (as : List α) : g as = places as := by
  induction as with
  | nil => exact hnil
  | cons a as ih => rw [hcons, ih, places_cons]

end

theorem Ty.listPlaces_eq (ts : List (Located Ty)) : Ty.listPlaces ts = HasPlaces.places ts :=
  eq_places rfl (fun _ _ => rfl) ts

theorem Ty.paramPlaces_eq (ps : List (Option String × Located Ty)) :
    Ty.paramPlaces ps = HasPlaces.places ps :=
  eq_places rfl (fun _ _ => rfl) ps

theorem Expr.listPlaces_eq (es : List (Located Expr)) : Expr.listPlaces es = HasPlaces.places es :=
  eq_places rfl (fun _ _ => rfl) es

theorem Argument.listPlaces_eq (as : List (Located Argument)) :
    Argument.listPlaces as = HasPlaces.places as :=
  eq_places rfl (fun _ _ => rfl) as

theorem WhenCase.listPlaces_eq (cs : List (Located WhenCase)) :
    WhenCase.listPlaces cs = HasPlaces.places cs :=
  eq_places rfl (fun _ _ => rfl) cs

theorem Statement.listPlaces_eq (ss : List (Located Statement)) :
    Statement.listPlaces ss = HasPlaces.places ss :=
  eq_places rfl (fun _ _ => rfl) ss

theorem Annotated.listPlaces_eq (as : List (Located Annotated)) :
    Annotated.listPlaces as = HasPlaces.places as :=
  eq_places rfl (fun _ _ => rfl) as

theorem Declaration.listPlaces_eq (ds : List (Located Declaration)) :
    Declaration.listPlaces ds = HasPlaces.places ds :=
  eq_places rfl (fun _ _ => rfl) ds

-- The places of a node's parts, in the order of the grammar.

@[simp] theorem places_user (t : UserType) : places (Ty.user t) = places t := rfl
@[simp] theorem places_nullable (t : Located Ty) : places (Ty.nullable t) = places t := rfl
@[simp] theorem places_pointer (t : Located Ty) : places (Ty.pointer t) = places t := rfl

@[simp] theorem places_functionType (receiver : Option (Located Ty))
    (params : List (Option String × Located Ty)) (result : Located Ty) :
    places (Ty.function receiver params result) = places receiver ++ places params ++ places result := by
  rw [← Ty.paramPlaces_eq]
  cases receiver <;> rfl

@[simp] theorem places_simple (name : String) (args : List (Located Ty)) :
    places (UserType.simple name args) = places args :=
  Ty.listPlaces_eq args

@[simp] theorem places_memberType (parent : UserType) (name : String) (args : List (Located Ty)) :
    places (UserType.member parent name args) = places parent ++ places args := by
  rw [← Ty.listPlaces_eq]
  rfl

@[simp] theorem places_param (name : String) (type : Located Ty) : places (Param.mk name type) = places type :=
  rfl

@[simp] theorem places_name (text : String) : places (Expr.name text) = [] := rfl
@[simp] theorem places_integer (text : String) : places (Expr.integer text) = [] := rfl
@[simp] theorem places_string (parts : List StringPart) : places (Expr.string parts) = [] := rfl
@[simp] theorem places_null : places Expr.null = [] := rfl
@[simp] theorem places_lambda (body : Block) : places (Expr.lambda body) = places body := rfl
@[simp] theorem places_member (target : Located Expr) (name : String) :
    places (Expr.member target name) = places target := rfl
@[simp] theorem places_index (target index : Located Expr) :
    places (Expr.index target index) = places target ++ places index := rfl
@[simp] theorem places_binary (op : BinaryOp) (lhs rhs : Located Expr) :
    places (Expr.binary op lhs rhs) = places lhs ++ places rhs := rfl
@[simp] theorem places_assign (target value : Located Expr) :
    places (Expr.assign target value) = places target ++ places value := rfl
@[simp] theorem places_compilerExec (inner : Located Expr) :
    places (Expr.compilerExec inner) = places inner := rfl

@[simp] theorem places_array (es : List (Located Expr)) : places (Expr.array es) = places es :=
  Expr.listPlaces_eq es

@[simp] theorem places_call (callee : Located Expr) (args : List (Located Argument)) :
    places (Expr.call callee args) = places callee ++ places args := by
  rw [← Argument.listPlaces_eq]
  rfl

@[simp] theorem places_cond (condition : Located Expr) (thenBody : Located Block)
    (elseBody : Option (Located Block)) :
    places (Expr.cond condition thenBody elseBody) =
      places condition ++ places thenBody ++ places elseBody := by
  cases elseBody <;> rfl

@[simp] theorem places_whenChoice (subject : Option (Located Expr)) (cases : List (Located WhenCase)) :
    places (Expr.whenCase subject cases) = places subject ++ places cases := by
  rw [← WhenCase.listPlaces_eq]
  cases subject <;> rfl

@[simp] theorem places_argument (name : Option String) (value : Located Expr) :
    places (Argument.mk name value) = places value := rfl

@[simp] theorem places_matching (conditions : List (Located Expr)) (body : Located Block) :
    places (WhenCase.matching conditions body) = places conditions ++ places body := by
  rw [← Expr.listPlaces_eq]
  rfl

@[simp] theorem places_otherwise (body : Located Block) :
    places (WhenCase.otherwise body) = places body := rfl

@[simp] theorem places_block (statements : List (Located Statement)) :
    places (Block.mk statements) = places statements :=
  Statement.listPlaces_eq statements

theorem places_single (s : Located Statement) :
    places (Block.single s) = [.node .part s.span (places s)] := by
  simp [Block.single, places_located, Located.placeAs]
  rfl

@[simp] theorem places_expr (e : Expr) : places (Statement.expr e) = places e := rfl
@[simp] theorem places_localProperty (d : PropertyDef) : places (Statement.property d) = places d := rfl
@[simp] theorem places_while (condition : Located Expr) (body : Located Block) :
    places (Statement.while condition body) = places condition ++ places body := rfl
@[simp] theorem places_localFunction (d : FunctionDef) : places (Statement.function d) = places d := rfl

@[simp] theorem places_annotated (name : String) (args : List (Located Argument)) :
    places (Annotated.mk name args) = places args :=
  Argument.listPlaces_eq args

@[simp] theorem places_modifiers (ms : List (Located Modifier)) (as : List (Located Annotated)) :
    places (Modifiers.mk ms as) = places ms ++ places as := by
  rw [← Annotated.listPlaces_eq]
  rfl

@[simp] theorem places_propertyDef (ms : Modifiers) (readonly : Bool) (name : String)
    (type : Option (Located Ty)) (value : Option (Located Expr)) :
    places (PropertyDef.mk ms readonly name type value) =
      places ms ++ places type ++ places value := by
  cases value with
  | none => exact (List.append_nil _).symm
  | some => rfl

@[simp] theorem places_functionDef (ms : Modifiers) (receiver : Option (Located Ty)) (name : String)
    (params : List (Located Param)) (result : Option (Located Ty)) (body : Option (Located Block)) :
    places (FunctionDef.mk ms receiver name params result body) =
      places ms ++ receiverPlaces name receiver ++ places params ++ places result ++ places body := by
  cases body with
  | none => exact (List.append_nil _).symm
  | some => rfl

@[simp] theorem places_classProperty (d : PropertyDef) : places (ClassParam.property d) = places d := rfl
@[simp] theorem places_plain (p : Param) : places (ClassParam.plain p) = places p := rfl

@[simp] theorem places_function (d : FunctionDef) : places (Declaration.function d) = places d := rfl
@[simp] theorem places_classDecl (d : ClassDef) : places (Declaration.classDecl d) = places d := rfl
@[simp] theorem places_property (d : PropertyDef) : places (Declaration.property d) = places d := rfl
@[simp] theorem places_compilerCall (call : Located Expr) :
    places (Declaration.compilerCall call) = places call := rfl

@[simp] theorem places_classDef (ms : Modifiers) (name : String)
    (constructor : Option (Located (List (Located ClassParam))))
    (members : List (Located Declaration)) :
    places (ClassDef.mk ms name constructor members) =
      places ms ++ places constructor ++ places members := by
  rw [← Declaration.listPlaces_eq]
  rfl

end Linewise
