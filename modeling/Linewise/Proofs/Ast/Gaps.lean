import Linewise.Ast

/-!
# Gaps between items

A gap is the place between two items that follow each other: declarations of a source, members of a class,
statements of a block, cases of a choice. `gaps` lists those of a whole tree, each in front of what stands
inside the item behind it, which is the order of the source.
-/

namespace Linewise

/-- The spans of the items before and behind a gap. -/
abbrev Gap : Type := Span × Span

class HasGaps (α : Type) where
  gaps : α → List Gap

export HasGaps (gaps)

variable {α β : Type}

/-- The gap behind an item, if there is one. -/
def gapBehind (last : Option Span) (span : Span) : List Gap := (last.map fun s => (s, span)).toList

-- ---------------------------------------------------------------------------
-- Expressions and statements
-- ---------------------------------------------------------------------------

mutual
def Expr.gaps : Expr → List Gap
  | .name _ | .integer _ | .string _ | .null => []
  | .array elements => Expr.listGaps elements
  | .lambda body => body.gaps
  | .call ⟨callee, _⟩ args => callee.gaps ++ Argument.listGaps args
  | .member ⟨target, _⟩ _ => target.gaps
  | .index ⟨target, _⟩ ⟨index, _⟩ => target.gaps ++ index.gaps
  | .binary _ ⟨lhs, _⟩ ⟨rhs, _⟩ => lhs.gaps ++ rhs.gaps
  | .assign ⟨target, _⟩ ⟨value, _⟩ => target.gaps ++ value.gaps
  | .compilerExec ⟨inner, _⟩ => inner.gaps
  | .cond ⟨condition, _⟩ ⟨thenBody, _⟩ none => condition.gaps ++ thenBody.gaps
  | .cond ⟨condition, _⟩ ⟨thenBody, _⟩ (some ⟨elseBody, _⟩) =>
    condition.gaps ++ thenBody.gaps ++ elseBody.gaps
  | .whenCase none cases => WhenCase.itemGaps none cases
  | .whenCase (some ⟨subject, _⟩) cases => subject.gaps ++ WhenCase.itemGaps none cases
def Expr.listGaps : List (Located Expr) → List Gap
  | [] => []
  | ⟨e, _⟩ :: es => e.gaps ++ Expr.listGaps es
def Argument.gaps : Argument → List Gap
  | ⟨_, ⟨e, _⟩⟩ => e.gaps
def Argument.listGaps : List (Located Argument) → List Gap
  | [] => []
  | ⟨a, _⟩ :: as => a.gaps ++ Argument.listGaps as
def WhenCase.gaps : WhenCase → List Gap
  | .matching conditions ⟨body, _⟩ => Expr.listGaps conditions ++ body.gaps
  | .otherwise ⟨body, _⟩ => body.gaps
def WhenCase.itemGaps (last : Option Span) : List (Located WhenCase) → List Gap
  | [] => []
  | ⟨c, s⟩ :: cs => gapBehind last s ++ c.gaps ++ WhenCase.itemGaps (some s) cs
def Block.gaps : Block → List Gap
  | ⟨statements⟩ => Statement.itemGaps none statements
def Statement.gaps : Statement → List Gap
  | .expr e => e.gaps
  | .property d => d.gaps
  | .while ⟨condition, _⟩ ⟨body, _⟩ => condition.gaps ++ body.gaps
  | .function d => d.gaps
def Statement.itemGaps (last : Option Span) : List (Located Statement) → List Gap
  | [] => []
  | ⟨a, s⟩ :: as => gapBehind last s ++ a.gaps ++ Statement.itemGaps (some s) as
def Annotated.gaps : Annotated → List Gap
  | ⟨_, args⟩ => Argument.listGaps args
def Annotated.listGaps : List (Located Annotated) → List Gap
  | [] => []
  | ⟨a, _⟩ :: as => a.gaps ++ Annotated.listGaps as
def Modifiers.gaps : Modifiers → List Gap
  | ⟨_, as⟩ => Annotated.listGaps as
def PropertyDef.gaps : PropertyDef → List Gap
  | ⟨ms, _, _, _, none⟩ => ms.gaps
  | ⟨ms, _, _, _, some ⟨value, _⟩⟩ => ms.gaps ++ value.gaps
def FunctionDef.gaps : FunctionDef → List Gap
  | ⟨ms, _, _, _, _, none⟩ => ms.gaps
  | ⟨ms, _, _, _, _, some ⟨body, _⟩⟩ => ms.gaps ++ body.gaps
end

instance : HasGaps Expr := ⟨Expr.gaps⟩
instance : HasGaps Argument := ⟨Argument.gaps⟩
instance : HasGaps WhenCase := ⟨WhenCase.gaps⟩
instance : HasGaps Block := ⟨Block.gaps⟩
instance : HasGaps Statement := ⟨Statement.gaps⟩
instance : HasGaps Annotated := ⟨Annotated.gaps⟩
instance : HasGaps Modifiers := ⟨Modifiers.gaps⟩
instance : HasGaps PropertyDef := ⟨PropertyDef.gaps⟩
instance : HasGaps FunctionDef := ⟨FunctionDef.gaps⟩
instance [HasGaps α] : HasGaps (Located α) := ⟨fun a => gaps a.node⟩
instance [HasGaps α] : HasGaps (Option α) := ⟨fun a => (a.map gaps).getD []⟩
instance [HasGaps α] : HasGaps (List α) := ⟨fun as => as.flatMap gaps⟩

/-- The gaps of items that stand behind one another, and perhaps behind an item before them. -/
def itemGaps [HasGaps α] (last : Option Span) : List (Located α) → List Gap
  | [] => []
  | a :: as => gapBehind last a.span ++ gaps a.node ++ itemGaps (some a.span) as

-- ---------------------------------------------------------------------------
-- Declarations
-- ---------------------------------------------------------------------------

instance : HasGaps ClassParam where
  gaps
    | .property decl => gaps decl
    | .plain _ => []

mutual
def Declaration.gaps : Declaration → List Gap
  | .function decl => decl.gaps
  | .classDecl decl => decl.gaps
  | .property decl => decl.gaps
  | .compilerCall call => HasGaps.gaps call
def ClassDef.gaps : ClassDef → List Gap
  | ⟨ms, _, constructor, members⟩ =>
    ms.gaps ++ HasGaps.gaps constructor ++ Declaration.itemGaps none members
def Declaration.itemGaps (last : Option Span) : List (Located Declaration) → List Gap
  | [] => []
  | ⟨d, s⟩ :: ds => gapBehind last s ++ d.gaps ++ Declaration.itemGaps (some s) ds
end

instance : HasGaps Declaration := ⟨Declaration.gaps⟩
instance : HasGaps ClassDef := ⟨ClassDef.gaps⟩
instance : HasGaps SourceFile := ⟨fun file => itemGaps none file.declarations⟩

-- ---------------------------------------------------------------------------
-- Equations
-- ---------------------------------------------------------------------------

section
variable [HasGaps α] {as bs : List α}

@[simp] theorem gaps_located (a : α) (s : Span) : gaps (⟨a, s⟩ : Located α) = gaps a := rfl
@[simp] theorem gaps_node (a : Located α) : gaps a.node = gaps a := rfl
@[simp] theorem gaps_none : gaps (none : Option α) = [] := rfl
@[simp] theorem gaps_some (a : α) : gaps (some a) = gaps a := rfl
@[simp] theorem gaps_nil : gaps ([] : List α) = [] := rfl
@[simp] theorem gaps_cons (a : α) (as : List α) : gaps (a :: as) = gaps a ++ gaps as := rfl
@[simp] theorem gaps_append (as bs : List α) : gaps (as ++ bs) = gaps as ++ gaps bs :=
  List.flatMap_append

@[simp] theorem gapBehind_none (span : Span) : gapBehind none span = [] := rfl
@[simp] theorem gapBehind_some (last span : Span) : gapBehind (some last) span = [(last, span)] := rfl
@[simp] theorem itemGaps_nil (last : Option Span) : itemGaps last ([] : List (Located α)) = [] := rfl
@[simp] theorem itemGaps_cons (last : Option Span) (a : Located α) (as : List (Located α)) :
    itemGaps last (a :: as) = gapBehind last a.span ++ gaps a ++ itemGaps (some a.span) as := rfl

theorem eq_gaps {g : List α → List Gap} (hnil : g [] = [])
    (hcons : ∀ a as, g (a :: as) = gaps a ++ g as) (as : List α) : g as = gaps as := by
  induction as with
  | nil => exact hnil
  | cons a as ih => rw [hcons, ih, gaps_cons]

theorem eq_itemGaps {g : Option Span → List (Located α) → List Gap} (hnil : ∀ last, g last [] = [])
    (hcons : ∀ last a as, g last (a :: as) = gapBehind last a.span ++ gaps a ++ g (some a.span) as)
    (last : Option Span) (as : List (Located α)) : g last as = itemGaps last as := by
  induction as generalizing last with
  | nil => exact hnil last
  | cons a as ih => rw [hcons, ih, itemGaps_cons]

end

theorem Expr.listGaps_eq (es : List (Located Expr)) : Expr.listGaps es = HasGaps.gaps es :=
  eq_gaps rfl (fun _ _ => rfl) es

theorem Argument.listGaps_eq (as : List (Located Argument)) :
    Argument.listGaps as = HasGaps.gaps as :=
  eq_gaps rfl (fun _ _ => rfl) as

theorem Annotated.listGaps_eq (as : List (Located Annotated)) :
    Annotated.listGaps as = HasGaps.gaps as :=
  eq_gaps rfl (fun _ _ => rfl) as

theorem WhenCase.itemGaps_eq (last : Option Span) (cs : List (Located WhenCase)) :
    WhenCase.itemGaps last cs = Linewise.itemGaps last cs :=
  eq_itemGaps (fun _ => rfl) (fun _ _ _ => rfl) last cs

theorem Statement.itemGaps_eq (last : Option Span) (ss : List (Located Statement)) :
    Statement.itemGaps last ss = Linewise.itemGaps last ss :=
  eq_itemGaps (fun _ => rfl) (fun _ _ _ => rfl) last ss

theorem Declaration.itemGaps_eq (last : Option Span) (ds : List (Located Declaration)) :
    Declaration.itemGaps last ds = Linewise.itemGaps last ds :=
  eq_itemGaps (fun _ => rfl) (fun _ _ _ => rfl) last ds

-- A node's gaps are those of its parts, and those between its items.

@[simp] theorem gaps_name (text : String) : gaps (Expr.name text) = [] := rfl
@[simp] theorem gaps_integer (text : String) : gaps (Expr.integer text) = [] := rfl
@[simp] theorem gaps_string (parts : List StringPart) : gaps (Expr.string parts) = [] := rfl
@[simp] theorem gaps_null : gaps Expr.null = [] := rfl
@[simp] theorem gaps_lambda (body : Block) : gaps (Expr.lambda body) = gaps body := rfl
@[simp] theorem gaps_member (target : Located Expr) (name : String) :
    gaps (Expr.member target name) = gaps target := rfl
@[simp] theorem gaps_index (target index : Located Expr) :
    gaps (Expr.index target index) = gaps target ++ gaps index := rfl
@[simp] theorem gaps_binary (op : BinaryOp) (lhs rhs : Located Expr) :
    gaps (Expr.binary op lhs rhs) = gaps lhs ++ gaps rhs := rfl
@[simp] theorem gaps_assign (target value : Located Expr) :
    gaps (Expr.assign target value) = gaps target ++ gaps value := rfl
@[simp] theorem gaps_compilerExec (inner : Located Expr) :
    gaps (Expr.compilerExec inner) = gaps inner := rfl

@[simp] theorem gaps_array (es : List (Located Expr)) : gaps (Expr.array es) = gaps es := by
  rw [← Expr.listGaps_eq]
  rfl

@[simp] theorem gaps_call (callee : Located Expr) (args : List (Located Argument)) :
    gaps (Expr.call callee args) = gaps callee ++ gaps args := by
  rw [← Argument.listGaps_eq]
  rfl

@[simp] theorem gaps_cond (condition : Located Expr) (thenBody : Located Block)
    (elseBody : Option (Located Block)) :
    gaps (Expr.cond condition thenBody elseBody) =
      gaps condition ++ gaps thenBody ++ gaps elseBody := by
  cases elseBody with
  | none => exact (List.append_nil _).symm
  | some => rfl

@[simp] theorem gaps_whenChoice (subject : Option (Located Expr)) (cases : List (Located WhenCase)) :
    gaps (Expr.whenCase subject cases) = gaps subject ++ itemGaps none cases := by
  rw [← WhenCase.itemGaps_eq]
  cases subject <;> rfl

@[simp] theorem gaps_argument (name : Option String) (value : Located Expr) :
    gaps (Argument.mk name value) = gaps value := rfl

@[simp] theorem gaps_matching (conditions : List (Located Expr)) (body : Located Block) :
    gaps (WhenCase.matching conditions body) = gaps conditions ++ gaps body := by
  rw [← Expr.listGaps_eq]
  rfl

@[simp] theorem gaps_otherwise (body : Located Block) :
    gaps (WhenCase.otherwise body) = gaps body := rfl

@[simp] theorem gaps_block (statements : List (Located Statement)) :
    gaps (Block.mk statements) = itemGaps none statements :=
  Statement.itemGaps_eq none statements

@[simp] theorem gaps_single (s : Located Statement) : gaps (Block.single s) = gaps s := by
  simp [Block.single]

@[simp] theorem gaps_expr (e : Expr) : gaps (Statement.expr e) = gaps e := rfl
@[simp] theorem gaps_localProperty (d : PropertyDef) : gaps (Statement.property d) = gaps d := rfl
@[simp] theorem gaps_while (condition : Located Expr) (body : Located Block) :
    gaps (Statement.while condition body) = gaps condition ++ gaps body := rfl
@[simp] theorem gaps_localFunction (d : FunctionDef) : gaps (Statement.function d) = gaps d := rfl

@[simp] theorem gaps_annotated (name : String) (args : List (Located Argument)) :
    gaps (Annotated.mk name args) = gaps args :=
  Argument.listGaps_eq args

@[simp] theorem gaps_modifiers (ms : List (Located Modifier)) (as : List (Located Annotated)) :
    gaps (Modifiers.mk ms as) = gaps as :=
  Annotated.listGaps_eq as

@[simp] theorem gaps_propertyDef (ms : Modifiers) (readonly : Bool) (name : String)
    (type : Option (Located Ty)) (value : Option (Located Expr)) :
    gaps (PropertyDef.mk ms readonly name type value) = gaps ms ++ gaps value := by
  cases value with
  | none => exact (List.append_nil _).symm
  | some => rfl

@[simp] theorem gaps_functionDef (ms : Modifiers) (receiver : Option (Located Ty)) (name : String)
    (params : List (Located Param)) (result : Option (Located Ty)) (body : Option (Located Block)) :
    gaps (FunctionDef.mk ms receiver name params result body) = gaps ms ++ gaps body := by
  cases body with
  | none => exact (List.append_nil _).symm
  | some => rfl

@[simp] theorem gaps_classProperty (d : PropertyDef) : gaps (ClassParam.property d) = gaps d := rfl
@[simp] theorem gaps_plain (p : Param) : gaps (ClassParam.plain p) = [] := rfl

@[simp] theorem gaps_function (d : FunctionDef) : gaps (Declaration.function d) = gaps d := rfl
@[simp] theorem gaps_classDecl (d : ClassDef) : gaps (Declaration.classDecl d) = gaps d := rfl
@[simp] theorem gaps_property (d : PropertyDef) : gaps (Declaration.property d) = gaps d := rfl
@[simp] theorem gaps_compilerCall (call : Located Expr) :
    gaps (Declaration.compilerCall call) = gaps call := rfl

@[simp] theorem gaps_classDef (ms : Modifiers) (name : String)
    (constructor : Option (Located (List (Located ClassParam))))
    (members : List (Located Declaration)) :
    gaps (ClassDef.mk ms name constructor members) =
      gaps ms ++ gaps constructor ++ itemGaps none members := by
  rw [← Declaration.itemGaps_eq]
  rfl

end Linewise
