import Linewise.Ast

/-!
# How deep blocks nest

`nesting` is the largest number of blocks on a path from the root of a tree downwards. It takes the
weight of a loose body, which is the body of a loop or of a function that is one statement or value
without braces: with weight 1 all blocks count, with weight 0 these do not.
-/

namespace Linewise

class HasNesting (α : Type) where
  nesting : (loose : Nat) → α → Nat

export HasNesting (nesting)

variable {α β : Type} {loose n : Nat}

/-- A body in braces is larger than the statement that is all of it. -/
def bodyWeight (loose : Nat) (span : Span) : List (Located Statement) → Nat
  | [s] => if s.span = span then loose else 1
  | _ => 1

-- ---------------------------------------------------------------------------
-- Expressions and statements
-- ---------------------------------------------------------------------------

mutual
def Expr.nesting (loose : Nat) : Expr → Nat
  | .name _ | .integer _ | .string _ | .null => 0
  | .array elements => Expr.listNesting loose elements
  | .lambda body => body.nesting loose
  | .call ⟨callee, _⟩ args => max (callee.nesting loose) (Argument.listNesting loose args)
  | .member ⟨target, _⟩ _ => target.nesting loose
  | .index ⟨target, _⟩ ⟨index, _⟩ => max (target.nesting loose) (index.nesting loose)
  | .binary _ ⟨lhs, _⟩ ⟨rhs, _⟩ => max (lhs.nesting loose) (rhs.nesting loose)
  | .assign ⟨target, _⟩ ⟨value, _⟩ => max (target.nesting loose) (value.nesting loose)
  | .compilerExec ⟨inner, _⟩ => inner.nesting loose
  | .cond ⟨condition, _⟩ ⟨thenBody, _⟩ none => max (condition.nesting loose) (thenBody.nesting loose)
  | .cond ⟨condition, _⟩ ⟨thenBody, _⟩ (some ⟨elseBody, _⟩) =>
    max (max (condition.nesting loose) (thenBody.nesting loose)) (elseBody.nesting loose)
  | .whenCase none cases => WhenCase.listNesting loose cases
  | .whenCase (some ⟨subject, _⟩) cases =>
    max (subject.nesting loose) (WhenCase.listNesting loose cases)
def Expr.listNesting (loose : Nat) : List (Located Expr) → Nat
  | [] => 0
  | ⟨e, _⟩ :: es => max (e.nesting loose) (Expr.listNesting loose es)
def Argument.nesting (loose : Nat) : Argument → Nat
  | ⟨_, ⟨e, _⟩⟩ => e.nesting loose
def Argument.listNesting (loose : Nat) : List (Located Argument) → Nat
  | [] => 0
  | ⟨a, _⟩ :: as => max (a.nesting loose) (Argument.listNesting loose as)
def WhenCase.nesting (loose : Nat) : WhenCase → Nat
  | .matching conditions ⟨body, _⟩ => max (Expr.listNesting loose conditions) (body.nesting loose)
  | .otherwise ⟨body, _⟩ => body.nesting loose
def WhenCase.listNesting (loose : Nat) : List (Located WhenCase) → Nat
  | [] => 0
  | ⟨c, _⟩ :: cs => max (c.nesting loose) (WhenCase.listNesting loose cs)
def Block.nesting (loose : Nat) : Block → Nat
  | ⟨statements⟩ => Statement.listNesting loose statements + 1
def Statement.nesting (loose : Nat) : Statement → Nat
  | .expr e => e.nesting loose
  | .property d => d.nesting loose
  | .while ⟨condition, _⟩ ⟨⟨statements⟩, span⟩ =>
    max (condition.nesting loose)
      (Statement.listNesting loose statements + bodyWeight loose span statements)
  | .function d => d.nesting loose
def Statement.listNesting (loose : Nat) : List (Located Statement) → Nat
  | [] => 0
  | ⟨a, _⟩ :: as => max (a.nesting loose) (Statement.listNesting loose as)
def Annotated.nesting (loose : Nat) : Annotated → Nat
  | ⟨_, args⟩ => Argument.listNesting loose args
def Annotated.listNesting (loose : Nat) : List (Located Annotated) → Nat
  | [] => 0
  | ⟨a, _⟩ :: as => max (a.nesting loose) (Annotated.listNesting loose as)
def Modifiers.nesting (loose : Nat) : Modifiers → Nat
  | ⟨_, as⟩ => Annotated.listNesting loose as
def PropertyDef.nesting (loose : Nat) : PropertyDef → Nat
  | ⟨ms, _, _, _, none⟩ => ms.nesting loose
  | ⟨ms, _, _, _, some ⟨value, _⟩⟩ => max (ms.nesting loose) (value.nesting loose)
def FunctionDef.nesting (loose : Nat) : FunctionDef → Nat
  | ⟨ms, _, _, _, _, none⟩ => ms.nesting loose
  | ⟨ms, _, _, _, _, some ⟨⟨statements⟩, span⟩⟩ =>
    max (ms.nesting loose)
      (Statement.listNesting loose statements + bodyWeight loose span statements)
end

instance : HasNesting Expr := ⟨Expr.nesting⟩
instance : HasNesting Argument := ⟨Argument.nesting⟩
instance : HasNesting WhenCase := ⟨WhenCase.nesting⟩
instance : HasNesting Block := ⟨Block.nesting⟩
instance : HasNesting Statement := ⟨Statement.nesting⟩
instance : HasNesting Annotated := ⟨Annotated.nesting⟩
instance : HasNesting Modifiers := ⟨Modifiers.nesting⟩
instance : HasNesting PropertyDef := ⟨PropertyDef.nesting⟩
instance : HasNesting FunctionDef := ⟨FunctionDef.nesting⟩
instance [HasNesting α] : HasNesting (Located α) := ⟨fun loose a => nesting loose a.node⟩
instance [HasNesting α] : HasNesting (Option α) := ⟨fun loose a => (a.map (nesting loose)).getD 0⟩
instance [HasNesting α] : HasNesting (List α) :=
  ⟨fun loose as => as.foldr (fun a n => max (nesting loose a) n) 0⟩

/-- How deep blocks nest in the body of a loop or of a function, the body included. -/
def bodyNesting (loose : Nat) (body : Located Block) : Nat :=
  nesting loose body.node.statements + bodyWeight loose body.span body.node.statements

-- ---------------------------------------------------------------------------
-- Declarations
-- ---------------------------------------------------------------------------

instance : HasNesting ClassParam where
  nesting loose
    | .property decl => nesting loose decl
    | .plain _ => 0

mutual
def Declaration.nesting (loose : Nat) : Declaration → Nat
  | .function decl => decl.nesting loose
  | .classDecl decl => decl.nesting loose
  | .property decl => decl.nesting loose
  | .compilerCall call => HasNesting.nesting loose call
def ClassDef.nesting (loose : Nat) : ClassDef → Nat
  | ⟨ms, _, constructor, members⟩ =>
    max (max (ms.nesting loose) (HasNesting.nesting loose constructor))
      (Declaration.listNesting loose members)
def Declaration.listNesting (loose : Nat) : List (Located Declaration) → Nat
  | [] => 0
  | ⟨d, _⟩ :: ds => max (d.nesting loose) (Declaration.listNesting loose ds)
end

instance : HasNesting Declaration := ⟨Declaration.nesting⟩
instance : HasNesting ClassDef := ⟨ClassDef.nesting⟩
instance : HasNesting SourceFile := ⟨fun loose file => nesting loose file.declarations⟩

-- ---------------------------------------------------------------------------
-- Equations
-- ---------------------------------------------------------------------------

section
variable [HasNesting α]

@[simp] theorem nesting_located (a : Located α) : nesting loose a = nesting loose a.node := rfl
@[simp] theorem nesting_none : nesting loose (none : Option α) = 0 := rfl
@[simp] theorem nesting_some (a : α) : nesting loose (some a) = nesting loose a := rfl
@[simp] theorem nesting_nil : nesting loose ([] : List α) = 0 := rfl
@[simp] theorem nesting_cons (a : α) (as : List α) :
    nesting loose (a :: as) = max (nesting loose a) (nesting loose as) := rfl

theorem nesting_list_le {as : List α} : nesting loose as ≤ n ↔ ∀ a ∈ as, nesting loose a ≤ n := by
  induction as with
  | nil => simp
  | cons a as ih => rw [nesting_cons, Nat.max_le, ih, List.forall_mem_cons]

@[simp] theorem nesting_append (as bs : List α) :
    nesting loose (as ++ bs) = max (nesting loose as) (nesting loose bs) := by
  induction as with
  | nil => simp
  | cons a as ih => rw [List.cons_append, nesting_cons, ih, nesting_cons, Nat.max_assoc]

theorem eq_nesting {g : List α → Nat} (hnil : g [] = 0)
    (hcons : ∀ a as, g (a :: as) = max (nesting loose a) (g as)) (as : List α) :
    g as = nesting loose as := by
  induction as with
  | nil => exact hnil
  | cons a as ih => rw [hcons, ih, nesting_cons]

end

theorem Expr.listNesting_eq (es : List (Located Expr)) :
    Expr.listNesting loose es = HasNesting.nesting loose es :=
  eq_nesting rfl (fun _ _ => rfl) es

theorem Argument.listNesting_eq (as : List (Located Argument)) :
    Argument.listNesting loose as = HasNesting.nesting loose as :=
  eq_nesting rfl (fun _ _ => rfl) as

theorem WhenCase.listNesting_eq (cs : List (Located WhenCase)) :
    WhenCase.listNesting loose cs = HasNesting.nesting loose cs :=
  eq_nesting rfl (fun _ _ => rfl) cs

theorem Statement.listNesting_eq (ss : List (Located Statement)) :
    Statement.listNesting loose ss = HasNesting.nesting loose ss :=
  eq_nesting rfl (fun _ _ => rfl) ss

theorem Annotated.listNesting_eq (as : List (Located Annotated)) :
    Annotated.listNesting loose as = HasNesting.nesting loose as :=
  eq_nesting rfl (fun _ _ => rfl) as

theorem Declaration.listNesting_eq (ds : List (Located Declaration)) :
    Declaration.listNesting loose ds = HasNesting.nesting loose ds :=
  eq_nesting rfl (fun _ _ => rfl) ds

@[simp] theorem nesting_name (text : String) : nesting loose (Expr.name text) = 0 := rfl
@[simp] theorem nesting_integer (text : String) : nesting loose (Expr.integer text) = 0 := rfl
@[simp] theorem nesting_string (parts : List StringPart) :
    nesting loose (Expr.string parts) = 0 := rfl
@[simp] theorem nesting_null : nesting loose Expr.null = 0 := rfl

@[simp] theorem nesting_array (es : List (Located Expr)) :
    nesting loose (Expr.array es) = nesting loose es := Expr.listNesting_eq es

@[simp] theorem nesting_lambda (body : Block) :
    nesting loose (Expr.lambda body) = nesting loose body := rfl

@[simp] theorem nesting_call (callee : Located Expr) (args : List (Located Argument)) :
    nesting loose (Expr.call callee args) = max (nesting loose callee) (nesting loose args) := by
  rw [← Argument.listNesting_eq]
  rfl

@[simp] theorem nesting_member (target : Located Expr) (name : String) :
    nesting loose (Expr.member target name) = nesting loose target := rfl

@[simp] theorem nesting_index (target index : Located Expr) :
    nesting loose (Expr.index target index) = max (nesting loose target) (nesting loose index) := rfl

@[simp] theorem nesting_binary (op : BinaryOp) (lhs rhs : Located Expr) :
    nesting loose (Expr.binary op lhs rhs) = max (nesting loose lhs) (nesting loose rhs) := rfl

@[simp] theorem nesting_assign (target value : Located Expr) :
    nesting loose (Expr.assign target value) = max (nesting loose target) (nesting loose value) :=
  rfl

@[simp] theorem nesting_compilerExec (inner : Located Expr) :
    nesting loose (Expr.compilerExec inner) = nesting loose inner := rfl

@[simp] theorem nesting_cond (condition : Located Expr) (thenBody : Located Block)
    (elseBody : Option (Located Block)) :
    nesting loose (Expr.cond condition thenBody elseBody) =
      max (max (nesting loose condition) (nesting loose thenBody)) (nesting loose elseBody) := by
  cases elseBody with
  | none => exact (Nat.max_zero _).symm
  | some body => rfl

@[simp] theorem nesting_whenChoice (subject : Option (Located Expr))
    (cases : List (Located WhenCase)) :
    nesting loose (Expr.whenCase subject cases) =
      max (nesting loose subject) (nesting loose cases) := by
  rw [← WhenCase.listNesting_eq]
  cases subject with
  | none => exact (Nat.zero_max _).symm
  | some subject => rfl

@[simp] theorem nesting_argument (name : Option String) (value : Located Expr) :
    nesting loose (Argument.mk name value) = nesting loose value := rfl

@[simp] theorem nesting_matching (conditions : List (Located Expr)) (body : Located Block) :
    nesting loose (WhenCase.matching conditions body) =
      max (nesting loose conditions) (nesting loose body) := by
  rw [← Expr.listNesting_eq]
  rfl

@[simp] theorem nesting_otherwise (body : Located Block) :
    nesting loose (WhenCase.otherwise body) = nesting loose body := rfl

@[simp] theorem nesting_block (statements : List (Located Statement)) :
    nesting loose (Block.mk statements) = nesting loose statements + 1 := by
  rw [← Statement.listNesting_eq]
  rfl

@[simp] theorem nesting_exprStatement (e : Expr) :
    nesting loose (Statement.expr e) = nesting loose e := rfl

@[simp] theorem nesting_propertyStatement (d : PropertyDef) :
    nesting loose (Statement.property d) = nesting loose d := rfl

@[simp] theorem nesting_functionStatement (d : FunctionDef) :
    nesting loose (Statement.function d) = nesting loose d := rfl

@[simp] theorem nesting_while (condition : Located Expr) (body : Located Block) :
    nesting loose (Statement.while condition body) =
      max (nesting loose condition) (bodyNesting loose body) := by
  rcases body with ⟨⟨statements⟩, span⟩
  rw [bodyNesting, ← Statement.listNesting_eq]
  rfl

@[simp] theorem nesting_annotated (name : String) (args : List (Located Argument)) :
    nesting loose (Annotated.mk name args) = nesting loose args := Argument.listNesting_eq args

@[simp] theorem nesting_modifiers (ms : List (Located Modifier)) (as : List (Located Annotated)) :
    nesting loose (Modifiers.mk ms as) = nesting loose as := Annotated.listNesting_eq as

@[simp] theorem nesting_property (ms : Modifiers) (readonly : Bool) (name : String)
    (type : Option (Located Ty)) (value : Option (Located Expr)) :
    nesting loose (PropertyDef.mk ms readonly name type value) =
      max (nesting loose ms) (nesting loose value) := by
  cases value with
  | none => exact (Nat.max_zero _).symm
  | some value => rfl

@[simp] theorem nesting_function (ms : Modifiers) (receiver : Option (Located Ty)) (name : String)
    (params : List (Located Param)) (result : Option (Located Ty)) (body : Option (Located Block)) :
    nesting loose (FunctionDef.mk ms receiver name params result body) =
      max (nesting loose ms) ((body.map (bodyNesting loose)).getD 0) := by
  cases body with
  | none => exact (Nat.max_zero _).symm
  | some body =>
    rcases body with ⟨⟨statements⟩, span⟩
    rw [Option.map_some, Option.getD_some, bodyNesting, ← Statement.listNesting_eq]
    rfl

@[simp] theorem nesting_propertyParam (d : PropertyDef) :
    nesting loose (ClassParam.property d) = nesting loose d := rfl

@[simp] theorem nesting_plainParam (p : Param) : nesting loose (ClassParam.plain p) = 0 := rfl

@[simp] theorem nesting_functionDecl (d : FunctionDef) :
    nesting loose (Declaration.function d) = nesting loose d := rfl

@[simp] theorem nesting_classDecl (d : ClassDef) :
    nesting loose (Declaration.classDecl d) = nesting loose d := rfl

@[simp] theorem nesting_propertyDecl (d : PropertyDef) :
    nesting loose (Declaration.property d) = nesting loose d := rfl

@[simp] theorem nesting_compilerCall (call : Located Expr) :
    nesting loose (Declaration.compilerCall call) = nesting loose call := rfl

@[simp] theorem nesting_class (ms : Modifiers) (name : String)
    (constructor : Option (Located (List (Located ClassParam))))
    (members : List (Located Declaration)) :
    nesting loose (ClassDef.mk ms name constructor members) =
      max (max (nesting loose ms) (nesting loose constructor)) (nesting loose members) := by
  rw [← Declaration.listNesting_eq]
  rfl

-- ---------------------------------------------------------------------------
-- Bodies
-- ---------------------------------------------------------------------------

theorem bodyNesting_single (s : Located Statement) :
    bodyNesting loose (Block.single s) = nesting loose s + loose := by
  simp [bodyNesting, Block.single, bodyWeight]

theorem bodyNesting_le (h : loose ≤ 1) (body : Located Block) :
    bodyNesting loose body ≤ nesting loose body := by
  rcases body with ⟨⟨statements⟩, span⟩
  have hweight : bodyWeight loose span statements ≤ 1 := by
    unfold bodyWeight
    split
    · split
      · exact h
      · exact Nat.le_refl 1
    · exact Nat.le_refl 1
  rw [nesting_located, nesting_block]
  exact Nat.add_le_add_left hweight _

end Linewise
