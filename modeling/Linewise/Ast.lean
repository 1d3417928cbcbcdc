import Linewise.Span
import Linewise.StringLiteral

/-!
# Syntax trees

What a source text says once it is parsed. A node that stands for a part of the source is `Located`.
-/

namespace Linewise

mutual
inductive Ty where
  | user (type : UserType)
  | nullable (inner : Located Ty)
  | pointer (inner : Located Ty)
  | function (receiver : Option (Located Ty)) (params : List (Option String × Located Ty))
      (result : Located Ty)
/-- A name with type arguments, alone or as a member of another one. -/
inductive UserType where
  | simple (name : String) (args : List (Located Ty))
  | member (parent : UserType) (name : String) (args : List (Located Ty))
end

inductive BinaryOp where
  | plus | minus | times | divide
  | equals | notEquals
  | less | greater | lessEqual | greaterEqual
deriving DecidableEq

def BinaryOp.symbol : BinaryOp → String
  | plus => "+"
  | minus => "-"
  | times => "*"
  | divide => "/"
  | equals => "=="
  | notEquals => "!="
  | less => "<"
  | greater => ">"
  | lessEqual => "<="
  | greaterEqual => ">="

structure Param where
  name : String
  type : Located Ty

inductive Modifier where
  | external (library : Option String)
  | compiler
  | abstractItem

mutual
inductive Expr where
  | name (text : String)
  | integer (text : String)
  | string (parts : List StringPart)
  | null
  | array (elements : List (Located Expr))
  | lambda (body : Block)
  | call (callee : Located Expr) (args : List (Located Argument))
  | member (target : Located Expr) (name : String)
  | index (target : Located Expr) (index : Located Expr)
  | binary (op : BinaryOp) (lhs : Located Expr) (rhs : Located Expr)
  | assign (target : Located Expr) (value : Located Expr)
  | compilerExec (inner : Located Expr)
  | cond (condition : Located Expr) (thenBody : Located Block) (elseBody : Option (Located Block))
  | whenCase (subject : Option (Located Expr)) (cases : List (Located WhenCase))
structure Argument where
  name : Option String
  value : Located Expr
inductive WhenCase where
  | matching (conditions : List (Located Expr)) (body : Located Block)
  | otherwise (body : Located Block)
structure Block where
  statements : List (Located Statement)
inductive Statement where
  | expr (value : Expr)
  | property (decl : PropertyDef)
  | while (condition : Located Expr) (body : Located Block)
  | function (decl : FunctionDef)
structure Annotated where
  name : String
  args : List (Located Argument)
structure Modifiers where
  modifiers : List (Located Modifier)
  annotations : List (Located Annotated)
structure PropertyDef where
  modifiers : Modifiers
  readonly : Bool
  name : String
  type : Option (Located Ty)
  value : Option (Located Expr)
structure FunctionDef where
  modifiers : Modifiers
  receiver : Option (Located Ty)
  name : String
  params : List (Located Param)
  result : Option (Located Ty)
  body : Option (Located Block)
end

def Modifiers.isEmpty (m : Modifiers) : Bool := m.modifiers.isEmpty && m.annotations.isEmpty

theorem Modifiers.eq_of_isEmpty {m : Modifiers} (h : m.isEmpty = true) : m = ⟨[], []⟩ := by
  rcases m with ⟨ms, as⟩
  obtain ⟨hms, has⟩ := Bool.and_eq_true_iff.mp h
  cases List.isEmpty_iff.mp hms
  cases List.isEmpty_iff.mp has
  rfl

/-- Only names, members and elements can be assigned to. -/
def Expr.isPlace : Expr → Bool
  | name _ | member _ _ | index _ _ => true
  | _ => false

def Expr.isCall : Expr → Bool
  | call _ _ => true
  | _ => false

/-- A body that holds one statement and covers the same text. -/
def Block.single (s : Located Statement) : Located Block := ⟨⟨[s]⟩, s.span⟩

inductive ClassParam where
  | property (decl : PropertyDef)
  | plain (param : Param)

mutual
inductive Declaration where
  | function (decl : FunctionDef)
  | classDecl (decl : ClassDef)
  | property (decl : PropertyDef)
  | compilerCall (call : Located Expr)
structure ClassDef where
  modifiers : Modifiers
  name : String
  constructor : Option (Located (List (Located ClassParam)))
  members : List (Located Declaration)
end

structure SourceFile where
  declarations : List (Located Declaration)

end Linewise
