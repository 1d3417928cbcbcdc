import Linewise.Ast.TypeText

/-!
# Outlines

The outline of a syntax tree names for each node its role under its parent, its tag, the span it
covers and a few attributes, with its children in the order of the grammar. `rows` lists outlines
from their roots down with the depth of each node.
-/

namespace Linewise

inductive Attribute where
  | text (s : String)
  | count (n : Nat)
  | flag (b : Bool)
  | parts (ps : List StringPart)
  | missing
deriving DecidableEq

def Attribute.ofText? : Option String → Attribute
  | some s => .text s
  | none => .missing

inductive Outline where
  | node (role tag : String) (span : Option Span) (attributes : List Attribute)
      (children : List Outline)

namespace Outline

structure Row where
  depth : Nat
  role : String
  tag : String
  span : Option Span
  attributes : List Attribute
deriving DecidableEq

mutual
/-- The rows of an outline in front of the rows given. -/
def rowsOnto (depth : Nat) (rest : List Row) : Outline → List Row
  | node role tag span attributes children =>
    ⟨depth, role, tag, span, attributes⟩ :: rowsAllOnto (depth + 1) rest children
def rowsAllOnto (depth : Nat) (rest : List Row) : List Outline → List Row
  | [] => rest
  | o :: os => rowsOnto depth (rowsAllOnto depth rest os) o
end

def rows (os : List Outline) : List Row := rowsAllOnto 0 [] os

end Outline

mutual
def Ty.outline (role : String) (span : Span) : Ty → Outline
  | .user t => t.outline role "user" (some span)
  | .nullable ⟨t, s⟩ =>
    .node role "nullable" span [.text (t.display ++ "?")] [t.outline "inner" s]
  | .pointer ⟨t, s⟩ =>
    .node role "pointer" span [.text (t.display ++ "*")] [t.outline "inner" s]
  | .function none params ⟨t, s⟩ =>
    .node role "function_type" span [.text (Ty.function none params ⟨t, s⟩).display]
      (outlineTypeParams params ++ [t.outline "return" s])
  | .function (some ⟨r, rs⟩) params ⟨t, s⟩ =>
    .node role "function_type" span [.text (Ty.function (some ⟨r, rs⟩) params ⟨t, s⟩).display]
      (r.outline "receiver" rs :: (outlineTypeParams params ++ [t.outline "return" s]))
def UserType.outline (role tag : String) (span : Option Span) : UserType → Outline
  | .simple name args =>
    .node role tag span [.text (UserType.simple name args).display, .text name]
      (outlineTypeArgs args)
  | .member parent name args =>
    .node role tag span [.text (UserType.member parent name args).display, .text name]
      (parent.outline "parent" "user" none :: outlineTypeArgs args)
def outlineTypeArgs : List (Located Ty) → List Outline
  | [] => []
  | ⟨t, s⟩ :: ts => t.outline "arg" s :: outlineTypeArgs ts
def outlineTypeParams : List (Option String × Located Ty) → List Outline
  | [] => []
  | (name, ⟨t, s⟩) :: ps =>
    .node "param" "type_param" none [.ofText? name] [t.outline "type" s] :: outlineTypeParams ps
end

def outlineType (role : String) (t : Located Ty) : Outline := t.node.outline role t.span

def Param.outline (span : Span) (p : Param) : Outline :=
  .node "param" "param" span [.text p.name] [outlineType "type" p.type]

def outlineSignature (receiver : Option (Located Ty)) (params : List (Located Param))
    (result : Option (Located Ty)) : List Outline :=
  (receiver.map (outlineType "receiver")).toList ++ params.map (fun p => p.node.outline p.span) ++
    (result.map (outlineType "return")).toList

def Modifier.outline (span : Span) : Modifier → Outline
  | .external library => .node "modifier" "extern" span [.ofText? library] []
  | .compiler => .node "modifier" "compiler" span [.missing] []
  | .abstractItem => .node "modifier" "abstract" span [.missing] []

mutual
def Expr.outline (role : String) (span : Span) : Expr → Outline
  | .name text => .node role "ident" span [.text text] []
  | .integer text => .node role "integer" span [.text text] []
  | .string parts => .node role "string" span [.parts parts] []
  | .null => .node role "null" span [] []
  | .array elements =>
    .node role "array" span [.count elements.length] (outlineExprs "element" elements)
  | .lambda ⟨statements⟩ =>
    .node role "lambda" span [.count statements.length] (outlineStatements statements)
  | .call ⟨callee, s⟩ args =>
    .node role "call" span [.count args.length] (callee.outline "callee" s :: outlineArgs args)
  | .member ⟨target, s⟩ name =>
    .node role "member" span [.text name] [target.outline "target" s]
  | .index ⟨target, s⟩ ⟨index, t⟩ =>
    .node role "index" span [] [target.outline "target" s, index.outline "index" t]
  | .binary op ⟨lhs, s⟩ ⟨rhs, t⟩ =>
    .node role "binary" span [.text op.symbol] [lhs.outline "lhs" s, rhs.outline "rhs" t]
  | .assign ⟨target, s⟩ ⟨value, t⟩ =>
    .node role "assign" span [] [target.outline "target" s, value.outline "value" t]
  | .compilerExec ⟨inner, s⟩ => .node role "compiler_exec" span [] [inner.outline "inner" s]
  | .cond ⟨condition, s⟩ ⟨thenBody, t⟩ none =>
    .node role "if" span [.flag false]
      [condition.outline "condition" s, thenBody.outline "then" t]
  | .cond ⟨condition, s⟩ ⟨thenBody, t⟩ (some ⟨elseBody, u⟩) =>
    .node role "if" span [.flag true]
      [condition.outline "condition" s, thenBody.outline "then" t, elseBody.outline "else" u]
  | .whenCase none cases =>
    .node role "when" span [.flag false, .count cases.length] (outlineCases cases)
  | .whenCase (some ⟨subject, s⟩) cases =>
    .node role "when" span [.flag true, .count cases.length]
      (subject.outline "subject" s :: outlineCases cases)
def outlineExprs (role : String) : List (Located Expr) → List Outline
  | [] => []
  | ⟨e, s⟩ :: es => e.outline role s :: outlineExprs role es
def outlineArgs : List (Located Argument) → List Outline
  | [] => []
  | ⟨⟨name, value, t⟩, s⟩ :: args =>
    .node "arg" "arg" (some s) [.ofText? name] [value.outline "value" t] :: outlineArgs args
def outlineCases : List (Located WhenCase) → List Outline
  | [] => []
  | ⟨.matching conditions ⟨body, t⟩, s⟩ :: cases =>
    .node "case" "match" (some s) [.count conditions.length]
      (outlineExprs "condition" conditions ++ [body.outline "body" t]) :: outlineCases cases
  | ⟨.otherwise ⟨body, t⟩, s⟩ :: cases =>
    .node "case" "else" (some s) [] [body.outline "body" t] :: outlineCases cases
def Block.outline (role : String) (span : Span) : Block → Outline
  | ⟨statements⟩ =>
    .node role "block" span [.count statements.length] (outlineStatements statements)
def outlineStatements : List (Located Statement) → List Outline
  | [] => []
  | ⟨s, span⟩ :: ss => s.outline span :: outlineStatements ss
def Statement.outline (span : Span) : Statement → Outline
  | .expr e => e.outline "stmt" span
  | .property decl => decl.outline "stmt" span
  | .while ⟨condition, s⟩ ⟨body, t⟩ =>
    .node "stmt" "while" span [] [condition.outline "condition" s, body.outline "body" t]
  | .function decl => decl.outline "stmt" span
def outlineAnnotations : List (Located Annotated) → List Outline
  | [] => []
  | ⟨⟨name, args⟩, s⟩ :: as =>
    .node "annotation" "annotation" (some s) [.text name, .count args.length] (outlineArgs args) ::
      outlineAnnotations as
def Modifiers.outline : Modifiers → List Outline
  | ⟨modifiers, annotations⟩ =>
    modifiers.map (fun m => m.node.outline m.span) ++ outlineAnnotations annotations
def PropertyDef.outline (role : String) (span : Span) : PropertyDef → Outline
  | ⟨modifiers, readonly, name, type, none⟩ =>
    .node role "property" span [.flag readonly, .text name]
      (modifiers.outline ++ (type.map (outlineType "type")).toList)
  | ⟨modifiers, readonly, name, type, some ⟨value, s⟩⟩ =>
    .node role "property" span [.flag readonly, .text name]
      (modifiers.outline ++ (type.map (outlineType "type")).toList ++ [value.outline "value" s])
def FunctionDef.outline (role : String) (span : Span) : FunctionDef → Outline
  | ⟨modifiers, receiver, name, params, result, none⟩ =>
    .node role "function" span [.text name, .flag modifiers.isEmpty]
      (modifiers.outline ++ outlineSignature receiver params result)
  | ⟨modifiers, receiver, name, params, result, some ⟨body, s⟩⟩ =>
    .node role "function" span [.text name, .flag modifiers.isEmpty]
      (modifiers.outline ++ outlineSignature receiver params result ++ [body.outline "body" s])
end

def ClassParam.outline (span : Span) : ClassParam → Outline
  | .property decl => decl.outline "param" span
  | .plain param => param.outline span

def outlineConstructor (c : Located (List (Located ClassParam))) : Outline :=
  .node "constructor" "constructor" c.span [.count c.node.length]
    (c.node.map fun p => p.node.outline p.span)

mutual
def Declaration.outline (role : String) (span : Span) : Declaration → Outline
  | .function decl => decl.outline role span
  | .classDecl decl => decl.outline role span
  | .property decl => decl.outline role span
  | .compilerCall call => .node role "compiler_call" span [] [call.node.outline "call" call.span]
def ClassDef.outline (role : String) (span : Span) : ClassDef → Outline
  | ⟨modifiers, name, constructor, members⟩ =>
    .node role "class" span [.text name, .count members.length]
      (modifiers.outline ++ (constructor.map outlineConstructor).toList ++ outlineMembers members)
def outlineMembers : List (Located Declaration) → List Outline
  | [] => []
  | ⟨d, s⟩ :: ds => d.outline "member" s :: outlineMembers ds
end

def SourceFile.outline (file : SourceFile) : List Outline :=
  file.declarations.map fun d => d.node.outline "decl" d.span

end Linewise
