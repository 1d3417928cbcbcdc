import Linewise.Ast
import Linewise.Record

/-!
# Syntax trees as records

The record of a syntax tree names every node, every field of it and every span.
-/

namespace Linewise

def Span.toRecord (s : Span) : Record :=
  .fields "Span" [("start", .ofNat s.start), ("end", .ofNat s.stop)]

namespace Record

def located (node : Record) (span : Span) : Record :=
  fields "Spanned" [("node", node), ("span", span.toRecord)]

def ofText? (s : Option String) : Record := ofOption (s.map quoted)

def functionType (receiver : Record) (params : List Record) (result : Record) : Record :=
  tuple "Function"
    [fields "FunctionType" [("receiver", receiver), ("params", list params), ("ret", result)]]

def userType (parent : Record) (name : String) (args : List Record) : Record :=
  fields "UserType" [("parent", parent), ("name", quoted name), ("args", list args)]

def block (statements : List Record) : Record := fields "Block" [("statements", list statements)]

def property (modifiers : Record) (readonly : Bool) (name : String) (type value : Record) :
    Record :=
  fields "PropertyDecl" [("modifiers", modifiers), ("readonly", ofBool readonly),
    ("name", quoted name), ("ty", type), ("value", value)]

def function (modifiers receiver : Record) (name : String) (params : List Record)
    (result body : Record) : Record :=
  fields "FunctionDecl" [("modifiers", modifiers), ("receiver", receiver), ("name", quoted name),
    ("params", list params), ("return_type", result), ("body", body)]

def conditional (condition thenBody elseBody : Record) : Record :=
  fields "If" [("condition", condition), ("then_body", thenBody), ("else_body", elseBody)]

def whenChoice (subject : Record) (cases : List Record) : Record :=
  fields "When" [("subject", subject), ("cases", list cases)]

end Record

mutual
def Ty.toRecord : Ty → Record
  | .user t => .tuple "User" [t.toRecord]
  | .nullable ⟨t, s⟩ => .tuple "Nullable" [t.toRecord.located s]
  | .pointer ⟨t, s⟩ => .tuple "Pointer" [t.toRecord.located s]
  | .function none params ⟨t, s⟩ =>
    .functionType .absent (typeParamRecords params) (t.toRecord.located s)
  | .function (some ⟨r, rs⟩) params ⟨t, s⟩ =>
    .functionType (.present (r.toRecord.located rs)) (typeParamRecords params)
      (t.toRecord.located s)
def UserType.toRecord : UserType → Record
  | .simple name args => .userType .absent name (typeRecords args)
  | .member parent name args => .userType (.present parent.toRecord) name (typeRecords args)
def typeRecords : List (Located Ty) → List Record
  | [] => []
  | ⟨t, s⟩ :: ts => t.toRecord.located s :: typeRecords ts
def typeParamRecords : List (Option String × Located Ty) → List Record
  | [] => []
  | (name, ⟨t, s⟩) :: ps =>
    .tuple "" [.ofText? name, t.toRecord.located s] :: typeParamRecords ps
end

def typeRecord (t : Located Ty) : Record := t.node.toRecord.located t.span

def typeRecord? (t : Option (Located Ty)) : Record := .ofOption (t.map typeRecord)

def Param.toRecord (p : Param) : Record :=
  .fields "Param" [("name", .quoted p.name), ("ty", typeRecord p.type)]

def Modifier.toRecord : Modifier → Record
  | .external library => .tuple "Extern" [.ofText? library]
  | .compiler => .plain "Compiler"
  | .abstractItem => .plain "Abstract"

def StringPart.toRecord : StringPart → Record
  | .text s => .tuple "Text" [.quoted s]
  | .reference name => .tuple "Ref" [.quoted name]

def BinaryOp.toRecord : BinaryOp → Record
  | .plus => .plain "Plus"
  | .minus => .plain "Minus"
  | .times => .plain "Mul"
  | .divide => .plain "Div"
  | .equals => .plain "Equals"
  | .notEquals => .plain "NotEquals"
  | .less => .plain "LessThan"
  | .greater => .plain "GreaterThan"
  | .lessEqual => .plain "LessThanEqual"
  | .greaterEqual => .plain "GreaterThanEqual"

mutual
def Expr.toRecord : Expr → Record
  | .name text => .tuple "Ident" [.quoted text]
  | .integer text => .tuple "Integer" [.quoted text]
  | .string parts => .tuple "String" [.list (parts.map StringPart.toRecord)]
  | .null => .plain "Null"
  | .array elements => .tuple "Array" [.list (exprRecords elements)]
  | .lambda body => .tuple "FunctionLiteral" [body.toRecord]
  | .call ⟨callee, s⟩ args =>
    .fields "Call" [("callee", callee.toRecord.located s), ("args", .list (argumentRecords args))]
  | .member ⟨target, s⟩ name =>
    .fields "Member" [("target", target.toRecord.located s), ("name", .quoted name)]
  | .index ⟨target, s⟩ ⟨index, t⟩ =>
    .fields "Index" [("target", target.toRecord.located s), ("index", index.toRecord.located t)]
  | .binary op ⟨lhs, s⟩ ⟨rhs, t⟩ =>
    .fields "Binary" [("op", op.toRecord), ("lhs", lhs.toRecord.located s),
      ("rhs", rhs.toRecord.located t)]
  | .assign ⟨target, s⟩ ⟨value, t⟩ =>
    .fields "Assign" [("target", target.toRecord.located s), ("value", value.toRecord.located t)]
  | .compilerExec ⟨inner, s⟩ => .tuple "CompilerExec" [inner.toRecord.located s]
  | .cond ⟨condition, s⟩ ⟨thenBody, t⟩ none =>
    .conditional (condition.toRecord.located s) (thenBody.toRecord.located t) .absent
  | .cond ⟨condition, s⟩ ⟨thenBody, t⟩ (some ⟨elseBody, u⟩) =>
    .conditional (condition.toRecord.located s) (thenBody.toRecord.located t)
      (.present (elseBody.toRecord.located u))
  | .whenCase none cases => .whenChoice .absent (caseRecords cases)
  | .whenCase (some ⟨subject, s⟩) cases =>
    .whenChoice (.present (subject.toRecord.located s)) (caseRecords cases)
def exprRecords : List (Located Expr) → List Record
  | [] => []
  | ⟨e, s⟩ :: es => e.toRecord.located s :: exprRecords es
def argumentRecords : List (Located Argument) → List Record
  | [] => []
  | ⟨⟨name, value, t⟩, s⟩ :: args =>
    (Record.fields "Argument"
      [("name", .ofText? name), ("value", value.toRecord.located t)]).located s ::
      argumentRecords args
def caseRecords : List (Located WhenCase) → List Record
  | [] => []
  | ⟨.matching conditions ⟨body, t⟩, s⟩ :: cases =>
    (Record.fields "Match" [("conditions", .list (exprRecords conditions)),
      ("body", body.toRecord.located t)]).located s :: caseRecords cases
  | ⟨.otherwise ⟨body, t⟩, s⟩ :: cases =>
    (Record.tuple "Else" [body.toRecord.located t]).located s :: caseRecords cases
def Block.toRecord : Block → Record
  | ⟨statements⟩ => .block (statementRecords statements)
def statementRecords : List (Located Statement) → List Record
  | [] => []
  | ⟨.expr e, s⟩ :: ss => (Record.tuple "Expr" [e.toRecord]).located s :: statementRecords ss
  | ⟨.property decl, s⟩ :: ss =>
    (Record.tuple "Property" [decl.toRecord]).located s :: statementRecords ss
  | ⟨.while ⟨condition, t⟩ ⟨body, u⟩, s⟩ :: ss =>
    (Record.tuple "While" [.fields "WhileStmt" [("condition", condition.toRecord.located t),
      ("body", body.toRecord.located u)]]).located s :: statementRecords ss
  | ⟨.function decl, s⟩ :: ss =>
    (Record.tuple "Function" [decl.toRecord]).located s :: statementRecords ss
def annotationRecords : List (Located Annotated) → List Record
  | [] => []
  | ⟨⟨name, args⟩, s⟩ :: as =>
    (Record.fields "Annotation"
      [("name", .quoted name), ("args", .list (argumentRecords args))]).located s ::
      annotationRecords as
def Modifiers.toRecord : Modifiers → Record
  | ⟨modifiers, annotations⟩ =>
    .fields "Modifiers"
      [("modifiers", .list (modifiers.map fun m => m.node.toRecord.located m.span)),
        ("annotations", .list (annotationRecords annotations))]
def PropertyDef.toRecord : PropertyDef → Record
  | ⟨modifiers, readonly, name, type, none⟩ =>
    .property modifiers.toRecord readonly name (typeRecord? type) .absent
  | ⟨modifiers, readonly, name, type, some ⟨value, s⟩⟩ =>
    .property modifiers.toRecord readonly name (typeRecord? type)
      (.present (value.toRecord.located s))
def FunctionDef.toRecord : FunctionDef → Record
  | ⟨modifiers, receiver, name, params, result, none⟩ =>
    .function modifiers.toRecord (typeRecord? receiver) name
      (params.map fun p => p.node.toRecord.located p.span) (typeRecord? result) .absent
  | ⟨modifiers, receiver, name, params, result, some ⟨body, s⟩⟩ =>
    .function modifiers.toRecord (typeRecord? receiver) name
      (params.map fun p => p.node.toRecord.located p.span) (typeRecord? result)
      (.present (body.toRecord.located s))
end

def ClassParam.toRecord : ClassParam → Record
  | .property decl => .tuple "Property" [decl.toRecord]
  | .plain param => .tuple "Param" [param.toRecord]

def constructorRecord (c : Located (List (Located ClassParam))) : Record :=
  (Record.fields "ClassConstructor"
    [("params", .list (c.node.map fun p => p.node.toRecord.located p.span))]).located c.span

mutual
def Declaration.toRecord : Declaration → Record
  | .function decl => .tuple "Function" [decl.toRecord]
  | .classDecl decl => .tuple "Class" [decl.toRecord]
  | .property decl => .tuple "Property" [decl.toRecord]
  | .compilerCall call => .tuple "CompilerCall" [call.node.toRecord.located call.span]
def ClassDef.toRecord : ClassDef → Record
  | ⟨modifiers, name, constructor, members⟩ =>
    .fields "ClassDecl" [("modifiers", modifiers.toRecord), ("name", .quoted name),
      ("constructor", .ofOption (constructor.map constructorRecord)),
      ("members", .list (declarationRecords members))]
def declarationRecords : List (Located Declaration) → List Record
  | [] => []
  | ⟨d, s⟩ :: ds => d.toRecord.located s :: declarationRecords ds
end

def SourceFile.toRecord (file : SourceFile) : Record :=
  .fields "File" [("declarations", .list (declarationRecords file.declarations))]

end Linewise
