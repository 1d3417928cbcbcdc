import Linewise.Ast
import Linewise.Token

/-!
# The words of a tree

A word is what the author of a source has chosen: a name, a number or the value of a string. `words` lists
those of a whole tree in the order of the source. The tree keeps modifiers apart from annotations, so those
of one declaration are merged by where they start.
-/

namespace Linewise

inductive Word where
  | name (text : String)
  | integer (text : String)
  /-- The value of a string, with its references in their own spelling. -/
  | string (value : String)
deriving DecidableEq

namespace Word

def of? : TokenKind → String → Option Word
  | .identifier, text => some (.name text)
  | .integer, text => some (.integer text)
  | .string, text => some (.string (StringPart.concat (StringLiteral.decode text)))
  | _, _ => none

def spelling? : Word → Option String
  | name text | integer text => some text
  | string _ => none

def isString : Word → Bool
  | string _ => true
  | _ => false

end Word

def Token.word? (t : Token) : Option Word := Word.of? t.kind t.text

def nameWords (name : Option String) : List Word := (name.map Word.name).toList

/-- The words of two lists of nodes, given with where each node starts, in the order of the source. -/
def mergeWords (xs ys : List (Nat × List Word)) : List Word :=
  (xs.merge ys fun x y => x.1 ≤ y.1).flatMap Prod.snd

class HasWords (α : Type) where
  words : α → List Word

export HasWords (words)

variable {α β : Type}

/-- The words of a node, with where it starts. -/
def Located.stamped [HasWords α] (a : Located α) : Nat × List Word := (a.span.start, words a.node)

instance [HasWords α] : HasWords (Located α) := ⟨fun a => words a.node⟩
instance [HasWords α] : HasWords (Option α) := ⟨fun a => (a.map words).getD []⟩
instance [HasWords α] : HasWords (List α) := ⟨fun as => as.flatMap words⟩
instance [HasWords α] : HasWords (Option String × α) := ⟨fun a => nameWords a.1 ++ words a.2⟩

-- ---------------------------------------------------------------------------
-- Types
-- ---------------------------------------------------------------------------

mutual
def Ty.words : Ty → List Word
  | .user t => t.words
  | .nullable ⟨t, _⟩ => t.words
  | .pointer ⟨t, _⟩ => t.words
  | .function none params ⟨t, _⟩ => Ty.paramWords params ++ t.words
  | .function (some ⟨r, _⟩) params ⟨t, _⟩ => r.words ++ Ty.paramWords params ++ t.words
def UserType.words : UserType → List Word
  | .simple name args => .name name :: Ty.listWords args
  | .member parent name args => parent.words ++ .name name :: Ty.listWords args
def Ty.listWords : List (Located Ty) → List Word
  | [] => []
  | ⟨t, _⟩ :: ts => t.words ++ Ty.listWords ts
def Ty.paramWords : List (Option String × Located Ty) → List Word
  | [] => []
  | (name, ⟨t, _⟩) :: ps => nameWords name ++ t.words ++ Ty.paramWords ps
end

instance : HasWords Ty := ⟨Ty.words⟩
instance : HasWords UserType := ⟨UserType.words⟩
instance : HasWords Param := ⟨fun p => .name p.name :: words p.type⟩

-- ---------------------------------------------------------------------------
-- Expressions and statements
-- ---------------------------------------------------------------------------

instance : HasWords Modifier where
  words
    | .external library => (library.map Word.string).toList
    | .compiler | .abstractItem => []

mutual
def Expr.words : Expr → List Word
  | .name text => [.name text]
  | .integer text => [.integer text]
  | .string parts => [.string (StringPart.concat parts)]
  | .null => []
  | .array elements => Expr.listWords elements
  | .lambda body => body.words
  | .call ⟨callee, _⟩ args => callee.words ++ Argument.listWords args
  | .member ⟨target, _⟩ name => target.words ++ [.name name]
  | .index ⟨target, _⟩ ⟨index, _⟩ => target.words ++ index.words
  | .binary _ ⟨lhs, _⟩ ⟨rhs, _⟩ => lhs.words ++ rhs.words
  | .assign ⟨target, _⟩ ⟨value, _⟩ => target.words ++ value.words
  | .compilerExec ⟨inner, _⟩ => inner.words
  | .cond ⟨condition, _⟩ ⟨thenBody, _⟩ none => condition.words ++ thenBody.words
  | .cond ⟨condition, _⟩ ⟨thenBody, _⟩ (some ⟨elseBody, _⟩) =>
    condition.words ++ thenBody.words ++ elseBody.words
  | .whenCase none cases => WhenCase.listWords cases
  | .whenCase (some ⟨subject, _⟩) cases => subject.words ++ WhenCase.listWords cases
def Expr.listWords : List (Located Expr) → List Word
  | [] => []
  | ⟨e, _⟩ :: es => e.words ++ Expr.listWords es
def Argument.words : Argument → List Word
  | ⟨name, ⟨e, _⟩⟩ => nameWords name ++ e.words
def Argument.listWords : List (Located Argument) → List Word
  | [] => []
  | ⟨a, _⟩ :: as => a.words ++ Argument.listWords as
def WhenCase.words : WhenCase → List Word
  | .matching conditions ⟨body, _⟩ => Expr.listWords conditions ++ body.words
  | .otherwise ⟨body, _⟩ => body.words
def WhenCase.listWords : List (Located WhenCase) → List Word
  | [] => []
  | ⟨c, _⟩ :: cs => c.words ++ WhenCase.listWords cs
def Block.words : Block → List Word
  | ⟨statements⟩ => Statement.listWords statements
def Statement.words : Statement → List Word
  | .expr e => e.words
  | .property d => d.words
  | .while ⟨condition, _⟩ ⟨body, _⟩ => condition.words ++ body.words
  | .function d => d.words
def Statement.listWords : List (Located Statement) → List Word
  | [] => []
  | ⟨a, _⟩ :: as => a.words ++ Statement.listWords as
def Annotated.words : Annotated → List Word
  | ⟨name, args⟩ => .name name :: Argument.listWords args
def Annotated.listStamped : List (Located Annotated) → List (Nat × List Word)
  | [] => []
  | ⟨a, s⟩ :: as => (s.start, a.words) :: Annotated.listStamped as
def Modifiers.words : Modifiers → List Word
  | ⟨ms, as⟩ => mergeWords (ms.map Located.stamped) (Annotated.listStamped as)
def PropertyDef.words : PropertyDef → List Word
  | ⟨ms, _, name, type, none⟩ => ms.words ++ .name name :: HasWords.words type
  | ⟨ms, _, name, type, some ⟨value, _⟩⟩ =>
    ms.words ++ .name name :: HasWords.words type ++ value.words
def FunctionDef.words : FunctionDef → List Word
  | ⟨ms, receiver, name, params, result, none⟩ =>
    ms.words ++ HasWords.words receiver ++ .name name :: HasWords.words params ++ HasWords.words result
  | ⟨ms, receiver, name, params, result, some ⟨body, _⟩⟩ =>
    ms.words ++ HasWords.words receiver ++ .name name :: HasWords.words params ++
      HasWords.words result ++ body.words
end

instance : HasWords Expr := ⟨Expr.words⟩
instance : HasWords Argument := ⟨Argument.words⟩
instance : HasWords WhenCase := ⟨WhenCase.words⟩
instance : HasWords Block := ⟨Block.words⟩
instance : HasWords Statement := ⟨Statement.words⟩
instance : HasWords Annotated := ⟨Annotated.words⟩
instance : HasWords Modifiers := ⟨Modifiers.words⟩
instance : HasWords PropertyDef := ⟨PropertyDef.words⟩
instance : HasWords FunctionDef := ⟨FunctionDef.words⟩

-- ---------------------------------------------------------------------------
-- Declarations
-- ---------------------------------------------------------------------------

instance : HasWords ClassParam where
  words
    | .property decl => words decl
    | .plain param => words param

mutual
def Declaration.words : Declaration → List Word
  | .function decl => decl.words
  | .classDecl decl => decl.words
  | .property decl => decl.words
  | .compilerCall call => HasWords.words call
def ClassDef.words : ClassDef → List Word
  | ⟨ms, name, constructor, members⟩ =>
    ms.words ++ .name name :: HasWords.words constructor ++ Declaration.listWords members
def Declaration.listWords : List (Located Declaration) → List Word
  | [] => []
  | ⟨d, _⟩ :: ds => d.words ++ Declaration.listWords ds
end

instance : HasWords Declaration := ⟨Declaration.words⟩
instance : HasWords ClassDef := ⟨ClassDef.words⟩
instance : HasWords SourceFile := ⟨fun file => words file.declarations⟩

-- ---------------------------------------------------------------------------
-- Merging
-- ---------------------------------------------------------------------------

/-- Lists of which the first parts come before the second parts are merged part by part. -/
theorem merge_append {le : α → α → Bool} {xs ys us vs : List α} (hxv : ∀ x ∈ xs, ∀ v ∈ vs, le x v = true)
    (hyu : ∀ y ∈ ys, ∀ u ∈ us, le u y = false) :
    (xs ++ us).merge (ys ++ vs) le = xs.merge ys le ++ us.merge vs le := by
  induction xs generalizing ys with
  | nil =>
    induction ys with
    | nil => simp
    | cons y ys ih =>
      have hrest := ih fun z hz => hyu z (List.mem_cons_of_mem y hz)
      cases us with
      | nil => simp
      | cons u us =>
        have hu := hyu y List.mem_cons_self u List.mem_cons_self
        simp only [List.nil_append, List.nil_merge] at hrest
        simp [hu, hrest]
  | cons x xs ihx =>
    have hxs : ∀ z ∈ xs, ∀ v ∈ vs, le z v = true := fun z hz => hxv z (List.mem_cons_of_mem x hz)
    induction ys with
    | nil =>
      have hrest := ihx hxs hyu
      cases vs with
      | nil => simp
      | cons v vs =>
        have hv := hxv x List.mem_cons_self v List.mem_cons_self
        simp only [List.nil_append, List.merge_right] at hrest
        simp [hv, hrest]
    | cons y ys ihy =>
      have hrestx := ihx hxs hyu
      have hresty := ihy fun z hz => hyu z (List.mem_cons_of_mem y hz)
      simp only [List.cons_append] at hrestx hresty ⊢
      simp only [List.cons_merge_cons]
      split
      · rw [hrestx, List.cons_append]
      · rw [hresty, List.cons_append]

section
variable {xs ys us vs : List (Nat × List Word)} {u v : Nat × List Word}

theorem mergeWords_append (hxv : ∀ x ∈ xs, ∀ v ∈ vs, x.1 < v.1) (hyu : ∀ y ∈ ys, ∀ u ∈ us, y.1 < u.1) :
    mergeWords (xs ++ us) (ys ++ vs) = mergeWords xs ys ++ mergeWords us vs := by
  rw [mergeWords, merge_append, List.flatMap_append, mergeWords, mergeWords]
  · exact fun x hx v hv => decide_eq_true (Nat.le_of_lt (hxv x hx v hv))
  · exact fun y hy u hu => decide_eq_false (Nat.not_le.mpr (hyu y hy u hu))

theorem mergeWords_left (h : ∀ y ∈ ys, y.1 < u.1) :
    mergeWords (xs ++ [u]) ys = mergeWords xs ys ++ u.2 := by
  calc mergeWords (xs ++ [u]) ys
    _ = mergeWords (xs ++ [u]) (ys ++ []) := by rw [List.append_nil]
    _ = mergeWords xs ys ++ mergeWords [u] [] := mergeWords_append nofun (by simpa using h)
    _ = mergeWords xs ys ++ u.2 := by simp [mergeWords]

theorem mergeWords_right (h : ∀ x ∈ xs, x.1 < v.1) :
    mergeWords xs (ys ++ [v]) = mergeWords xs ys ++ v.2 := by
  calc mergeWords xs (ys ++ [v])
    _ = mergeWords (xs ++ []) (ys ++ [v]) := by rw [List.append_nil]
    _ = mergeWords xs ys ++ mergeWords [] [v] := mergeWords_append (by simpa using h) nofun
    _ = mergeWords xs ys ++ v.2 := by simp [mergeWords]

end

-- ---------------------------------------------------------------------------
-- Equations
-- ---------------------------------------------------------------------------

@[simp] theorem nameWords_none : nameWords none = [] := rfl
@[simp] theorem nameWords_some (name : String) : nameWords (some name) = [.name name] := rfl

section
variable [HasWords α]

@[simp] theorem words_located (a : α) (s : Span) : words (⟨a, s⟩ : Located α) = words a := rfl
@[simp] theorem words_node (a : Located α) : words a.node = words a := rfl
@[simp] theorem words_none : words (none : Option α) = [] := rfl
@[simp] theorem words_some (a : α) : words (some a) = words a := rfl
@[simp] theorem words_nil : words ([] : List α) = [] := rfl
@[simp] theorem words_cons (a : α) (as : List α) : words (a :: as) = words a ++ words as := rfl
@[simp] theorem words_append (as bs : List α) : words (as ++ bs) = words as ++ words bs :=
  List.flatMap_append
@[simp] theorem words_pair (name : Option String) (a : α) :
    words (name, a) = nameWords name ++ words a := rfl

theorem eq_words {g : List α → List Word} (hnil : g [] = [])
    (hcons : ∀ a as, g (a :: as) = words a ++ g as) (as : List α) : g as = words as := by
  induction as with
  | nil => exact hnil
  | cons a as ih => rw [hcons, ih, words_cons]

end

theorem Ty.listWords_eq (ts : List (Located Ty)) : Ty.listWords ts = HasWords.words ts :=
  eq_words rfl (fun _ _ => rfl) ts

theorem Ty.paramWords_eq (ps : List (Option String × Located Ty)) :
    Ty.paramWords ps = HasWords.words ps :=
  eq_words rfl (fun _ _ => rfl) ps

theorem Expr.listWords_eq (es : List (Located Expr)) : Expr.listWords es = HasWords.words es :=
  eq_words rfl (fun _ _ => rfl) es

theorem Argument.listWords_eq (as : List (Located Argument)) :
    Argument.listWords as = HasWords.words as :=
  eq_words rfl (fun _ _ => rfl) as

theorem WhenCase.listWords_eq (cs : List (Located WhenCase)) :
    WhenCase.listWords cs = HasWords.words cs :=
  eq_words rfl (fun _ _ => rfl) cs

theorem Statement.listWords_eq (ss : List (Located Statement)) :
    Statement.listWords ss = HasWords.words ss :=
  eq_words rfl (fun _ _ => rfl) ss

theorem Annotated.listStamped_eq (as : List (Located Annotated)) :
    Annotated.listStamped as = as.map Located.stamped := by
  induction as with
  | nil => rfl
  | cons a as ih => rw [List.map_cons, ← ih]; rfl

theorem Declaration.listWords_eq (ds : List (Located Declaration)) :
    Declaration.listWords ds = HasWords.words ds :=
  eq_words rfl (fun _ _ => rfl) ds

-- The words of a node are those of its parts, in the order of the grammar.

@[simp] theorem words_user (t : UserType) : words (Ty.user t) = words t := rfl
@[simp] theorem words_nullable (t : Located Ty) : words (Ty.nullable t) = words t := rfl
@[simp] theorem words_pointer (t : Located Ty) : words (Ty.pointer t) = words t := rfl

@[simp] theorem words_functionType (receiver : Option (Located Ty))
    (params : List (Option String × Located Ty)) (result : Located Ty) :
    words (Ty.function receiver params result) = words receiver ++ words params ++ words result := by
  rw [← Ty.paramWords_eq]
  cases receiver <;> rfl

@[simp] theorem words_simple (name : String) (args : List (Located Ty)) :
    words (UserType.simple name args) = .name name :: words args := by
  rw [← Ty.listWords_eq]
  rfl

@[simp] theorem words_memberType (parent : UserType) (name : String) (args : List (Located Ty)) :
    words (UserType.member parent name args) = words parent ++ .name name :: words args := by
  rw [← Ty.listWords_eq]
  rfl

@[simp] theorem words_param (name : String) (type : Located Ty) :
    words (Param.mk name type) = .name name :: words type := rfl

@[simp] theorem words_external (library : Option String) :
    words (Modifier.external library) = (library.map Word.string).toList := rfl
@[simp] theorem words_compiler : words Modifier.compiler = [] := rfl
@[simp] theorem words_abstractItem : words Modifier.abstractItem = [] := rfl

@[simp] theorem words_name (text : String) : words (Expr.name text) = [.name text] := rfl
@[simp] theorem words_integer (text : String) : words (Expr.integer text) = [.integer text] := rfl
@[simp] theorem words_string (parts : List StringPart) :
    words (Expr.string parts) = [.string (StringPart.concat parts)] := rfl
@[simp] theorem words_null : words Expr.null = [] := rfl
@[simp] theorem words_lambda (body : Block) : words (Expr.lambda body) = words body := rfl
@[simp] theorem words_member (target : Located Expr) (name : String) :
    words (Expr.member target name) = words target ++ [.name name] := rfl
@[simp] theorem words_index (target index : Located Expr) :
    words (Expr.index target index) = words target ++ words index := rfl
@[simp] theorem words_binary (op : BinaryOp) (lhs rhs : Located Expr) :
    words (Expr.binary op lhs rhs) = words lhs ++ words rhs := rfl
@[simp] theorem words_assign (target value : Located Expr) :
    words (Expr.assign target value) = words target ++ words value := rfl
@[simp] theorem words_compilerExec (inner : Located Expr) :
    words (Expr.compilerExec inner) = words inner := rfl

@[simp] theorem words_array (es : List (Located Expr)) : words (Expr.array es) = words es :=
  Expr.listWords_eq es

@[simp] theorem words_call (callee : Located Expr) (args : List (Located Argument)) :
    words (Expr.call callee args) = words callee ++ words args := by
  rw [← Argument.listWords_eq]
  rfl

@[simp] theorem words_cond (condition : Located Expr) (thenBody : Located Block)
    (elseBody : Option (Located Block)) :
    words (Expr.cond condition thenBody elseBody) =
      words condition ++ words thenBody ++ words elseBody := by
  cases elseBody with
  | none => exact (List.append_nil _).symm
  | some => rfl

@[simp] theorem words_whenChoice (subject : Option (Located Expr)) (cases : List (Located WhenCase)) :
    words (Expr.whenCase subject cases) = words subject ++ words cases := by
  rw [← WhenCase.listWords_eq]
  cases subject <;> rfl

@[simp] theorem words_argument (name : Option String) (value : Located Expr) :
    words (Argument.mk name value) = nameWords name ++ words value := rfl

@[simp] theorem words_matching (conditions : List (Located Expr)) (body : Located Block) :
    words (WhenCase.matching conditions body) = words conditions ++ words body := by
  rw [← Expr.listWords_eq]
  rfl

@[simp] theorem words_otherwise (body : Located Block) :
    words (WhenCase.otherwise body) = words body := rfl

@[simp] theorem words_block (statements : List (Located Statement)) :
    words (Block.mk statements) = words statements :=
  Statement.listWords_eq statements

@[simp] theorem words_single (s : Located Statement) : words (Block.single s) = words s := by
  simp [Block.single]

@[simp] theorem words_expr (e : Expr) : words (Statement.expr e) = words e := rfl
@[simp] theorem words_localProperty (d : PropertyDef) : words (Statement.property d) = words d := rfl
@[simp] theorem words_while (condition : Located Expr) (body : Located Block) :
    words (Statement.while condition body) = words condition ++ words body := rfl
@[simp] theorem words_localFunction (d : FunctionDef) : words (Statement.function d) = words d := rfl

@[simp] theorem words_annotated (name : String) (args : List (Located Argument)) :
    words (Annotated.mk name args) = .name name :: words args := by
  rw [← Argument.listWords_eq]
  rfl

theorem words_modifiers (ms : List (Located Modifier)) (as : List (Located Annotated)) :
    words (Modifiers.mk ms as) = mergeWords (ms.map Located.stamped) (as.map Located.stamped) := by
  rw [← Annotated.listStamped_eq]
  rfl

@[simp] theorem words_modifiers_nil : words (Modifiers.mk [] []) = [] := by
  simp [words_modifiers, mergeWords]

theorem words_push_modifier {ms : List (Located Modifier)} {as : List (Located Annotated)}
    {m : Located Modifier} (h : ∀ a ∈ as, a.span.start < m.span.start) :
    words (Modifiers.mk (ms ++ [m]) as) = words (Modifiers.mk ms as) ++ words m := by
  rw [words_modifiers, words_modifiers, List.map_append]
  exact mergeWords_left (by simpa [Located.stamped] using h)

theorem words_push_annotated {ms : List (Located Modifier)} {as : List (Located Annotated)}
    {a : Located Annotated} (h : ∀ m ∈ ms, m.span.start < a.span.start) :
    words (Modifiers.mk ms (as ++ [a])) = words (Modifiers.mk ms as) ++ words a := by
  rw [words_modifiers, words_modifiers, List.map_append]
  exact mergeWords_right (by simpa [Located.stamped] using h)

@[simp] theorem words_propertyDef (ms : Modifiers) (readonly : Bool) (name : String)
    (type : Option (Located Ty)) (value : Option (Located Expr)) :
    words (PropertyDef.mk ms readonly name type value) =
      words ms ++ .name name :: words type ++ words value := by
  cases value with
  | none => exact (List.append_nil _).symm
  | some => rfl

@[simp] theorem words_functionDef (ms : Modifiers) (receiver : Option (Located Ty)) (name : String)
    (params : List (Located Param)) (result : Option (Located Ty)) (body : Option (Located Block)) :
    words (FunctionDef.mk ms receiver name params result body) =
      words ms ++ words receiver ++ .name name :: words params ++ words result ++ words body := by
  cases body with
  | none => exact (List.append_nil _).symm
  | some => rfl

@[simp] theorem words_classProperty (d : PropertyDef) : words (ClassParam.property d) = words d := rfl
@[simp] theorem words_plain (p : Param) : words (ClassParam.plain p) = words p := rfl

@[simp] theorem words_function (d : FunctionDef) : words (Declaration.function d) = words d := rfl
@[simp] theorem words_classDecl (d : ClassDef) : words (Declaration.classDecl d) = words d := rfl
@[simp] theorem words_property (d : PropertyDef) : words (Declaration.property d) = words d := rfl
@[simp] theorem words_compilerCall (call : Located Expr) :
    words (Declaration.compilerCall call) = words call := rfl

@[simp] theorem words_classDef (ms : Modifiers) (name : String)
    (constructor : Option (Located (List (Located ClassParam))))
    (members : List (Located Declaration)) :
    words (ClassDef.mk ms name constructor members) =
      words ms ++ .name name :: words constructor ++ words members := by
  rw [← Declaration.listWords_eq]
  rfl

end Linewise
