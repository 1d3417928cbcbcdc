import Linewise.Ast
import Linewise.Token

/-!
# Open ends

Two constructs may end where they could have gone on: an `if` without a second branch, which goes on with
`else`, and a local function without a body, which goes on with a block. What they end is open for such a
token too, if it ends in the same place: behind a closing token nothing is open any more.
-/

namespace Linewise

/-- What stands at the end of a construct if it goes on. -/
inductive Sequel where
  | branch | body
deriving DecidableEq

def Sequel.kind : Sequel → TokenKind
  | branch => .keyword .elseWord
  | body => .leftCurl

/-- Tokens that a construct goes on with. One semicolon in front of a branch does not count. -/
def Sequel.Begins (sequel : Sequel) (kinds : List TokenKind) : Prop :=
  [sequel.kind] <+: kinds ∨ sequel = .branch ∧ [.semicolon, sequel.kind] <+: kinds

instance (sequel : Sequel) (kinds : List TokenKind) : Decidable (sequel.Begins kinds) :=
  inferInstanceAs (Decidable (_ ∨ _))

mutual
/-- Whether an expression that ends at `stop` can go on so. -/
def Expr.openFor (sequel : Sequel) (stop : Nat) : Expr → Bool
  | .binary _ _ ⟨rhs, _⟩ => rhs.openFor sequel stop
  | .assign _ ⟨value, _⟩ => value.openFor sequel stop
  | .compilerExec ⟨inner, _⟩ => inner.openFor sequel stop
  | .cond _ ⟨thenBody, span⟩ none =>
    (sequel = .branch && span.stop = stop) || thenBody.openFor sequel stop
  | .cond _ _ (some ⟨elseBody, _⟩) => elseBody.openFor sequel stop
  | _ => false
/-- Only a block of one statement can end where its statement ends. -/
def Block.openFor (sequel : Sequel) (stop : Nat) : Block → Bool
  | ⟨[⟨a, span⟩]⟩ => a.openFor sequel stop span.stop
  | _ => false
/-- A statement that ends at `last`. -/
def Statement.openFor (sequel : Sequel) (stop last : Nat) : Statement → Bool
  | .expr value => value.openFor sequel stop
  | .property decl => decl.openFor sequel stop
  | .while _ ⟨body, _⟩ => body.openFor sequel stop
  | .function decl => decl.openFor sequel stop last
def PropertyDef.openFor (sequel : Sequel) (stop : Nat) : PropertyDef → Bool
  | ⟨_, _, _, _, some ⟨value, _⟩⟩ => value.openFor sequel stop
  | ⟨_, _, _, _, none⟩ => false
def FunctionDef.openFor (sequel : Sequel) (stop last : Nat) : FunctionDef → Bool
  | ⟨_, _, _, _, _, some ⟨body, _⟩⟩ => body.openFor sequel stop
  | ⟨_, _, _, _, _, none⟩ => sequel = .body && last = stop
end

def WhenCase.openFor (sequel : Sequel) (stop : Nat) : WhenCase → Bool
  | .matching _ body | .otherwise body => body.node.openFor sequel stop

class HasOpenEnd (α : Type) where
  openFor : Sequel → Nat → α → Bool

export HasOpenEnd (openFor)

variable {α : Type}

instance : HasOpenEnd Expr := ⟨Expr.openFor⟩
instance : HasOpenEnd Block := ⟨Block.openFor⟩
instance : HasOpenEnd Statement := ⟨fun sequel stop => Statement.openFor sequel stop stop⟩
instance : HasOpenEnd PropertyDef := ⟨PropertyDef.openFor⟩
instance : HasOpenEnd FunctionDef := ⟨fun sequel stop => FunctionDef.openFor sequel stop stop⟩
instance : HasOpenEnd WhenCase := ⟨WhenCase.openFor⟩
instance [HasOpenEnd α] : HasOpenEnd (Located α) := ⟨fun sequel stop a => openFor sequel stop a.node⟩
instance [HasOpenEnd α] : HasOpenEnd (Option α) := ⟨fun sequel stop a => a.any (openFor sequel stop)⟩

end Linewise
