import Linewise.Ast

/-!
# Types as text

The text of a type: arguments in angle brackets, parents before a dot, `?` and `*` after the type they
apply to, and parameter names where a function type gives them.
-/

namespace Linewise

/-- Type arguments in angle brackets, unless there are none. -/
def inAngles (args : List String) : String :=
  if args.isEmpty then "" else "<" ++ ", ".intercalate args ++ ">"

def paramText (name : Option String) (type : String) : String :=
  match name with
  | some name => name ++ ": " ++ type
  | none => type

def functionText (receiver : Option String) (params : List String) (result : String) : String :=
  (match receiver with
    | some r => r ++ "."
    | none => "") ++ "(" ++ ", ".intercalate params ++ ") -> " ++ result

mutual
def Ty.display : Ty → String
  | .user t => t.display
  | .nullable ⟨t, _⟩ => t.display ++ "?"
  | .pointer ⟨t, _⟩ => t.display ++ "*"
  | .function (some ⟨r, _⟩) params ⟨t, _⟩ =>
    functionText (some r.display) (displayParams params) t.display
  | .function none params ⟨t, _⟩ => functionText none (displayParams params) t.display
def UserType.display : UserType → String
  | .simple name args => name ++ inAngles (displayArgs args)
  | .member parent name args => parent.display ++ "." ++ name ++ inAngles (displayArgs args)
def displayArgs : List (Located Ty) → List String
  | [] => []
  | ⟨t, _⟩ :: ts => t.display :: displayArgs ts
def displayParams : List (Option String × Located Ty) → List String
  | [] => []
  | (name, ⟨t, _⟩) :: ps => paramText name t.display :: displayParams ps
end

end Linewise
