import Linewise.Text.Quoted

/-!
# Records

Nested data written out in full, one field or element to a line: `render` puts each of them four
columns further in than what it belongs to, with a comma behind it.
-/

namespace Linewise

inductive Record where
  | plain (text : String)
  | quoted (text : String)
  | fields (name : String) (entries : List (String × Record))
  /-- Values in parentheses behind a name, which may be empty. -/
  | tuple (name : String) (items : List Record)
  | list (items : List Record)

namespace Record

def margin (depth : Nat) : String := "".pushn ' ' (4 * depth)

/-- Lines between an opening and a closing sign, the lines one level further in. -/
def enclose (depth : Nat) (opening closing : String) (lines : List String) : String :=
  opening ++ "\n" ++ String.join (lines.map fun l => margin (depth + 1) ++ l ++ ",\n") ++
    margin depth ++ closing

mutual
def render (depth : Nat) : Record → String
  | plain text => text
  | quoted text => Text.quote text
  | fields name entries => enclose depth (name ++ " \x7b") "\x7d" (renderEntries (depth + 1) entries)
  | tuple name items => enclose depth (name ++ "(") ")" (renderItems (depth + 1) items)
  | list [] => "[]"
  | list (item :: items) =>
    enclose depth "[" "]" (item.render (depth + 1) :: renderItems (depth + 1) items)
def renderEntries (depth : Nat) : List (String × Record) → List String
  | [] => []
  | (name, r) :: rs => (name ++ ": " ++ r.render depth) :: renderEntries depth rs
def renderItems (depth : Nat) : List Record → List String
  | [] => []
  | r :: rs => r.render depth :: renderItems depth rs
end

def ofNat (n : Nat) : Record := plain (toString n)

def ofBool (b : Bool) : Record := plain (toString b)

def present (r : Record) : Record := tuple "Some" [r]

def absent : Record := plain "None"

def ofOption : Option Record → Record
  | some r => present r
  | none => absent

end Record

end Linewise
