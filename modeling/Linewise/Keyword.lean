/-!
# Reserved words

The words that the grammar reserves, each with its spelling and its category. Looking a spelling up
is case-sensitive.
-/

namespace Linewise

inductive Keyword where
  | funWord | classWord | valWord | varWord
  | whileWord | ifWord | elseWord | whenWord
  | nullWord
  | externWord | compilerWord | abstractWord
deriving DecidableEq

namespace Keyword

inductive Category where
  | declaration | controlFlow | literal | modifier
deriving DecidableEq

def all : List Keyword :=
  [funWord, classWord, valWord, varWord, whileWord, ifWord, elseWord, whenWord, nullWord,
    externWord, compilerWord, abstractWord]

def spelling : Keyword → String
  | funWord => "fun"
  | classWord => "class"
  | valWord => "val"
  | varWord => "var"
  | whileWord => "while"
  | ifWord => "if"
  | elseWord => "else"
  | whenWord => "when"
  | nullWord => "null"
  | externWord => "extern"
  | compilerWord => "compiler"
  | abstractWord => "abstract"

def category : Keyword → Category
  | funWord | classWord | valWord | varWord => .declaration
  | whileWord | ifWord | elseWord | whenWord => .controlFlow
  | nullWord => .literal
  | externWord | compilerWord | abstractWord => .modifier

def ofString? (s : String) : Option Keyword := all.find? fun k => k.spelling == s

theorem mem_all (k : Keyword) : k ∈ all := by cases k <;> decide

theorem ofString?_spelling (k : Keyword) : ofString? k.spelling = some k := by
  cases k <;> decide

theorem spelling_inj {k l : Keyword} (h : k.spelling = l.spelling) : k = l := by
  have hk := ofString?_spelling k
  rw [h, ofString?_spelling] at hk
  exact (Option.some.inj hk).symm

theorem ofString?_eq_some_iff {s : String} {k : Keyword} :
    ofString? s = some k ↔ k.spelling = s := by
  constructor
  · intro h
    simpa using List.find?_some h
  · rintro rfl
    exact ofString?_spelling k

end Keyword

end Linewise
