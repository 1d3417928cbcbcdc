import Linewise.Ast.TypeText
import Linewise.Proofs.Ast.TypeParts
import Linewise.Proofs.Lexing.Lookback

/-!
# The tokens of a type

A type is written with the tokens of `Ty.spelling`. With a blank behind each comma and colon and around each
arrow they are its text; without one they are what the grammar reads.
-/

namespace Linewise

open Lexeme

variable {gap : List Item}

-- ---------------------------------------------------------------------------
-- Spelling
-- ---------------------------------------------------------------------------

def blank : Item := (.whitespace, " ")

@[simp] theorem toList_blank : blank.2.toList = [' '] := rfl

def commaItems (gap : List Item) (xs : List (List Item)) : List Item :=
  ((.comma, ",") :: gap).intercalate xs

theorem commaItems_cons (gap x y : List Item) (ys : List (List Item)) :
    commaItems gap (x :: y :: ys) = x ++ (.comma, ",") :: (gap ++ commaItems gap (y :: ys)) := by
  simp [commaItems, List.intercalate_cons_cons]

theorem commaItems_singleton (gap x : List Item) : commaItems gap [x] = x := List.intercalate_singleton

def angleItems (gap : List Item) (args : List (List Item)) : List Item :=
  if args.isEmpty then [] else (.leftAngle, "<") :: (commaItems gap args ++ [(.rightAngle, ">")])

def paramItems (gap : List Item) (name : Option String) (type : List Item) : List Item :=
  match name with
  | some name => (.identifier, name) :: (.colon, ":") :: (gap ++ type)
  | none => type

def functionItems (gap : List Item) (receiver : Option (List Item)) (params : List (List Item))
    (result : List Item) : List Item :=
  (match receiver with
    | some r => r ++ [(.dot, ".")]
    | none => []) ++
    (.leftParen, "(") :: (commaItems gap params ++
      (.rightParen, ")") :: (gap ++ (.arrow, "->") :: (gap ++ result)))

theorem functionItems_some (gap r : List Item) (params : List (List Item)) (result : List Item) :
    functionItems gap (some r) params result = r ++ (.dot, ".") :: functionItems gap none params result :=
  List.append_assoc r [(.dot, ".")] _

mutual
def Ty.spelling (gap : List Item) : Ty → List Item
  | .user t => t.spelling gap
  | .nullable ⟨t, _⟩ => t.spelling gap ++ [(.question, "?")]
  | .pointer ⟨t, _⟩ => t.spelling gap ++ [(.times, "*")]
  | .function (some ⟨r, _⟩) params ⟨t, _⟩ =>
    functionItems gap (some (r.spelling gap)) (Ty.paramSpellings gap params) (t.spelling gap)
  | .function none params ⟨t, _⟩ =>
    functionItems gap none (Ty.paramSpellings gap params) (t.spelling gap)
def UserType.spelling (gap : List Item) : UserType → List Item
  | .simple name args => (.identifier, name) :: angleItems gap (Ty.argSpellings gap args)
  | .member parent name args =>
    parent.spelling gap ++ (.dot, ".") :: (.identifier, name) :: angleItems gap (Ty.argSpellings gap args)
def Ty.argSpellings (gap : List Item) : List (Located Ty) → List (List Item)
  | [] => []
  | ⟨t, _⟩ :: ts => t.spelling gap :: Ty.argSpellings gap ts
def Ty.paramSpellings (gap : List Item) : List (Option String × Located Ty) → List (List Item)
  | [] => []
  | (name, ⟨t, _⟩) :: ps => paramItems gap name (t.spelling gap) :: Ty.paramSpellings gap ps
end

def argItems (gap : List Item) (args : List (Located Ty)) : List Item :=
  angleItems gap (args.map fun a => a.node.spelling gap)

theorem argItems_cons (gap : List Item) (first : Located Ty) (args : List (Located Ty)) :
    argItems gap (first :: args) = (.leftAngle, "<") ::
      (commaItems gap ((first :: args).map fun a => a.node.spelling gap) ++ [(.rightAngle, ">")]) := rfl

theorem Ty.argSpellings_eq (ts : List (Located Ty)) :
    Ty.argSpellings gap ts = ts.map fun t => t.node.spelling gap := by
  induction ts with
  | nil => rfl
  | cons t ts ih => rw [List.map_cons, ← ih]; rfl

theorem Ty.paramSpellings_eq (ps : List (Option String × Located Ty)) :
    Ty.paramSpellings gap ps = ps.map fun p => paramItems gap p.1 (p.2.node.spelling gap) := by
  induction ps with
  | nil => rfl
  | cons p ps ih => rw [List.map_cons, ← ih]; rfl

theorem spelling_simple (name : String) (args : List (Located Ty)) :
    (UserType.simple name args).spelling gap = (.identifier, name) :: argItems gap args := by
  rw [argItems, ← Ty.argSpellings_eq]
  rfl

theorem spelling_member (parent : UserType) (name : String) (args : List (Located Ty)) :
    (UserType.member parent name args).spelling gap =
      parent.spelling gap ++ (.dot, ".") :: (.identifier, name) :: argItems gap args := by
  rw [argItems, ← Ty.argSpellings_eq]
  rfl

theorem spelling_function (receiver : Option (Located Ty)) (params : List (Option String × Located Ty))
    (result : Located Ty) :
    (Ty.function receiver params result).spelling gap =
      functionItems gap (receiver.map fun r => r.node.spelling gap)
        (params.map fun p => paramItems gap p.1 (p.2.node.spelling gap)) (result.node.spelling gap) := by
  rw [← Ty.paramSpellings_eq]
  cases receiver <;> rfl

theorem map_intercalate {α β : Type} {g : List α → List β} (hnil : g [] = [])
    (happend : ∀ as bs, g (as ++ bs) = g as ++ g bs) (sep : List α) (xs : List (List α)) :
    g (sep.intercalate xs) = (g sep).intercalate (xs.map g) := by
  induction xs with
  | nil => exact hnil
  | cons x xs ih =>
    cases xs with
    | nil => simp
    | cons y ys =>
      rw [List.intercalate_cons_cons, happend, happend, ih, List.map_cons, List.map_cons, List.map_cons,
        List.intercalate_cons_cons]

-- ---------------------------------------------------------------------------
-- The text of a type
-- ---------------------------------------------------------------------------

theorem displayArgs_eq (ts : List (Located Ty)) : displayArgs ts = ts.map fun t => t.node.display := by
  induction ts with
  | nil => rfl
  | cons t ts ih => rw [List.map_cons, ← ih]; rfl

theorem displayParams_eq (ps : List (Option String × Located Ty)) :
    displayParams ps = ps.map fun p => paramText p.1 p.2.node.display := by
  induction ps with
  | nil => rfl
  | cons p ps ih => rw [List.map_cons, ← ih]; rfl

theorem display_simple (name : String) (args : List (Located Ty)) :
    (UserType.simple name args).display = name ++ inAngles (args.map fun t => t.node.display) := by
  rw [← displayArgs_eq]
  rfl

theorem display_member (parent : UserType) (name : String) (args : List (Located Ty)) :
    (UserType.member parent name args).display =
      parent.display ++ "." ++ name ++ inAngles (args.map fun t => t.node.display) := by
  rw [← displayArgs_eq]
  rfl

theorem display_function (receiver : Option (Located Ty)) (params : List (Option String × Located Ty))
    (result : Located Ty) :
    (Ty.function receiver params result).display =
      functionText (receiver.map fun r => r.node.display)
        (params.map fun p => paramText p.1 p.2.node.display) result.node.display := by
  rw [← displayParams_eq]
  cases receiver <;> rfl

theorem chars_commaItems {xs : List (List Item)} {texts : List String}
    (h : xs.map chars = texts.map String.toList) :
    chars (commaItems [blank] xs) = [',', ' '].intercalate (texts.map String.toList) := by
  rw [commaItems, map_intercalate rfl chars_append, h]
  rfl

theorem chars_angleItems {args : List (List Item)} {texts : List String}
    (h : args.map chars = texts.map String.toList) :
    chars (angleItems [blank] args) = (inAngles texts).toList := by
  cases args with
  | nil =>
    cases texts with
    | nil => rfl
    | cons text texts => cases h
  | cons arg args =>
    cases texts with
    | nil => cases h
    | cons text texts => simp [angleItems, inAngles, chars_commaItems h]

theorem chars_argItems {args : List (Located Ty)}
    (h : ∀ a ∈ args, chars (a.node.spelling [blank]) = a.node.display.toList) :
    chars (argItems [blank] args) = (inAngles (args.map fun t => t.node.display)).toList := by
  refine chars_angleItems ?_
  rw [List.map_map, List.map_map]
  exact List.map_congr_left h

theorem chars_paramItems (name : Option String) {x : List Item} {text : String}
    (h : chars x = text.toList) : chars (paramItems [blank] name x) = (paramText name text).toList := by
  cases name with
  | none => exact h
  | some name => simp [paramItems, paramText, h]

theorem chars_userSpelling (t : UserType)
    (h : ∀ a ∈ t.args, chars (a.node.spelling [blank]) = a.node.display.toList) :
    chars (t.spelling [blank]) = t.display.toList := by
  induction t using UserType.parents with
  | simple name args =>
    have hargs : ∀ a ∈ args, chars (a.node.spelling [blank]) = a.node.display.toList := h
    simp [spelling_simple, display_simple, chars_argItems hargs]
  | member parent name args ih =>
    obtain ⟨hparent, hargs⟩ := List.forall_mem_append.mp h
    simp [spelling_member, display_member, ih hparent, chars_argItems hargs]

theorem chars_functionItems {receiver : Option (List Item)} {params : List (List Item)} {result : List Item}
    {receiverText : Option String} {texts : List String} {text : String}
    (hreceiver : receiver.map chars = receiverText.map String.toList)
    (hparams : params.map chars = texts.map String.toList) (hresult : chars result = text.toList) :
    chars (functionItems [blank] receiver params result) = (functionText receiverText texts text).toList := by
  have hlist := chars_commaItems hparams
  cases receiver with
  | none =>
    cases receiverText with
    | none => simp [functionItems, functionText, hlist, hresult]
    | some r => cases hreceiver
  | some r =>
    cases receiverText with
    | none => cases hreceiver
    | some text => simp [functionItems, functionText, hlist, hresult, Option.some.inj hreceiver]

/-- The spelling of a type with blanks is its text. -/
theorem chars_spelling (t : Ty) : chars (t.spelling [blank]) = t.display.toList := by
  induction t using Ty.parts with
  | user t ih => exact chars_userSpelling t ih
  | nullable t ih =>
    have htext : (Ty.nullable t).display = t.node.display ++ "?" := rfl
    have hitems : (Ty.nullable t).spelling [blank] = t.node.spelling [blank] ++ [(.question, "?")] := rfl
    simp [htext, hitems, ih]
  | pointer t ih =>
    have htext : (Ty.pointer t).display = t.node.display ++ "*" := rfl
    have hitems : (Ty.pointer t).spelling [blank] = t.node.spelling [blank] ++ [(.times, "*")] := rfl
    simp [htext, hitems, ih]
  | function receiver params result ihr ihp ih =>
    rw [spelling_function, display_function]
    refine chars_functionItems ?_ ?_ ih
    · cases receiver with
      | none => rfl
      | some r => exact congrArg some (ihr r rfl)
    · rw [List.map_map, List.map_map]
      exact List.map_congr_left fun p hp => chars_paramItems p.1 (ihp p hp)

theorem display_mapArgs {g : Located Ty → Located Ty} (t : UserType)
    (h : ∀ a ∈ t.args, (g a).node.display = a.node.display) : (t.mapArgs g).display = t.display := by
  have htexts {as : List (Located Ty)} (h : ∀ a ∈ as, (g a).node.display = a.node.display) :
      (as.map g).map (fun a => a.node.display) = as.map fun a => a.node.display := by
    rw [List.map_map]
    exact List.map_congr_left h
  induction t using UserType.parents with
  | simple name args =>
    have hargs : ∀ a ∈ args, (g a).node.display = a.node.display := h
    rw [UserType.mapArgs, display_simple, display_simple, htexts hargs]
  | member parent name args ih =>
    obtain ⟨hparent, hargs⟩ := List.forall_mem_append.mp h
    rw [UserType.mapArgs, display_member, display_member, htexts hargs, ih hparent]

theorem display_mapParts {g : Located Ty → Located Ty} {receiver : Option (Located Ty)}
    {params : List (Option String × Located Ty)} {result : Located Ty}
    (hreceiver : ∀ r ∈ receiver, (g r).node.display = r.node.display)
    (hparams : ∀ p ∈ params, (g p.2).node.display = p.2.node.display)
    (hresult : (g result).node.display = result.node.display) :
    (Ty.function (receiver.map g) (params.map fun p => (p.1, g p.2)) (g result)).display =
      (Ty.function receiver params result).display := by
  have hr : (receiver.map g).map (fun r => r.node.display) = receiver.map fun r => r.node.display := by
    cases receiver with
    | none => rfl
    | some r => exact congrArg some (hreceiver r rfl)
  have hp : (params.map fun p => (p.1, g p.2)).map (fun p => paramText p.1 p.2.node.display) =
      params.map fun p => paramText p.1 p.2.node.display := by
    rw [List.map_map]
    exact List.map_congr_left fun p hp => congrArg (paramText p.1) (hparams p hp)
  rw [display_function, display_function, hr, hp, hresult]

theorem UserType.mapSpans_eq (f : Span → Span) (t : UserType) :
    HasSpans.mapSpans f t = t.mapArgs (HasSpans.mapSpans f) := by
  induction t using UserType.parents with
  | simple name args => exact mapSpans_simple name args
  | member parent name args ih => rw [mapSpans_typeMember, ih]; rfl

theorem display_mapSpans (f : Span → Span) (t : Ty) : (mapSpans f t).display = t.display := by
  induction t using Ty.parts with
  | user t ih =>
    rw [mapSpans_user, UserType.mapSpans_eq]
    exact display_mapArgs t ih
  | nullable t ih => exact congrArg (· ++ "?") ih
  | pointer t ih => exact congrArg (· ++ "*") ih
  | function receiver params result ihr ihp ih =>
    have hparams : mapSpans f params = params.map fun p => (p.1, mapSpans f p.2) :=
      List.map_congr_left fun p _ => congrArg (·, mapSpans f p.2) (mapSpans_maybeName p.1)
    rw [mapSpans_functionType, hparams]
    exact display_mapParts ihr ihp ih

-- ---------------------------------------------------------------------------
-- What the grammar reads of it
-- ---------------------------------------------------------------------------

@[simp] theorem visibleItems_blank (is : List Item) : visibleItems (blank :: is) = visibleItems is := rfl

theorem visible_commaItems (xs : List (List Item)) :
    visibleItems (commaItems [blank] xs) = commaItems [] (xs.map visibleItems) :=
  map_intercalate rfl visibleItems_append _ xs

theorem visible_angleItems (args : List (List Item)) :
    visibleItems (angleItems [blank] args) = angleItems [] (args.map visibleItems) := by
  cases args with
  | nil => rfl
  | cons arg args =>
    show (.leftAngle, "<") :: visibleItems (commaItems [blank] (arg :: args) ++ [(.rightAngle, ">")]) = _
    rw [visibleItems_append, visible_commaItems]
    rfl

theorem visible_paramItems (name : Option String) (type : List Item) :
    visibleItems (paramItems [blank] name type) = paramItems [] name (visibleItems type) := by
  cases name <;> rfl

theorem visible_functionItems (receiver : Option (List Item)) (params : List (List Item))
    (result : List Item) :
    visibleItems (functionItems [blank] receiver params result) =
      functionItems [] (receiver.map visibleItems) (params.map visibleItems) (visibleItems result) := by
  cases receiver with
  | none =>
    show (.leftParen, "(") :: visibleItems (commaItems [blank] params ++ _) = _
    rw [visibleItems_append, visible_commaItems]
    rfl
  | some r =>
    rw [functionItems, visibleItems_append, visibleItems_append]
    show visibleItems r ++ [(.dot, ".")] ++
      (.leftParen, "(") :: visibleItems (commaItems [blank] params ++ _) = _
    rw [visibleItems_append, visible_commaItems]
    rfl

theorem visible_argItems {args : List (Located Ty)}
    (h : ∀ a ∈ args, visibleItems (a.node.spelling [blank]) = a.node.spelling []) :
    visibleItems (argItems [blank] args) = argItems [] args := by
  rw [argItems, visible_angleItems, List.map_map, argItems]
  exact congrArg _ (List.map_congr_left h)

theorem visible_userSpelling (t : UserType)
    (h : ∀ a ∈ t.args, visibleItems (a.node.spelling [blank]) = a.node.spelling []) :
    visibleItems (t.spelling [blank]) = t.spelling [] := by
  induction t using UserType.parents with
  | simple name args =>
    have hargs : ∀ a ∈ args, visibleItems (a.node.spelling [blank]) = a.node.spelling [] := h
    rw [spelling_simple, spelling_simple, ← visible_argItems hargs]
    rfl
  | member parent name args ih =>
    obtain ⟨hparent, hargs⟩ := List.forall_mem_append.mp h
    rw [spelling_member, spelling_member, visibleItems_append, ih hparent, ← visible_argItems hargs]
    rfl

/-- Without layout the spelling with blanks is the one without. -/
theorem visible_spelling (t : Ty) : visibleItems (t.spelling [blank]) = t.spelling [] := by
  induction t using Ty.parts with
  | user t ih => exact visible_userSpelling t ih
  | nullable t ih =>
    show visibleItems (t.node.spelling [blank] ++ [(.question, "?")]) = t.node.spelling [] ++ [(.question, "?")]
    rw [visibleItems_append, ih]
    rfl
  | pointer t ih =>
    show visibleItems (t.node.spelling [blank] ++ [(.times, "*")]) = t.node.spelling [] ++ [(.times, "*")]
    rw [visibleItems_append, ih]
    rfl
  | function receiver params result ihr ihp ih =>
    rw [spelling_function, spelling_function, visible_functionItems, ih, List.map_map]
    congr 1
    · cases receiver with
      | none => rfl
      | some r => exact congrArg some (ihr r rfl)
    · exact List.map_congr_left fun p hp => (visible_paramItems p.1 _).trans (by rw [ihp p hp])

end Linewise
