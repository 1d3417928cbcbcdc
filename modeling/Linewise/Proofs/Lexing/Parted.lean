import Linewise.Proofs.Ast.Spelling

/-!
# Texts made of items

The characters of a list of items are lexed as these items if each of them ends where what follows begins:
`Parted`. What follows a name, for one, does not begin with a letter. The text of a type is lexed as its
spelling.
-/

namespace Linewise

open Lexeme

variable {i : Item} {is js rest : List Item} {xs : List (List Item)} {name text : String} {c : Char}
  {cs ds : List Char}

/-- What a scan reads of the characters of the items is the first one, and then the next one, and so on. -/
def Parted : List Item → Prop
  | [] => True
  | i :: is => (∃ c ds, i.2.toList = c :: ds ∧ scan c (ds ++ chars is) = .good i.1 ds.length) ∧ Parted is

theorem Parted.items_eq (h : Parted is) : Clean (chars is) ∧ items (chars is) = is := by
  induction is with
  | nil => exact ⟨clean_nil, rfl⟩
  | cons i is ih =>
    obtain ⟨⟨c, ds, htext, hscan⟩, his⟩ := h
    obtain ⟨hclean, hitems⟩ := ih his
    have hflaws : (scan c (ds ++ chars is)).flaws = [] := by rw [hscan]; rfl
    have hmore : (scan c (ds ++ chars is)).more = ds.length := by rw [hscan]; rfl
    rw [chars_cons, htext, List.cons_append]
    refine ⟨clean_cons.mpr ⟨hflaws, ?_⟩, ?_⟩
    · rwa [hmore, List.drop_left]
    · obtain ⟨kind, hkind, -, heq⟩ := items_cons hflaws
      rw [hscan] at hkind
      obtain rfl : i.1 = kind := Option.some.inj hkind
      rw [heq, hmore, List.take_left, List.drop_left, hitems, ← htext, String.ofList_toList]

-- ---------------------------------------------------------------------------
-- One item
-- ---------------------------------------------------------------------------

/-- What stands here ends a name, and makes no longer sign of an angle bracket before it. -/
def Delimits (is : List Item) : Prop := ∀ c ∈ (chars is).head?, Text.isNameRest c = false ∧ c ≠ '='

/-- What stands here begins as a type does. -/
def OpensType (is : List Item) : Prop :=
  ∃ c cs, chars is = c :: cs ∧ (Text.isNameStart c = true ∨ c = '(')

theorem OpensType.append (h : OpensType is) (js : List Item) : OpensType (is ++ js) := by
  obtain ⟨c, cs, hchars, hc⟩ := h
  exact ⟨c, cs ++ chars js, by rw [chars_append, hchars, List.cons_append], hc⟩

theorem OpensType.not_blank (h : OpensType is) : ∀ c ∈ (chars is).head?, Text.isBlank c = false := by
  obtain ⟨c, cs, hchars, hc⟩ := h
  rw [hchars]
  rintro _ ⟨⟩
  rcases hc with hc | rfl
  · exact not_isBlank (.inr hc)
  · rfl

theorem OpensType.ne_equals (h : OpensType is) : ∀ c ∈ (chars is).head?, c ≠ '=' := by
  obtain ⟨c, cs, hchars, hc⟩ := h
  rw [hchars]
  rintro _ ⟨⟩ rfl
  rcases hc with hc | hc
  · exact absurd hc (by decide)
  · cases hc

theorem parted_sign {kind : TokenKind} (htext : text.toList = c :: ds)
    (hscan : ∀ es, scan c (ds ++ es) = .good kind ds.length) (h : Parted is) : Parted ((kind, text) :: is) :=
  ⟨⟨c, ds, htext, hscan _⟩, h⟩

theorem scan_pair_one {second : Char} {two one : TokenKind} (h : ∀ c ∈ cs.head?, c ≠ second) :
    pair second two one cs = .good one 0 :=
  if_neg fun hc => h second (Option.mem_def.mpr hc) rfl

theorem parted_leftAngle (hnext : ∀ c ∈ (chars is).head?, c ≠ '=') (h : Parted is) :
    Parted ((.leftAngle, "<") :: is) :=
  ⟨⟨'<', [], rfl, scan_pair_one hnext⟩, h⟩

theorem parted_rightAngle (hnext : Delimits is) (h : Parted is) : Parted ((.rightAngle, ">") :: is) :=
  ⟨⟨'>', [], rfl, scan_pair_one fun c hc => (hnext c hc).2⟩, h⟩

theorem countWhile_of_head {p : Char → Bool} (h : ∀ c ∈ cs.head?, p c = false) : countWhile p cs = 0 := by
  cases cs with
  | nil => rfl
  | cons c cs => rw [countWhile, List.takeWhile_cons, h c rfl]; rfl

theorem parted_blank (hnext : ∀ c ∈ (chars is).head?, Text.isBlank c = false) (h : Parted is) :
    Parted (blank :: is) := by
  refine ⟨⟨' ', [], rfl, ?_⟩, h⟩
  rw [List.nil_append, scan_blank rfl, countWhile_of_head hnext]
  rfl

theorem parted_word {kind : TokenKind} (hname : IsName name.toList)
    (hkind : (Keyword.ofString? name).elim .identifier .keyword = kind) (hnext : Delimits is) (h : Parted is) :
    Parted ((kind, name) :: is) := by
  cases hchars : name.toList with
  | nil => rw [hchars] at hname; exact hname.elim
  | cons c ds =>
    rw [hchars] at hname
    refine ⟨⟨c, ds, hchars, ?_⟩, h⟩
    have hnone : (chars is).takeWhile Text.isNameRest = [] := by
      have := countWhile_of_head fun c hc => (hnext c hc).1
      exact List.eq_nil_of_length_eq_zero this
    rw [scan_nameStart hname.1, Lexeme.name, List.takeWhile_append_of_pos hname.2, hnone, List.append_nil,
      ← hchars, String.ofList_toList, ← hkind]
    cases Keyword.ofString? name <;> rfl

theorem parted_name (hname : Spells .identifier name.toList) (hnext : Delimits is) (h : Parted is) :
    Parted ((.identifier, name) :: is) := by
  refine parted_word hname.1 ?_ hnext h
  cases hword : Keyword.ofString? name with
  | none => rfl
  | some word => exact absurd (congrArg String.toList (Keyword.ofString?_eq_some_iff.mp hword)) (hname.2 word)

-- ---------------------------------------------------------------------------
-- Types
-- ---------------------------------------------------------------------------

/-- The items begin as a type does and are parted from what ends them. -/
structure PartedType (is : List Item) : Prop where
  opens : OpensType is
  parted : ∀ rest, Delimits rest → Parted rest → Parted (is ++ rest)

theorem delimits_sign (htext : text.toList.head? = some c) {kind : TokenKind}
    (hc : Text.isNameRest c = false ∧ c ≠ '=') : Delimits ((kind, text) :: is) := by
  rw [Delimits, chars_cons, List.head?_append, htext]
  rintro _ ⟨⟩
  exact hc

theorem opens_commaItems (hne : xs ≠ []) (h : ∀ x ∈ xs, PartedType x) :
    OpensType (commaItems [blank] xs) := by
  cases xs with
  | nil => exact absurd rfl hne
  | cons x xs =>
    obtain ⟨hx, -⟩ := List.forall_mem_cons.mp h
    cases xs with
    | nil => rw [commaItems_singleton]; exact hx.opens
    | cons y ys => rw [commaItems_cons]; exact hx.opens.append _

theorem parted_commaItems (h : ∀ x ∈ xs, PartedType x) (hnext : Delimits rest) (hrest : Parted rest) :
    Parted (commaItems [blank] xs ++ rest) := by
  induction xs with
  | nil => exact hrest
  | cons x xs ih =>
    obtain ⟨hx, hxs⟩ := List.forall_mem_cons.mp h
    cases xs with
    | nil => rw [commaItems_singleton]; exact hx.parted rest hnext hrest
    | cons y ys =>
      have hopens := (opens_commaItems (List.cons_ne_nil y ys) hxs).append rest
      rw [commaItems_cons, List.append_assoc]
      refine hx.parted _ (delimits_sign rfl (by decide)) (parted_sign rfl (fun _ => rfl) ?_)
      exact parted_blank hopens.not_blank (ih hxs)

theorem delimits_angleItems (hnext : Delimits rest) : Delimits (angleItems [blank] xs ++ rest) := by
  cases xs with
  | nil => exact hnext
  | cons x xs => exact delimits_sign rfl (by decide)

theorem parted_angleItems (h : ∀ x ∈ xs, PartedType x) (hnext : Delimits rest) (hrest : Parted rest) :
    Parted (angleItems [blank] xs ++ rest) := by
  cases xs with
  | nil => exact hrest
  | cons x xs =>
    show Parted ((.leftAngle, "<") :: (commaItems [blank] (x :: xs) ++ [(.rightAngle, ">")] ++ rest))
    rw [List.append_assoc]
    have hopens := opens_commaItems (List.cons_ne_nil x xs) h
    refine parted_leftAngle (hopens.append _).ne_equals (parted_commaItems h ?_ ?_)
    · exact delimits_sign rfl (by decide)
    · exact parted_rightAngle hnext hrest

theorem opens_name (hname : Spells .identifier name.toList) : OpensType ((.identifier, name) :: is) := by
  cases hchars : name.toList with
  | nil => rw [hchars] at hname; exact hname.1.elim
  | cons c ds =>
    rw [hchars] at hname
    exact ⟨c, ds ++ chars is, by rw [chars_cons, hchars, List.cons_append], .inl hname.1.1⟩

theorem partedType_user (t : UserType) (hnames : ∀ name ∈ t.names, Spells .identifier name.toList)
    (hargs : ∀ a ∈ t.args, PartedType (a.node.spelling [blank])) : PartedType (t.spelling [blank]) := by
  have hlist {args : List (Located Ty)} (h : ∀ a ∈ args, PartedType (a.node.spelling [blank])) :
      ∀ x ∈ args.map fun a => a.node.spelling [blank], PartedType x := fun x hx => by
    obtain ⟨a, ha, rfl⟩ := List.mem_map.mp hx
    exact h a ha
  induction t using UserType.parents with
  | simple name args =>
    have hname := hnames name List.mem_cons_self
    rw [spelling_simple]
    exact ⟨opens_name hname, fun rest hnext hrest =>
      parted_name hname (delimits_angleItems hnext) (parted_angleItems (hlist hargs) hnext hrest)⟩
  | member parent name args ih =>
    obtain ⟨hparents, hname⟩ := List.forall_mem_append.mp hnames
    obtain ⟨hparentArgs, hargs⟩ := List.forall_mem_append.mp hargs
    have hparent := ih hparents hparentArgs
    rw [spelling_member]
    refine ⟨hparent.opens.append _, fun rest hnext hrest => ?_⟩
    rw [List.append_assoc]
    refine hparent.parted _ (delimits_sign rfl (by decide)) (parted_sign rfl (fun _ => rfl) ?_)
    exact parted_name (hname name List.mem_cons_self) (delimits_angleItems hnext)
      (parted_angleItems (hlist hargs) hnext hrest)

theorem partedType_mark (h : PartedType is) {kind : TokenKind} (htext : text.toList = [c])
    (hc : Text.isNameRest c = false ∧ c ≠ '=') (hscan : ∀ es, scan c es = .good kind 0) :
    PartedType (is ++ [(kind, text)]) where
  opens := h.opens.append _
  parted rest hnext hrest := by
    rw [List.append_assoc]
    exact h.parted _ (delimits_sign (by rw [htext]; rfl) hc) (parted_sign htext hscan hrest)

theorem partedType_param {label : Option String} (hname : ∀ name ∈ label, Spells .identifier name.toList)
    (h : PartedType is) : PartedType (paramItems [blank] label is) := by
  cases label with
  | none => exact h
  | some name =>
    refine ⟨opens_name (hname name rfl), fun rest hnext hrest => ?_⟩
    refine parted_name (hname name rfl) (delimits_sign rfl (by decide)) (parted_sign rfl (fun _ => rfl) ?_)
    exact parted_blank (h.opens.append rest).not_blank (h.parted rest hnext hrest)

theorem partedType_function {receiver : Option (List Item)} (hreceiver : ∀ r ∈ receiver, PartedType r)
    (hparams : ∀ x ∈ xs, PartedType x) (hresult : PartedType is) :
    PartedType (functionItems [blank] receiver xs is) := by
  have hparens (rest : List Item) (hnext : Delimits rest) (hrest : Parted rest) :
      Parted ((.leftParen, "(") :: (commaItems [blank] xs ++
        (.rightParen, ")") :: (blank :: (.arrow, "->") :: (blank :: is))) ++ rest) := by
    rw [List.cons_append, List.append_assoc]
    refine parted_sign rfl (fun _ => rfl) (parted_commaItems hparams (delimits_sign rfl (by decide)) ?_)
    refine parted_sign rfl (fun _ => rfl) (parted_blank ?_ (parted_sign rfl (fun _ => rfl) ?_))
    · rintro _ ⟨⟩
      rfl
    · exact parted_blank (hresult.opens.append rest).not_blank (hresult.parted rest hnext hrest)
  cases receiver with
  | none => exact ⟨⟨'(', _, rfl, .inr rfl⟩, hparens⟩
  | some r =>
    have hr := hreceiver r rfl
    rw [functionItems]
    refine ⟨(hr.opens.append _).append _, fun rest hnext hrest => ?_⟩
    rw [List.append_assoc, List.append_assoc]
    exact hr.parted _ (delimits_sign rfl (by decide))
      (parted_sign rfl (fun _ => rfl) (hparens rest hnext hrest))

theorem partedType_spelling {n : Nat} {t : Ty} (h : t.Written n) : PartedType (t.spelling [blank]) := by
  induction h with
  | @user n t hnames _ ih => exact partedType_user t hnames ih
  | nullable _ ih => exact partedType_mark ih rfl (by decide) fun _ => rfl
  | pointer _ ih => exact partedType_mark ih rfl (by decide) fun _ => rfl
  | function _ _ hnames _ _ ihr ihp ih =>
    rw [spelling_function]
    refine partedType_function (fun x hx => ?_) (fun x hx => ?_) ih
    · obtain ⟨r, hr, rfl⟩ := Option.map_eq_some_iff.mp hx
      exact ihr r hr
    · obtain ⟨p, hp, rfl⟩ := List.mem_map.mp hx
      exact partedType_param (hnames p hp) (ihp p hp)

end Linewise
