import Linewise.Proofs.Lexing.LongestMatch
import Linewise.Proofs.Lexing.Parted
import Linewise.Proofs.Parsing.GrammarTakes
import Linewise.Proofs.Parsing.GrammarTypes
import Linewise.Proofs.Parsing.Properties
import Linewise.Proofs.Texts

/-!
# Types and their texts

The text of a type that stands in a source says which type it is, but for one thing: a mark behind a function
type looks like a mark behind the result. Where no type has such a mark, two types with one text are the same.
If besides each `?` is one of a user type, the text is read back as the type.
-/

namespace Linewise

open Linewise.Parser Lexeme

variable {f : Fallthrough} {tags : LayoutTags TokenKind Channel} {source : String} {s : TokenStream}
  {file : SourceFile} {n : Nat} {t u : Ty}

-- ---------------------------------------------------------------------------
-- The types of a source
-- ---------------------------------------------------------------------------

theorem named_of_lex (h : lex source = .ok s) (tags : LayoutTags TokenKind Channel) :
    Named (.start s tags) := by
  intro x hx hkind
  obtain ⟨t, ht, rfl⟩ := List.mem_map.mp hx
  have hid : t.kind = .identifier := hkind
  have hmem : t ∈ s.tokens.toList := (List.mem_filter.mp ((List.takeWhile_prefix _).subset ht)).1
  exact hid ▸ spells_of_lex h hmem (by rw [hid]; decide)

/-- The type stands in a source that is accepted. -/
def Ty.IsParsed (t : Ty) : Prop :=
  ∃ source s tags file, lex source = .ok s ∧ parse tags s = .ok file ∧ t ∈ HasTypes.types file

theorem Ty.IsParsed.of_property {name : String} {type : Located Ty} {span : Span} (hclean : Clean source.toList)
    (h : parse (.standard f) (.ofList (items source.toList ++ [(.eof, "")])) =
      .ok ⟨[⟨.property ⟨⟨[], []⟩, true, name, some type, none⟩, span⟩]⟩) : type.node.IsParsed := by
  refine ⟨_, _, _, _, lex_eq_ok.mpr ⟨hclean, rfl⟩, h, ?_⟩
  have hself : type.node ∈ HasTypes.types type.node := by cases type.node <;> simp
  exact List.mem_append_left _ (List.mem_append_right _ hself)

theorem Ty.IsParsed.written (h : t.IsParsed) : t.Written 127 := by
  obtain ⟨source, s, tags, file, hlex, hparse, ht⟩ := h
  obtain ⟨ds, u, hrun⟩ := answers_declarations maxDepth (.start s tags)
  rw [parse, parseWithin_of_run hrun, verdict_eq_ok] at hparse
  rw [hparse.2] at ht
  exact (writes_declarations 127 _ ds u (named_of_lex hlex tags) hrun).1 t ht

-- ---------------------------------------------------------------------------
-- Reading items
-- ---------------------------------------------------------------------------

theorem items_start (f : Fallthrough) (h : lex source = .ok s) :
    (State.start s (.standard f)).items = visibleItems (items source.toList) := by
  obtain ⟨hclean, rfl⟩ := lex_eq_ok.mp h
  have hread {is : List Item} (hi : ∀ i ∈ is, i.1 ≠ .eof) (l : Lead) :
      (l.read f is).map (·.token.item) = visibleItems is := by
    induction is generalizing l with
    | nil => rfl
    | cons i is ih =>
      obtain ⟨hne, hrest⟩ := List.forall_mem_cons.mp hi
      rw [Lead.read, if_neg hne, visibleItems]
      cases hl : i.1.isLayout with
      | true => rw [if_pos rfl, ih hrest, List.filter_cons_of_neg (by simp [hl])]; rfl
      | false =>
        rw [if_neg Bool.false_ne_true, List.map_cons, ih hrest, List.filter_cons_of_pos (by simp [hl])]
        rfl
  have hitems : ∀ i ∈ items source.toList, i.1 ≠ .eof := fun i hi => (sound_items hclean i hi).not_eof
  rw [← hread hitems .start, ← Lead.read_eof hitems, ← map_bare_terminals, List.map_map]
  rfl

theorem items_display (h : t.Written n) : items t.display.toList = t.spelling [blank] := by
  have hparted := (partedType_spelling h).parted [] (fun _ hc => by cases hc) trivial
  rw [List.append_nil] at hparted
  rw [← chars_spelling]
  exact hparted.items_eq.2

-- ---------------------------------------------------------------------------
-- Types with one text
-- ---------------------------------------------------------------------------

theorem sameShape_of_display (ht : t.Written n) (hu : u.Written n) (hmt : t.Unmarked) (hmu : u.Unmarked)
    (h : t.display = u.display) : SameShape t u := by
  have hspelling : t.spelling [] = u.spelling [] := by
    rw [← visible_spelling, ← visible_spelling, ← items_display ht, ← items_display hu, h]
  obtain ⟨s, hdepth, hitems⟩ := exists_items (t.spelling [])
  have htakes : TakesTypes (·.marksFunction = false) 0 (typeWith looseTail n n) n :=
    takes_typeWith unmarkedMarking n (by omega)
  obtain ⟨a, v, hrun, ha, -⟩ := htakes ⟨t, ⟨0, 0⟩⟩ [] ht hmt (.inr (.inr (.inr rfl))) s hdepth
    (hitems.trans (List.append_nil _).symm)
  obtain ⟨b, w, hrun', hb, -⟩ := htakes ⟨u, ⟨0, 0⟩⟩ [] hu hmu (.inr (.inr (.inr rfl))) s hdepth
    (hitems.trans (hspelling.trans (List.append_nil _).symm))
  rw [hrun] at hrun'
  cases hrun'
  exact SameShape.node (ha.symm.trans hb)

/-- Two types of sources have one text if and only if they are the same, up to spans, when each `?` and `*` that
applies to a function type is taken as one of its result. So the text of a type determines it if no type inside
of it is a function type with a mark. -/
theorem display_eq_iff (ht : t.IsParsed) (hu : u.IsParsed) :
    (t.display = u.display ↔ mapSpans noSpan t.settled = mapSpans noSpan u.settled) ∧
      ((∀ x ∈ types t ++ types u, x.marksFunction = false) →
        (t.display = u.display ↔ mapSpans noSpan t = mapSpans noSpan u)) := by
  have hsettled : t.display = u.display ↔ mapSpans noSpan t.settled = mapSpans noSpan u.settled := by
    rw [← display_settled t, ← display_settled u]
    refine ⟨sameShape_of_display ht.written.settled hu.written.settled (unmarked_settled t)
      (unmarked_settled u), fun h => ?_⟩
    rw [← display_mapSpans noSpan t.settled, h, display_mapSpans]
  refine ⟨hsettled, fun hmarks => ?_⟩
  obtain ⟨hmt, hmu⟩ := List.forall_mem_append.mp hmarks
  rw [hsettled, Ty.Unmarked.settled_eq hmt, Ty.Unmarked.settled_eq hmu]

set_option maxRecDepth 4000 in
/-- A mark behind the parentheses of a function type looks like a mark of its result. The layout of a type does
not show. -/
theorem display_eq_iff_parentheses :
    ∃ t u v : Ty, (t.IsParsed ∧ u.IsParsed ∧ v.IsParsed) ∧ (t.display = u.display ∧ u.display = v.display) ∧
      mapSpans noSpan t ≠ mapSpans noSpan u ∧ mapSpans noSpan t.settled = mapSpans noSpan u.settled ∧
      (∀ x ∈ types u ++ types v, x.marksFunction = false) ∧ mapSpans noSpan u = mapSpans noSpan v := by
  have ht : Ty.IsParsed (.nullable ⟨.function none [(none, ⟨.user (.simple "A" []), ⟨9, 10⟩⟩)]
      ⟨.user (.simple "B" []), ⟨15, 16⟩⟩, ⟨8, 16⟩⟩) :=
    .of_property (by decide +kernel : Clean "val x: ((A) -> B)?".toList) (f := .accept) rfl
  have hu : Ty.IsParsed (.function none [(none, ⟨.user (.simple "A" []), ⟨8, 9⟩⟩)]
      ⟨.nullable ⟨.user (.simple "B" []), ⟨14, 15⟩⟩, ⟨14, 16⟩⟩) :=
    .of_property (by decide +kernel : Clean "val x: (A) -> B?".toList) (f := .accept) rfl
  have hv : Ty.IsParsed (.function none [(none, ⟨.user (.simple "A" []), ⟨8, 9⟩⟩)]
      ⟨.nullable ⟨.user (.simple "B" []), ⟨12, 13⟩⟩, ⟨12, 14⟩⟩) :=
    .of_property (by decide +kernel : Clean "val x: (A)->B?".toList) (f := .accept) rfl
  exact ⟨_, _, _, ⟨ht, hu, hv⟩, ⟨rfl, rfl⟩, nofun, (display_eq_iff ht hu).1.mp rfl, by decide,
    ((display_eq_iff hu hv).2 (by decide)).mp rfl⟩

-- ---------------------------------------------------------------------------
-- Texts that are read back
-- ---------------------------------------------------------------------------

theorem takes_declarationBody {d : Nat} {is : List Item} {rules : Rules} {type : Located Ty} (name : String)
    (hr : RulesRead rules) (h : Takes d rules.type is [] type) :
    Takes d (declarationBody rules)
      ((.keyword .valWord, "val") :: (.identifier, name) :: (.colon, ":") :: is) []
      ⟨.property ⟨⟨[], []⟩, true, name, some type, none⟩, ⟨0, 0⟩⟩ :=
  takes_propertyDeclaration name hr (.accept_bind (h.bind fun _ ht => takes_pure ht.some))
    (.accept_no_bind nofun (takes_pure (.refl _)))

theorem property_of_sameShape {decl : Declaration} {name : String} {type : Located Ty}
    (h : SameShape decl (.property ⟨⟨[], []⟩, true, name, some type, none⟩)) :
    ∃ type', decl = .property ⟨⟨[], []⟩, true, name, some type', none⟩ ∧ SameShape type'.node type.node := by
  obtain ⟨type', value, rfl, htype, hvalue⟩ := property_parts h
  obtain rfl : value = none := Option.map_eq_none_iff.mp hvalue
  cases type' with
  | none => cases htype
  | some type' => exact ⟨type', rfl, SameShape.node (Option.some.inj htype)⟩

theorem items_property (h : t.Written n) :
    Clean ("val x: " ++ t.display).toList ∧
      visibleItems (items ("val x: " ++ t.display).toList) =
        (.keyword .valWord, "val") :: (.identifier, "x") :: (.colon, ":") :: t.spelling [] := by
  have htype := partedType_spelling h
  have hparted : Parted (t.spelling [blank]) := by
    have := htype.parted [] (fun _ hc => by cases hc) trivial
    rwa [List.append_nil] at this
  have hblank {is : List Item} : Delimits (blank :: is) := delimits_sign rfl (by decide)
  have hfront : Parted ((.keyword .valWord, "val") :: blank :: (.identifier, "x") :: (.colon, ":") :: blank ::
      t.spelling [blank]) := by
    refine parted_word (isName_spelling .valWord) rfl hblank (parted_blank ?_ ?_)
    · rintro _ ⟨⟩
      rfl
    · refine parted_word ⟨by decide, nofun⟩ rfl (delimits_sign rfl (by decide)) ?_
      exact parted_sign rfl (fun _ => rfl) (parted_blank htype.opens.not_blank hparted)
  have hchars : ("val x: " ++ t.display).toList =
      chars ((.keyword .valWord, "val") :: blank :: (.identifier, "x") :: (.colon, ":") :: blank ::
        t.spelling [blank]) := by
    rw [String.toList_append, ← chars_spelling]
    rfl
  obtain ⟨hclean, hitems⟩ := hfront.items_eq
  rw [hchars, hitems, ← visible_spelling]
  exact ⟨hclean, rfl⟩

/-- The text of a type of a source, behind the name of a property, is read as the type of the property, if all
types inside of it are plain. -/
theorem parse_display (ht : t.IsParsed) (hplain : ∀ u ∈ types t, u.isPlain = true) (f : Fallthrough) :
    ∃ s type span, lex ("val x: " ++ t.display) = .ok s ∧
      parse (.standard f) s = .ok ⟨[⟨.property ⟨⟨[], []⟩, true, "x", some type, none⟩, span⟩]⟩ ∧
      mapSpans noSpan type.node = mapSpans noSpan t := by
  obtain ⟨hclean, hitems⟩ := items_property ht.written
  have hlex := lex_eq_ok.mpr ⟨hclean, rfl⟩
  have htype : TakesTypes (fun t => t.isPlain = true) 1 (grammar maxDepth 127).type 127 := by
    show TakesTypes _ 1 (typeRule maxDepth 127) 127
    rw [typeRule_eq]
    exact takes_typeWith plainMarking maxDepth (by decide)
  have htakes := htype ⟨t, ⟨0, 0⟩⟩ [] ht.written hplain (.inr (.inr (.inr rfl)))
  rw [List.append_nil] at htakes
  have hdecl := takes_declarationBody "x" (rulesRead_grammar maxDepth 127) htakes
  obtain ⟨⟨decl, span⟩, hparse, hsame⟩ := parse_of_takes hdecl nofun ((items_start f hlex).trans hitems)
  obtain ⟨type, rfl, htype⟩ := property_of_sameShape hsame.node
  exact ⟨_, type, span, hlex, hparse, htype⟩

set_option maxRecDepth 4000 in
theorem parse_display_receiver :
    ∃ t : Ty, t.IsParsed ∧ (∀ u ∈ types t, u.isPlain = true) ∧ t.display = "A.(n: B<C*>, (D) -> E) -> F?" ∧
      ∃ s type span, lex ("val x: " ++ t.display) = .ok s ∧
        parse (.standard .reject) s = .ok ⟨[⟨.property ⟨⟨[], []⟩, true, "x", some type, none⟩, span⟩]⟩ ∧
        mapSpans noSpan type.node = mapSpans noSpan t := by
  have ht : Ty.IsParsed (.function (some ⟨.user (.simple "A" []), ⟨7, 8⟩⟩)
      [(some "n", ⟨.user (.simple "B" [⟨.pointer ⟨.user (.simple "C" []), ⟨15, 16⟩⟩, ⟨15, 17⟩⟩]), ⟨13, 18⟩⟩),
        (none, ⟨.function none [(none, ⟨.user (.simple "D" []), ⟨22, 23⟩⟩)] ⟨.user (.simple "E" []), ⟨26, 27⟩⟩,
          ⟨21, 27⟩⟩)]
      ⟨.nullable ⟨.user (.simple "F" []), ⟨33, 34⟩⟩, ⟨33, 35⟩⟩) :=
    .of_property (by decide +kernel : Clean "val x: A.(n: B<C*>, ((D)->E)) -> F?".toList) (f := .accept) rfl
  exact ⟨_, ht, by decide, rfl, parse_display ht (by decide) .reject⟩

end Linewise
