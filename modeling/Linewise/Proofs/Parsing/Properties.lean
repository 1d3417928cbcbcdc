import Linewise.Proofs.Parsing.GrammarProgress
import Linewise.Proofs.Parsing.Sources
import Linewise.Proofs.Parsing.Takes

/-!
# Sources of one property

What is taken as the type and as the value of a property is taken as such where the property is a whole source.
-/

namespace Linewise.Parser

variable {d : Nat} {is is₁ js : List Item} {rules : Rules} {tags : LayoutTags TokenKind Channel}
  {s : TokenStream} {type : Option (Located Ty)} {value : Option (Located Expr)}

theorem takes_modifiers (hr : RulesRead rules) :
    Takes d (modifiers rules) ((.keyword .valWord, "val") :: is) ((.keyword .valWord, "val") :: is)
      ⟨[], []⟩ := by
  have hnone : Takes d modifier? ((.keyword .valWord, "val") :: is) ((.keyword .valWord, "val") :: is) none :=
    .peek_bind (takes_pure (.refl _))
  refine .iterate_done (rounds_modifierRound hr) (.here_bind fun start => ?_)
  refine .nextIs_bind (decide_eq_false nofun) (hnone.bind fun m hsame => ?_)
  cases m with
  | some m => cases hsame
  | none => exact takes_pure (.refl _)

theorem takes_property (name : String) {ms ms' : Modifiers} (hms : SameShape ms ms')
    (htype : Takes d (behind .colon rules.type) is is₁ type)
    (hvalue : Takes d (behind .assign rules.expression) is₁ js value) :
    Takes d (property rules ms) ((.keyword .valWord, "val") :: (.identifier, name) :: is) js
      ⟨ms', true, name, type, value⟩ := by
  have hbinding : Takes d binding ((.keyword .valWord, "val") :: (.identifier, name) :: is)
      ((.identifier, name) :: is) true :=
    .peek_bind (.expect_bind (takes_pure (.refl _)))
  refine hbinding.bind fun readonly (hreadonly : readonly = true) => .identifier_bind ?_
  refine htype.bind fun type' ht => hvalue.bind fun value' hv => takes_pure ?_
  rw [SameShape, mapSpans_property, mapSpans_property, hms, hreadonly, ht, hv]

theorem takes_propertyDeclaration (name : String) (hr : RulesRead rules)
    (htype : Takes d (behind .colon rules.type) is is₁ type)
    (hvalue : Takes d (behind .assign rules.expression) is₁ js value) :
    Takes d (declarationBody rules) ((.keyword .valWord, "val") :: (.identifier, name) :: is) js
      ⟨.property ⟨⟨[], []⟩, true, name, type, value⟩, ⟨0, 0⟩⟩ := by
  have hnode : Takes d (declarationNode rules) ((.keyword .valWord, "val") :: (.identifier, name) :: is) js
      (.property ⟨⟨[], []⟩, true, name, type, value⟩) := by
    refine .nextIs_bind (decide_eq_false nofun) ((takes_modifiers hr).bind fun ms hms => .peek_bind ?_)
    exact (takes_property name hms htype hvalue).bind fun decl hd =>
      takes_pure (congrArg Declaration.property hd)
  exact .here_bind fun start => hnode.bind fun decl hd => takes_located hd

theorem parse_of_takes {decl : Located Declaration} {kind : TokenKind} {text : String}
    (h : Takes 1 (declarationBody (grammar maxDepth 127)) ((kind, text) :: is) [] decl)
    (hkind : kind ≠ .semicolon) (hs : (State.start s tags).items = (kind, text) :: is) :
    ∃ decl', parse tags s = .ok ⟨[decl']⟩ ∧ SameShape decl' decl := by
  have hdeclaration : Takes 0 (grammar maxDepth maxDepth).declaration ((kind, text) :: is) [] decl :=
    .deeper (by decide) h
  obtain ⟨decl', t, hrun, hsame, -, ht, hfaults⟩ := hdeclaration _ rfl hs
  have hskipped : (State.start s tags).skipped = .start s tags :=
    State.skipped_of_ne (by rw [State.kind_of_items hs]; exact hkind)
  have hend : t.rest = [] := List.map_eq_nil_iff.mp ht
  have hbehind : t.skipped = t := State.skipped_of_ne (by rw [State.kind_of_items ht]; decide)
  have hafter : t.after = t := by
    rw [State.after_of_separated (by simp [State.separated, hend]), hbehind]
  have hmore : (State.start s tags).stops false = false := by
    obtain ⟨x, ts, hrest, -⟩ := State.rest_of_items hs
    rw [State.stops, hrest]
    rfl
  refine ⟨decl', parseWithin_eq_ok.mpr ⟨t, ?_, ?_, hfaults⟩, hsame⟩
  · have hitems : Items false _ (.start s tags) [decl'] t.after.skipped :=
      .cons (by rw [hskipped]; exact hmore) (by rw [hskipped]; exact hrun) (.nil t.after)
    rwa [hafter, hbehind] at hitems
  · rw [State.stops, hend]
    rfl

/-- What looks like a property without modifiers is one, and its parts look alike. -/
theorem property_parts {decl : Declaration} {name : String}
    (h : SameShape decl (.property ⟨⟨[], []⟩, true, name, type, value⟩)) :
    ∃ type' value', decl = .property ⟨⟨[], []⟩, true, name, type', value'⟩ ∧ SameShape type' type ∧
      SameShape value' value := by
  cases decl with
  | function | classDecl | compilerCall => cases h
  | property decl =>
    rcases decl with ⟨⟨ms, as⟩, readonly, name', type', value'⟩
    have hdecl : mapSpans noSpan (PropertyDef.mk ⟨ms, as⟩ readonly name' type' value') =
        mapSpans noSpan (PropertyDef.mk ⟨[], []⟩ true name type value) := Declaration.property.inj h
    rw [mapSpans_property, mapSpans_property, mapSpans_modifiers, mapSpans_modifiers] at hdecl
    simp only [PropertyDef.mk.injEq, Modifiers.mk.injEq] at hdecl
    obtain ⟨⟨hms, has⟩, rfl, rfl, htype, hvalue⟩ := hdecl
    obtain rfl : ms = [] := List.map_eq_nil_iff.mp hms
    obtain rfl : as = [] := List.map_eq_nil_iff.mp has
    exact ⟨type', value', rfl, htype, hvalue⟩

/-- A stream of these items, in any layout, is one property. -/
theorem parse_property (name : String)
    (htype : Takes 1 (behind .colon (grammar maxDepth 127).type) is is₁ type)
    (hvalue : Takes 1 (behind .assign (grammar maxDepth 127).expression) is₁ [] value)
    (hs : (State.start s tags).items = (.keyword .valWord, "val") :: (.identifier, name) :: is) :
    ∃ type' value' span, SameShape type' type ∧ SameShape value' value ∧
      parse tags s = .ok ⟨[⟨.property ⟨⟨[], []⟩, true, name, type', value'⟩, span⟩]⟩ := by
  have hdecl := takes_propertyDeclaration name (rulesRead_grammar maxDepth 127) htype hvalue
  obtain ⟨⟨decl, span⟩, hparse, hsame⟩ := parse_of_takes hdecl nofun hs
  obtain ⟨type', value', rfl, htype', hvalue'⟩ := property_parts hsame.node
  exact ⟨type', value', span, htype', hvalue', hparse⟩

end Linewise.Parser
