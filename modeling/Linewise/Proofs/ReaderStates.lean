import Mathlib.Data.List.Basic
import Mathlib.Data.List.TakeWhile
import Linewise.Proofs.Parsing.GrammarTrace
import Linewise.Proofs.Pushes
import Linewise.Proofs.Recovery

/-!
# Where the reader stands

In every state that the reader of a stream passes through, it stands in front of a visible token or at the end,
and no more levels are open than there may be. A production that is called in such a state reads on from there,
closes all levels that it opens and keeps the faults that are reported, whether it can be read or not.
-/

namespace Linewise

namespace TokenStream

variable {s : TokenStream} {tags : LayoutTags TokenKind Channel} {x : Terminal} {ts : List Terminal} {t : Token}
  {us vs : List Token}

/-- The place of the first visible token from an index on, or the end. -/
def placeFrom (s : TokenStream) (start : Nat) : Nat := (s.visibleFrom? start).getD s.size

/-- A reader may stand here: in front of a visible token or at the end. -/
def IsPlace (s : TokenStream) (i : Nat) : Prop := i = s.size ∨ ∃ t, s.get? i = some t ∧ t.channel = .visible

theorem Built.isPlace_placeFrom (h : s.Built) (start : Nat) : s.IsPlace (s.placeFrom start) := by
  unfold placeFrom
  cases hi : s.visibleFrom? start with
  | none => exact .inl rfl
  | some i => exact .inr (isLeast_visibleFrom h hi).1.2

theorem cursor_eq (s : TokenStream) (ts : List Terminal) :
    s.cursor ts = ((ts.map Terminal.token ++ s.visible.dropWhile fun t => t.kind != .eof).head?.map
      Token.index).getD s.size := by
  cases ts with
  | nil =>
    rw [cursor, List.find?_eq_head?_dropWhile_not]
    rfl
  | cons x ts => rfl

theorem cursor_terminals (s : TokenStream) (tags : LayoutTags TokenKind Channel) :
    s.cursor (s.terminals tags) = s.placeFrom 0 := by
  rw [cursor_eq, map_token_terminals, List.takeWhile_append_dropWhile, visible, List.head?_filter, placeFrom,
    visibleFrom?, List.drop_zero]

theorem Built.visible_behind (h : s.Built) (hsplit : s.visible = us ++ t :: vs) :
    (s.tokens.toList.drop (t.index + 1)).filter Token.isVisible = vs := by
  have hmem : t ∈ s.tokens.toList.filter Token.isVisible := by
    rw [← visible, hsplit]
    exact List.mem_append_right us List.mem_cons_self
  obtain ⟨ht, hvisible⟩ := List.mem_filter.mp hmem
  have hget : s.tokens.toList[t.index]? = some t := by
    rw [Array.getElem?_toList]
    exact h.get?_index ht
  obtain ⟨hlt, hat⟩ := List.getElem?_eq_some_iff.mp hget
  have hwhole : s.tokens.toList = s.tokens.toList.take t.index ++ t :: s.tokens.toList.drop (t.index + 1) := by
    conv_lhs => rw [← List.take_append_drop t.index s.tokens.toList]
    rw [List.drop_eq_getElem_cons hlt, hat]
  have hfound := congrArg (List.filter Token.isVisible) hwhole
  rw [List.filter_append, List.filter_cons_of_pos hvisible, ← visible] at hfound
  -- No token has the same index as another one, so both are the same split.
  have hordered : (us ++ t :: vs).Pairwise fun a b => a.index < b.index :=
    hsplit ▸ h.index_ordered.sublist List.filter_sublist
  obtain ⟨-, hbehind, hbefore⟩ := List.pairwise_append.mp hordered
  have hus : t ∉ us := fun hin => Nat.lt_irrefl _ (hbefore t hin t List.mem_cons_self)
  have hvs : t ∉ vs := fun hin => Nat.lt_irrefl _ ((List.pairwise_cons.mp hbehind).1 t hin)
  exact ((List.append_cons_inj_of_notMem hus hvs).mp (hsplit.symm.trans hfound)).2.2.symm

theorem Built.cursor_next (h : s.Built) (hts : x :: ts <:+ s.terminals tags) :
    s.cursor ts = s.placeFrom (x.token.index + 1) := by
  obtain ⟨front, hfront⟩ := hts
  have hsplit : s.visible = front.map Terminal.token ++
      x.token :: (ts.map Terminal.token ++ s.visible.dropWhile fun t => t.kind != .eof) := by
    rw [← List.cons_append, ← List.map_cons, ← List.append_assoc, ← List.map_append, hfront,
      map_token_terminals, List.takeWhile_append_dropWhile]
  rw [cursor_eq, ← h.visible_behind hsplit, List.head?_filter, placeFrom, visibleFrom?]

theorem Built.isPlace_cursor (h : s.Built) (hts : ts <:+ s.terminals tags) : s.IsPlace (s.cursor ts) := by
  obtain ⟨front, hfront⟩ := hts
  rcases List.eq_nil_or_concat front with rfl | ⟨front, x, rfl⟩
  · rw [List.nil_append] at hfront
    rw [hfront, cursor_terminals]
    exact h.isPlace_placeFrom 0
  · rw [List.concat_eq_append, List.append_assoc, List.singleton_append] at hfront
    rw [h.cursor_next ⟨front, hfront⟩]
    exact h.isPlace_placeFrom _

end TokenStream

namespace Parser

variable {α : Type} {rules : Rules} {stream : TokenStream} {tags : LayoutTags TokenKind Channel} {limit : Nat}
  {s t : State}

-- ---------------------------------------------------------------------------
-- States
-- ---------------------------------------------------------------------------

/-- The last terminals are left, the cursor is where a reader may stand, and no more levels are open than there
may be. A token that is left to read is the one at the cursor, and behind it the cursor is at the next visible
one. -/
structure InPlace (stream : TokenStream) (tags : LayoutTags TokenKind Channel) (limit : Nat) (s : State) :
    Prop where
  rest : s.rest <:+ stream.terminals tags
  place : stream.IsPlace (stream.cursor s.rest)
  next : ∀ x ts, s.rest = x :: ts → stream.get? (stream.cursor s.rest) = some x.token ∧
    stream.cursor s.next.rest = stream.placeFrom (stream.cursor s.rest + 1)
  depth : s.depth ≤ limit

theorem inPlace (hs : stream.Built) (hrest : s.rest <:+ stream.terminals tags) (hdepth : s.depth ≤ limit) :
    InPlace stream tags limit s where
  rest := hrest
  place := hs.isPlace_cursor hrest
  next x ts hx := by
    rw [State.next_of_cons hx, hx]
    rw [hx] at hrest
    exact ⟨hs.get?_index (TokenStream.mem_of_terminals (hrest.subset List.mem_cons_self)), hs.cursor_next hrest⟩
  depth := hdepth

theorem inPlace_start (hs : stream.Built) (tags : LayoutTags TokenKind Channel) (limit : Nat) :
    InPlace stream tags limit (.start stream tags) :=
  inPlace hs (List.suffix_refl _) (Nat.zero_le limit)

theorem InPlace.step (hs : stream.Built) (h : InPlace stream tags limit s) (hst : Step limit s t) :
    InPlace stream tags limit t := by
  cases hst with
  | reads => exact inPlace hs (s.advances_next.rest.trans h.rest) (s.advances_next.depth ▸ h.depth)
  | reports fault => exact inPlace hs h.rest h.depth
  | opens hlt => exact inPlace hs h.rest hlt
  | closes hpos => exact inPlace hs h.rest (Nat.le_trans (Nat.sub_le _ _) h.depth)

theorem Trace.inPlace {p : Parser α} {us : List State} {out : Outcome α} (h : Trace limit p s us out)
    (hs : stream.Built) (hstart : InPlace stream tags limit s) : ∀ u ∈ s :: us, InPlace stream tags limit u :=
  h.steps.keeps (fun _ _ => InPlace.step hs) hstart

-- ---------------------------------------------------------------------------
-- Calls
-- ---------------------------------------------------------------------------

inductive Production : Type → Type
  | declaration : Production (Located Declaration)
  | compilerCall : Production (Located Expr)
  | modifiers : Production Modifiers
  | annotated : Production Annotated
  | function (ms : Modifiers) : Production FunctionDef
  | classDecl (ms : Modifiers) : Production ClassDef
  | constructorParam : Production (Located ClassParam)
  | property (ms : Modifiers) : Production PropertyDef
  | type : Production (Located Ty)
  | userType : Production UserType
  | functionType (receiver : Option (Located Ty)) : Production (Located Ty)
  | block : Production (Located Block)
  | body : Production (Located Block)
  | statement : Production (Located Statement)
  | whileLoop : Production Statement
  | expression : Production (Located Expr)
  | assignment : Production (Located Expr)
  | equality : Production (Located Expr)
  | comparison : Production (Located Expr)
  | sum : Production (Located Expr)
  | product : Production (Located Expr)
  | operand : Production (Located Expr)
  | unary : Production (Located Expr)
  | suffixed : Production (Located Expr)
  | atom : Production Expr
  | arguments : Production (List (Located Argument))
  | blockArgument : Production (Located Argument)
  | conditional : Production Expr
  | whenChoice : Production Expr
  | whenCase : Production (Located WhenCase)

namespace Production

def parser (rules : Rules) : {α : Type} → Production α → Parser α
  | _, declaration => rules.declaration
  | _, compilerCall => Parser.compilerCall rules
  | _, modifiers => Parser.modifiers rules
  | _, annotated => Parser.annotated rules
  | _, function ms => Parser.function rules ms
  | _, classDecl ms => Parser.classDecl rules ms
  | _, constructorParam => Parser.constructorParam rules
  | _, property ms => Parser.property rules ms
  | _, type => rules.type
  | _, userType => Parser.userType rules.type
  | _, functionType receiver => Parser.functionType rules.type receiver
  | _, block => rules.block
  | _, body => Parser.body rules
  | _, statement => Parser.statement rules
  | _, whileLoop => Parser.whileLoop rules (Parser.statement rules)
  | _, expression => rules.expression
  | _, assignment => Parser.assignment rules
  | _, equality => binary rules
  | _, comparison => chain .comparison (chain .additive (chain .multiplicative (Parser.unary rules)))
  | _, sum => chain .additive (chain .multiplicative (Parser.unary rules))
  | _, product => chain .multiplicative (Parser.unary rules)
  | _, operand => rules.operand
  | _, unary => Parser.unary rules
  | _, suffixed => Parser.suffixed rules
  | _, atom => Parser.atom rules
  | _, arguments => Parser.arguments rules
  | _, blockArgument => Parser.blockArgument rules
  | _, conditional => Parser.conditional rules
  | _, whenChoice => Parser.whenChoice rules
  | _, whenCase => Parser.whenCase rules

/-- Only modifiers may be missing, and can be read from no token at all. -/
def isOptional : {α : Type} → Production α → Bool
  | _, modifiers => true
  | _, _ => false

theorem readsOn_rules (h : RulesRead rules) (m : Production α) :
    ReadsOn (fun _ => m.isOptional = false) (m.parser rules) := by
  have hproduct := reads_chain .multiplicative (reads_unary h)
  have hsum := reads_chain .additive hproduct
  cases m with
  | declaration => exact h.declaration.on
  | compilerCall => exact (reads_compilerCall h).on
  | modifiers => exact ⟨moves_modifiers h, fun _ _ _ _ hoptional => nomatch hoptional⟩
  | annotated => exact (reads_annotated h).on
  | function ms => exact (reads_function h ms).on
  | classDecl ms => exact (reads_classDecl h ms).on
  | constructorParam => exact (reads_constructorParam h).on
  | property ms => exact (reads_property h ms).on
  | type => exact h.type.on
  | userType => exact (reads_userType h.type).on
  | functionType receiver => exact (reads_functionType h.type receiver).on
  | block => exact h.block.on
  | body => exact (reads_body h).on
  | statement => exact (reads_statement h).on
  | whileLoop => exact (reads_whileLoop h (reads_statement h)).on
  | expression => exact h.expression.on
  | assignment => exact (reads_assignment h).on
  | equality => exact (reads_binary h).on
  | comparison => exact (reads_chain .comparison hsum).on
  | sum => exact hsum.on
  | product => exact hproduct.on
  | operand => exact h.operand.on
  | unary => exact (reads_unary h).on
  | suffixed => exact (reads_suffixed h).on
  | atom => exact (reads_atom h).on
  | arguments => exact (reads_arguments h).on
  | blockArgument => exact (reads_blockArgument h).on
  | conditional => exact (reads_conditional h).on
  | whenChoice => exact (reads_whenChoice h).on
  | whenCase => exact (reads_whenCase h).on

end Production

/-- What a call does: the cursor does not go backwards, and goes forwards if the production can be read, as many
levels are open as before, and the faults of before are still reported, in front of all others. -/
structure Call (stream : TokenStream) (m : Production α) (s : State) (out : Outcome α) : Prop where
  rest : out.2.rest <:+ s.rest
  cursor_le : stream.cursor s.rest ≤ stream.cursor out.2.rest
  cursor_lt : ∀ a, out.1 = .ok a → m.isOptional = false → stream.cursor s.rest < stream.cursor out.2.rest
  depth : out.2.depth = s.depth
  faults : s.faults.toList <+: out.2.faults.toList

theorem Production.call (m : Production α) (h : RulesRead rules) (hs : stream.Built)
    (hrest : s.rest <:+ stream.terminals tags) : Call stream m s ((m.parser rules).run s) := by
  have hm := m.readsOn_rules h
  have hadvances := hm.advances s
  exact {
    rest := hadvances.rest
    cursor_le := hs.cursor_le hrest hadvances.rest
    cursor_lt := fun a ha hoptional =>
      hs.cursor_lt hrest hadvances.rest (hm.reads s a _ (Prod.ext ha rfl) hoptional)
    depth := hadvances.depth
    faults := hadvances.faults }

end Parser

open Linewise.Parser

/-- In every stream and for all tags, the reader begins in front of the first visible token, and its run is a
path of single steps. In all states on this path it is in place, with at most `maxDepth` levels open. Each call
of a production in a state of the stream keeps the levels, the faults and what is read, whatever it answers; and
only a call for modifiers may answer without having read a token. -/
theorem reader_in_place {stream : TokenStream} (hs : stream.Built) (tags : LayoutTags TokenKind Channel) :
    stream.cursor (State.start stream tags).rest = stream.placeFrom 0 ∧
      (∃ us, Trace maxDepth (declarations maxDepth) (.start stream tags) us
        ((declarations maxDepth).run (.start stream tags))) ∧
      (∀ us out, Trace maxDepth (declarations maxDepth) (.start stream tags) us out →
        out = (declarations maxDepth).run (.start stream tags) ∧
          Steps maxDepth (.start stream tags) us out.2 ∧
          ∀ u ∈ State.start stream tags :: us, InPlace stream tags maxDepth u) ∧
      ∀ (limit levels : Nat) (α : Type) (m : Production α) (s : State), s.rest <:+ stream.terminals tags →
        Call stream m s ((m.parser (grammar limit levels)).run s) := by
  refine ⟨stream.cursor_terminals tags, traced_declarations maxDepth _, fun us out htrace => ?_, ?_⟩
  · exact ⟨htrace.run_eq.symm, htrace.steps, htrace.inPlace hs (inPlace_start hs tags maxDepth)⟩
  · exact fun limit levels α m s hrest => m.call (rulesRead_grammar limit levels) hs hrest

theorem reader_in_place_hidden :
    ∃ (s : TokenStream) (tags : LayoutTags TokenKind Channel), s.Built ∧
      s.cursor (State.start s tags).rest = 1 ∧ s.placeFrom 2 = 3 ∧ s.cursor [] = 5 ∧
      ((declarations maxDepth).run (.start s tags)).2.faults.size = 2 ∧
      (∃ us, Trace maxDepth (declarations maxDepth) (.start s tags) us
          ((declarations maxDepth).run (.start s tags)) ∧
        ∀ u ∈ us, InPlace s tags maxDepth u) ∧
      let out := (Production.expression.parser (grammar 1 1)).run (.start s tags)
      out.1 = .ok ⟨.name "x", ⟨0, 1⟩⟩ ∧ s.cursor (State.start s tags).rest < s.cursor out.2.rest := by
  let s : TokenStream := .ofPushes [.pushTo .hidden .eof "", .push .identifier "x", .push .whitespace " ",
    .push .semicolon ";", .push (.keyword .valWord) "val", .push .eof "", .push .identifier "y"]
  let tags : LayoutTags TokenKind Channel := ⟨.comma, .plus, .rightCurl, .hidden, .reject⟩
  have hbuilt : s.Built := TokenStream.built_ofPushes _
  obtain ⟨-, ⟨us, hus⟩, hplaces, hcalls⟩ := reader_in_place hbuilt tags
  obtain ⟨-, -, hin⟩ := hplaces us _ hus
  have hname := hcalls 1 1 _ .expression (.start s tags) (List.suffix_refl _)
  refine ⟨s, tags, hbuilt, by decide, by decide, by decide, ?_, ⟨us, hus, fun u hu => hin u (.tail _ hu)⟩, ?_⟩
  · rfl
  · exact ⟨rfl, hname.cursor_lt ⟨.name "x", ⟨0, 1⟩⟩ rfl rfl⟩

end Linewise
