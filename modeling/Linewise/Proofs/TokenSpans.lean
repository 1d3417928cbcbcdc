import Linewise.Proofs.Ast.Placed
import Linewise.Proofs.Lexing.Lossless
import Linewise.Proofs.Parsing.GrammarLaying
import Linewise.Proofs.Separation

/-!
# Where the nodes of a tree stand

The tree of an accepted source is laid out on its visible tokens. So the spans of its nodes nest, and they
begin and end with tokens. The exception is a receiver that was read as a type together with the name of the
function: its end is counted back from the end of the name, and layout around the dot goes with the receiver.
-/

namespace Linewise

open Linewise.Parser

section
variable {source : String} {s : TokenStream} {t : Token} {f : Fallthrough} {limit : Nat} {file : SourceFile}
  {xs ws : List Terminal} {x : Terminal} {p : Place}

-- ---------------------------------------------------------------------------
-- Terminals of a source
-- ---------------------------------------------------------------------------

theorem orderly_terminals (f : Fallthrough) (h : lex source = .ok s) :
    Orderly (s.terminals (.standard f)) where
  ordered := ordered_terminals h
  covers _ hx := covers_terminals h hx
  sized x hx := by
    have hmem := (mem_terminals hx).1
    rw [tokens_of_lex h] at hmem
    exact stop_of_mem_placed hmem

theorem stop_le_of_lex (h : lex source = .ok s) (ht : t ∈ s.tokens.toList) :
    t.span.stop ≤ source.utf8ByteSize := by
  obtain ⟨pre, post, hs⟩ := List.append_of_mem ht
  have hchars : source.toList =
      chars ((pre ++ [t]).map Token.item) ++ chars (post.map Token.item) := by
    rw [← chars_of_lex h, hs, ← chars_append, ← List.map_append, List.append_assoc]
    rfl
  rw [((soundStream_of_lex h).split hs).2.2, ← Text.byteSize_toList, hchars, Text.byteSize_append]
  exact Nat.le_add_right _ _

theorem stop_of_dot (h : lex source = .ok s) (hx : x ∈ s.terminals (.standard f))
    (hk : x.token.kind = .dot) : x.token.span.stop = x.token.span.start + 1 := by
  obtain ⟨hmem, heof, -⟩ := mem_terminals hx
  obtain ⟨pre, post, hs⟩ := List.append_of_mem hmem
  have hspells := (longest_of_lex h hs heof).spells
  rw [hk] at hspells
  have htext : ['.'] = x.token.text.toList := Option.some.inj hspells
  rw [(orderly_terminals f h).sized x hx, ← Text.byteSize_toList, ← htext]
  rfl

theorem laid_parseWithin (h : lex source = .ok s) (hp : parseWithin limit (.standard f) s = .ok file) :
    Laid (s.terminals (.standard f)) (places file) := by
  obtain ⟨ds, t, hrun⟩ := answers_declarations limit (.start s (.standard f))
  rw [parseWithin_of_run hrun, verdict_eq_ok] at hp
  obtain ⟨-, rfl⟩ := hp
  have hrules := rulesLay_grammar limit limit
  have hlays := lays_sequenceOf false hrules.reads.declaration.toMoves hrules.declaration
  obtain ⟨-, ws, hws, -, -, hlaid⟩ := hlays _ _ _ _ ds t (.none (orderly_terminals f h)) hrun
  have hfront : ws <+: s.terminals (.standard f) := ⟨t.rest, hws.symm⟩
  exact hlaid.mono hfront.isInfix

-- ---------------------------------------------------------------------------
-- Spans nest
-- ---------------------------------------------------------------------------

/-- The place covers a part of a source of this size, and holds the places inside of it in their order. -/
structure Place.Nests (size : Nat) (p : Place) : Prop where
  covers : p.span.start < p.span.stop
  within : p.span.stop ≤ size
  holds : ∀ q ∈ p.parts, p.span.start ≤ q.span.start ∧ q.span.stop ≤ p.span.stop
  inOrder : InOrder p.parts

theorem Place.On.nests (h : lex source = .ok s) (hws : ws <:+: s.terminals (.standard f)) (hp : p.On ws) :
    p.Nests source.utf8ByteSize := by
  have ho := (orderly_terminals f h).sublist hws.sublist
  obtain ⟨-, hlt, y, hy, hstop⟩ := hp.bounds ho
  have hy := (mem_terminals (hws.subset hy)).1
  exact ⟨hlt, Nat.le_trans hstop (stop_le_of_lex h hy), fun _ => hp.holds ho, hp.inOrder⟩

/-- In the tree of an accepted source no span is empty or goes beyond the source: what leaves all other spans
alone leaves the tree alone. The span of a node holds those of the nodes inside of it, and these follow each
other in the order of the grammar without sharing text. -/
theorem spans_nest (h : lex source = .ok s) (hp : parse (.standard f) s = .ok file) :
    (∀ move : Span → Span,
      (∀ span : Span, span.start < span.stop → span.stop ≤ source.utf8ByteSize → move span = span) →
        mapSpans move file = file) ∧
      Place.InOrder (places file) ∧
      ∀ p ∈ places file, p.Throughout (Place.Nests source.utf8ByteSize) := by
  have hlaid := laid_parseWithin h hp
  have hnests : ∀ p ∈ places file, p.Throughout (Place.Nests source.utf8ByteSize) := fun p hp =>
    (hlaid.on p hp).throughout fun _ _ hxs hq => hq.nests h hxs
  refine ⟨fun move hmove => ?_, hlaid.inOrder, hnests⟩
  exact SourceFile.mapSpans_eq hnests fun p hp => hmove p.span hp.covers hp.within

theorem spans_nest_param :
    ∃ s file, lex "fun A?.b(c: D)" = .ok s ∧ parse (.standard .accept) s = .ok file ∧
      Place.InOrder (places file) ∧ ∀ p ∈ places file, p.Throughout (Place.Nests 14) := by
  have hlex := lex_eq_ok.mpr ⟨(by decide +kernel : Clean "fun A?.b(c: D)".toList), rfl⟩
  have hfile : parse (.standard .accept)
      (.ofList (items "fun A?.b(c: D)".toList ++ [(.eof, "")])) = .ok _ := rfl
  exact ⟨_, _, hlex, hfile, (spans_nest hlex hfile).2⟩

-- ---------------------------------------------------------------------------
-- Spans sit on tokens
-- ---------------------------------------------------------------------------

/-- How many bytes of layout stand between two tokens. -/
def layoutBetween (t u : Token) : Nat := u.span.start - t.span.stop

/-- The place goes from the first of some visible tokens in a row to the last one. -/
structure Place.Covers (s : TokenStream) (ts : List Token) (first last : Token) (p : Place) : Prop where
  visible : ts <:+: s.visible
  head : ts.head? = some first
  getLast : ts.getLast? = some last
  span : p.span = ⟨first.span.start, last.span.stop⟩
  /-- A receiver does not go on to the dot behind it. -/
  receiver : ∀ name, p.role = .receiver name → last.kind ≠ .dot

/-- The place is a receiver, and behind its tokens stand the dot and the name of the function. It begins with
its first token, and it ends behind the last one by as much as there is layout around the dot. -/
structure Place.Overruns (s : TokenStream) (ts : List Token) (first last dot name : Token)
    (p : Place) : Prop where
  visible : ts ++ [dot, name] <:+: s.visible
  kinds : dot.kind = .dot ∧ name.kind = .identifier
  role : p.role = .receiver name.text
  head : ts.head? = some first
  getLast : ts.getLast? = some last
  start : p.span.start = first.span.start
  stop : p.span.stop = last.span.stop + layoutBetween last dot + layoutBetween dot name

def Place.OnTokens (s : TokenStream) (p : Place) : Prop :=
  (∃ ts first last, p.Covers s ts first last) ∨
    ∃ ts first last dot name, p.Overruns s ts first last dot name

theorem Place.covers_of_spans (hxs : xs <:+: s.terminals (.standard f)) (hspan : Spans xs p.span)
    (hrole : ∀ name, p.role = .receiver name → ∀ y, xs.getLast? = some y → y.token.kind ≠ .dot) :
    ∃ ts first last, p.Covers s ts first last := by
  obtain ⟨x, y, hx, hy, hspan⟩ := hspan
  have hhead : (xs.map Terminal.token).head? = some x.token := by rw [List.head?_map, hx, Option.map_some]
  have hlast : (xs.map Terminal.token).getLast? = some y.token := by
    rw [List.getLast?_map, hy, Option.map_some]
  exact ⟨_, _, _, visible_of_isInfix hxs, hhead, hlast, hspan, fun name hname => hrole name hname y hy⟩

theorem Place.overruns_of_cut {ys : List Terminal} {dot name : Terminal} {span : Span} {parts : List Place}
    (h : lex source = .ok s) (hxs : xs <:+: s.terminals (.standard f)) (hspan : Spans xs span)
    (hend : EndsInMember xs ys dot name) :
    ∃ ts first last, (Place.node (.receiver name.token.text) ⟨span.start, name.cut span⟩ parts).Overruns s
      ts first last dot.token name.token := by
  have ho := (orderly_terminals f h).sublist hxs.sublist
  obtain ⟨hname, hdot, hys⟩ := hend.cut ho hspan
  obtain ⟨x, _, hx, -, rfl⟩ := hspan
  obtain ⟨rfl, hne, hdotKind, hnameKind⟩ := hend
  obtain ⟨z, zs, rfl⟩ := List.exists_cons_of_ne_nil hne
  obtain ⟨y, hy⟩ := Option.isSome_iff_exists.mp (List.getLast?_isSome.mpr hne)
  cases Option.some.inj hx
  have hlast : ((x :: zs).map Terminal.token).getLast? = some y.token := by
    rw [List.getLast?_map, hy, Option.map_some]
  have hsize := stop_of_dot h (hxs.subset (by simp : dot ∈ x :: zs ++ [dot, name])) hdotKind
  have hbehind := hys y (List.mem_of_getLast? hy)
  have hcross := List.rel_of_pairwise_cons (List.pairwise_append.mp ho.ordered).2.1 List.mem_cons_self
  refine ⟨_, _, _, ?_, ⟨hdotKind, hnameKind⟩, rfl, rfl, hlast, rfl, ?_⟩
  · simpa using visible_of_isInfix hxs
  · simp only [Place.span_node, layoutBetween]
    omega

theorem Place.On.onTokens (h : lex source = .ok s) (hws : ws <:+: s.terminals (.standard f))
    (hp : p.On ws) : p.OnTokens s := by
  cases hp with
  | covering hxs hspan hrole =>
    refine .inl (covers_of_spans (hxs.trans hws) hspan fun name hname => ?_)
    cases hname
    exact hrole
  | member hxs hspan => exact .inl (covers_of_spans (hxs.trans hws) hspan nofun)
  | detached hxs hspan hend =>
    obtain ⟨ts, first, last, hoverruns⟩ := overruns_of_cut h (hxs.trans hws) hspan hend
    exact .inr ⟨ts, first, last, _, _, hoverruns⟩

/-- In the tree of an accepted source every span goes from the first of some visible tokens to the last one,
except for receivers that take in the layout around the dot behind them. What leaves these spans alone leaves
the tree alone. -/
theorem spans_on_tokens (h : lex source = .ok s) (hp : parse (.standard f) s = .ok file) :
    (∀ move : Span → Span, (∀ p : Place, p.OnTokens s → move p.span = p.span) →
      mapSpans move file = file) ∧
      ∀ p ∈ places file, p.Throughout (Place.OnTokens s) := by
  have hlaid := laid_parseWithin h hp
  have htokens : ∀ p ∈ places file, p.Throughout (Place.OnTokens s) := fun p hp =>
    (hlaid.on p hp).throughout fun _ _ hxs hq => hq.onTokens h hxs
  exact ⟨fun _ hmove => SourceFile.mapSpans_eq htokens hmove, htokens⟩

theorem spans_on_tokens_blanks :
    ∃ s file, lex "fun A.  b()" = .ok s ∧ parse (.standard .reject) s = .ok file ∧
      (∀ p ∈ places file, p.Throughout (Place.OnTokens s)) ∧
      (∃ p ∈ places file, .node (.receiver "b") ⟨4, 7⟩ [] ∈ p.parts) ∧ ∀ t ∈ s.visible, t.span.stop ≠ 7 := by
  have hlex := lex_eq_ok.mpr ⟨(by decide +kernel : Clean "fun A.  b()".toList), rfl⟩
  have hfile : parse (.standard .reject) (.ofList (items "fun A.  b()".toList ++ [(.eof, "")])) =
      .ok ⟨[⟨.function ⟨⟨[], []⟩, some ⟨.user (.simple "A" []), ⟨4, 7⟩⟩, "b", [], none, none⟩,
        ⟨0, 11⟩⟩]⟩ := rfl
  refine ⟨_, _, hlex, hfile, (spans_on_tokens hlex hfile).2, ⟨_, List.mem_cons_self, List.mem_cons_self⟩, ?_⟩
  decide +kernel

end

end Linewise
