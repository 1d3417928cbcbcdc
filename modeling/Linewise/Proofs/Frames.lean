import Linewise.Proofs.Texts

/-!
# Texts in frames

A text is a sequence of items in braces if a function whose body holds such a sequence can be read around it.
So what is known of sequences behind one another is known of such texts, with a line feed between them.
-/

namespace Linewise

open Linewise.Parser Change

-- ---------------------------------------------------------------------------
-- The head of a function
-- ---------------------------------------------------------------------------

def onLine (f : Fallthrough) (offset : Nat) (i : Item) : Terminal :=
  (Lead.mk offset true false).terminal f i

def head (f : Fallthrough) : List Terminal :=
  [Lead.start.terminal f (.keyword .funWord, "fun"), onLine f 4 (.identifier, "m"),
    onLine f 5 (.leftParen, "("), onLine f 6 (.rightParen, ")")]

def headed (body : Option (Located Block)) : FunctionDef := ⟨⟨[], []⟩, none, "m", [], none, body⟩

section
variable {f : Fallthrough} {rest : List Terminal} {finish : Span} {rules : Rules} {y : Terminal}

theorem run_function_head (hy : y.token.kind ≠ .colon) :
    (function rules ⟨[], []⟩).run ⟨head f ++ y :: rest, finish, ⟨0, 0⟩, 1, #[]⟩ =
      (functionBody rules >>= fun body => pure (headed body)).run
        ⟨y :: rest, finish, ⟨6, 7⟩, 1, #[]⟩ := by
  have hname : (do expectWord .funWord; functionName rules).run
      ⟨head f ++ y :: rest, finish, ⟨0, 0⟩, 1, #[]⟩ =
        (.ok (none, "m"), ⟨(head f).drop 2 ++ y :: rest, finish, ⟨4, 5⟩, 1, #[]⟩) := rfl
  have hparams : (do expect .leftParen; listUntil .rightParen (param rules)).run
      ⟨(head f).drop 2 ++ y :: rest, finish, ⟨4, 5⟩, 1, #[]⟩ =
        (.ok [], ⟨y :: rest, finish, ⟨6, 7⟩, 1, #[]⟩) := rfl
  have hresult : (behind .colon rules.type).run ⟨y :: rest, finish, ⟨6, 7⟩, 1, #[]⟩ =
      (.ok none, ⟨y :: rest, finish, ⟨6, 7⟩, 1, #[]⟩) := run_behind_no hy
  unfold function
  rw [← run_bind_assoc, run_bind_ok hname]
  dsimp only
  rw [← run_bind_assoc, run_bind_ok hparams, run_bind_ok hresult]
  rfl

theorem run_declarationBody_head (hy : y.token.kind ≠ .colon) :
    (declarationBody rules).run ⟨head f ++ y :: rest, finish, ⟨0, 0⟩, 1, #[]⟩ =
      (functionBody rules >>= fun body => located ⟨0, 3⟩ (Declaration.function (headed body))).run
        ⟨y :: rest, finish, ⟨6, 7⟩, 1, #[]⟩ := by
  let s : State := ⟨head f ++ y :: rest, finish, ⟨0, 0⟩, 1, #[]⟩
  have hhash : (nextIs .hash).run s = (.ok false, s) := rfl
  have hmodifiers : (modifiers rules).run s = (.ok ⟨[], []⟩, s) := rfl
  have hpeek : peek.run s = (.ok (.keyword .funWord), s) := rfl
  have hnode : (declarationNode rules).run s =
      (function rules ⟨[], []⟩ >>= fun d => pure (Declaration.function d)).run s := by
    unfold declarationNode
    rw [run_bind_ok hhash, if_neg Bool.false_ne_true, run_bind_ok hmodifiers]
    unfold declarationAfter
    rw [run_bind_ok hpeek]
  unfold declarationBody
  rw [run_bind_ok (run_here _), run_bind, hnode, ← run_bind, run_bind_assoc, run_bind,
    run_function_head hy, ← run_bind, run_bind_assoc]
  rfl

theorem run_declaration_head (hy : y.token.kind ≠ .colon) {d : Located Declaration} {t : State} :
    (grammar maxDepth maxDepth).declaration.run ⟨head f ++ y :: rest, finish, ⟨0, 0⟩, 0, #[]⟩ =
        (.ok d, t) ↔
      ∃ body u, (functionBody (grammar maxDepth (maxDepth - 1))).run ⟨y :: rest, finish, ⟨6, 7⟩, 1, #[]⟩ =
          (.ok body, u) ∧
        d = ⟨.function (headed body), Span.merge ⟨0, 3⟩ u.previous⟩ ∧ t = u.up := by
  have hrun : (grammar maxDepth maxDepth).declaration.run
      ⟨head f ++ y :: rest, finish, ⟨0, 0⟩, 0, #[]⟩ = (.ok d, t) ↔
        ∃ u, (declarationBody (grammar maxDepth (maxDepth - 1))).run
          ⟨head f ++ y :: rest, finish, ⟨0, 0⟩, 1, #[]⟩ = (.ok d, u) ∧ t = u.up :=
    deeper_ok.trans (and_iff_right (show 0 < maxDepth by decide))
  rw [hrun, run_declarationBody_head hy]
  constructor
  · rintro ⟨u, h, rfl⟩
    obtain ⟨body, v, hbody, hnode⟩ := bind_ok.mp h
    cases hnode
    exact ⟨body, _, hbody, rfl, rfl⟩
  · rintro ⟨body, u, hbody, rfl, rfl⟩
    exact ⟨u, bind_ok.mpr ⟨body, u, hbody, rfl⟩, rfl⟩

end

-- ---------------------------------------------------------------------------
-- Frames
-- ---------------------------------------------------------------------------

/-- What stands in front of items in braces, so that a function holds them. -/
structure Frame (α : Type) where
  opening : String
  opener : Fallthrough → Terminal
  others : Fallthrough → List Terminal
  brace : Span
  item : Parser (Located α)
  holds : FunctionDef → List (Located α) → Prop
  clean : Clean opening.toList
  read : ∀ f, Lead.start.read f (items opening.toList) = head f ++ opener f :: others f
  opens : ∀ f, (opener f).token.kind ≠ .colon
  /-- A body that holds items has read them behind the brace, and up to one that closes it. -/
  enter : ∀ {f rest finish body t nodes},
    (functionBody (grammar maxDepth (maxDepth - 1))).run
      ⟨opener f :: others f ++ rest, finish, ⟨6, 7⟩, 1, #[]⟩ = (.ok body, t) →
    holds (headed body) nodes →
    ∃ v, (sequenceOf true item).run ⟨rest, finish, brace, 2, #[]⟩ = (.ok nodes, v) ∧
      v.kind = .rightCurl ∧ t.rest = v.next.rest ∧ t.faults = v.faults
  /-- Where the source ends behind that brace, it is a body that holds them. -/
  leave : ∀ {f rest finish v nodes},
    (sequenceOf true item).run ⟨rest, finish, brace, 2, #[]⟩ = (.ok nodes, v) →
    v.kind = .rightCurl → v.next.rest = [] →
    ∃ body t, (functionBody (grammar maxDepth (maxDepth - 1))).run
        ⟨opener f :: others f ++ rest, finish, ⟨6, 7⟩, 1, #[]⟩ = (.ok body, t) ∧
      holds (headed body) nodes ∧ t.rest = [] ∧ t.faults = v.faults

namespace Frame

variable {α : Type} {F : Frame α} {f : Fallthrough} {x a b : String} {nodes nodes' : List (Located α)}
  {s t : State} {sa sb : TokenStream}

def text (F : Frame α) (x : String) : String := F.opening ++ "\n" ++ x ++ "\n\x7d"

/-- In the frame a text is read as one function that holds these items. -/
def Holds (F : Frame α) (f : Fallthrough) (x : String) (nodes : List (Located α)) : Prop :=
  ∃ s d span, lex (F.text x) = .ok s ∧
    parse (.standard f) s = .ok ⟨[⟨.function d, span⟩]⟩ ∧ F.holds d nodes

def offset (F : Frame α) : Nat := Text.byteSize F.opening.toList + 1

def inside (F : Frame α) (f : Fallthrough) (x : String) : State :=
  entry f (.line F.offset) F.brace 2 (x.toList ++ '\n' :: ['}'])

def close (f : Fallthrough) (offset : Nat) : Terminal := (Lead.line offset).terminal f (.rightCurl, "\x7d")

theorem toList_text : (F.text x).toList = F.opening.toList ++ '\n' :: (x.toList ++ '\n' :: ['}']) := by
  simp [text]

theorem clean_text : Clean (F.text x).toList ↔ Clean x.toList := by
  rw [toList_text]
  constructor
  · intro h
    exact clean_of_front (fun _ _ => rfl) (clean_of_append F.clean h)
  · intro h
    exact clean_append F.clean (clean_append h (by decide))

theorem rest_inside (hx : Clean x.toList) :
    (F.inside f x).rest = (Lead.line F.offset).read f (items x.toList) ++
      [close f (F.offset + (Text.byteSize x.toList + 1))] :=
  Lead.read_items_append hx (by decide)

theorem entry_text (hx : Clean x.toList) :
    entry f .start ⟨0, 0⟩ 0 (F.text x).toList =
      ⟨head f ++ F.opener f :: F.others f ++ (F.inside f x).rest, (F.inside f x).finish, ⟨0, 0⟩, 0,
        #[]⟩ := by
  have hrest : Clean (x.toList ++ '\n' :: ['}']) := clean_append hx (by decide)
  rw [toList_text, entry_append F.clean hrest F.brace, entry, F.read]
  simp only [State.facing, inside, offset, Lead.start, Nat.zero_add]
  rfl

theorem Holds.lexes (h : F.Holds f x nodes) : ∃ stream, lex x = .ok stream := by
  obtain ⟨_, _, _, hlex, -, -⟩ := h
  exact ⟨_, lex_eq_ok.mpr ⟨clean_text.mp (lex_eq_ok.mp hlex).1, rfl⟩⟩

theorem holds_of_parse {d : FunctionDef} {span : Span} (hx : Clean x.toList)
    (h : parse (.standard f) (.ofList (items (F.text x).toList ++ [(.eof, "")])) =
      .ok ⟨[⟨.function d, span⟩]⟩) (hd : F.holds d nodes) : F.Holds f x nodes :=
  ⟨_, d, span, lex_eq_ok.mpr ⟨clean_text.mpr hx, rfl⟩, h, hd⟩

theorem inside_append (ha : Clean a.toList) (hb : Clean b.toList) (behind : Span) :
    F.inside f (a ++ "\n" ++ b) =
      (F.inside f a).facing
        ((Lead.line F.offset).read f (items a.toList) ++
          (entry f (.line (F.offset + (Text.byteSize a.toList + 1))) behind 2
            (b.toList ++ '\n' :: ['}'])).rest)
        (entry f (.line (F.offset + (Text.byteSize a.toList + 1))) behind 2
          (b.toList ++ '\n' :: ['}'])).finish := by
  have hchars : (a ++ "\n" ++ b).toList ++ '\n' :: ['}'] =
      a.toList ++ '\n' :: (b.toList ++ '\n' :: ['}']) := by simp
  rw [inside, hchars, entry_append ha (clean_append hb (by decide)) behind]
  rfl

theorem eq_of_suffix_singleton {ts us : List Terminal} {x z : Terminal} (h : us ++ [z] <:+ ts ++ [x]) :
    z = x := by
  obtain ⟨ws, hws⟩ := h
  rw [← List.append_assoc] at hws
  exact (List.cons.inj (List.append_inj' hws rfl).2).1

theorem rest_eq_nil_of_skipped {ts : List Terminal} {z : Terminal} (hz : z.token.kind ≠ .semicolon)
    (h : s.rest <:+ ts ++ [z]) (hs : s.skipped.rest = []) : s.rest = [] := by
  obtain ⟨ws, hws, hsemicolons, -⟩ := s.skipped_facing
  rw [hs, List.append_nil] at hws
  rcases List.eq_nil_or_concat ws with rfl | ⟨us, y, rfl⟩
  · exact hws
  · rw [List.concat_eq_append] at hws hsemicolons
    obtain rfl := eq_of_suffix_singleton (hws ▸ h)
    exact absurd (hsemicolons _ (List.mem_append_right us List.mem_cons_self)) hz

theorem rest_eq_last {ts : List Terminal} {z : Terminal} (hz : z.token.kind ≠ .semicolon)
    (hs : s.rest <:+ ts ++ [z]) (hcurl : s.kind = .rightCurl) (ht : t.rest = s.next.rest)
    (hend : t.skipped.rest = []) : s.rest = [z] := by
  obtain ⟨y, us, hy⟩ := State.rest_of_kind hcurl (by decide)
  have hus : t.rest = us := by rw [ht, State.next_of_cons hy]
  rw [hy] at hs
  have hsuffix := (List.suffix_cons y us).trans hs
  obtain rfl : us = [] := hus ▸ rest_eq_nil_of_skipped hz (hus ▸ hsuffix) hend
  have hlast : [] ++ [y] <:+ ts ++ [z] := hs
  rw [hy, eq_of_suffix_singleton hlast]

theorem semicolons_of_endsWith {last : Located α} {v w : State} {semicolons : List Terminal} {l : Lead}
    {z : Terminal} (hf : Finishes F.item) (hr : Reads F.item) (ha : lex a = .ok sa)
    (hs : s.rest = l.read f (items a.toList) ++ [z]) (ht : t.rest = [z])
    (h : EndsWith F.item s t last v w semicolons) :
    semicolons.map (·.token.kind) = semicolonsAtEnd sa.kinds := by
  obtain ⟨us, x, hsplit, hx⟩ := (hf v last w h.run).split (hr.shorter h.run)
  obtain ⟨ws, hws⟩ := h.front
  have hread : l.read f (items a.toList) = ws ++ us ++ x :: semicolons := by
    rw [hs, hsplit, h.rest, ht, ← List.cons_append, ← List.append_assoc, ← List.append_assoc] at hws
    exact (List.append_cancel_right hws).symm
  have hkind : x.token.kind ≠ .semicolon := fun hk => by
    rw [hk] at hx
    cases hx
  rw [← l.kinds_read ha, hread, List.map_append, List.map_cons]
  refine (semicolonsAtEnd_append hkind fun k hk => ?_).symm
  obtain ⟨y, hy, rfl⟩ := List.mem_map.mp hk
  exact h.separated y hy

theorem kinds_of_endsWith {last : Located α} {v w s' : State} {semicolons : List Terminal} {l l' : Lead}
    {z : Terminal} {n : Nat} (hf : Finishes F.item) (hr : Reads F.item) (ha : lex a = .ok sa)
    (hb : lex b = .ok sb) (hs : s.rest = l.read f (items a.toList) ++ [z]) (ht : t.rest = [z])
    (hs' : s'.rest = l'.read f (items b.toList) ++ [close f n])
    (h : EndsWith F.item s t last v w semicolons) :
    (semicolons ++ s'.rest).map (·.token.kind) =
      semicolonsAtEnd sa.kinds ++ sb.kinds ++ [.rightCurl] := by
  rw [hs', List.map_append, List.map_append, semicolons_of_endsWith hf hr ha hs ht h, l'.kinds_read hb,
    List.append_assoc]
  rfl

variable [HasSpans α] {P : TokenKind → Prop}

omit [HasSpans α] in
theorem skipped_head {rest : List Terminal} {finish : Span} :
    State.skipped ⟨head f ++ F.opener f :: F.others f ++ rest, finish, ⟨0, 0⟩, 0, #[]⟩ =
      ⟨head f ++ F.opener f :: F.others f ++ rest, finish, ⟨0, 0⟩, 0, #[]⟩ :=
  State.skipped_of_ne (show TokenKind.keyword .funWord ≠ .semicolon by decide)

theorem Holds.faultless (hp : ItemRule P F.item) (h : F.Holds f x nodes) :
    ∃ v, Faultless true F.item (F.inside f x) nodes v ∧
      v.rest = [close f (F.offset + (Text.byteSize x.toList + 1))] := by
  obtain ⟨s, d, span, hlex, hparse, hholds⟩ := h
  have hx := clean_text.mp (lex_eq_ok.mp hlex).1
  obtain ⟨t, ht⟩ := (parse_eq_ok hlex).mp hparse
  rw [entry_text hx] at ht
  have hlast : Faultless false _ _ ([] ++ [_]) t := ht
  obtain ⟨v, w, hinit, -, hrun, rfl, -, hfaults⟩ :=
    hlast.last (rulesRead_grammar maxDepth maxDepth).declaration.toMoves
  cases hinit
  rw [State.skipped_skipped, skipped_head] at hrun
  rw [List.append_assoc, List.cons_append] at hrun hfaults
  obtain ⟨body, u, hbody, hd, rfl⟩ := (run_declaration_head (F.opens f)).mp hrun
  obtain rfl : d = headed body := by
    injection hd with hd _
    injection hd
  obtain ⟨v, hv, hcurl, hrest, hfv⟩ := F.enter hbody hholds
  have hall : Faultless true F.item (F.inside f x) nodes v :=
    (run_sequenceOf_iff hp.reads).mp ⟨hv, hfv.symm.trans hfaults⟩
  have hsuffix := (hall.items.advances hp.reads.toMoves).rest
  rw [rest_inside hx] at hsuffix
  have hend : u.up.skipped.rest = [] :=
    List.isEmpty_iff.mp (by simpa [State.stops] using hlast.stops)
  have hclose : (close f (F.offset + (Text.byteSize x.toList + 1))).token.kind ≠ .semicolon := by
    show TokenKind.rightCurl ≠ .semicolon
    decide
  have hup : u.up.rest = v.next.rest := hrest
  exact ⟨v, hall, rest_eq_last hclose hsuffix hcurl hup hend⟩

theorem holds_of_faultless (hp : ItemRule P F.item) (hx : Clean x.toList) {v : State}
    (hv : Faultless true F.item (F.inside f x) nodes v) (hlen : v.rest.length = 1) :
    F.Holds f x nodes := by
  obtain ⟨z, hz⟩ := List.length_eq_one_iff.mp hlen
  have hsuffix := (hv.items.advances hp.reads.toMoves).rest
  rw [rest_inside hx, hz] at hsuffix
  have hlast : [] ++ [z] <:+ _ ++ [_] := hsuffix
  have hcurl : v.kind = .rightCurl := by
    rw [State.kind, hz, eq_of_suffix_singleton hlast]
    rfl
  have hnext : v.next.rest = [] := by rw [State.next_of_cons hz]
  obtain ⟨hrun, hfaults⟩ := (run_sequenceOf_iff hp.reads).mpr hv
  obtain ⟨body, t, hbody, hholds, hend, hft⟩ := F.leave (f := f) hrun hcurl hnext
  have hlex : lex (F.text x) = .ok _ := lex_eq_ok.mpr ⟨clean_text.mpr hx, rfl⟩
  refine ⟨_, headed body, Span.merge ⟨0, 3⟩ t.previous, hlex,
    (parse_eq_ok hlex).mpr ⟨t.up.after.skipped, ?_⟩, hholds⟩
  rw [entry_text hx]
  have hsep : t.up.separated = true := by simp [State.separated, State.up, hend]
  have hkind : t.up.kind ≠ .semicolon := by simp [State.kind, State.up, hend]
  have hup : t.up.after.skipped = t.up := by
    rw [State.after_of_separated hsep, State.skipped_skipped, State.skipped_of_ne hkind]
  refine ⟨.cons ?_ ?_ (.nil _), ?_, ?_⟩
  · rw [skipped_head]
    rfl
  · rw [skipped_head, List.append_assoc]
    exact (run_declaration_head (F.opens f)).mpr ⟨body, t, hbody, rfl, rfl⟩
  · rw [hup, State.stops, State.up, hend]
    rfl
  · rw [hup]
    exact hft.trans hfaults

/-- Two texts that hold items hold those of both with a line feed between them, if the last item in front
of it is not open for what stands behind it. -/
theorem append [LawfulSpans α] [HasOpenEnd α] (hp : ItemRule P F.item) (hcovers : Covers F.item)
    (hfollows : ∀ (g : Graft) s, (grafted g).Follows (grafted g).Opens s F.item F.item)
    (ha : lex a = .ok sa) (hb : lex b = .ok sb) (h : F.Holds f a nodes) (h' : F.Holds f b nodes') :
    F.Holds f (a ++ "\n" ++ b) (nodes ++ mapSpans (shift (a.utf8ByteSize + 1)) nodes') ∨
      ∃ last sequel, nodes.getLast? = some last ∧ openFor sequel last.span.stop last = true ∧
        P sequel.kind ∧ sequel.Begins (semicolonsAtEnd sa.kinds ++ sb.kinds) := by
  have hr := hp.reads
  have hca := (lex_eq_ok.mp ha).1
  have hcb := (lex_eq_ok.mp hb).1
  obtain ⟨t, hall, ht⟩ := h.faultless hp
  obtain ⟨u, hall', hu⟩ := h'.faultless hp
  -- The second text is moved first, and then put behind the first one.
  obtain ⟨u', hmoved, hlen⟩ := faultless_moved hp (clean_append hcb (by decide)) (fun _ => rfl) hall'
    (Text.byteSize a.toList + 1) t.previous
  let s' : State := entry f (.line (F.offset + (Text.byteSize a.toList + 1))) t.previous 2
    (b.toList ++ '\n' :: ['}'])
  have hmeets : Meets t s' :=
    ⟨rfl, (hall.items.advances hr.toMoves).depth.symm, hall.faults.symm,
      Lead.head_terminated fun _ => rfl, Lead.head_onNewLine _⟩
  have hrest := rest_inside (F := F) (f := f) hca
  have hrest' : s'.rest = Lead.read f (.line _) (items b.toList) ++ [close f _] :=
    Lead.read_items_append hcb (by decide)
  rcases hall.append hp (fun g _ _ _ _ => hfollows g) hmoved Lead.inRow_read Lead.inRow_read hmeets
    (ht ▸ hrest) with hboth | ⟨init, last, v, w, semicolons, rfl, habsorbs, hj⟩
  · left
    have hjoined := inside_append (F := F) (f := f) hca hcb t.previous
    rw [← Text.byteSize_toList]
    have hclean : Clean (a ++ "\n" ++ b).toList := by simpa using clean_append hca hcb
    have hsequence : Faultless true F.item (F.inside f (a ++ "\n" ++ b)) _ u' := hjoined ▸ hboth
    exact holds_of_faultless hp hclean hsequence (hlen.trans (congrArg List.length hu))
  · right
    obtain ⟨g, hterminals, hstate, sequel, hoffers, hopen⟩ := habsorbs.goesOn
    rw [hstate] at hoffers
    have hfits : v.rest <:+ g.terminals := by
      rw [hterminals]
      exact habsorbs.front
    have hstop := (inOrder_grafted g).stop_eq hcovers hr hfits habsorbs.run
    have hclosed : ClosedByCurl (semicolons ++ s'.rest) :=
      (habsorbs.closed hr Lead.inRow_read.closed).append Lead.inRow_read.closed
    have hP : P sequel.kind := Classical.byContradiction fun hP =>
      hj.not_offers hp.begins hP hclosed hoffers
    have hbegins : sequel.Begins ((semicolons ++ s'.rest).map (·.token.kind)) :=
      State.offers_iff.mp hoffers
    rw [kinds_of_endsWith hp.finishes hr ha hb hrest ht hrest' habsorbs.toEndsWith] at hbegins
    have hne : TokenKind.rightCurl ≠ sequel.kind := by cases sequel <;> decide
    exact ⟨last, sequel, by simp, hstop ▸ hopen, hP, hbegins.of_append hne⟩

/-- Where a frame holds the items of both texts, the last item of the first text is not open for what stands
behind it: it would have gone on with that. -/
theorem closed_of_append [HasOpenEnd α] {init more : List (Located α)} {last : Located α} {sequel : Sequel}
    (hp : ItemRule P F.item) (hcovers : Covers F.item) (hgreedy : ∀ ts, Rising ts → Greedy ts F.item)
    (ha : lex a = .ok sa) (hb : lex b = .ok sb) (h : F.Holds f a (init ++ [last]))
    (hboth : F.Holds f (a ++ "\n" ++ b) (init ++ last :: more))
    (hbegins : sequel.Begins (semicolonsAtEnd sa.kinds ++ sb.kinds)) :
    openFor sequel last.span.stop last = false := by
  have hr := hp.reads
  have hca := (lex_eq_ok.mp ha).1
  have hcb := (lex_eq_ok.mp hb).1
  obtain ⟨t, hall, ht⟩ := h.faultless hp
  obtain ⟨v, w, semicolons, hlast⟩ := hall.endsWith hr
  obtain ⟨ws, x, hsplit, hprevious⟩ := hlast.split hr
  have hrest := rest_inside (F := F) (f := f) hca
  have hstop : last.span.stop = x.token.span.stop := by
    rw [hcovers.stop_eq hr (Lead.inRow_read.ordered.sublist hlast.front.sublist) hlast.run, hprevious]
  -- The same tokens stand there in both texts, and those of the second one behind them.
  let s' : State := entry f (.line (F.offset + (Text.byteSize a.toList + 1))) ⟨0, 0⟩ 2
    (b.toList ++ '\n' :: ['}'])
  have hrest' : s'.rest = Lead.read f (.line _) (items b.toList) ++ [close f _] :=
    Lead.read_items_append hcb (by decide)
  have hread : (Lead.line F.offset).read f (items a.toList) = ws ++ x :: semicolons := by
    rw [hrest, ht, ← List.cons_append, ← List.append_assoc] at hsplit
    exact List.append_cancel_right hsplit
  have hjoin : (F.inside f (a ++ "\n" ++ b)).rest = ws ++ x :: (semicolons ++ s'.rest) := by
    rw [inside_append hca hcb ⟨0, 0⟩, hread, List.append_assoc, List.cons_append]
    rfl
  -- There the item is read, and it is sated.
  have hclean : Clean (a ++ "\n" ++ b).toList := by simpa using clean_append hca hcb
  obtain ⟨u, hjoined, -⟩ := hboth.faultless hp
  have hlastIn : last ∈ init ++ last :: more := by simp
  obtain ⟨v', w', hsuffix, hrun⟩ := hjoined.items.exists_run hr.toMoves hlastIn
  have hrising : Rising (F.inside f (a ++ "\n" ++ b)).rest :=
    Lead.rising_read (sound_items (clean_append hclean (by decide)))
  obtain ⟨hsated, -⟩ := hgreedy _ hrising v' last w' hsuffix hrun
  refine Bool.eq_false_iff.mpr fun hopen => hsated ws x _ hjoin sequel (hstop ▸ hopen) ?_
  rw [kinds_of_endsWith hp.finishes hr ha hb hrest ht hrest' hlast]
  exact hbegins.append _

end Frame

end Linewise
