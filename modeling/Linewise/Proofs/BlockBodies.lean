import Linewise.Proofs.Frames

/-!
# Blocks behind blocks

The statements of two blocks make one block, with a line feed between them. A statement that could go on with
`else` does not, since no statement begins with it; one that could go on with a block is why the second text
must not begin with a brace.
-/

namespace Linewise

open Linewise.Parser Change

-- ---------------------------------------------------------------------------
-- The frame
-- ---------------------------------------------------------------------------

section
variable {f : Fallthrough} {rest : List Terminal} {finish : Span} {rules : Rules} {t : State}
  {body : Option (Located Block)}

theorem run_blockBody_curl :
    (blockBody rules).run ⟨onLine f 8 (.leftCurl, "\x7b") :: rest, finish, ⟨6, 7⟩, 2, #[]⟩ =
      (do let statements ← sequenceOf true (statement rules)
          expect .rightCurl
          located ⟨8, 9⟩ ⟨statements⟩ : Parser (Located Block)).run ⟨rest, finish, ⟨8, 9⟩, 2, #[]⟩ := rfl

theorem run_functionBody_curl :
    (functionBody (grammar maxDepth (maxDepth - 1))).run
        ⟨onLine f 8 (.leftCurl, "\x7b") :: rest, finish, ⟨6, 7⟩, 1, #[]⟩ = (.ok body, t) ↔
      ∃ statements v, (sequenceOf true (statement (grammar maxDepth (maxDepth - 2)))).run
          ⟨rest, finish, ⟨8, 9⟩, 2, #[]⟩ = (.ok statements, v) ∧
        v.kind = .rightCurl ∧ body = some ⟨⟨statements⟩, Span.merge ⟨8, 9⟩ v.next.previous⟩ ∧
        t = v.next.up := by
  let s : State := ⟨onLine f 8 (.leftCurl, "\x7b") :: rest, finish, ⟨6, 7⟩, 1, #[]⟩
  have hcurl : (nextIs .leftCurl).run s = (.ok true, s) := rfl
  have hdeeper (block : Located Block) (u : State) :
      (grammar maxDepth (maxDepth - 1)).block.run s = (.ok block, u) ↔
        ∃ v, (blockBody (grammar maxDepth (maxDepth - 2))).run s.down = (.ok block, v) ∧ u = v.up :=
    deeper_ok.trans (and_iff_right (show 1 < maxDepth by decide))
  show (functionBody _).run s = _ ↔ _
  unfold functionBody
  rw [run_bind_ok hcurl, if_pos rfl]
  constructor
  · intro h
    obtain ⟨block, u, hblock, hbody⟩ := bind_ok.mp h
    obtain ⟨v, hrun, rfl⟩ := (hdeeper block u).mp hblock
    obtain ⟨statements, w, hstatements, hrun⟩ := bind_ok.mp (run_blockBody_curl.symm.trans hrun)
    obtain ⟨_, x, hclose, hrun⟩ := bind_ok.mp hrun
    obtain ⟨hkind, rfl⟩ := (expect_ok (by decide)).mp hclose
    cases hrun
    cases hbody
    exact ⟨statements, w, hstatements, hkind, rfl, rfl⟩
  · rintro ⟨statements, v, hstatements, hkind, rfl, rfl⟩
    have hrun : (blockBody (grammar maxDepth (maxDepth - 2))).run s.down = (.ok _, v.next) :=
      run_blockBody_curl.trans (bind_ok.mpr ⟨statements, v, hstatements,
        bind_ok.mpr ⟨(), v.next, (expect_ok (by decide)).mpr ⟨hkind, rfl⟩, run_located _ _ _⟩⟩)
    exact bind_ok.mpr ⟨_, _, (hdeeper _ _).mpr ⟨v.next, hrun, rfl⟩, rfl⟩

end

def blockFrame : Frame Statement where
  opening := "fun m() \x7b"
  opener f := onLine f 8 (.leftCurl, "\x7b")
  others _ := []
  brace := ⟨8, 9⟩
  item := statement (grammar maxDepth (maxDepth - 2))
  holds d statements := d.name = "m" ∧ ∃ span, d.body = some ⟨⟨statements⟩, span⟩
  clean := by decide +kernel
  read _ := rfl
  opens _ h := by cases h
  enter h hholds := by
    obtain ⟨statements, v, hrun, hkind, rfl, rfl⟩ := run_functionBody_curl.mp h
    obtain ⟨-, span, hbody⟩ := hholds
    cases hbody
    exact ⟨v, hrun, hkind, rfl, v.faults_next⟩
  leave {_ _ _ v nodes} hrun hkind hend :=
    ⟨_, _, run_functionBody_curl.mpr ⟨nodes, v, hrun, hkind, rfl, rfl⟩, ⟨rfl, _, rfl⟩, hend, v.faults_next⟩

theorem itemRule_statement (levels : Nat) :
    ItemRule (·.beginsStatement = true) (statement (grammar maxDepth levels)) where
  reads := reads_statement (rulesRead_grammar maxDepth levels)
  finishes := finishes_statement (rulesFinish_grammar maxDepth levels)
  begins := begins_statement maxDepth levels
  unjoined _ := TokenKind.joins_of_beginsStatement
  sim _ hd _ := sim_statement (rulesSim_grammar (.inl ⟨rfl, rfl⟩) hd)

-- ---------------------------------------------------------------------------
-- Blocks behind blocks
-- ---------------------------------------------------------------------------

/-- A text that is read as these statements where it is the body of a function. -/
def IsBlockBody (f : Fallthrough) (x : String) (statements : List (Located Statement)) : Prop :=
  ∃ s d span block, lex ("fun m() \x7b\n" ++ x ++ "\n\x7d") = .ok s ∧
    parse (.standard f) s = .ok ⟨[⟨.function d, span⟩]⟩ ∧
    d.name = "m" ∧ d.body = some ⟨⟨statements⟩, block⟩

theorem holds_blockFrame {f : Fallthrough} {x : String} {statements : List (Located Statement)} :
    blockFrame.Holds f x statements ↔ IsBlockBody f x statements := by
  have htext : blockFrame.text x = "fun m() \x7b\n" ++ x ++ "\n\x7d" := rfl
  constructor
  · rintro ⟨s, d, span, hlex, hparse, hname, block, hbody⟩
    exact ⟨s, d, span, block, htext ▸ hlex, hparse, hname, hbody⟩
  · rintro ⟨s, d, span, block, hlex, hparse, hname, hbody⟩
    exact ⟨s, d, span, htext ▸ hlex, hparse, hname, block, hbody⟩

section
variable {a b : String} {t : TokenStream} {kinds : List TokenKind}
  {statements others : List (Located Statement)}

theorem head_of_begins_body (h : Sequel.body.Begins (semicolonsAtEnd kinds ++ t.kinds)) :
    t.visible.head?.map (·.kind) = some .leftCurl := by
  rcases h with ⟨ks, h⟩ | ⟨hbranch, -⟩
  · cases hs : semicolonsAtEnd kinds with
    | nil =>
      rw [hs] at h
      exact t.head_visible (congrArg List.head? h).symm
    | cons k ks' =>
      have hk : k = .semicolon := eq_of_mem_semicolonsAtEnd (hs ▸ List.mem_cons_self)
      rw [hs, hk] at h
      cases (List.cons.inj h).1
  · cases hbranch

/-- The statements of a text and those of a text behind it, which begins a line, are the statements of
both, unless the second text begins with a brace. -/
theorem isBlockBody_append (f : Fallthrough) (ha : IsBlockBody f a statements)
    (hb : IsBlockBody f b others) (hlex : lex b = .ok t)
    (hcurl : t.visible.head?.map (·.kind) ≠ some .leftCurl) :
    IsBlockBody f (a ++ "\n" ++ b)
      (statements ++ mapSpans (shift (a.utf8ByteSize + 1)) others) := by
  have hframe := holds_blockFrame.mpr ha
  obtain ⟨s, hs⟩ := hframe.lexes
  have hfollows (g : Graft) (v : State) :
      (grafted g).Follows (grafted g).Opens v blockFrame.item blockFrame.item :=
    follows_statement (rulesFollow_grammar (detachesAll_grafted g) (inOrder_grafted g) _)
      (inOrder_grafted g)
  rcases Frame.append (itemRule_statement _) covers_statement hfollows hs hlex hframe
    (holds_blockFrame.mpr hb) with hboth | ⟨last, sequel, -, -, hbegins, hsequel⟩
  · exact holds_blockFrame.mp hboth
  · cases sequel with
    | branch => cases hbegins
    | body => exact absurd (head_of_begins_body hsequel) hcurl

end

theorem isBlockBody_of_parse {f : Fallthrough} {x : String} {statements : List (Located Statement)}
    (n : Nat) (hclean : Clean x.toList)
    (h : parse (.standard f) (.ofList (items (blockFrame.text x).toList ++ [(.eof, "")])) =
      .ok ⟨[⟨.function (headed (some ⟨⟨statements⟩, ⟨8, n⟩⟩)), ⟨0, n⟩⟩]⟩) :
    IsBlockBody f x statements :=
  holds_blockFrame.mp (Frame.holds_of_parse hclean h ⟨rfl, _, rfl⟩)

set_option maxRecDepth 4000 in
/-- Parentheses on the next line are a statement, and no part of the type in front of them. -/
theorem isBlockBody_append_parentheses :
    ∃ statements others t, IsBlockBody .reject "val x: T" statements ∧ IsBlockBody .reject "(1)" others ∧
      lex "(1)" = .ok t ∧ t.visible.head?.map (·.kind) ≠ some .leftCurl ∧
      IsBlockBody .reject ("val x: T" ++ "\n" ++ "(1)")
        (statements ++ mapSpans (shift ("val x: T".utf8ByteSize + 1)) others) := by
  have hlex : lex "(1)" = .ok _ := lex_eq_ok.mpr ⟨by decide +kernel, rfl⟩
  have ha : IsBlockBody .reject "val x: T"
      [⟨.property ⟨⟨[], []⟩, true, "x", some ⟨.user (.simple "T" []), ⟨17, 18⟩⟩, none⟩, ⟨10, 18⟩⟩] :=
    isBlockBody_of_parse 20 (by decide +kernel) rfl
  have hb : IsBlockBody .reject "(1)" [⟨.expr (.integer "1"), ⟨10, 13⟩⟩] :=
    isBlockBody_of_parse 15 (by decide +kernel) rfl
  have hcurl : some TokenKind.leftParen ≠ some .leftCurl := by decide
  exact ⟨_, _, _, ha, hb, hlex, hcurl, isBlockBody_append .reject ha hb hlex hcurl⟩

end Linewise
