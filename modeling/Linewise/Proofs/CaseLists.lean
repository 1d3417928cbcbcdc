import Linewise.Proofs.Frames
import Linewise.Proofs.Parsing.Atoms

/-!
# Cases behind cases

The cases of two `when` expressions make one, with a line feed between them, unless the last case of the
first one goes on with what the second one begins with. A case may begin with `else` or with a brace, and
it may end with an `if` without a second branch or with a local function without a body.
-/

namespace Linewise

open Linewise.Parser Change

-- ---------------------------------------------------------------------------
-- The frame
-- ---------------------------------------------------------------------------

section
variable {f : Fallthrough} {rest : List Terminal} {finish : Span} {t : State}
  {body : Option (Located Block)}

def whenHead (f : Fallthrough) : List Terminal :=
  [onLine f 10 (.keyword .whenWord, "when"), onLine f 15 (.leftParen, "("), onLine f 16 (.identifier, "s"),
    onLine f 17 (.rightParen, ")"), onLine f 19 (.leftCurl, "\x7b")]

theorem run_atom_when :
    (atom (grammar maxDepth (maxDepth - 2))).run ⟨whenHead f ++ rest, finish, ⟨8, 9⟩, 2, #[]⟩ =
      (do let cases ← sequenceOf true (whenCase (grammar maxDepth (maxDepth - 2)))
          expect .rightCurl
          return .whenCase (some ⟨.name "s", ⟨16, 17⟩⟩) cases : Parser Expr).run
        ⟨rest, finish, ⟨19, 20⟩, 2, #[]⟩ := by
  let rules := grammar maxDepth (maxDepth - 2)
  let inner := grammar maxDepth (maxDepth - 3)
  let subject : State := ⟨(whenHead f).drop 2 ++ rest, finish, ⟨15, 16⟩, 2, #[]⟩
  let close : State := ⟨(whenHead f).drop 3 ++ rest, finish, ⟨16, 17⟩, 3, #[]⟩
  have hkind : subject.down.kind ≠ .hash := by
    show TokenKind.identifier ≠ .hash
    decide
  have hname : (atom inner).run subject.down = (.ok (.name "s"), close) := rfl
  have hassignment : (assignment inner).run subject.down = (.ok ⟨.name "s", ⟨16, 17⟩⟩, close) :=
    run_assignment_closes (rulesRead_grammar maxDepth _) hkind hname (.inr rfl)
  have hexpression : rules.expression.run subject = (.ok ⟨.name "s", ⟨16, 17⟩⟩, close.up) :=
    deeper_ok.mpr ⟨show 2 < maxDepth by decide, close, hassignment, rfl⟩
  have hgroup : (closeGroup rules).run subject =
      (.ok ⟨.name "s", ⟨16, 17⟩⟩, ⟨(whenHead f).drop 4 ++ rest, finish, ⟨17, 18⟩, 2, #[]⟩) := by
    unfold closeGroup
    rw [run_bind_ok hexpression]
    rfl
  have hbehind : (behind .leftParen (closeGroup rules)).run
      ⟨(whenHead f).drop 1 ++ rest, finish, ⟨10, 14⟩, 2, #[]⟩ =
        (.ok (some ⟨.name "s", ⟨16, 17⟩⟩), ⟨(whenHead f).drop 4 ++ rest, finish, ⟨17, 18⟩, 2, #[]⟩) :=
    bind_ok.mpr ⟨true, subject, rfl, bind_ok.mpr ⟨_, _, hgroup, rfl⟩⟩
  have hpeek : peek.run ⟨whenHead f ++ rest, finish, ⟨8, 9⟩, 2, #[]⟩ =
      (.ok (.keyword .whenWord), ⟨whenHead f ++ rest, finish, ⟨8, 9⟩, 2, #[]⟩) := rfl
  have hword : (expectWord .whenWord).run ⟨whenHead f ++ rest, finish, ⟨8, 9⟩, 2, #[]⟩ =
      (.ok (), ⟨(whenHead f).drop 1 ++ rest, finish, ⟨10, 14⟩, 2, #[]⟩) := rfl
  unfold atom
  rw [run_bind_ok hpeek]
  show (whenChoice rules).run _ = _
  unfold whenChoice
  rw [run_bind_ok hword, run_bind_ok hbehind]
  rfl

theorem run_functionBody_assign :
    (functionBody (grammar maxDepth (maxDepth - 1))).run
        ⟨onLine f 8 (.assign, "=") :: rest, finish, ⟨6, 7⟩, 1, #[]⟩ = (.ok body, t) ↔
      ∃ value v, (assignment (grammar maxDepth (maxDepth - 2))).run ⟨rest, finish, ⟨8, 9⟩, 2, #[]⟩ =
          (.ok value, v) ∧
        body = some (Block.single ⟨.expr value.node, value.span⟩) ∧ t = v.up := by
  let s : State := ⟨rest, finish, ⟨8, 9⟩, 1, #[]⟩
  have hcurl : (nextIs .leftCurl).run ⟨onLine f 8 (.assign, "=") :: rest, finish, ⟨6, 7⟩, 1, #[]⟩ =
      (.ok false, ⟨onLine f 8 (.assign, "=") :: rest, finish, ⟨6, 7⟩, 1, #[]⟩) := rfl
  have hassign : (accept .assign).run ⟨onLine f 8 (.assign, "=") :: rest, finish, ⟨6, 7⟩, 1, #[]⟩ =
      (.ok true, s) := rfl
  have hdeeper (value : Located Expr) (u : State) :
      (grammar maxDepth (maxDepth - 1)).expression.run s = (.ok value, u) ↔
        ∃ v, (assignment (grammar maxDepth (maxDepth - 2))).run s.down = (.ok value, v) ∧ u = v.up :=
    deeper_ok.trans (and_iff_right (show 1 < maxDepth by decide))
  unfold functionBody
  rw [run_bind_ok hcurl, if_neg Bool.false_ne_true, run_bind_ok hassign, if_pos rfl]
  constructor
  · intro h
    obtain ⟨value, u, hvalue, hbody⟩ := bind_ok.mp h
    obtain ⟨v, hrun, rfl⟩ := (hdeeper value u).mp hvalue
    cases hbody
    exact ⟨value, v, hrun, rfl, rfl⟩
  · rintro ⟨value, v, hrun, rfl, rfl⟩
    exact bind_ok.mpr ⟨value, v.up, (hdeeper _ _).mpr ⟨v, hrun, rfl⟩, rfl⟩

end

theorem whenHead_kind {f : Fallthrough} {rest : List Terminal} {finish before : Span} {depth : Nat}
    {faults : Array (Located SyntaxFault)} :
    State.kind ⟨whenHead f ++ rest, finish, before, depth, faults⟩ ≠ .hash := by
  show TokenKind.keyword .whenWord ≠ .hash
  decide

def whenFrame : Frame WhenCase where
  opening := "fun m() = when (s) \x7b"
  opener f := onLine f 8 (.assign, "=")
  others := whenHead
  brace := ⟨19, 20⟩
  item := whenCase (grammar maxDepth (maxDepth - 2))
  holds d cases := ∃ subject span block,
    d.body = some ⟨⟨[⟨.expr (.whenCase subject cases), span⟩]⟩, block⟩
  clean := by decide +kernel
  read _ := rfl
  opens _ h := by cases h
  enter h hholds := by
    obtain ⟨⟨e, place⟩, u, hvalue, rfl, rfl⟩ := run_functionBody_assign.mp h
    obtain ⟨subject, span, block, hbody⟩ := hholds
    cases hbody
    have hatom := run_assignment_when (rulesRead_grammar _ _) hvalue rfl whenHead_kind
    obtain ⟨cases, v, hcases, hrest⟩ := bind_ok.mp (run_atom_when.symm.trans hatom)
    obtain ⟨_, w, hclose, hrest⟩ := bind_ok.mp hrest
    obtain ⟨hkind, rfl⟩ := (expect_ok (by decide)).mp hclose
    cases hrest
    exact ⟨v, hcases, hkind, rfl, v.faults_next⟩
  leave {f rest finish v nodes} hrun hkind hend := by
    have hclose := (expect_ok (t := v.next) (by decide)).mpr ⟨hkind, rfl⟩
    have hatom : (atom (grammar maxDepth (maxDepth - 2))).run
        ⟨whenHead f ++ rest, finish, ⟨8, 9⟩, 2, #[]⟩ =
          (.ok (.whenCase (some ⟨.name "s", ⟨16, 17⟩⟩) nodes), v.next) :=
      run_atom_when.trans (bind_ok.mpr ⟨nodes, v, hrun, bind_ok.mpr ⟨(), v.next, hclose, rfl⟩⟩)
    have hvalue := run_assignment_closes (rulesRead_grammar _ _) whenHead_kind hatom
      (.inl (by rw [State.kind, hend]))
    exact ⟨_, _, run_functionBody_assign.mpr ⟨_, _, hvalue, rfl, rfl⟩, ⟨_, _, _, rfl⟩, hend, v.faults_next⟩

theorem itemRule_whenCase (levels : Nat) :
    ItemRule (·.beginsCase = true) (whenCase (grammar maxDepth levels)) where
  reads := reads_whenCase (rulesRead_grammar maxDepth levels)
  finishes := finishes_whenCase (rulesFinish_grammar maxDepth levels)
  begins := begins_whenCase maxDepth levels
  unjoined _ := TokenKind.joins_of_beginsCase
  sim _ hd _ := sim_whenCase (rulesSim_grammar (.inl ⟨rfl, rfl⟩) hd)

-- ---------------------------------------------------------------------------
-- Cases behind cases
-- ---------------------------------------------------------------------------

/-- A text that is read as these cases where it stands in a choice that is the body of a function. -/
def IsCaseList (f : Fallthrough) (x : String) (cases : List (Located WhenCase)) : Prop :=
  ∃ s d span subject place block, lex ("fun m() = when (s) \x7b\n" ++ x ++ "\n\x7d") = .ok s ∧
    parse (.standard f) s = .ok ⟨[⟨.function d, span⟩]⟩ ∧
    d.body = some ⟨⟨[⟨.expr (.whenCase subject cases), place⟩]⟩, block⟩

theorem holds_whenFrame {f : Fallthrough} {x : String} {cases : List (Located WhenCase)} :
    whenFrame.Holds f x cases ↔ IsCaseList f x cases := by
  have htext : whenFrame.text x = "fun m() = when (s) \x7b\n" ++ x ++ "\n\x7d" := rfl
  constructor
  · rintro ⟨s, d, span, hlex, hparse, subject, place, block, hbody⟩
    exact ⟨s, d, span, subject, place, block, htext ▸ hlex, hparse, hbody⟩
  · rintro ⟨s, d, span, subject, place, block, hlex, hparse, hbody⟩
    exact ⟨s, d, span, htext ▸ hlex, hparse, subject, place, block, hbody⟩

/-- The cases of a text and those of a text behind it, which begins a line, are the cases of both, if and
only if the last case of the first text cannot go on with what the second one begins with, behind the
semicolons at the end of the first one. -/
theorem isCaseList_append {a b : String} {s t : TokenStream} {cases others : List (Located WhenCase)}
    (f : Fallthrough) (ha : IsCaseList f a cases) (hb : IsCaseList f b others) (hs : lex a = .ok s)
    (ht : lex b = .ok t) :
    IsCaseList f (a ++ "\n" ++ b) (cases ++ mapSpans (shift (a.utf8ByteSize + 1)) others) ↔
      ∀ last, cases.getLast? = some last → ∀ sequel : Sequel,
        sequel.Begins (semicolonsAtEnd s.kinds ++ t.kinds) → openFor sequel last.span.stop last = false := by
  have hrule := itemRule_whenCase (maxDepth - 2)
  constructor
  · intro hboth last hlast sequel hbegins
    obtain ⟨init, rfl⟩ := List.getLast?_eq_some_iff.mp hlast
    rw [List.append_assoc] at hboth
    exact Frame.closed_of_append hrule covers_whenCase
      (fun _ hts => greedy_whenCase (rulesGreedy_grammar hts _ _) hts) hs ht (holds_whenFrame.mpr ha)
      (holds_whenFrame.mpr hboth) hbegins
  · intro hclosed
    have hfollows (g : Graft) (v : State) :
        (grafted g).Follows (grafted g).Opens v whenFrame.item whenFrame.item :=
      follows_whenCase (rulesFollow_grammar (detachesAll_grafted g) (inOrder_grafted g) _)
        (inOrder_grafted g)
    rcases Frame.append hrule covers_whenCase hfollows hs ht (holds_whenFrame.mpr ha)
      (holds_whenFrame.mpr hb) with hboth | ⟨last, sequel, hlast, hopen, -, hbegins⟩
    · exact holds_whenFrame.mp hboth
    · rw [hclosed last hlast sequel hbegins] at hopen
      cases hopen

theorem isCaseList_of_parse {f : Fallthrough} {x : String} {cases : List (Located WhenCase)} (n : Nat)
    (hclean : Clean x.toList)
    (h : parse (.standard f) (.ofList (items (whenFrame.text x).toList ++ [(.eof, "")])) =
      .ok ⟨[⟨.function (headed (some (Block.single
        ⟨.expr (.whenCase (some ⟨.name "s", ⟨16, 17⟩⟩) cases), ⟨10, n⟩⟩))), ⟨0, n⟩⟩]⟩) :
    IsCaseList f x cases :=
  holds_whenFrame.mp (Frame.holds_of_parse hclean h ⟨_, _, _, rfl⟩)

set_option maxRecDepth 4000 in
/-- Two semicolons end the branch of an `if`, so `else` begins a case. -/
theorem isCaseList_append_else :
    ∃ cases others s t, IsCaseList .reject "1 -> if (a) b;" cases ∧ IsCaseList .reject ";else -> c" others ∧
      lex "1 -> if (a) b;" = .ok s ∧ lex ";else -> c" = .ok t ∧
      (∀ last, cases.getLast? = some last → ∀ sequel : Sequel,
        sequel.Begins (semicolonsAtEnd s.kinds ++ t.kinds) → openFor sequel last.span.stop last = false) ∧
      IsCaseList .reject ("1 -> if (a) b;" ++ "\n" ++ ";else -> c")
        (cases ++ mapSpans (shift ("1 -> if (a) b;".utf8ByteSize + 1)) others) := by
  have hs : lex "1 -> if (a) b;" = .ok _ := lex_eq_ok.mpr ⟨by decide +kernel, rfl⟩
  have ht : lex ";else -> c" = .ok _ := lex_eq_ok.mpr ⟨by decide +kernel, rfl⟩
  have ha : IsCaseList .reject "1 -> if (a) b;"
      [⟨.matching [⟨.integer "1", ⟨21, 22⟩⟩] (Block.single ⟨.expr (.cond ⟨.name "a", ⟨30, 31⟩⟩
        (Block.single ⟨.expr (.name "b"), ⟨33, 34⟩⟩) none), ⟨26, 34⟩⟩), ⟨21, 34⟩⟩] :=
    isCaseList_of_parse 37 (by decide +kernel) rfl
  have hb : IsCaseList .reject ";else -> c"
      [⟨.otherwise (Block.single ⟨.expr (.name "c"), ⟨30, 31⟩⟩), ⟨22, 31⟩⟩] :=
    isCaseList_of_parse 33 (by decide +kernel) rfl
  have hsequels (sequel : Sequel) : ¬sequel.Begins
      (semicolonsAtEnd (TokenStream.ofList (items "1 -> if (a) b;".toList ++ [(.eof, "")])).kinds ++
        (TokenStream.ofList (items ";else -> c".toList ++ [(.eof, "")])).kinds) := by
    cases sequel <;> decide +kernel
  exact ⟨_, _, _, _, ha, hb, hs, ht, fun _ _ sequel h => absurd h (hsequels sequel),
    (isCaseList_append .reject ha hb hs ht).mpr fun _ _ sequel h => absurd h (hsequels sequel)⟩

set_option maxRecDepth 4000 in
/-- Without the condition it fails: `else` is read as the second branch of the `if` in front of it, and a
block as the body of the function in front of it. -/
theorem not_isCaseList_append :
    (∃ cases others, IsCaseList .accept "1 -> if (a) b" cases ∧ IsCaseList .accept "else -> c" others ∧
      ∀ all, ¬IsCaseList .accept ("1 -> if (a) b" ++ "\n" ++ "else -> c") all) ∧
    ∃ cases others, IsCaseList .accept "1 -> fun g()" cases ∧ IsCaseList .accept "\x7b x \x7d -> y" others ∧
      ∀ all, ¬IsCaseList .accept ("1 -> fun g()" ++ "\n" ++ "\x7b x \x7d -> y") all := by
  have hfails {x : String} (h : (parse (.standard .accept) (.ofList
      (items (whenFrame.text x).toList ++ [(.eof, "")]))).toBool = false) (all : List (Located WhenCase)) :
      ¬IsCaseList .accept x all := by
    intro hall
    obtain ⟨s, d, span, hlex, hparse, -⟩ := holds_whenFrame.mpr hall
    obtain ⟨-, rfl⟩ := lex_eq_ok.mp hlex
    rw [hparse] at h
    cases h
  constructor
  · refine ⟨[⟨.matching [⟨.integer "1", ⟨21, 22⟩⟩] (Block.single ⟨.expr (.cond ⟨.name "a", ⟨30, 31⟩⟩
      (Block.single ⟨.expr (.name "b"), ⟨33, 34⟩⟩) none), ⟨26, 34⟩⟩), ⟨21, 34⟩⟩],
      [⟨.otherwise (Block.single ⟨.expr (.name "c"), ⟨29, 30⟩⟩), ⟨21, 30⟩⟩], ?_, ?_, ?_⟩
    · exact isCaseList_of_parse 36 (by decide +kernel) rfl
    · exact isCaseList_of_parse 32 (by decide +kernel) rfl
    · exact hfails (by decide +kernel)
  · refine ⟨[⟨.matching [⟨.integer "1", ⟨21, 22⟩⟩] (Block.single
        ⟨.function ⟨⟨[], []⟩, none, "g", [], none, none⟩, ⟨26, 33⟩⟩), ⟨21, 33⟩⟩],
      [⟨.matching [⟨.lambda ⟨[⟨.expr (.name "x"), ⟨23, 24⟩⟩]⟩, ⟨21, 26⟩⟩]
        (Block.single ⟨.expr (.name "y"), ⟨30, 31⟩⟩), ⟨21, 31⟩⟩], ?_, ?_, ?_⟩
    · exact isCaseList_of_parse 35 (by decide +kernel) rfl
    · exact isCaseList_of_parse 33 (by decide +kernel) rfl
    · exact hfails (by decide +kernel)

end Linewise
