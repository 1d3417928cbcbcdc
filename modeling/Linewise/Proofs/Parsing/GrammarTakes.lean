import Linewise.Proofs.Ast.Marks
import Linewise.Proofs.Parsing.GrammarProgress
import Linewise.Proofs.Parsing.Takes

/-!
# The grammar takes the spelling of a type

A rule for types takes the spelling of a type and answers the type, if it does so for the marks behind types.
The rules of the grammar take one `?` and then any number of `*`.
-/

namespace Linewise.Parser

open Lexeme (Spells)

variable {d n : Nat} {is js rest : List Item} {ok : Ty → Prop}

-- ---------------------------------------------------------------------------
-- Lists
-- ---------------------------------------------------------------------------

section
variable {α : Type} [HasSpans α] {item : Parser α} {close : TokenKind} {spell : α → List Item}
  {step : Array α → Parser (ForInStep (Array α))} {acc : Array α} {xs vs : List α}

theorem SameShape.push {a : α} {v : α} (hacc : SameShape acc xs.toArray) (ha : SameShape a v) :
    SameShape (acc.push a) (xs ++ [v]).toArray := by
  have hpush : (xs ++ [v]).toArray = xs.toArray.push v := by simp
  rw [SameShape, hpush, mapSpans_push, mapSpans_push, hacc, ha]

theorem SameShape.toList (h : SameShape acc xs.toArray) : SameShape acc.toList xs := by
  have hlists := congrArg Array.toList h
  rwa [toList_mapSpans, toList_mapSpans] at hlists

/-- In front of a comma and of what closes the list the item is taken, and it does not begin with what closes
the list. -/
def TakesItem (d : Nat) (item : Parser α) (close : TokenKind) (is : List Item) (v : α) : Prop :=
  ∀ rest, headKind rest = .comma ∨ headKind rest = close →
    headKind (is ++ rest) ≠ close ∧ Takes d item (is ++ rest) rest v

theorem takes_listRound_yield {is : List Item} {v : α} (hacc : SameShape acc xs.toArray)
    (h : TakesItem d item close is v) :
    Takes d (listRound item acc) (is ++ (.comma, ",") :: rest) rest (.yield (xs ++ [v]).toArray) := by
  refine (h _ (.inl rfl)).2.bind fun a ha => .accept_bind (takes_pure ?_)
  exact congrArg ForInStep.yield (hacc.push ha)

theorem takes_listRound_done {is : List Item} {v : α} (hacc : SameShape acc xs.toArray)
    (h : TakesItem d item close is v) (hrest : headKind rest = close) (hclose : close ≠ .comma) :
    Takes d (listRound item acc) (is ++ rest) rest (.done (xs ++ [v]).toArray) := by
  refine (h _ (.inr hrest)).2.bind fun a ha => .accept_no_bind (hrest ▸ hclose) (takes_pure ?_)
  exact congrArg ForInStep.done (hacc.push ha)

theorem takes_iterate_list (hr : Rounds step)
    (hstep : ∀ (acc : Array α) {is js : List Item} {r : ForInStep (Array α)}, headKind is ≠ close →
      Takes d (listRound item acc) is js r → Takes d (step acc) is js r)
    (hne : vs ≠ []) (hitems : ∀ v ∈ vs, TakesItem d item close (spell v) v) (hrest : headKind rest = close)
    (hclose : close ≠ .comma) (hacc : SameShape acc xs.toArray) :
    Takes d (iterate step acc) (commaItems [] (vs.map spell) ++ rest) rest (xs ++ vs).toArray := by
  induction vs generalizing acc xs with
  | nil => exact absurd rfl hne
  | cons v vs ih =>
    obtain ⟨hv, hvs⟩ := List.forall_mem_cons.mp hitems
    cases vs with
    | nil =>
      have hround := hstep acc (hv rest (.inr hrest)).1 (takes_listRound_done hacc hv hrest hclose)
      rw [List.map_cons, List.map_nil, commaItems_singleton]
      exact .iterate_done hr hround
    | cons w ws =>
      rw [List.map_cons, List.map_cons, commaItems_cons, List.append_assoc]
      refine .iterate_yield hr (hstep acc (hv _ (.inl rfl)).1 (takes_listRound_yield hacc hv)) fun b hb => ?_
      have := ih (List.cons_ne_nil w ws) hvs hb
      rwa [List.append_assoc] at this

theorem takes_listOf (hr : Reads item) (hne : vs ≠ [])
    (hitems : ∀ v ∈ vs, TakesItem d item close (spell v) v) (hrest : headKind rest = close)
    (hclose : close ≠ .comma) :
    Takes d (listOf item) (commaItems [] (vs.map spell) ++ rest) rest vs := by
  have hempty : SameShape (#[] : Array α) ([] : List α).toArray := .refl _
  have hloop := takes_iterate_list (rounds_listRound hr) (fun _ _ _ _ _ h => h) hne hitems hrest hclose hempty
  exact hloop.bind fun b hb => takes_pure hb.toList

theorem takes_listUntil (hr : Reads item) (hitems : ∀ v ∈ vs, TakesItem d item close (spell v) v)
    (hclose : close ≠ .comma) {text : String} :
    Takes d (listUntil close item) (commaItems [] (vs.map spell) ++ (close, text) :: rest) rest vs := by
  have hround := rounds_listUntilRound close hr
  have hloop : Takes d (iterate (listUntilRound close item) #[])
      (commaItems [] (vs.map spell) ++ (close, text) :: rest) ((close, text) :: rest) vs.toArray := by
    by_cases hne : vs = []
    · subst hne
      have hdone : Takes d (listUntilRound close item #[]) ((close, text) :: rest) ((close, text) :: rest)
          (.done #[]) :=
        .nextIs_bind (decide_eq_true rfl) (takes_pure (.refl _))
      exact .iterate_done hround hdone
    · have hempty : SameShape (#[] : Array α) ([] : List α).toArray := .refl _
      refine takes_iterate_list hround (fun acc is js r his h => ?_) hne hitems rfl hclose hempty
      exact .nextIs_bind (decide_eq_false his) h
  exact hloop.bind fun b hb => .expect_bind (takes_pure hb.toList)

end

-- ---------------------------------------------------------------------------
-- How types begin and end
-- ---------------------------------------------------------------------------

def EndsType (is : List Item) : Prop :=
  headKind is = .comma ∨ headKind is = .rightParen ∨ headKind is = .rightAngle ∨ headKind is = .eof

theorem EndsType.ne {kind : TokenKind} (h : EndsType is)
    (hk : kind ≠ .comma ∧ kind ≠ .rightParen ∧ kind ≠ .rightAngle ∧ kind ≠ .eof) : headKind is ≠ kind := by
  rintro rfl
  rcases h with h | h | h | h
  · exact hk.1 h
  · exact hk.2.1 h
  · exact hk.2.2.1 h
  · exact hk.2.2.2 h

def BeginsType (is : List Item) : Prop :=
  headKind is = .leftParen ∨ headKind is = .identifier ∧ headKind is.tail ≠ .colon

theorem headKind_argItems_ne {kind : TokenKind} (args : List (Located Ty)) (hk : kind ≠ .leftAngle)
    (h : headKind is ≠ kind) : headKind (argItems [] args ++ is) ≠ kind := by
  cases args with
  | nil => exact h
  | cons a args => exact hk.symm

theorem headKind_userSpelling (t : UserType) : headKind (t.spelling [] ++ is) = .identifier := by
  induction t using UserType.parents generalizing is with
  | simple name args => rw [spelling_simple]; rfl
  | member parent name args ih => rw [spelling_member, List.append_assoc]; exact ih

theorem beginsType_userSpelling (t : UserType) (h : headKind is ≠ .colon) :
    BeginsType (t.spelling [] ++ is) := by
  induction t using UserType.parents generalizing is with
  | simple name args =>
    rw [spelling_simple]
    exact .inr ⟨rfl, headKind_argItems_ne args (by decide) h⟩
  | member parent name args ih =>
    rw [spelling_member, List.append_assoc]
    exact ih nofun

theorem beginsType_spelling (t : Ty) (h : headKind is ≠ .colon) : BeginsType (t.spelling [] ++ is) := by
  induction t using Ty.parts generalizing is with
  | user t => exact beginsType_userSpelling t h
  | nullable t ih =>
    show BeginsType (t.node.spelling [] ++ [(.question, "?")] ++ is)
    rw [List.append_assoc]
    exact ih nofun
  | pointer t ih =>
    show BeginsType (t.node.spelling [] ++ [(.times, "*")] ++ is)
    rw [List.append_assoc]
    exact ih nofun
  | function receiver params result ihr =>
    rw [spelling_function]
    cases receiver with
    | none => exact .inl rfl
    | some r =>
      rw [Option.map_some, functionItems_some, List.append_assoc]
      exact ihr r rfl nofun

-- ---------------------------------------------------------------------------
-- User types
-- ---------------------------------------------------------------------------

def TakesTypes (ok : Ty → Prop) (d : Nat) (type : Parser (Located Ty)) (n : Nat) : Prop :=
  ∀ (t : Located Ty) (rest : List Item), t.node.Written n → Throughout ok t.node → EndsType rest →
    Takes d type (t.node.spelling [] ++ rest) rest t

section
variable {type : Parser (Located Ty)} (hr : Reads type) (h : TakesTypes ok d type n)
include hr h

theorem takes_typeArgs {args : List (Located Ty)}
    (hargs : ∀ a ∈ args, a.node.Written n ∧ Throughout ok a.node) (hnext : headKind is ≠ .leftAngle) :
    Takes d (typeArgs type) (argItems [] args ++ is) is args := by
  cases args with
  | nil => exact .accept_no_bind hnext (takes_pure (.refl _))
  | cons first args =>
    have hitems : ∀ a ∈ first :: args, TakesItem d type .rightAngle (a.node.spelling []) a := by
      intro a ha rest hrest
      obtain ⟨hwritten, hok⟩ := hargs a ha
      have hends : EndsType rest := hrest.imp_right fun h => .inr (.inl h)
      refine ⟨?_, h a rest hwritten hok hends⟩
      rcases beginsType_spelling a.node (hends.ne (by decide)) with hb | hb <;> simp [hb]
    have hlist : Takes d (listOf type)
        (commaItems [] ((first :: args).map fun a => a.node.spelling []) ++ (.rightAngle, ">") :: is)
        ((.rightAngle, ">") :: is) (first :: args) :=
      takes_listOf hr (List.cons_ne_nil first args) hitems rfl (by decide)
    rw [argItems_cons, List.cons_append, List.append_assoc]
    exact .accept_bind (hlist.bind fun as ha => .expect_bind (takes_pure ha))

theorem takes_userType_bind (t : UserType) (hargs : ∀ a ∈ t.args, a.node.Written n ∧ Throughout ok a.node)
    (hnext : headKind is ≠ .leftAngle) {u : UserType}
    (hrest : ∀ t', SameShape t' t → Takes d (iterate (memberRound type) t') is js u) :
    Takes d (userType type) (t.spelling [] ++ is) js u := by
  induction t using UserType.parents generalizing is with
  | simple name args =>
    rw [spelling_simple]
    refine .identifier_bind ((takes_typeArgs hr h hargs hnext).bind fun args' ha => hrest _ ?_)
    rw [SameShape, mapSpans_simple, mapSpans_simple]
    exact congrArg (UserType.simple name) ha
  | member parent name args ih =>
    obtain ⟨hparent, hargs⟩ := List.forall_mem_append.mp hargs
    rw [spelling_member, List.append_assoc]
    refine ih hparent nofun fun parent' hp => .iterate_yield (rounds_memberRound hr) ?_ hrest
    refine .nextAre_bind (decide_eq_true ⟨rfl, rfl⟩) (.expect_bind (.identifier_bind ?_))
    refine (takes_typeArgs hr h hargs hnext).bind fun args' ha => takes_pure ?_
    rw [SameShape, mapSpans_yield, mapSpans_typeMember, hp, ha]
    simp

theorem takes_userType (t : UserType) (hargs : ∀ a ∈ t.args, a.node.Written n ∧ Throughout ok a.node)
    (hnext : headKind is ≠ .leftAngle) (hmember : ¬(headKind is = .dot ∧ headKind is.tail = .identifier)) :
    Takes d (userType type) (t.spelling [] ++ is) is t := by
  refine takes_userType_bind hr h t hargs hnext fun t' ht =>
    .trans (.iterate_done (rounds_memberRound hr) ?_) ht
  exact .nextAre_bind (decide_eq_false hmember) (takes_pure (.refl _))

-- ---------------------------------------------------------------------------
-- Function types
-- ---------------------------------------------------------------------------

omit hr in
theorem takes_typeParam (p : Option String × Located Ty) (hp : p.2.node.Written n ∧ Throughout ok p.2.node) :
    TakesItem d (typeParam type) .rightParen (paramItems [] p.1 (p.2.node.spelling [])) p := by
  rcases p with ⟨label, t⟩
  intro rest hrest
  have hends : EndsType rest := hrest.imp_right .inl
  have htype := h t rest hp.1 hp.2 hends
  have hbegins := beginsType_spelling t.node (hends.ne (by decide))
  cases label with
  | some name =>
    refine ⟨nofun, ?_⟩
    have hlabel : Takes d (label? .colon) ((.identifier, name) :: (.colon, ":") :: (t.node.spelling [] ++ rest))
        (t.node.spelling [] ++ rest) (some name) :=
      .nextAre_bind (decide_eq_true ⟨rfl, rfl⟩) (.identifier_bind (.expect_bind (takes_pure (.refl _))))
    exact hlabel.bind fun l hl => htype.bind fun a ha => takes_pure (hl.pair ha)
  | none =>
    refine ⟨?_, ?_⟩
    · rcases hbegins with hb | hb <;> simp [paramItems, hb]
    have hlabel : Takes d (label? .colon) (t.node.spelling [] ++ rest) (t.node.spelling [] ++ rest) none := by
      refine .nextAre_bind (decide_eq_false ?_) (takes_pure (.refl _))
      rintro ⟨hfirst, hsecond⟩
      rcases hbegins with hb | hb
      · rw [hb] at hfirst; cases hfirst
      · exact hb.2 hsecond
    exact hlabel.bind fun l hl => htype.bind fun a ha => takes_pure (hl.pair ha)

theorem takes_functionType {receiver receiver' : Option (Located Ty)} (hreceiver : SameShape receiver' receiver)
    {params : List (Option String × Located Ty)} {result : Located Ty} {span : Span}
    (hparams : ∀ p ∈ params, p.2.node.Written n ∧ Throughout ok p.2.node)
    (hresult : result.node.Written n ∧ Throughout ok result.node) (hrest : EndsType rest) :
    Takes d (functionType type receiver')
      (functionItems [] none (params.map fun p => paramItems [] p.1 (p.2.node.spelling []))
        (result.node.spelling []) ++ rest) rest ⟨.function receiver params result, span⟩ := by
  have hlist : Takes d (listUntil .rightParen (typeParam type))
      (commaItems [] (params.map fun p => paramItems [] p.1 (p.2.node.spelling [])) ++
        (.rightParen, ")") :: (.arrow, "->") :: (result.node.spelling [] ++ rest))
      ((.arrow, "->") :: (result.node.spelling [] ++ rest)) params :=
    takes_listUntil (reads_typeParam hr) (fun p hp => takes_typeParam h p (hparams p hp)) (by decide)
  have hstart (f : Span → Parser (Located Ty)) {is js : List Item} {t : Located Ty}
      (hf : ∀ start, Takes d (f start) is js t) : Takes d (startOf receiver' >>= f) is js t := by
    cases receiver' with
    | none => exact .here_bind hf
    | some r => exact hf r.span
  rw [functionItems, List.nil_append, List.cons_append, List.append_assoc]
  refine hstart _ fun start => .expect_bind (hlist.bind fun params' hp => .accept_bind ?_)
  refine (h result rest hresult.1 hresult.2 hrest).bind fun result' ht => takes_located ?_
  rw [SameShape, mapSpans_functionType, mapSpans_functionType, hreceiver, hp, ht]

theorem takes_located_userType (start : Span) (t : UserType)
    (hargs : ∀ a ∈ t.args, a.node.Written n ∧ Throughout ok a.node) (hnext : headKind is ≠ .leftAngle)
    (hmember : ¬(headKind is = .dot ∧ headKind is.tail = .identifier)) {f : Located Ty → Parser (Located Ty)}
    {u : Located Ty} (hf : ∀ t', SameShape t'.node (.user t) → Takes d (f t') is js u) :
    Takes d (do f (← located start (.user (← userType type)))) (t.spelling [] ++ is) js u := by
  refine (takes_userType hr h t hargs hnext hmember).bind fun t' ht => ?_
  have hlocated : Takes d (located start (Ty.user t')) is is ⟨.user t, start⟩ :=
    takes_located (congrArg Ty.user ht)
  exact hlocated.bind fun x hx => hf x hx.node

theorem takes_namedType_user (start : Span) (t : UserType) (span : Span)
    (hargs : ∀ a ∈ t.args, a.node.Written n ∧ Throughout ok a.node) (hnext : headKind is ≠ .leftAngle)
    (hdot : headKind is ≠ .dot) :
    Takes d (namedType type start) (t.spelling [] ++ is) is ⟨.user t, span⟩ := by
  refine takes_located_userType hr h start t hargs hnext (fun hm => hdot hm.1) fun t' ht => ?_
  exact .nextAre_bind (decide_eq_false fun hm => hdot hm.1) (takes_pure (SameShape.located ht))

theorem takes_namedType_function (start : Span) {receiver : Located Ty} {user : UserType}
    (huser : receiver.node = .user user) (hargs : ∀ a ∈ user.args, a.node.Written n ∧ Throughout ok a.node)
    {params : List (Option String × Located Ty)} {result : Located Ty} {span : Span}
    (hparams : ∀ p ∈ params, p.2.node.Written n ∧ Throughout ok p.2.node)
    (hresult : result.node.Written n ∧ Throughout ok result.node) (hrest : EndsType rest) :
    Takes d (namedType type start)
      (user.spelling [] ++ (.dot, ".") ::
        (functionItems [] none (params.map fun p => paramItems [] p.1 (p.2.node.spelling []))
          (result.node.spelling []) ++ rest)) rest ⟨.function (some receiver) params result, span⟩ := by
  refine takes_located_userType hr h start user hargs (by nofun) (by nofun) fun receiver' hsame => ?_
  have hreceiver : SameShape receiver' receiver := SameShape.located (huser ▸ hsame)
  refine .nextAre_bind (decide_eq_true ⟨rfl, rfl⟩) (.expect_bind ?_)
  exact takes_functionType hr h hreceiver.some hparams hresult hrest

end

-- ---------------------------------------------------------------------------
-- Marks
-- ---------------------------------------------------------------------------

theorem SameShape.isMarked {t u : Ty} (h : SameShape t u) : t.isMarked = u.isMarked :=
  (isMarked_mapSpans noSpan t).symm.trans ((congrArg Ty.isMarked h).trans (isMarked_mapSpans noSpan u))

/-- What reads the marks behind a type is told the type, and where it begins. -/
abbrev Tail := Span → Located Ty → Parser (Located Ty)

/-- Behind the type the tail goes on to this answer. -/
def Resumes (resume : Tail) (d : Nat) (is js : List Item) (a : Located Ty) (t : Ty) : Prop :=
  ∀ start t', SameShape t'.node t → Takes d (resume start t') is js a

structure Marking (ok : Ty → Prop) (tail : Tail) where
  resume : Tail
  moves : ∀ start t, Moves (tail start t)
  plain : ∀ start t, t.node.isMarked = false → tail start t = resume start t
  apart : ∀ m t, ok (Mark.on m t) → (m.on t).marksFunction = false
  goes : ∀ {d is js a} (m : Mark) (t : Located Ty), ok (m.on t) → Resumes resume d is js a (m.on t) →
    Resumes resume d (m.item :: is) js a t.node
  stops : ∀ {d is} (t : Located Ty), EndsType is → Resumes resume d is is t t.node

def Follows : Ty → List Item → Prop
  | .function _ _ _, is => EndsType is
  | _, is => EndsType is ∨ headKind is = .question ∨ headKind is = .times

theorem follows_of_ends (t : Ty) (h : EndsType is) : Follows t is := by
  cases t with
  | function => exact h
  | user | nullable | pointer => exact .inl h

theorem follows_mark {m : Mark} {t : Located Ty} (h : (m.on t).marksFunction = false) :
    Follows t.node (m.item :: is) := by
  rcases t with ⟨t, span⟩
  cases t with
  | function => cases m <;> cases h
  | user | nullable | pointer => cases m <;> simp [Follows, Mark.item]

theorem Follows.ne {t : UserType} {kind : TokenKind} (h : Follows (.user t) is)
    (hk : kind ≠ .comma ∧ kind ≠ .rightParen ∧ kind ≠ .rightAngle ∧ kind ≠ .eof)
    (hm : kind ≠ .question ∧ kind ≠ .times) : headKind is ≠ kind := by
  rcases h with hends | hmark | hmark
  · exact hends.ne hk
  · exact hmark ▸ hm.1.symm
  · exact hmark ▸ hm.2.symm

section
variable {type : Parser (Located Ty)} (hr : Reads type) (h : TakesTypes ok d type n)
include hr h

theorem takes_plainType_user (start : Span) (t : UserType) (span : Span)
    (hargs : ∀ a ∈ t.args, a.node.Written n ∧ Throughout ok a.node) (hnext : headKind is ≠ .leftAngle)
    (hdot : headKind is ≠ .dot) :
    Takes d (plainType type start) (t.spelling [] ++ is) is ⟨.user t, span⟩ := by
  refine .peek_bind ?_
  rw [headKind_userSpelling]
  exact takes_namedType_user hr h start t span hargs hnext hdot

theorem takes_plainType_function (start : Span) {receiver : Option (Located Ty)}
    {params : List (Option String × Located Ty)} {result : Located Ty} (span : Span)
    (hreceiver : ∀ r ∈ receiver, ∃ user, r.node = .user user ∧
      ∀ a ∈ user.args, a.node.Written n ∧ Throughout ok a.node)
    (hparams : ∀ p ∈ params, p.2.node.Written n ∧ Throughout ok p.2.node)
    (hresult : result.node.Written n ∧ Throughout ok result.node) (hrest : EndsType rest) :
    Takes d (plainType type start) ((Ty.function receiver params result).spelling [] ++ rest) rest
      ⟨.function receiver params result, span⟩ := by
  rw [spelling_function]
  refine .peek_bind ?_
  cases receiver with
  | none => exact takes_functionType hr h (.refl none) hparams hresult hrest
  | some r =>
    obtain ⟨user, huser, hargs⟩ := hreceiver r rfl
    have hspelling : r.node.spelling [] = user.spelling [] := congrArg (Ty.spelling []) huser
    rw [Option.map_some, functionItems_some, List.append_assoc, hspelling, headKind_userSpelling]
    exact takes_namedType_function hr h start huser hargs hparams hresult hrest

variable {tail : Tail} (m : Marking ok tail) {a : Located Ty}

theorem takes_marked {t : Ty} (hw : t.Written (n + 1)) (hok : Throughout ok t) (hfollows : Follows t is)
    (hresume : Resumes m.resume d is js a t) (start : Span) :
    Takes d (plainType type start >>= tail start) (t.spelling [] ++ is) js a := by
  have hplain {t : Ty} {is : List Item}
      (hp : Takes d (plainType type start) (t.spelling [] ++ is) is ⟨t, start⟩)
      (ht : t.isMarked = false) (hresume : Resumes m.resume d is js a t) :
      Takes d (plainType type start >>= tail start) (t.spelling [] ++ is) js a := by
    refine hp.bind fun t' hsame => ?_
    rw [m.plain start t' (hsame.node.isMarked.trans ht)]
    exact hresume start t' hsame.node
  have hmark (mark : Mark) {t : Located Ty} (hok : ok (mark.on t)) {is : List Item}
      (hresume : Resumes m.resume d is js a (mark.on t))
      (ih : Follows t.node (mark.item :: is) → Resumes m.resume d (mark.item :: is) js a t.node →
        Takes d (plainType type start >>= tail start) (t.node.spelling [] ++ mark.item :: is) js a) :
      Takes d (plainType type start >>= tail start) ((mark.on t).spelling [] ++ is) js a := by
    rw [mark.spelling_on, List.append_assoc]
    exact ih (follows_mark (m.apart mark t hok)) (m.goes mark t hok hresume)
  induction t using Ty.parts generalizing is with
  | user t =>
    have hargs : ∀ a ∈ t.args, a.node.Written n ∧ Throughout ok a.node := by
      cases hw with
      | user _ hargs => exact fun a ha => ⟨hargs a ha, (throughout_user.mp hok).2 a ha⟩
    have hangle : headKind is ≠ .leftAngle := hfollows.ne (by decide) (by decide)
    have hdot : headKind is ≠ .dot := hfollows.ne (by decide) (by decide)
    exact hplain (takes_plainType_user hr h start t start hargs hangle hdot) rfl hresume
  | nullable t ih =>
    obtain ⟨hok, hinner⟩ := throughout_nullable.mp hok
    cases hw with
    | nullable hw => exact hmark .question hok hresume (ih hw hinner)
  | pointer t ih =>
    obtain ⟨hok, hinner⟩ := throughout_pointer.mp hok
    cases hw with
    | pointer hw => exact hmark .star hok hresume (ih hw hinner)
  | function receiver params result =>
    obtain ⟨-, hreceiver, hparams, hresult⟩ := throughout_function.mp hok
    cases hw with
    | function huser hr' _ hp ht =>
      refine hplain (takes_plainType_function hr h start start (fun r hmem => ?_)
        (fun p hmem => ⟨hp p hmem, hparams p hmem⟩) ⟨ht, hresult⟩ hfollows) rfl hresume
      obtain ⟨user, hnode⟩ := huser r hmem
      have hwritten := hr' r hmem
      have hthrough := hreceiver r hmem
      rw [hnode] at hwritten hthrough
      cases hwritten with
      | user _ hargs => exact ⟨user, hnode, fun a ha => ⟨hargs a ha, (throughout_user.mp hthrough).2 a ha⟩⟩

end

-- ---------------------------------------------------------------------------
-- The rule for types
-- ---------------------------------------------------------------------------

/-- The rule for types, with another rule for the marks behind a type. -/
def typeWith (tail : Tail) (limit : Nat) : (levels : Nat) → Parser (Located Ty)
  | 0 => do fail .nestingTooDeep (← here)
  | levels + 1 => deeper limit do
    let start ← here
    let plain ← plainType (typeWith tail limit levels) start
    tail start plain

theorem reads_typeWith {tail : Tail} (hm : ∀ start t, Moves (tail start t)) (limit levels : Nat) :
    Reads (typeWith tail limit levels) := by
  induction levels with
  | zero => exact moves_here.bind_reads fun _ => reads_fail rfl
  | succ levels ih =>
    exact .deeper limit (moves_here.bind_reads fun start => (reads_plainType ih start).bind fun t => hm start t)

/-- As many levels are needed as nest in the type. -/
theorem takes_typeWith {tail : Tail} (m : Marking ok tail) (limit : Nat) {levels : Nat}
    (hlimit : d + levels ≤ limit) : TakesTypes ok d (typeWith tail limit levels) levels := by
  induction levels generalizing d with
  | zero => exact fun t rest hw => absurd hw.pos (Nat.lt_irrefl 0)
  | succ levels ih =>
    intro t rest hw hok hrest
    refine .deeper (by omega) (.here_bind fun start => ?_)
    exact takes_marked (reads_typeWith m.moves _ _) (ih (by omega)) m hw hok (follows_of_ends t.node hrest)
      (m.stops t hrest) start

-- ---------------------------------------------------------------------------
-- Two ways to take marks
-- ---------------------------------------------------------------------------

theorem SameShape.on {t u : Located Ty} (m : Mark) (h : SameShape t.node u.node) :
    SameShape (m.on t) (m.on u) := by
  cases m with
  | question => exact congrArg Ty.nullable h.located
  | star => exact congrArg Ty.pointer h.located

theorem takes_located_mark (m : Mark) (start : Span) (t : Located Ty) :
    Takes d (located start (m.on t)) is is ⟨m.on t, start⟩ := takes_located (.refl _)

theorem takes_pointerRound_star (start : Span) (t : Located Ty) :
    Takes d (pointerRound start t) (Mark.star.item :: is) is (.yield ⟨Mark.star.on t, start⟩) :=
  .accept_bind ((takes_located_mark .star start t).bind fun _ h => takes_pure h.yield)

theorem takes_pointerRound_done (start : Span) (t : Located Ty) (h : headKind is ≠ .times) :
    Takes d (pointerRound start t) is is (.done t) :=
  .accept_no_bind h (takes_pure (.refl _))

def strictTail : Tail := fun start plain => do pointers start (← nullable start plain)

theorem typeRule_eq (limit levels : Nat) : typeRule limit levels = typeWith strictTail limit levels := by
  induction levels with
  | zero => rfl
  | succ levels ih =>
    rw [typeRule, ih]
    rfl

def strictResume : Tail := fun start t => if t.node.isMarked then pointers start t else strictTail start t

theorem strictResume_marked {start : Span} {t : Located Ty} (h : t.node.isMarked = true) :
    strictResume start t = pointers start t := if_pos h

theorem strictResume_plain {start : Span} {t : Located Ty} (h : t.node.isMarked = false) :
    strictResume start t = strictTail start t := if_neg (Bool.eq_false_iff.mp h)

theorem takes_strictResume_question {start : Span} {t a : Located Ty} (ht : t.node.isMarked = false)
    (h : ∀ t', SameShape t'.node (.nullable t) → Takes d (strictResume start t') is js a) :
    Takes d (strictResume start t) (Mark.question.item :: is) js a := by
  have hnullable : Takes d (nullable start t) (Mark.question.item :: is) is ⟨Mark.question.on t, start⟩ :=
    .accept_bind (takes_located_mark .question start t)
  rw [strictResume_plain ht]
  refine hnullable.bind fun t' hsame => ?_
  exact strictResume_marked hsame.node.isMarked ▸ h t' hsame.node

theorem takes_strictResume {start : Span} {t a : Located Ty} (hnext : headKind is ≠ .question)
    (h : ∀ t', SameShape t'.node t.node → Takes d (pointers start t') is js a) :
    Takes d (strictResume start t) is js a := by
  unfold strictResume
  split
  · exact h t (.refl _)
  · have hnullable : Takes d (nullable start t) is is t := .accept_no_bind hnext (takes_pure (.refl _))
    exact hnullable.bind fun t' hsame => h t' hsame.node

def plainMarking : Marking (fun t => t.isPlain = true) strictTail where
  resume := strictResume
  moves start t := (moves_nullable start t).bind (moves_pointers start)
  plain _ _ h := (strictResume_plain h).symm
  apart m t h := by
    rcases t with ⟨_ | _ | _ | _, _⟩ <;> cases m <;> first | rfl | cases h
  goes m t hok hresume start t' ht := by
    cases m with
    | question =>
      have hmarked : t.node.isMarked = false := by
        rcases t with ⟨_ | _ | _ | _, _⟩ <;> first | rfl | cases hok
      exact takes_strictResume_question (ht.isMarked.trans hmarked) fun u hu =>
        hresume start u (hu.trans (ht.on .question))
    | star =>
      refine takes_strictResume nofun fun u hu => ?_
      refine .iterate_yield (rounds_pointerRound start) (takes_pointerRound_star start u) fun v hv => ?_
      have hpointers := hresume start v (hv.node.trans ((hu.trans ht).on .star))
      rwa [strictResume_marked hv.node.isMarked] at hpointers
  stops t hrest start t' ht := by
    refine takes_strictResume (hrest.ne (by decide)) fun u hu => ?_
    refine .trans (.iterate_done (rounds_pointerRound start) ?_) (hu.trans ht).located
    exact takes_pointerRound_done start u (hrest.ne (by decide))

def looseRound (start : Span) (inner : Located Ty) : Parser (ForInStep (Located Ty)) := do
  if ← accept .question then return .yield (← located start (.nullable inner)) else pointerRound start inner

def looseTail : Tail := fun start => iterate (looseRound start)

theorem rounds_looseRound (start : Span) : Rounds (looseRound start) := by
  intro inner
  refine (reads_accept (by decide)).bind
    (fun _ => .ite ?_ (rounds_pointerRound start inner).toMoves) fun _ h => ?_
  · exact (moves_located _ _).bind fun _ => moves_pure _
  · rw [if_neg h]
    exact rounds_pointerRound start inner

theorem takes_looseRound_mark (m : Mark) (start : Span) (t : Located Ty) :
    Takes d (looseRound start t) (m.item :: is) is (.yield ⟨m.on t, start⟩) := by
  cases m with
  | question => exact .accept_bind ((takes_located_mark .question start t).bind fun _ h => takes_pure h.yield)
  | star => exact .accept_no_bind nofun (takes_pointerRound_star start t)

def unmarkedMarking : Marking (fun t => t.marksFunction = false) looseTail where
  resume := looseTail
  moves start t := (rounds_looseRound start).moves t
  plain _ _ _ := rfl
  apart _ _ h := h
  goes m t _ hresume start t' ht :=
    .iterate_yield (rounds_looseRound start) (takes_looseRound_mark m start t') fun u hu =>
      hresume start u (hu.node.trans (ht.on m))
  stops t hrest start t' ht := by
    refine .trans (.iterate_done (rounds_looseRound start) ?_) ht.located
    exact .accept_no_bind (hrest.ne (by decide)) (takes_pointerRound_done start t' (hrest.ne (by decide)))

end Linewise.Parser
