import Mathlib.Data.List.Induction
import Mathlib.Order.Bounds.Basic
import Linewise.Proofs.Lexing.Lossless
import Linewise.Proofs.Streams

/-!
# What pushes leave

A stream is made by pushes, one behind the other, and each of them leaves the tokens in front of it as they
are. So a token follows from its own push and from the texts pushed before it: `get?_ofPushes`. Its point is
kept up to date push by push, which is right unless the two characters of one line break are pushed apart.
-/

namespace Linewise

/-- A call that appends a token, on the channel of its kind or on one of the caller's choice. -/
inductive Push where
  | push (kind : TokenKind) (text : String)
  | pushTo (channel : Channel) (kind : TokenKind) (text : String)
deriving DecidableEq

namespace Push

def kind : Push → TokenKind
  | push kind _ => kind
  | pushTo _ kind _ => kind

def channel : Push → Channel
  | push kind _ => kind.channel
  | pushTo channel _ _ => channel

def text : Push → String
  | push _ text => text
  | pushTo _ _ text => text

def ofToken (t : Token) : Push := .pushTo t.channel t.kind t.text

def written (ps : List Push) : String := String.join (ps.map text)

/-- A text that ends in a carriage return stands in front of one that begins with a line feed, and only empty
texts stand between the two. -/
def SplitsBreak (ps : List Push) : Prop :=
  ∃ pre first empty second post, ps = pre ++ first :: empty ++ second :: post ∧
    first.text.toList.getLast? = some '\r' ∧ (∀ p ∈ empty, p.text = "") ∧ second.text.toList.head? = some '\n'

theorem SplitsBreak.append {ps : List Push} (h : SplitsBreak ps) (qs : List Push) : SplitsBreak (ps ++ qs) := by
  obtain ⟨pre, first, empty, second, post, rfl, hsplit⟩ := h
  exact ⟨pre, first, empty, second, post ++ qs, by simp, hsplit⟩

end Push

namespace TokenStream

def apply (s : TokenStream) : Push → TokenStream
  | .push kind text => s.push kind text
  | .pushTo channel kind text => s.pushTo channel kind text

/-- What pushes make of the empty stream, one after the other. -/
def ofPushes (ps : List Push) : TokenStream := ps.foldl apply .empty

def visibleFrom (s : TokenStream) (start : Nat) : Set Nat :=
  {i | start ≤ i ∧ ∃ t, s.get? i = some t ∧ t.channel = .visible}

variable {s : TokenStream} {t : Token} {ps qs : List Push} {p : Push} {i start : Nat}

-- ---------------------------------------------------------------------------
-- One push
-- ---------------------------------------------------------------------------

theorem apply_eq (s : TokenStream) (p : Push) : s.apply p = s.pushTo p.channel p.kind p.text := by
  cases p <;> rfl

theorem ofPushes_concat (ps : List Push) (p : Push) :
    ofPushes (ps ++ [p]) = (ofPushes ps).pushTo p.channel p.kind p.text := by
  rw [ofPushes, List.foldl_append, ← apply_eq]
  rfl

theorem written_concat (ps : List Push) (p : Push) : Push.written (ps ++ [p]) = Push.written ps ++ p.text := by
  simp [Push.written]

-- ---------------------------------------------------------------------------
-- Histories
-- ---------------------------------------------------------------------------

theorem built_ofPushes (ps : List Push) : (ofPushes ps).Built := by
  induction ps using List.reverseRecOn with
  | nil => exact .empty
  | append_singleton ps p ih => exact ofPushes_concat ps p ▸ ih.pushTo _ _ _

theorem Built.eq_ofPushes (h : s.Built) : s = ofPushes (s.tokens.toList.map Push.ofToken) := by
  induction h with
  | empty => rfl
  | @pushTo s _ channel kind text ih =>
    rw [tokens_pushTo, Array.toList_push, List.map_append, List.map_singleton, ofPushes_concat, ← ih]
    rfl

theorem offset_ofPushes (ps : List Push) : (ofPushes ps).offset = (Push.written ps).utf8ByteSize := by
  induction ps using List.reverseRecOn with
  | nil => rfl
  | append_singleton ps p ih =>
    rw [ofPushes_concat, offset_pushTo, ih, written_concat, String.utf8ByteSize_append]

theorem items_ofPushes (ps : List Push) :
    (ofPushes ps).tokens.toList.map (fun t => (t.kind, t.channel, t.text)) =
      ps.map fun p => (p.kind, p.channel, p.text) := by
  induction ps using List.reverseRecOn with
  | nil => rfl
  | append_singleton ps p ih =>
    rw [ofPushes_concat, tokens_pushTo, Array.toList_push, List.map_append, ih, List.map_append]
    rfl

theorem size_ofPushes (ps : List Push) : (ofPushes ps).size = ps.length := by
  simpa [size] using congrArg List.length (items_ofPushes ps)

theorem text_ofPushes (ps : List Push) : (ofPushes ps).text = Push.written ps := by
  have htexts := congrArg (List.map fun item => item.2.2) (items_ofPushes ps)
  rw [List.map_map, List.map_map] at htexts
  exact congrArg String.join htexts

theorem get?_ofPushes (ps : List Push) (i : Nat) :
    (ofPushes ps).get? i = ps[i]?.map fun p => (ofPushes (ps.take i)).pushed p.channel p.kind p.text := by
  induction ps using List.reverseRecOn with
  | nil => rfl
  | append_singleton ps p ih =>
    rw [ofPushes_concat]
    rcases Nat.lt_trichotomy i ps.length with hlt | rfl | hgt
    · rw [get?_pushTo_of_lt (size_ofPushes ps ▸ hlt), ih, List.getElem?_append_left hlt,
        List.take_append_of_le_length (Nat.le_of_lt hlt)]
    · have hlast := get?_pushTo_size (ofPushes ps) p.channel p.kind p.text
      rw [size_ofPushes] at hlast
      rw [hlast, List.getElem?_concat_length, List.take_left, Option.map_some, pushed, size_ofPushes]
    · have hsize : ((ofPushes ps).pushTo p.channel p.kind p.text).size = ps.length + 1 := by
        rw [size_pushTo, size_ofPushes]
      have hnone : (ps ++ [p])[i]? = none := List.getElem?_eq_none (by rw [List.length_append]; exact hgt)
      rw [hnone, get?, Array.getElem?_eq_none (by rw [← size, hsize]; exact hgt)]
      rfl

theorem get?_ofPushes_append (qs : List Push) (h : i < ps.length) :
    (ofPushes (ps ++ qs)).get? i = (ofPushes ps).get? i := by
  rw [get?_ofPushes, get?_ofPushes, List.getElem?_append_left h, List.take_append_of_le_length (Nat.le_of_lt h)]

-- ---------------------------------------------------------------------------
-- Places
-- ---------------------------------------------------------------------------

theorem tiles_concat {lo hi : Nat} {spans : List Span} {span : Span} (h : Tiles lo spans hi)
    (hspan : span.start = hi) : Tiles lo (spans ++ [span]) span.stop := by
  induction spans generalizing lo with
  | nil => exact ⟨hspan.trans h.symm, rfl⟩
  | cons first spans ih => exact ⟨h.1, ih h.2⟩

theorem Built.tiles (h : s.Built) : Tiles 0 (s.tokens.toList.map Token.span) s.offset := by
  induction h with
  | empty => rfl
  | pushTo _ channel kind text ih =>
    rw [tokens_pushTo, Array.toList_push, List.map_append]
    exact tiles_concat ih rfl

theorem Built.span_stop (h : s.Built) (ht : t ∈ s.tokens.toList) :
    t.span.stop = t.span.start + t.text.utf8ByteSize := by
  induction h with
  | empty => simp [TokenStream.empty] at ht
  | @pushTo s _ channel kind text ih =>
    rw [tokens_pushTo, Array.toList_push, List.mem_append, List.mem_singleton] at ht
    rcases ht with ht | rfl
    · exact ih ht
    · rfl

theorem getLast?_written {c : Char} (h : (Push.written ps).toList.getLast? = some c) :
    ∃ pre first empty, ps = pre ++ first :: empty ∧ first.text.toList.getLast? = some c ∧
      ∀ p ∈ empty, p.text = "" := by
  induction ps using List.reverseRecOn with
  | nil => cases h
  | append_singleton ps p ih =>
    rw [written_concat, String.toList_append, List.getLast?_append] at h
    cases hlast : p.text.toList.getLast? with
    | some d =>
      rw [hlast] at h
      exact ⟨ps, p, [], rfl, hlast.trans h, nofun⟩
    | none =>
      rw [hlast] at h
      obtain ⟨pre, first, empty, rfl, hfirst, hempty⟩ := ih h
      have hnone : p.text = "" := by simpa using hlast
      refine ⟨pre, first, empty ++ [p], by simp, hfirst, fun q hq => ?_⟩
      rcases List.mem_append.mp hq with hq | hq
      · exact hempty q hq
      · rwa [List.mem_singleton.mp hq]

theorem point_ofPushes (h : ¬Push.SplitsBreak ps) : (ofPushes ps).point = .behind (Push.written ps).toList := by
  induction ps using List.reverseRecOn with
  | nil => rfl
  | append_singleton ps p ih =>
    have hfront : ¬Push.SplitsBreak ps := fun hsplit => h (hsplit.append [p])
    have hwhole : (Push.written ps).toList.getLast? = some '\r' → p.text.toList.head? ≠ some '\n' := by
      intro hlast hhead
      obtain ⟨pre, first, empty, rfl, hfirst, hempty⟩ := getLast?_written hlast
      exact h ⟨pre, first, empty, p, [], by simp, hfirst, hempty, hhead⟩
    rw [ofPushes_concat, written_concat, String.toList_append, ← Point.origin_advance,
      Point.advance_append hwhole, Point.origin_advance, ← ih hfront]
    rfl

theorem start_ofPushes (h : ¬Push.SplitsBreak ps) (ht : (ofPushes ps).get? i = some t) :
    t.start = .behind (Push.written (ps.take i)).toList := by
  have hfront : ¬Push.SplitsBreak (ps.take i) := fun hsplit =>
    h (List.take_append_drop i ps ▸ hsplit.append (ps.drop i))
  rw [get?_ofPushes] at ht
  obtain ⟨p, -, rfl⟩ := Option.map_eq_some_iff.mp ht
  exact point_ofPushes hfront

-- ---------------------------------------------------------------------------
-- Visible tokens
-- ---------------------------------------------------------------------------

theorem Built.index_eq (h : s.Built) (ht : s.get? i = some t) : t.index = i := by
  rw [h.eq_ofPushes, get?_ofPushes] at ht
  obtain ⟨p, hp, rfl⟩ := Option.map_eq_some_iff.mp ht
  obtain ⟨hlt, -⟩ := List.getElem?_eq_some_iff.mp hp
  rw [pushed, size_ofPushes, List.length_take_of_le (Nat.le_of_lt hlt)]

theorem Built.get?_index (h : s.Built) (ht : t ∈ s.tokens.toList) : s.get? t.index = some t := by
  obtain ⟨i, hi⟩ := List.getElem?_of_mem ht
  have hget : s.get? i = some t := by rwa [get?, ← Array.getElem?_toList]
  rwa [h.index_eq hget]

theorem mem_visibleFrom {n : Nat} :
    start + n ∈ s.visibleFrom start ↔ ∃ t, (s.tokens.toList.drop start)[n]? = some t ∧ t.isVisible := by
  simp [visibleFrom, get?, Token.isVisible]

theorem isLeast_visibleFrom (h : s.Built) (hi : s.visibleFrom? start = some i) :
    IsLeast (s.visibleFrom start) i := by
  obtain ⟨t, ht, rfl⟩ := Option.map_eq_some_iff.mp hi
  obtain ⟨hvisible, n, hn, rfl, hbefore⟩ := List.find?_eq_some_iff_getElem.mp ht
  have hget : (s.tokens.toList.drop start)[n]? = some (s.tokens.toList.drop start)[n] :=
    List.getElem?_eq_getElem hn
  have hindex : ((s.tokens.toList.drop start)[n]).index = start + n := by
    refine h.index_eq ?_
    rw [← hget, List.getElem?_drop, Array.getElem?_toList, get?]
  rw [hindex]
  refine ⟨mem_visibleFrom.mpr ⟨_, hget, hvisible⟩, fun j hj => ?_⟩
  obtain ⟨m, rfl⟩ := Nat.exists_eq_add_of_le hj.1
  obtain ⟨u, hu, hvisible'⟩ := mem_visibleFrom.mp hj
  by_contra hlt
  obtain ⟨hm, rfl⟩ := List.getElem?_eq_some_iff.mp hu
  have hhidden := hbefore m (by omega)
  rw [hvisible'] at hhidden
  cases hhidden

theorem visibleFrom?_eq_none : s.visibleFrom? start = none ↔ s.visibleFrom start = ∅ := by
  rw [visibleFrom?, Option.map_eq_none_iff, List.find?_eq_none, Set.eq_empty_iff_forall_notMem]
  constructor
  · intro hnone i hi
    obtain ⟨n, rfl⟩ := Nat.exists_eq_add_of_le hi.1
    obtain ⟨t, ht, hvisible⟩ := mem_visibleFrom.mp hi
    exact hnone t (List.mem_of_getElem? ht) hvisible
  · intro hempty t ht hvisible
    obtain ⟨n, hn⟩ := List.getElem?_of_mem ht
    exact hempty (start + n) (mem_visibleFrom.mpr ⟨t, hn, hvisible⟩)

theorem visibleFrom?_eq_some_iff (h : s.Built) :
    s.visibleFrom? start = some i ↔ IsLeast (s.visibleFrom start) i := by
  refine ⟨isLeast_visibleFrom h, fun hi => ?_⟩
  cases hfound : s.visibleFrom? start with
  | none => exact absurd hi.1 (visibleFrom?_eq_none.mp hfound ▸ Set.notMem_empty i)
  | some j => rw [(isLeast_visibleFrom h hfound).unique hi]

-- ---------------------------------------------------------------------------
-- Every history
-- ---------------------------------------------------------------------------

/-- The stream is what pushes make: its tokens are theirs and know their place, the spans lie one behind the
other from zero on, the source is what is pushed, and the next visible token is the least one. -/
structure Records (s : TokenStream) (ps : List Push) : Prop where
  items : s.tokens.toList.map (fun t => (t.kind, t.channel, t.text)) =
    ps.map fun p => (p.kind, p.channel, p.text)
  index : ∀ i t, s.get? i = some t → t.index = i
  tiles : Tiles 0 (s.tokens.toList.map Token.span) s.offset
  sizes : ∀ t ∈ s.tokens.toList, t.span.stop = t.span.start + t.text.utf8ByteSize
  text : s.text = Push.written ps
  offset : s.offset = (Push.written ps).utf8ByteSize
  next : ∀ start i, s.visibleFrom? start = some i ↔ IsLeast (s.visibleFrom start) i
  noNext : ∀ start, s.visibleFrom? start = none ↔ s.visibleFrom start = ∅

/-- Any pushes are recorded, and later ones leave their tokens as they are. The point of a token is that of one
pass over the source in front of it, if no line break is pushed in two parts. -/
theorem stream_of_pushes (ps : List Push) :
    (ofPushes ps).Records ps ∧
      (∀ qs i, i < ps.length → (ofPushes (ps ++ qs)).get? i = (ofPushes ps).get? i) ∧
      (¬Push.SplitsBreak ps → ∀ i t, (ofPushes ps).get? i = some t →
        t.start = .behind (Push.written (ps.take i)).toList) := by
  have hbuilt := built_ofPushes ps
  have hrecords : (ofPushes ps).Records ps :=
    { items := items_ofPushes ps
      index := fun _ _ => hbuilt.index_eq
      tiles := hbuilt.tiles
      sizes := fun _ => hbuilt.span_stop
      text := text_ofPushes ps
      offset := offset_ofPushes ps
      next := fun _ _ => visibleFrom?_eq_some_iff hbuilt
      noNext := fun _ => visibleFrom?_eq_none }
  exact ⟨hrecords, fun qs _ => get?_ofPushes_append qs, fun hsplit _ _ => start_ofPushes hsplit⟩

theorem stream_of_pushes_lineBreak :
    let ps := [.push .identifier "é", .pushTo .hidden .plus "\r", .push .whitespace "",
      .pushTo .visible .whitespace "x\n"]
    ¬Push.SplitsBreak ps ∧ (ofPushes ps).visibleFrom? 1 = some 3 ∧ IsLeast ((ofPushes ps).visibleFrom 1) 3 ∧
      ((ofPushes ps).get? 3).map Token.start = some ⟨2, 1⟩ ∧
      ∀ t, (ofPushes ps).get? 3 = some t → t.start = .behind "é\r".toList := by
  intro ps
  have hsplit : ¬Push.SplitsBreak ps := by
    rintro ⟨pre, first, empty, second, post, hps, -, -, hsecond⟩
    have hnone : ∀ p ∈ ps, p.text.toList.head? ≠ some '\n' := by decide
    exact hnone second (by rw [hps]; simp) hsecond
  have hnext : (ofPushes ps).visibleFrom? 1 = some 3 := by decide
  obtain ⟨hrecords, -, hstart⟩ := stream_of_pushes ps
  exact ⟨hsplit, hnext, (hrecords.next 1 3).mp hnext, by decide, hstart hsplit 3⟩

/-- A line break that is pushed in two parts is counted twice. -/
example : (ofPushes [.push .lineBreak "\r", .push .lineBreak "\n"]).point = ⟨3, 1⟩ ∧
    Point.behind "\r\n".toList = ⟨2, 1⟩ := by decide

end TokenStream

end Linewise
