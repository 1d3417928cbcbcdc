import Linewise.Parser.Grammar
import Linewise.Proofs.Streams

/-!
# The end of input

A stream may or may not end in a token of kind `eof`. Where it does not, the grammar ends behind the last
token, and sees there what it would see of such a token.
-/

namespace Linewise

variable {tags : LayoutTags TokenKind Channel} {s : TokenStream} {t : Token} {n : Nat}

-- ---------------------------------------------------------------------------
-- Tokens behind a position
-- ---------------------------------------------------------------------------

namespace LayoutTags

variable {tokens : Array Token}

theorem walkBack_push (u : Token) (hn : n ≤ tokens.size) :
    tags.walkBack (tokens.push u) n = tags.walkBack tokens n := by
  induction n with
  | zero => rfl
  | succ n ih =>
    have hget : (tokens.push u)[n]? = tokens[n]? := by
      rw [Array.getElem?_push, if_neg (by omega)]
    rw [walkBack, walkBack, hget, ih (Nat.le_of_succ_le hn)]

theorem preceding_push (u : Token) (hn : n ≤ tokens.size) :
    tags.preceding (tokens.push u) n = tags.preceding tokens n := by
  rw [preceding, preceding, Array.size_push, Nat.min_eq_left (Nat.le_succ_of_le hn), Nat.min_eq_left hn]
  exact walkBack_push u hn

theorem closes_push (u : Token) (hn : n < tokens.size) :
    tags.closes (tokens.push u) n = tags.closes tokens n := by
  rw [closes, closes, Array.getElem?_push, if_neg (Nat.ne_of_lt hn)]

end LayoutTags

namespace TokenStream

variable {channel : Channel} {kind : TokenKind} {text : String}

theorem terminal_pushTo (ht : t.index < s.size) :
    (s.pushTo channel kind text).terminal tags t = s.terminal tags t := by
  let u := s.pushed channel kind text
  have hpreceding : tags.preceding (s.tokens.push u) t.index = tags.preceding s.tokens t.index :=
    LayoutTags.preceding_push u (Nat.le_of_lt ht)
  have hcloses : tags.closes (s.tokens.push u) t.index = tags.closes s.tokens t.index :=
    LayoutTags.closes_push u ht
  rw [terminal, terminal, LayoutTags.endsStatement, LayoutTags.endsStatement, tokens_pushTo, hpreceding,
    hcloses]

theorem visible_push_eof (s : TokenStream) :
    (s.push .eof "").visible = s.visible ++ [s.pushed .visible .eof ""] := by
  rw [push, visible, tokens_pushTo, Array.toList_push, List.filter_append]
  rfl

theorem terminals_push_eof (hs : s.Built) : (s.push .eof "").terminals tags = s.terminals tags := by
  have hread : (s.push .eof "").visible.takeWhile (fun t => t.kind != .eof) =
      s.visible.takeWhile fun t => t.kind != .eof := by
    rw [visible_push_eof, List.takeWhile_append]
    split
    · rename_i hall
      rw [(List.takeWhile_prefix _).eq_of_length hall]
      exact List.append_nil _
    · rfl
  rw [terminals, terminals, hread]
  refine List.map_congr_left fun t ht => terminal_pushTo (hs.index_lt ?_)
  exact (List.mem_filter.mp ((List.takeWhile_prefix _).subset ht)).1

theorem finish_push_eof (s : TokenStream) : (s.push .eof "").finish = s.finish := by
  rw [finish, finish, visible_push_eof, List.find?_append]
  cases s.visible.find? fun t => t.kind == .eof with
  | some t => rfl
  | none => rfl

end TokenStream

-- ---------------------------------------------------------------------------
-- Parsing without an end token
-- ---------------------------------------------------------------------------

theorem Parser.start_push_eof (hs : s.Built) (tags : LayoutTags TokenKind Channel) :
    State.start (s.push .eof "") tags = .start s tags := by
  rw [State.start, State.start, TokenStream.terminals_push_eof hs, TokenStream.finish_push_eof]

/-- A stream has the same tree, or the same faults in the same places, with one more token of kind `eof` at
its end as without it. -/
theorem parse_push_eof (hs : s.Built) (tags : LayoutTags TokenKind Channel) :
    parse tags (s.push .eof "") = parse tags s := by
  rw [parse, parse, parseWithin, parseWithin, Parser.start_push_eof hs]

/-- A property without a value, in a stream that just stops behind a comment: the fault is at the end of the
stream either way. -/
theorem parse_push_eof_comment :
    ∃ s : TokenStream, s.Built ∧ (∀ t ∈ s.tokens, t.kind ≠ .eof) ∧
      parse (.standard .reject) s = .error [⟨.expected .expression .eof, ⟨11, 11⟩⟩] ∧
      parse (.standard .reject) (s.push .eof "") = parse (.standard .reject) s := by
  refine ⟨.ofList [(.keyword .valWord, "val"), (.whitespace, " "), (.identifier, "x"), (.assign, "="),
    (.lineComment, "// y"), (.whitespace, " ")], TokenStream.built_ofList _, by decide, rfl, ?_⟩
  exact parse_push_eof (TokenStream.built_ofList _) _

end Linewise
