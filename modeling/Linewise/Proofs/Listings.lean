import Mathlib.Data.List.Nodup
import Linewise.Listing
import Linewise.Proofs.Pushes
import Linewise.Proofs.Quotes

/-!
# Listings tell streams apart

No name of a kind or of a channel has a blank in it, so a line of a listing falls apart into its four parts,
and a listing into its lines, as no line has a line feed in it. With kinds, channels and texts the whole
stream is known: places follow from the texts.
-/

namespace Linewise

-- ---------------------------------------------------------------------------
-- Names
-- ---------------------------------------------------------------------------

namespace TokenKind

def all : List TokenKind :=
  [whitespace, lineBreak, lineComment, blockComment, identifier, integer, string, leftParen, rightParen,
    leftCurl, rightCurl, leftSquare, rightSquare, comma, dot, colon, semicolon, hash, question, atSign, arrow,
    assign, equals, notEquals, leftAngle, rightAngle, lessEqual, greaterEqual, plus, minus, times, divide,
    eof] ++ Keyword.all.map keyword

theorem mem_all (k : TokenKind) : k ∈ all := by
  cases k with
  | keyword word => exact List.mem_append_right _ (List.mem_map_of_mem (Keyword.mem_all word))
  | _ => decide

theorem nodup_names : (all.map name).Nodup := by decide

theorem name_inj {k l : TokenKind} (h : k.name = l.name) : k = l :=
  List.inj_on_of_nodup_map nodup_names (mem_all k) (mem_all l) h

theorem plain_name (k : TokenKind) : ' ' ∉ k.name.toList ∧ '\n' ∉ k.name.toList := by
  have hall : ∀ k ∈ all, ' ' ∉ k.name.toList ∧ '\n' ∉ k.name.toList := by decide
  exact hall k (mem_all k)

end TokenKind

namespace Channel

theorem display_inj {a b : Channel} (h : a.display = b.display) : a = b := by
  cases a <;> cases b <;> first | rfl | exact absurd h (by decide)

theorem plain_display (a : Channel) : ' ' ∉ a.display.toList ∧ '\n' ∉ a.display.toList := by
  cases a <;> decide

end Channel

-- ---------------------------------------------------------------------------
-- One line
-- ---------------------------------------------------------------------------

theorem plain_toDigits (n : Nat) : ' ' ∉ Nat.toDigits 10 n ∧ '\n' ∉ Nat.toDigits 10 n := by
  have hdigits : ∀ c ∈ Nat.toDigits 10 n, c.isDigit = true := fun c hc =>
    Nat.isDigit_of_mem_toDigits (by decide) (by decide) hc
  exact ⟨fun h => absurd (hdigits _ h) (by decide), fun h => absurd (hdigits _ h) (by decide)⟩

theorem toDigits_inj {m n : Nat} (h : Nat.toDigits 10 m = Nat.toDigits 10 n) : m = n := by
  calc
    m = Nat.ofDigitChars 10 (Nat.toDigits 10 m) 0 := Nat.ofDigitChars_ten_toDigits.symm
    _ = Nat.ofDigitChars 10 (Nat.toDigits 10 n) 0 := by rw [h]
    _ = n := Nat.ofDigitChars_ten_toDigits

theorem append_blank_inj {as bs cs ds : List Char} (has : ' ' ∉ as) (hbs : ' ' ∉ bs)
    (h : as ++ ' ' :: cs = bs ++ ' ' :: ds) : as = bs ∧ cs = ds := by
  have htake {as : List Char} (cs : List Char) (has : ' ' ∉ as) :
      (as ++ ' ' :: cs).takeWhile (· != ' ') = as := by
    have hall : ∀ c ∈ as, (c != ' ') = true := fun c hc => bne_iff_ne.mpr (ne_of_mem_of_not_mem hc has)
    exact (Lexeme.takeWhile_run hall rfl cs).1
  obtain rfl : as = bs := by rw [← htake cs has, h, htake ds hbs]
  exact ⟨rfl, (List.cons.inj (List.append_cancel_left h)).2⟩

namespace Token

variable {t u : Token}

theorem toList_listing (t : Token) : t.listing.toList =
    (Nat.toDigits 10 t.index ++ [':']) ++ ' ' :: (t.channel.display.toList ++ ' ' ::
      (t.kind.name.toList ++ ' ' :: (Text.quote t.text).toList)) := by
  simp [listing]

theorem lineFeed_notMem_listing (t : Token) : '\n' ∉ t.listing.toList := by
  rw [toList_listing]
  simp [(plain_toDigits t.index).2, t.channel.plain_display.2, t.kind.plain_name.2,
    Text.lineFeed_notMem_quote t.text]

theorem listing_inj (h : t.listing = u.listing) :
    t.index = u.index ∧ t.channel = u.channel ∧ t.kind = u.kind ∧ t.text = u.text := by
  have hindex (n : Nat) : ' ' ∉ Nat.toDigits 10 n ++ [':'] := by simp [(plain_toDigits n).1]
  have hlist := congrArg String.toList h
  rw [toList_listing, toList_listing] at hlist
  obtain ⟨hnumber, hlist⟩ := append_blank_inj (hindex t.index) (hindex u.index) hlist
  obtain ⟨hchannel, hlist⟩ := append_blank_inj t.channel.plain_display.1 u.channel.plain_display.1 hlist
  obtain ⟨hkind, htext⟩ := append_blank_inj t.kind.plain_name.1 u.kind.plain_name.1 hlist
  exact ⟨toDigits_inj (List.append_cancel_right hnumber),
    Channel.display_inj (String.toList_inj.mp hchannel), TokenKind.name_inj (String.toList_inj.mp hkind),
    Text.quote_inj (String.toList_inj.mp htext)⟩

end Token

-- ---------------------------------------------------------------------------
-- All lines
-- ---------------------------------------------------------------------------

namespace TokenStream

variable {s t : TokenStream}

theorem toList_tokenListing (s : TokenStream) : (s.tokenListing true).toList =
    ['\n'].intercalate (s.tokens.toList.map fun t => t.listing.toList) := by
  simp [tokenListing, String.toList_intercalate, Function.comp_def]

theorem lines_tokenListing (h : s.tokens.toList ≠ []) :
    List.splitOn '\n' (s.tokenListing true).toList = s.tokens.toList.map fun t => t.listing.toList := by
  rw [toList_tokenListing]
  refine List.splitOn_intercalate '\n' (fun line hline => ?_) (by simpa using h)
  obtain ⟨t, -, rfl⟩ := List.mem_map.mp hline
  exact t.lineFeed_notMem_listing

theorem tokens_eq_nil (h : s.tokenListing true = "") : s.tokens.toList = [] := by
  by_contra hne
  have hlines := lines_tokenListing hne
  rw [h] at hlines
  have hmem : [] ∈ s.tokens.toList.map fun t => t.listing.toList := hlines ▸ List.mem_singleton_self []
  obtain ⟨t, -, hnil⟩ := List.mem_map.mp hmem
  rw [Token.toList_listing] at hnil
  simp at hnil

/-- Equal listings have equal lines. The listing of no token is also that of one empty line, but no line is
empty. -/
theorem lines_eq (h : s.tokenListing true = t.tokenListing true) :
    s.tokens.toList.map (fun t => t.listing.toList) = t.tokens.toList.map fun t => t.listing.toList := by
  by_cases hs : s.tokens.toList = []
  · have ht : t.tokens.toList = [] := tokens_eq_nil (by rw [← h, tokenListing, hs]; rfl)
    rw [hs, ht]
  · have ht : t.tokens.toList ≠ [] := fun ht => hs (tokens_eq_nil (by rw [h, tokenListing, ht]; rfl))
    rw [← lines_tokenListing hs, h, lines_tokenListing ht]

theorem pushes_eq {ts us : List Token}
    (h : ts.map (fun t => t.listing.toList) = us.map fun t => t.listing.toList) :
    ts.map Push.ofToken = us.map Push.ofToken := by
  induction ts generalizing us with
  | nil =>
    rw [List.map_eq_nil_iff.mp h.symm]
  | cons t ts ih =>
    obtain ⟨u, us, rfl, hhead, htail⟩ := List.map_eq_cons_iff.mp h.symm
    obtain ⟨-, hchannel, hkind, htext⟩ := Token.listing_inj (String.toList_inj.mp hhead)
    rw [List.map_cons, List.map_cons, ih htail.symm, Push.ofToken, Push.ofToken, hchannel, hkind, htext]

theorem Built.tokenListing_inj (hs : s.Built) (ht : t.Built) (h : s.tokenListing true = t.tokenListing true) :
    s = t := by
  rw [hs.eq_ofPushes, ht.eq_ofPushes, pushes_eq (lines_eq h)]

/-- Streams that are not equal have listings that are not equal, and a listing has a line for each token. -/
theorem tokenListing_faithful (ps qs : List Push) :
    ((ofPushes ps).tokenListing true = (ofPushes qs).tokenListing true ↔ ofPushes ps = ofPushes qs) ∧
      (ps ≠ [] → List.splitOn '\n' ((ofPushes ps).tokenListing true).toList =
        (ofPushes ps).tokens.toList.map fun t => t.listing.toList) := by
  constructor
  · exact ⟨(built_ofPushes ps).tokenListing_inj (built_ofPushes qs), congrArg (tokenListing · true)⟩
  · intro hne
    refine lines_tokenListing fun hnil => hne ?_
    have hsize := size_ofPushes ps
    rw [size, ← Array.length_toList, hnil] at hsize
    exact List.length_eq_zero_iff.mp hsize.symm

theorem tokenListing_faithful_lineFeed :
    let ps := [.push .string "a\n\x07", .pushTo .visible .whitespace "é \""]
    let qs := [.push .string "a\\n\x07", .pushTo .visible .whitespace "é \""]
    (ofPushes ps).tokenListing true ≠ (ofPushes qs).tokenListing true ∧
      (List.splitOn '\n' ((ofPushes ps).tokenListing true).toList).map String.ofList =
        ["0: default StringLiteral \"a\\n\\u\x7b7\x7d\"", "1: default WS \"é \\\"\""] := by
  intro ps qs
  obtain ⟨hinj, hlines⟩ := tokenListing_faithful ps qs
  refine ⟨fun h => absurd (hinj.mp h) (by decide), ?_⟩
  rw [hlines nofun]
  decide

end TokenStream

end Linewise
