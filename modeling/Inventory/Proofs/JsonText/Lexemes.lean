import Inventory.Proofs.JsonText.NumberLiteral
import Inventory.Proofs.JsonText.TokenTree

/-! A text cut into lexemes, with blanks between them. Whatever tokens the scan gives, their
lexemes stand in the text in that order; and the lexemes of the tokens of a tree spell the tree. -/

namespace Inventory.Json

def TokenText : Token → List Char → Prop
  | .arrayStart, s => s = ['[']
  | .arrayEnd, s => s = [']']
  | .objectStart, s => s = ['\x7b']
  | .objectEnd, s => s = ['\x7d']
  | .comma, s => s = [',']
  | .colon, s => s = [':']
  | .null, s => s = ['n', 'u', 'l', 'l']
  | .bool true, s => s = ['t', 'r', 'u', 'e']
  | .bool false, s => s = ['f', 'a', 'l', 's', 'e']
  | .number n, s => n.Spelled s
  | .text content, s => LiteralText content s

/-- The lexemes of the tokens, each after some blanks, with blanks at the end. -/
def Lexed : List Token → List Char → Prop
  | [], s => Gap s
  | token :: ts, s => ∃ lead body rest, Gap lead ∧ TokenText token body ∧ Lexed ts rest ∧
    s = lead ++ (body ++ rest)

theorem Gap.nil : Gap [] := fun _ h => absurd h List.not_mem_nil

theorem Gap.append {s t : List Char} (hs : Gap s) (ht : Gap t) : Gap (s ++ t) := by
  intro c hc
  rcases List.mem_append.mp hc with hc | hc
  · exact hs c hc
  · exact ht c hc

theorem Lexed.gap_append {ts : List Token} {lead s : List Char} (hlead : Gap lead)
    (h : Lexed ts s) : Lexed ts (lead ++ s) := by
  cases ts with
  | nil => exact hlead.append h
  | cons token ts =>
    obtain ⟨lead', body, rest, hlead', hbody, hrest, rfl⟩ := h
    exact ⟨lead ++ lead', body, rest, hlead.append hlead', hbody, hrest, by rw [List.append_assoc]⟩

/-- The text makes these tokens before whatever comes after. -/
def Lexes (tokens : List Token) (text : List Char) : Prop :=
  ∀ ts s, Lexed ts s → Lexed (tokens ++ ts) (text ++ s)

namespace Lexes

theorem nil : Lexes [] [] := fun _ _ h => h

theorem blank {c : Char} (h : c = ' ' ∨ c = '\t' ∨ c = '\n' ∨ c = '\r') : Lexes [] [c] := by
  intro ts s hs
  have hgap : Gap [c] := by
    intro d hd
    obtain rfl := List.mem_singleton.mp hd
    exact h
  exact hs.gap_append hgap

theorem token {t : Token} {text : List Char} (h : TokenText t text) : Lexes [t] text :=
  fun _ s hs => ⟨[], text, s, Gap.nil, h, hs, rfl⟩

theorem append {ts us : List Token} {s t : List Char} (hs : Lexes ts s) (ht : Lexes us t) :
    Lexes (ts ++ us) (s ++ t) := by
  intro more rest h
  rw [List.append_assoc, List.append_assoc]
  exact hs _ _ (ht _ _ h)

end Lexes

theorem PiecesText.concat {pieces : List Piece} {body front : List Char} {p : Piece}
    (h : PiecesText pieces body) (hp : PieceText p front) :
    PiecesText (pieces ++ [p]) (body ++ front) := by
  induction pieces generalizing body with
  | nil =>
    obtain rfl : body = [] := h
    exact ⟨front, [], hp, rfl, by rw [List.append_nil, List.nil_append]⟩
  | cons q rest ih =>
    obtain ⟨first, back, hq, hback, rfl⟩ := h
    exact ⟨first, back ++ front, hq, ih hback, by rw [List.append_assoc]⟩

namespace Scan

/-- Hexadecimal digits and the number they make. -/
def HexText (unit : Nat) (digits : List Char) : Prop :=
  ∃ values : List Nat, digits.map hexValue? = values.map some ∧
    values.foldl (fun n v => 16 * n + v) 0 = unit

theorem HexText.concat {unit v : Nat} {digits : List Char} {c : Char} (h : HexText unit digits)
    (hc : hexValue? c = some v) : HexText (16 * unit + v) (digits ++ [c]) := by
  obtain ⟨values, hvalues, rfl⟩ := h
  exact ⟨values ++ [v], by simp [hvalues, hc], by simp⟩

theorem HexText.pieceText {unit : Nat} {digits : List Char} (h : HexText unit digits)
    (hlength : digits.length = 4) : PieceText (pieceOfUnit unit) ('\\' :: 'u' :: digits) := by
  obtain ⟨values, hvalues, rfl⟩ := h
  have hcount : values.length = 4 := by
    have hmap := congrArg List.length hvalues
    simpa [hlength] using hmap.symm
  match digits, values, hlength, hcount, hvalues with
  | [a, b, c, d], [p, q, r, s], _, _, hvalues =>
    simp only [List.map_cons, List.map_nil, List.cons.injEq, and_true] at hvalues
    obtain ⟨ha, hb, hc, hd⟩ := hvalues
    simpa using PieceText.numbered ha hb hc hd

/-- What was read of the lexeme that the scan is in. -/
def Partial : Scan → List Char → Prop
  | .between, s => s = []
  | .letters run, s => s = run.reverse
  | .number run, s => s = run.reverse
  | .text pieces, s => ∃ body, PiecesText pieces.reverse body ∧ s = '"' :: body
  | .escape pieces, s => ∃ body, PiecesText pieces.reverse body ∧ s = '"' :: (body ++ ['\\'])
  | .hex pieces missing unit, s => ∃ body digits, PiecesText pieces.reverse body ∧
    HexText unit digits ∧ digits.length + missing = 4 ∧ 0 < missing ∧
    s = '"' :: (body ++ '\\' :: 'u' :: digits)

theorem wordToken?_text {word : List Char} {token : Token} (h : wordToken? word = some token) :
    TokenText token word := by
  rw [wordToken?.eq_def] at h
  split at h <;> cases h <;> rfl

theorem pending?_lexes {scan : Scan} {done : List Token} {raw : List Char}
    (h : scan.pending? = some done) (hraw : scan.Partial raw) : Lexes done raw := by
  cases scan with
  | between =>
    obtain rfl := Option.some.inj h
    obtain rfl : raw = [] := hraw
    exact .nil
  | letters run =>
    obtain ⟨token, htoken, rfl⟩ := Option.map_eq_some_iff.mp h
    obtain rfl : raw = run.reverse := hraw
    exact .token (wordToken?_text htoken)
  | number run =>
    obtain ⟨n, hn, rfl⟩ := Option.map_eq_some_iff.mp h
    obtain rfl : raw = run.reverse := hraw
    exact .token (Numeral.read?_eq_some.mp hn)
  | text pieces => cases h
  | escape pieces => cases h
  | hex pieces missing unit => cases h

/-- One more character `c` after `raw` completes the tokens and leaves `next` with its part. -/
def Advances (raw : List Char) (c : Char) (tokens : List Token) (next : Scan) : Prop :=
  ∃ done left, raw ++ [c] = done ++ left ∧ next.Partial left ∧ Lexes tokens done

theorem start?_advances {c : Char} {tokens : List Token} {next : Scan}
    (h : start? c = some (tokens, next)) : Advances [] c tokens next := by
  rw [start?.eq_def] at h
  split at h
  case h_7 =>
    cases h
    exact ⟨[], ['"'], rfl, ⟨[], rfl, rfl⟩, .nil⟩
  case h_8 =>
    split at h
    · rename_i hblank
      cases h
      exact ⟨[c], [], rfl, rfl, .blank hblank⟩
    · split at h
      · cases h
        exact ⟨[], [c], rfl, rfl, .nil⟩
      · split at h
        · cases h
          exact ⟨[], [c], rfl, rfl, .nil⟩
        · cases h
  all_goals
    cases h
    exact ⟨_, [], rfl, rfl, .token rfl⟩

theorem restart?_advances {scan : Scan} {c : Char} {tokens : List Token} {next : Scan}
    {raw : List Char} (h : step?.restart? scan c = some (tokens, next)) (hraw : scan.Partial raw) :
    Advances raw c tokens next := by
  rw [step?.restart?] at h
  split at h
  · rename_i done more next' hpending hstart
    cases h
    obtain ⟨front, left, hsplit, hleft, hfront⟩ := start?_advances hstart
    have hchar : [c] = front ++ left := hsplit
    exact ⟨raw ++ front, left, by rw [List.append_assoc, hchar], hleft,
      (pending?_lexes hpending hraw).append hfront⟩
  · cases h

theorem text_advances {pieces : List Piece} {c : Char} {tokens : List Token} {next : Scan}
    {raw : List Char} (h : (Scan.text pieces).step? c = some (tokens, next))
    (hraw : (Scan.text pieces).Partial raw) : Advances raw c tokens next := by
  obtain ⟨body, hbody, rfl⟩ := hraw
  rw [step?] at h
  split at h
  · rename_i hc
    cases h
    obtain rfl := hc
    exact ⟨_, [], (List.append_nil _).symm, rfl, .token ⟨_, body, hbody, rfl, rfl⟩⟩
  · rename_i hquote
    split at h
    · rename_i hc
      cases h
      obtain rfl := hc
      exact ⟨[], _, rfl, ⟨body, hbody, rfl⟩, .nil⟩
    · rename_i hslash
      split at h
      · cases h
      · rename_i hcontrol
        cases h
        have hplain : PieceText (.char c) [c] := .plain hquote hslash (by omega)
        refine ⟨[], _, rfl, ⟨body ++ [c], ?_, rfl⟩, .nil⟩
        rw [List.reverse_cons]
        exact hbody.concat hplain

theorem escape_advances {pieces : List Piece} {c : Char} {tokens : List Token} {next : Scan}
    {raw : List Char} (h : (Scan.escape pieces).step? c = some (tokens, next))
    (hraw : (Scan.escape pieces).Partial raw) : Advances raw c tokens next := by
  obtain ⟨body, hbody, rfl⟩ := hraw
  rw [step?] at h
  split at h
  · rename_i hc
    cases h
    obtain rfl := hc
    exact ⟨[], _, rfl, ⟨body, [], hbody, ⟨[], rfl, rfl⟩, rfl, by decide, by simp⟩, .nil⟩
  · obtain ⟨e, he, heq⟩ := Option.map_eq_some_iff.mp h
    cases heq
    refine ⟨[], _, rfl, ⟨body ++ ['\\', c], ?_, by simp⟩, .nil⟩
    rw [List.reverse_cons]
    exact hbody.concat (.escaped he)

theorem hex_advances {pieces : List Piece} {missing unit : Nat} {c : Char} {tokens : List Token}
    {next : Scan} {raw : List Char}
    (h : (Scan.hex pieces missing unit).step? c = some (tokens, next))
    (hraw : (Scan.hex pieces missing unit).Partial raw) : Advances raw c tokens next := by
  obtain ⟨body, digits, hbody, hdigits, hlength, hmissing, rfl⟩ := hraw
  rw [step?] at h
  obtain ⟨v, hv, heq⟩ := Option.map_eq_some_iff.mp h
  have hmore : HexText (16 * unit + v) (digits ++ [c]) := hdigits.concat hv
  have hcount : (digits ++ [c]).length = digits.length + 1 := List.length_append
  simp only at heq
  split at heq
  · cases heq
    refine ⟨[], _, rfl, ⟨body ++ '\\' :: 'u' :: (digits ++ [c]), ?_, by simp⟩, .nil⟩
    rw [List.reverse_cons]
    exact hbody.concat (hmore.pieceText (by omega))
  · cases heq
    exact ⟨[], _, rfl, ⟨body, digits ++ [c], hbody, hmore, by omega, by omega, by simp⟩, .nil⟩

theorem step?_advances {scan : Scan} {c : Char} {tokens : List Token} {next : Scan}
    {raw : List Char} (h : scan.step? c = some (tokens, next)) (hraw : scan.Partial raw) :
    Advances raw c tokens next := by
  cases scan with
  | between =>
    obtain rfl : raw = [] := hraw
    exact start?_advances h
  | letters run =>
    rw [step?] at h
    split at h
    · cases h
      obtain rfl : raw = run.reverse := hraw
      exact ⟨[], _, rfl, List.reverse_cons.symm, .nil⟩
    · exact restart?_advances h hraw
  | number run =>
    rw [step?] at h
    split at h
    · cases h
      obtain rfl : raw = run.reverse := hraw
      exact ⟨[], _, rfl, List.reverse_cons.symm, .nil⟩
    · exact restart?_advances h hraw
  | text pieces => exact text_advances h hraw
  | escape pieces => exact escape_advances h hraw
  | hex pieces missing unit => exact hex_advances h hraw

theorem run?_lexed {scan : Scan} {s raw : List Char} {ts : List Token} (h : scan.run? s = some ts)
    (hraw : scan.Partial raw) : Lexed ts (raw ++ s) := by
  induction s generalizing scan raw ts with
  | nil =>
    have hend := pending?_lexes h hraw [] [] Gap.nil
    rwa [List.append_nil] at hend
  | cons c rest ih =>
    rw [run?] at h
    split at h
    · rename_i tokens next hstep
      obtain ⟨more, hmore, rfl⟩ := Option.map_eq_some_iff.mp h
      obtain ⟨done, left, hsplit, hleft, hdone⟩ := step?_advances hstep hraw
      have hrest := hdone _ _ (ih hmore hleft)
      rwa [← List.append_assoc, ← hsplit, List.append_assoc] at hrest
    · cases h

end Scan

theorem lexed_of_tokens? {s : List Char} {ts : List Token} (h : tokens? s = some ts) :
    Lexed ts s := by
  have hstart : Scan.between.Partial [] := rfl
  exact Scan.run?_lexed h hstart

namespace Written

mutual

theorem spelled_of_lexed (w : Written) {ts : List Token} {s : List Char}
    (h : Lexed (w.tokens ++ ts) s) :
    ∃ lead body rest, Gap lead ∧ w.Spelled body ∧ Lexed ts rest ∧ s = lead ++ (body ++ rest) := by
  match w with
  | .null =>
    rw [tokens] at h
    exact h
  | .bool true =>
    rw [tokens] at h
    exact h
  | .bool false =>
    rw [tokens] at h
    exact h
  | .number n =>
    rw [tokens] at h
    exact h
  | .text content =>
    rw [tokens] at h
    exact h
  | .array items =>
    rw [tokens] at h
    obtain ⟨lead, _, _, hlead, rfl, hitems, rfl⟩ := h
    obtain ⟨body, rest, hbody, hrest, rfl⟩ := itemsSpelled_of_lexed items hitems
    exact ⟨lead, _, rest, hlead, ⟨body, hbody, rfl⟩, hrest, by simp⟩
  | .object members =>
    rw [tokens] at h
    obtain ⟨lead, _, _, hlead, rfl, hmembers, rfl⟩ := h
    obtain ⟨body, rest, hbody, hrest, rfl⟩ := membersSpelled_of_lexed members hmembers
    exact ⟨lead, _, rest, hlead, ⟨body, hbody, rfl⟩, hrest, by simp⟩

theorem itemsSpelled_of_lexed (items : List Written) {ts : List Token} {s : List Char}
    (h : Lexed (itemTokens items ++ ts) s) :
    ∃ body rest, ItemsSpelled items body ∧ Lexed ts rest ∧ s = body ++ ']' :: rest := by
  match items with
  | [] =>
    rw [itemTokens] at h
    obtain ⟨lead, _, rest, hlead, rfl, hrest, rfl⟩ := h
    exact ⟨lead, rest, hlead, hrest, rfl⟩
  | w :: more =>
    rw [itemTokens, List.append_assoc] at h
    obtain ⟨lead, body, _, hlead, hbody, htail, rfl⟩ := spelled_of_lexed w h
    obtain ⟨gap, back, rest, hgap, hback, hrest, rfl⟩ := moreItems_of_lexed more htail
    exact ⟨_, rest, ⟨_, back, ⟨lead, body, gap, hlead, hbody, hgap, rfl⟩, hback, rfl⟩, hrest,
      by simp⟩

theorem moreItems_of_lexed (items : List Written) {ts : List Token} {s : List Char}
    (h : Lexed (moreItemTokens items ++ ts) s) :
    ∃ gap body rest, Gap gap ∧ MoreItems items body ∧ Lexed ts rest ∧
      s = gap ++ (body ++ ']' :: rest) := by
  match items with
  | [] =>
    rw [moreItemTokens] at h
    obtain ⟨lead, _, rest, hlead, rfl, hrest, rfl⟩ := h
    exact ⟨lead, [], rest, hlead, rfl, hrest, rfl⟩
  | w :: more =>
    rw [moreItemTokens, List.cons_append, List.append_assoc] at h
    obtain ⟨comma, _, _, hcomma, rfl, hw, rfl⟩ := h
    obtain ⟨lead, body, _, hlead, hbody, htail, rfl⟩ := spelled_of_lexed w hw
    obtain ⟨gap, back, rest, hgap, hback, hrest, rfl⟩ := moreItems_of_lexed more htail
    exact ⟨comma, _, rest, hcomma, ⟨_, back, ⟨lead, body, gap, hlead, hbody, hgap, rfl⟩, hback, rfl⟩,
      hrest, by simp⟩

theorem membersSpelled_of_lexed (members : List (Option String × Written)) {ts : List Token}
    {s : List Char} (h : Lexed (memberTokens members ++ ts) s) :
    ∃ body rest, MembersSpelled members body ∧ Lexed ts rest ∧ s = body ++ '\x7d' :: rest := by
  match members with
  | [] =>
    rw [memberTokens] at h
    obtain ⟨lead, _, rest, hlead, rfl, hrest, rfl⟩ := h
    exact ⟨lead, rest, hlead, hrest, rfl⟩
  | (key, w) :: more =>
    rw [memberTokens, List.cons_append, List.cons_append, List.append_assoc] at h
    obtain ⟨before, name, _, hbefore, hname, ⟨behind, _, _, hbehind, rfl, hw, rfl⟩, rfl⟩ := h
    obtain ⟨lead, body, _, hlead, hbody, htail, rfl⟩ := spelled_of_lexed w hw
    obtain ⟨gap, back, rest, hgap, hback, hrest, rfl⟩ := moreMembers_of_lexed more htail
    exact ⟨_, rest, ⟨_, _, back, ⟨before, name, behind, hbefore, hname, hbehind, rfl⟩,
      ⟨lead, body, gap, hlead, hbody, hgap, rfl⟩, hback, rfl⟩, hrest, by simp⟩

theorem moreMembers_of_lexed (members : List (Option String × Written)) {ts : List Token}
    {s : List Char} (h : Lexed (moreMemberTokens members ++ ts) s) :
    ∃ gap body rest, Gap gap ∧ MoreMembers members body ∧ Lexed ts rest ∧
      s = gap ++ (body ++ '\x7d' :: rest) := by
  match members with
  | [] =>
    rw [moreMemberTokens] at h
    obtain ⟨lead, _, rest, hlead, rfl, hrest, rfl⟩ := h
    exact ⟨lead, [], rest, hlead, rfl, hrest, rfl⟩
  | (key, w) :: more =>
    rw [moreMemberTokens, List.cons_append, List.cons_append, List.cons_append,
      List.append_assoc] at h
    obtain ⟨comma, _, _, hcomma, rfl,
      ⟨before, name, _, hbefore, hname, ⟨behind, _, _, hbehind, rfl, hw, rfl⟩, rfl⟩, rfl⟩ := h
    obtain ⟨lead, body, _, hlead, hbody, htail, rfl⟩ := spelled_of_lexed w hw
    obtain ⟨gap, back, rest, hgap, hback, hrest, rfl⟩ := moreMembers_of_lexed more htail
    exact ⟨comma, _, rest, hcomma,
      ⟨_, _, back, ⟨before, name, behind, hbefore, hname, hbehind, rfl⟩,
        ⟨lead, body, gap, hlead, hbody, hgap, rfl⟩, hback, rfl⟩, hrest, by simp⟩

end

theorem padded_of_tokens? {w : Written} {s : List Char} (h : tokens? s = some w.tokens) :
    Padded w.Spelled s := by
  have hlexed := lexed_of_tokens? h
  rw [← List.append_nil w.tokens] at hlexed
  exact spelled_of_lexed w hlexed

end Written

end Inventory.Json
