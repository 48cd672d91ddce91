import Inventory.Proofs.JsonText.Lexemes

/-! Every spelling of a tree is read as that tree. The scan gives the tokens of the tree when what
follows the spelling ends a run, and then goes on as if it began there. -/

namespace Inventory.Json

namespace Scan

open Written (Spelled ItemsSpelled MoreItems MembersSpelled MoreMembers)

theorem run?_step {scan next : Scan} {c : Char} {tokens : List Token}
    (h : scan.step? c = some (tokens, next)) (s : List Char) :
    scan.run? (c :: s) = (next.run? s).map (tokens ++ ·) := by
  rw [run?, h]

theorem run?_quiet {scan next : Scan} {c : Char} (h : scan.step? c = some ([], next))
    (s : List Char) : scan.run? (c :: s) = next.run? s := by
  rw [run?_step h]
  exact Option.map_id'

/-- Whatever run is going on, it ends before this text. -/
def Delimits (t : List Char) : Prop :=
  ∀ c, t.head? = some c → isNumberChar c = false ∧ isLetter c = false

theorem Delimits.nil : Delimits [] := nofun

theorem Delimits.cons {c : Char} (h : isNumberChar c = false ∧ isLetter c = false)
    (t : List Char) : Delimits (c :: t) := by
  intro d hd
  obtain rfl := Option.some.inj hd
  exact h

theorem Delimits.gap_append {gap t : List Char} (hgap : Gap gap) (ht : Delimits t) :
    Delimits (gap ++ t) := by
  cases gap with
  | nil => exact ht
  | cons c rest =>
    refine .cons ?_ _
    rcases hgap c List.mem_cons_self with rfl | rfl | rfl | rfl <;> decide

theorem run?_gap {gap : List Char} (h : Gap gap) (t : List Char) :
    between.run? (gap ++ t) = between.run? t := by
  induction gap with
  | nil => rfl
  | cons c rest ih =>
    have hstep : between.step? c = some ([], .between) := by
      rcases h c List.mem_cons_self with rfl | rfl | rfl | rfl <;> rfl
    rw [List.cons_append, run?_quiet hstep]
    exact ih fun d hd => h d (List.mem_cons_of_mem c hd)

theorem run?_restart {scan : Scan} {done : List Token} {c : Char}
    (hdone : scan.pending? = some done) (hstep : scan.step? c = step?.restart? scan c)
    (s : List Char) : scan.run? (c :: s) = (between.run? (c :: s)).map (done ++ ·) := by
  have hbetween : between.step? c = start? c := rfl
  rw [run?, run?, hstep, step?.restart?, hdone, hbetween]
  cases hstart : start? c with
  | none => rfl
  | some result =>
    obtain ⟨tokens, next⟩ := result
    simp only [Option.map_map, Function.comp_def, List.append_assoc]

theorem run?_end {scan : Scan} {done : List Token} (hdone : scan.pending? = some done) :
    scan.run? [] = (between.run? []).map (done ++ ·) := by
  rw [run?, hdone, run?, pending?, Option.map_some, List.append_nil]

theorem run?_letters {run s t : List Char} {token : Token} (hs : ∀ c ∈ s, isLetter c = true)
    (hword : wordToken? (run.reverse ++ s) = some token) (ht : Delimits t) :
    (letters run).run? (s ++ t) = (between.run? t).map ([token] ++ ·) := by
  induction s generalizing run with
  | nil =>
    have hdone : (letters run).pending? = some [token] := by
      rw [List.append_nil] at hword
      rw [pending?, hword, Option.map_some]
    cases t with
    | nil => exact run?_end hdone
    | cons c rest =>
      have hc : isLetter c = false := (ht c rfl).2
      exact run?_restart hdone (by simp [step?, hc]) rest
  | cons c rest ih =>
    have hc : isLetter c = true := hs c List.mem_cons_self
    have hstep : (letters run).step? c = some ([], letters (c :: run)) := by
      rw [step?, if_pos hc]
    rw [List.cons_append, run?_quiet hstep]
    apply ih fun d hd => hs d (List.mem_cons_of_mem c hd)
    rwa [List.reverse_cons, List.append_assoc]

theorem run?_word {c : Char} {s t : List Char} {token : Token}
    (hstart : start? c = some ([], .letters [c])) (hs : s.all isLetter = true)
    (hword : wordToken? (c :: s) = some token) (ht : Delimits t) :
    between.run? (c :: (s ++ t)) = (between.run? t).map ([token] ++ ·) := by
  have hstep : between.step? c = some ([], .letters [c]) := hstart
  rw [run?_quiet hstep]
  exact run?_letters (List.all_eq_true.mp hs) hword ht

theorem run?_number {run s t : List Char} {n : Numeral} (hs : ∀ c ∈ s, isNumberChar c = true)
    (hn : n.Spelled (run.reverse ++ s)) (ht : Delimits t) :
    (number run).run? (s ++ t) = (between.run? t).map ([.number n] ++ ·) := by
  induction s generalizing run with
  | nil =>
    have hdone : (number run).pending? = some [.number n] := by
      rw [List.append_nil, ← Numeral.read?_eq_some] at hn
      rw [pending?, hn, Option.map_some]
    cases t with
    | nil => exact run?_end hdone
    | cons c rest =>
      have hc : isNumberChar c = false := (ht c rfl).1
      exact run?_restart hdone (by simp [step?, hc]) rest
  | cons c rest ih =>
    have hc : isNumberChar c = true := hs c List.mem_cons_self
    have hstep : (number run).step? c = some ([], number (c :: run)) := by
      rw [step?, if_pos hc]
    rw [List.cons_append, run?_quiet hstep]
    apply ih fun d hd => hs d (List.mem_cons_of_mem c hd)
    rwa [List.reverse_cons, List.append_assoc]

theorem start?_digit {c : Char} (h : Text.isDigit c = true) :
    start? c = some ([], .number [c]) := by
  rw [start?.eq_def]
  split
  case h_8 =>
    have hblank : ¬(c = ' ' ∨ c = '\t' ∨ c = '\n' ∨ c = '\r') := by
      rintro (rfl | rfl | rfl | rfl) <;> cases h
    rw [if_neg hblank, if_pos (.inl h)]
  all_goals cases h

end Scan

theorem isNumberChar_of_digit {c : Char} (h : Text.isDigit c = true) :
    Scan.isNumberChar c = true := by
  simp [Scan.isNumberChar, h]

namespace Numeral

theorem SignedDigits.numberChars {e : Int} {s : List Char} (h : SignedDigits e s) :
    ∀ c ∈ s, Scan.isNumberChar c = true := by
  obtain ⟨digits, ⟨-, hdigits⟩, hs⟩ := h
  have hchars : ∀ c ∈ digits, Scan.isNumberChar c = true :=
    fun c hc => isNumberChar_of_digit (hdigits c hc)
  have hminus : Scan.isNumberChar '-' = true := by decide
  have hplus : Scan.isNumberChar '+' = true := by decide
  rcases hs with ⟨rfl, -⟩ | ⟨rfl | rfl, -⟩
  · simpa [hminus] using hchars
  · exact hchars
  · simpa [hplus] using hchars

theorem PowerText.numberChars {e : Option Int} {s : List Char} (h : PowerText e s) :
    ∀ c ∈ s, Scan.isNumberChar c = true := by
  cases e with
  | none =>
    obtain rfl : s = [] := h
    exact fun _ hc => absurd hc List.not_mem_nil
  | some e =>
    obtain ⟨mark, rest, rfl, hmark, hrest⟩ := h
    have hchar : Scan.isNumberChar mark = true := by
      rcases hmark with rfl | rfl <;> decide
    simpa [hchar] using hrest.numberChars

theorem Unsigned.numberChars {n : Numeral} {s : List Char} (h : n.Unsigned s) :
    ∀ c ∈ s, Scan.isNumberChar c = true := by
  obtain ⟨power, hpower, rfl⟩ := h.text
  intro c hc
  rcases List.mem_append.mp hc with hc | hc
  · exact isNumberChar_of_digit (h.whole.2 c hc)
  · rcases List.mem_append.mp hc with hc | hc
    · rw [fractionText] at hc
      split at hc
      · cases hc
      · rcases List.mem_cons.mp hc with rfl | hc
        · decide
        · exact isNumberChar_of_digit (h.fraction c hc)
    · exact hpower.numberChars c hc

end Numeral

namespace Scan

theorem run?_numeral {n : Numeral} {s t : List Char} (h : n.Spelled s) (ht : Delimits t) :
    between.run? (s ++ t) = (between.run? t).map ([.number n] ++ ·) := by
  obtain ⟨rest, hrest, rfl⟩ := Numeral.spelled_iff.mp h
  have hchars := hrest.numberChars
  cases hnegative : n.negative with
  | true =>
    have hstart : between.step? '-' = some ([], .number ['-']) := rfl
    have hsign : Numeral.signText true ++ rest = '-' :: rest := rfl
    rw [hnegative, hsign] at h
    rw [hsign, List.cons_append, run?_quiet hstart]
    exact run?_number hchars h ht
  | false =>
    have hsign : Numeral.signText false ++ rest = rest := rfl
    rw [hnegative, hsign] at h
    rw [hsign]
    obtain ⟨c, more, rfl, hc⟩ := hrest.head
    have hstart : between.step? c = some ([], .number [c]) := start?_digit hc
    rw [List.cons_append, run?_quiet hstart]
    exact run?_number (fun d hd => hchars d (List.mem_cons_of_mem c hd)) h ht

theorem run?_piece {p : Piece} {front : List Char} (h : PieceText p front) (pieces : List Piece)
    (t : List Char) : (text pieces).run? (front ++ t) = (text (p :: pieces)).run? t := by
  have hescape : (text pieces).step? '\\' = some ([], .escape pieces) := by simp [step?]
  cases h with
  | @plain c hquote hslash hcontrol =>
    have hstep : (text pieces).step? c = some ([], .text (.char c :: pieces)) := by
      rw [step?, if_neg hquote, if_neg hslash, if_neg (by omega)]
    exact run?_quiet hstep t
  | @escaped c e he =>
    have hu : e ≠ 'u' := by
      rintro rfl
      cases he
    have hstep : (escape pieces).step? e = some ([], .text (.char c :: pieces)) := by
      rw [step?, if_neg hu, he, Option.map_some]
    rw [List.cons_append, List.cons_append, run?_quiet hescape, run?_quiet hstep, List.nil_append]
  | @numbered a b c d p q r s ha hb hc hd =>
    have hu : (escape pieces).step? 'u' = some ([], .hex pieces 4 0) := by simp [step?]
    have hstep : ∀ {x v missing unit}, hexValue? x = some v → 2 ≤ missing →
        (hex pieces missing unit).step? x =
          some ([], .hex pieces (missing - 1) (16 * unit + v)) := by
      intro x v missing unit hx hmissing
      have hmore : ¬missing ≤ 1 := by omega
      simp [step?, hx, hmore]
    have hlast : (hex pieces 1 (16 * (16 * (16 * 0 + p) + q) + r)).step? d =
        some ([], .text (pieceOfUnit (16 * (16 * (16 * p + q) + r) + s) :: pieces)) := by
      simp [step?, hd]
    simp only [List.cons_append, List.nil_append]
    rw [run?_quiet hescape, run?_quiet hu, run?_quiet (hstep ha (by decide)),
      run?_quiet (hstep hb (by decide)), run?_quiet (hstep hc (by decide)), run?_quiet hlast]

theorem run?_pieces {ps : List Piece} {body : List Char} (h : PiecesText ps body)
    (pieces : List Piece) (t : List Char) :
    (text pieces).run? (body ++ t) = (text (ps.reverse ++ pieces)).run? t := by
  induction ps generalizing body pieces with
  | nil =>
    obtain rfl : body = [] := h
    rfl
  | cons p rest ih =>
    obtain ⟨front, back, hp, hback, rfl⟩ := h
    rw [List.append_assoc, run?_piece hp, ih hback, List.reverse_cons, List.append_assoc]
    rfl

theorem run?_literal {content : Option String} {s : List Char} (h : LiteralText content s)
    (t : List Char) :
    between.run? (s ++ t) = (between.run? t).map ([.text content] ++ ·) := by
  obtain ⟨pieces, body, hbody, rfl, rfl⟩ := h
  have hopen : between.step? '"' = some ([], .text []) := rfl
  have hclose : (text pieces.reverse).step? '"' =
      some ([.text ((joinPieces? pieces).map String.ofList)], .between) := by
    rw [step?, if_pos rfl, List.reverse_reverse]
  rw [List.cons_append, List.append_assoc, run?_quiet hopen, run?_pieces hbody, List.append_nil]
  exact run?_step hclose t

/-- The scan of the text gives the tokens and goes on with what follows. -/
def Emits (s : List Char) (ts : List Token) : Prop :=
  ∀ t, Delimits t → between.run? (s ++ t) = (between.run? t).map (ts ++ ·)

theorem Emits.padded {p : List Char → Prop} {s : List Char} {ts : List Token} (h : Padded p s)
    (hp : ∀ {body}, p body → Emits body ts) : Emits s ts := by
  obtain ⟨before, body, behind, hbefore, hbody, hbehind, rfl⟩ := h
  intro t ht
  rw [List.append_assoc, List.append_assoc, run?_gap hbefore,
    hp hbody _ (.gap_append hbehind ht), run?_gap hbehind]

theorem Emits.literal {content : Option String} {s : List Char} (h : Padded (LiteralText content) s) :
    Emits s [.text content] :=
  .padded h fun hbody t _ => run?_literal hbody t

theorem run?_mark {c : Char} {token : Token} (h : start? c = some ([token], .between))
    (t : List Char) : between.run? (c :: t) = (between.run? t).map ([token] ++ ·) := by
  have hstep : between.step? c = some ([token], .between) := h
  exact run?_step hstep t

/-- A member: its name, the colon and its value, before a mark that ends it. -/
theorem Emits.member {name front t : List Char} {key : Option String} {ts : List Token}
    (hname : Padded (LiteralText key) name) (hfront : Emits front ts) (ht : Delimits t) :
    between.run? (name ++ ':' :: (front ++ t)) =
      (between.run? t).map (.text key :: .colon :: ts ++ ·) := by
  have hcolon : Delimits (':' :: (front ++ t)) := .cons (by decide) _
  rw [Emits.literal hname _ hcolon, run?_mark rfl, hfront t ht]
  simp [Function.comp_def]

end Scan

namespace Written

open Scan (Emits Delimits between)

mutual

theorem emits_of_spelled (w : Written) {s : List Char} (h : w.Spelled s) : Emits s w.tokens := by
  intro t ht
  match w with
  | .null =>
    obtain rfl : s = _ := h
    rw [tokens]
    exact Scan.run?_word (s := ['u', 'l', 'l']) rfl rfl rfl ht
  | .bool true =>
    obtain rfl : s = _ := h
    rw [tokens]
    exact Scan.run?_word (s := ['r', 'u', 'e']) rfl rfl rfl ht
  | .bool false =>
    obtain rfl : s = _ := h
    rw [tokens]
    exact Scan.run?_word (s := ['a', 'l', 's', 'e']) rfl rfl rfl ht
  | .number n =>
    rw [tokens]
    exact Scan.run?_numeral h ht
  | .text content =>
    rw [tokens]
    exact Scan.run?_literal h t
  | .array items =>
    obtain ⟨body, hbody, rfl⟩ := h
    rw [tokens, List.cons_append, List.append_assoc, Scan.run?_mark rfl]
    rw [List.singleton_append, run?_itemsSpelled items hbody]
    simp [Function.comp_def]
  | .object members =>
    obtain ⟨body, hbody, rfl⟩ := h
    rw [tokens, List.cons_append, List.append_assoc, Scan.run?_mark rfl]
    rw [List.singleton_append, run?_membersSpelled members hbody]
    simp [Function.comp_def]

theorem run?_itemsSpelled (items : List Written) {body : List Char} (h : ItemsSpelled items body)
    (t : List Char) :
    between.run? (body ++ ']' :: t) = (between.run? t).map (itemTokens items ++ ·) := by
  match items with
  | [] =>
    rw [itemTokens, Scan.run?_gap h]
    exact Scan.run?_mark rfl t
  | w :: rest =>
    obtain ⟨front, back, hfront, hback, rfl⟩ := h
    obtain ⟨hdelimits, hrun⟩ := run?_moreItems rest hback t
    have hw : Emits front w.tokens := .padded hfront (emits_of_spelled w)
    rw [List.append_assoc, hw _ hdelimits, hrun, itemTokens]
    simp [Function.comp_def]

theorem run?_moreItems (items : List Written) {body : List Char} (h : MoreItems items body)
    (t : List Char) : Delimits (body ++ ']' :: t) ∧
      between.run? (body ++ ']' :: t) = (between.run? t).map (moreItemTokens items ++ ·) := by
  match items with
  | [] =>
    obtain rfl : body = [] := h
    rw [moreItemTokens]
    exact ⟨.cons (by decide) _, Scan.run?_mark rfl t⟩
  | w :: rest =>
    obtain ⟨front, back, hfront, hback, rfl⟩ := h
    obtain ⟨hdelimits, hrun⟩ := run?_moreItems rest hback t
    have hw : Emits front w.tokens := .padded hfront (emits_of_spelled w)
    refine ⟨.cons (by decide) _, ?_⟩
    rw [List.cons_append, List.append_assoc, Scan.run?_mark rfl, hw _ hdelimits, hrun,
      moreItemTokens]
    simp [Function.comp_def]

theorem run?_membersSpelled (members : List (Option String × Written)) {body : List Char}
    (h : MembersSpelled members body) (t : List Char) :
    between.run? (body ++ '\x7d' :: t) = (between.run? t).map (memberTokens members ++ ·) := by
  match members with
  | [] =>
    rw [memberTokens, Scan.run?_gap h]
    exact Scan.run?_mark rfl t
  | (key, w) :: rest =>
    obtain ⟨name, front, back, hname, hfront, hback, rfl⟩ := h
    obtain ⟨hdelimits, hrun⟩ := run?_moreMembers rest hback t
    have hw : Emits front w.tokens := .padded hfront (emits_of_spelled w)
    rw [List.append_assoc, List.cons_append, List.append_assoc, Emits.member hname hw hdelimits,
      hrun, memberTokens]
    simp [Function.comp_def]

theorem run?_moreMembers (members : List (Option String × Written)) {body : List Char}
    (h : MoreMembers members body) (t : List Char) : Delimits (body ++ '\x7d' :: t) ∧
      between.run? (body ++ '\x7d' :: t) =
        (between.run? t).map (moreMemberTokens members ++ ·) := by
  match members with
  | [] =>
    obtain rfl : body = [] := h
    rw [moreMemberTokens]
    exact ⟨.cons (by decide) _, Scan.run?_mark rfl t⟩
  | (key, w) :: rest =>
    obtain ⟨name, front, back, hname, hfront, hback, rfl⟩ := h
    obtain ⟨hdelimits, hrun⟩ := run?_moreMembers rest hback t
    have hw : Emits front w.tokens := .padded hfront (emits_of_spelled w)
    refine ⟨.cons (by decide) _, ?_⟩
    rw [List.cons_append, List.append_assoc, List.cons_append, List.append_assoc,
      Scan.run?_mark rfl, Emits.member hname hw hdelimits, hrun, moreMemberTokens]
    simp [Function.comp_def]

end

theorem tokens?_of_padded {w : Written} {s : List Char} (h : Padded w.Spelled s) :
    tokens? s = some w.tokens := by
  have hs : Emits s w.tokens := .padded h w.emits_of_spelled
  have hrun := hs [] .nil
  rw [List.append_nil] at hrun
  rw [tokens?, hrun, Scan.run?, Scan.pending?, Option.map_some, List.append_nil]

end Written

/-- A text is read as exactly the tree that it spells, with blanks around it. -/
theorem written?_eq_some {s : String} {w : Written} :
    written? s = some w ↔ Padded w.Spelled s.toList := by
  constructor
  · intro h
    rw [written?] at h
    split at h
    · rename_i ts hts
      rw [Reading.run?_eq_some.mp h] at hts
      exact Written.padded_of_tokens? hts
    · cases h
  · intro h
    rw [written?, Written.tokens?_of_padded h]
    exact Reading.run?_eq_some.mpr rfl

end Inventory.Json
