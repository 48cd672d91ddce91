import Inventory.Json.Printer
import Inventory.Proofs.JsonText.Scanning
import Inventory.Proofs.JsonText.WireNumeral

/-! The compact text of a JSON tree spells that tree, so it is read as it was written. Trees with
one text are one tree, down to the literals of their numbers. -/

namespace Inventory.Json

theorem hexDigits_spelled : ∀ n < 0x20,
    ∃ a b c d p q r s, hexDigits 4 n = [a, b, c, d] ∧ Scan.hexValue? a = some p ∧
      Scan.hexValue? b = some q ∧ Scan.hexValue? c = some r ∧ Scan.hexValue? d = some s ∧
      16 * (16 * (16 * p + q) + r) + s = n := by
  intro n hn
  refine ⟨'0', '0', if n < 16 then '0' else '1', Nat.digitChar (n % 16), 0, 0, n / 16, n % 16, ?_⟩
  revert n
  decide

theorem escapedChar_spelled (c : Char) : PieceText (.char c) (escapedChar c) := by
  rw [escapedChar.eq_def]
  split
  case h_8 =>
    rename_i hquote hslash _ _ _ _ _
    split
    · rename_i hcontrol
      obtain ⟨x, y, z, w, p, q, r, s, hdigits, hp, hq, hr, hs, hunit⟩ :=
        hexDigits_spelled c.toNat hcontrol
      have hpiece := PieceText.numbered hp hq hr hs
      have hchar : Scan.pieceOfUnit c.toNat = .char c := by
        rw [Scan.pieceOfUnit, if_neg (by omega), Char.ofNat_toNat]
      rw [hunit, hchar] at hpiece
      rwa [hdigits]
    · exact .plain hquote hslash (by omega)
  all_goals exact .escaped rfl

theorem joinPieces?_chars (s : List Char) : joinPieces? (s.map .char) = some s := by
  induction s with
  | nil => rfl
  | cons c rest ih => rw [List.map_cons, joinPieces?, ih, Option.map_some]

theorem piecesText_chars (s : List Char) : PiecesText (s.map .char) (s.flatMap escapedChar) := by
  induction s with
  | nil => rfl
  | cons c rest ih => exact ⟨_, _, escapedChar_spelled c, ih, List.flatMap_cons⟩

theorem renderText_spelled (s : String) : LiteralText (some s) (renderText s) := by
  refine ⟨s.toList.map .char, s.toList.flatMap escapedChar, piecesText_chars _, ?_, rfl⟩
  rw [joinPieces?_chars, Option.map_some, String.ofList_toList]

theorem Padded.of {p : List Char → Prop} {s : List Char} (h : p s) : Padded p s :=
  ⟨[], s, [], Gap.nil, h, Gap.nil, (List.append_nil s).symm⟩

/-- What is written for a double: the literal of a finite one, and null for any other. -/
def Written.ofDouble (d : Double) : Written :=
  match d.wire?.bind fun s => Numeral.read? s.toList with
  | some n => .number n
  | none => .null

theorem Written.ofDouble_spelled (d : Double) :
    (ofDouble d).Spelled (d.wire?.getD "null").toList := by
  cases hfinite : d.isFinite with
  | true =>
    obtain ⟨s, n, hwire, hspelled, -, -⟩ := Double.exists_wire_numeral hfinite
    rw [ofDouble, hwire, Option.bind_some, Numeral.read?_eq_some.mpr hspelled, Option.getD_some]
    exact hspelled
  | false =>
    have hwire : d.wire? = none := by
      cases d with
      | finite negative rank => cases hfinite
      | nan => rfl
      | infinite negative => rfl
    rw [ofDouble, hwire]
    rfl

mutual

/-- A tree as it is written. -/
def Written.ofJson : Json → Written
  | .null => .null
  | .bool b => .bool b
  | .integer n => .number (.ofInt n)
  | .float d => .ofDouble d
  | .text s => .text (some s)
  | .array items => .array (Written.ofItems items)
  | .object members => .object (Written.ofMembers members)

def Written.ofItems : List Json → List Written
  | [] => []
  | j :: rest => Written.ofJson j :: Written.ofItems rest

def Written.ofMembers : List (String × Json) → List (Option String × Written)
  | [] => []
  | (key, j) :: rest => (some key, Written.ofJson j) :: Written.ofMembers rest

end

mutual

theorem render_spelled (j : Json) : (Written.ofJson j).Spelled (render j) := by
  match j with
  | .null => rfl
  | .bool true => rfl
  | .bool false => rfl
  | .integer n =>
    rw [Written.ofJson, render]
    exact Numeral.ofInt_spelled n
  | .float d =>
    rw [Written.ofJson, render]
    exact Written.ofDouble_spelled d
  | .text s =>
    rw [Written.ofJson, render]
    exact renderText_spelled s
  | .array [] => exact ⟨[], Gap.nil, rfl⟩
  | .array (j :: rest) =>
    obtain ⟨body, hbody, hrest⟩ := renderItems_spelled rest
    rw [Written.ofJson, render]
    exact ⟨render j ++ body, ⟨_, body, .of (render_spelled j), hbody, rfl⟩, by simp [hrest]⟩
  | .object [] => exact ⟨[], Gap.nil, rfl⟩
  | .object ((key, j) :: rest) =>
    obtain ⟨body, hbody, hrest⟩ := renderMembers_spelled rest
    rw [Written.ofJson, render]
    exact ⟨renderText key ++ ':' :: (render j ++ body),
      ⟨_, _, body, .of (renderText_spelled key), .of (render_spelled j), hbody, rfl⟩,
      by simp [hrest]⟩

theorem renderItems_spelled (items : List Json) :
    ∃ body, Written.MoreItems (Written.ofItems items) body ∧ renderItems items = body ++ [']'] := by
  match items with
  | [] => exact ⟨[], rfl, rfl⟩
  | j :: rest =>
    obtain ⟨body, hbody, hrest⟩ := renderItems_spelled rest
    exact ⟨_, ⟨_, body, .of (render_spelled j), hbody, rfl⟩, by simp [renderItems, hrest]⟩

theorem renderMembers_spelled (members : List (String × Json)) :
    ∃ body, Written.MoreMembers (Written.ofMembers members) body ∧
      renderMembers members = body ++ ['\x7d'] := by
  match members with
  | [] => exact ⟨[], rfl, rfl⟩
  | (key, j) :: rest =>
    obtain ⟨body, hbody, hrest⟩ := renderMembers_spelled rest
    exact ⟨_, ⟨_, _, body, .of (renderText_spelled key), .of (render_spelled j), hbody, rfl⟩,
      by simp [renderMembers, hrest]⟩

end

/-- The compact text is read as the tree it was written for. -/
theorem written?_compact (j : Json) : written? j.compact = some (Written.ofJson j) := by
  rw [written?_eq_some, compact, String.toList_ofList]
  exact .of (render_spelled j)

theorem ofJson_eq_of_compact {i j : Json} (h : i.compact = j.compact) :
    Written.ofJson i = Written.ofJson j := by
  have hi := written?_compact i
  rw [h, written?_compact] at hi
  exact (Option.some.inj hi).symm

end Inventory.Json
