import Inventory.Proofs.JsonText.Rendered
import Mathlib.Algebra.Ring.Int.Defs

/-! What a tree as written denotes. It denotes a tree of JSON when it is legible and its brackets
nest no deeper than allowed. A tree of JSON whose numbers are read back denotes itself once
written. -/

namespace Inventory

/-- The reader takes the literal written for the number to be that very number. The reader computes
with roundings of its own, so this has to be asked for. -/
def Double.ReadsBack (d : Double) : Prop :=
  ∀ s n, d.wire? = some s → Json.Numeral.read? s.toList = some n → n.toDouble? = some d

namespace Json

/-- Whether the literal denotes a number. -/
def Numeral.InRange (n : Numeral) : Prop := ∃ j, n.toJson? = some j

namespace Written

mutual

/-- How deep the brackets nest. -/
def nesting : Written → Nat
  | .array items => itemsNesting items + 1
  | .object members => membersNesting members + 1
  | .null => 0
  | .bool _ => 0
  | .number _ => 0
  | .text _ => 0

def itemsNesting : List Written → Nat
  | [] => 0
  | w :: rest => max (nesting w) (itemsNesting rest)

def membersNesting : List (Option String × Written) → Nat
  | [] => 0
  | (_, w) :: rest => max (nesting w) (membersNesting rest)

end

mutual

/-- Every number is in range, and no text holds a surrogate that stands alone. -/
def Legible : Written → Prop
  | .array items => ItemsLegible items
  | .object members => MembersLegible members
  | .null => True
  | .bool _ => True
  | .number n => n.InRange
  | .text content => content ≠ none

def ItemsLegible : List Written → Prop
  | [] => True
  | w :: rest => Legible w ∧ ItemsLegible rest

def MembersLegible : List (Option String × Written) → Prop
  | [] => True
  | (key, w) :: rest => key ≠ none ∧ Legible w ∧ MembersLegible rest

end

mutual

theorem toJson?_isSome (w : Written) (levels : Nat) :
    (w.toJson? levels).isSome ↔ w.nesting ≤ levels ∧ w.Legible := by
  match w with
  | .null => simp [toJson?, nesting, Legible]
  | .bool b => simp [toJson?, nesting, Legible]
  | .number n => simp [toJson?, nesting, Legible, Numeral.InRange, Option.isSome_iff_exists]
  | .text content => simp [toJson?, nesting, Legible, Option.isSome_iff_ne_none]
  | .array items =>
    cases levels with
    | zero => simp [toJson?, nesting]
    | succ levels => simp [toJson?, nesting, Legible, itemsToJson?_isSome items levels]
  | .object members =>
    cases levels with
    | zero => simp [toJson?, nesting]
    | succ levels => simp [toJson?, nesting, Legible, membersToJson?_isSome members levels]

theorem itemsToJson?_isSome (items : List Written) (levels : Nat) :
    (itemsToJson? levels items).isSome ↔ itemsNesting items ≤ levels ∧ ItemsLegible items := by
  match items with
  | [] => simp [itemsToJson?, itemsNesting, ItemsLegible]
  | w :: rest =>
    have hw := toJson?_isSome w levels
    have hrest := itemsToJson?_isSome rest levels
    have hboth : (itemsToJson? levels (w :: rest)).isSome ↔
        (w.toJson? levels).isSome ∧ (itemsToJson? levels rest).isSome := by
      rw [itemsToJson?]
      cases w.toJson? levels <;> cases itemsToJson? levels rest <;> simp
    rw [hboth, hw, hrest, itemsNesting, ItemsLegible, Nat.max_le]
    exact and_and_and_comm

theorem membersToJson?_isSome (members : List (Option String × Written)) (levels : Nat) :
    (membersToJson? levels members).isSome ↔
      membersNesting members ≤ levels ∧ MembersLegible members := by
  match members with
  | [] => simp [membersToJson?, membersNesting, MembersLegible]
  | (key, w) :: rest =>
    have hw := toJson?_isSome w levels
    have hrest := membersToJson?_isSome rest levels
    have hall : (membersToJson? levels ((key, w) :: rest)).isSome ↔
        key ≠ none ∧ (w.toJson? levels).isSome ∧ (membersToJson? levels rest).isSome := by
      rw [membersToJson?.eq_def]
      dsimp only
      cases key <;> cases w.toJson? levels <;> cases membersToJson? levels rest <;> simp
    rw [hall, hw, hrest, membersNesting, MembersLegible, Nat.max_le, ← and_and_and_comm]
    exact and_left_comm

end

end Written

mutual

/-- How deep arrays and objects nest. -/
def nesting : Json → Nat
  | .array items => itemsNesting items + 1
  | .object members => membersNesting members + 1
  | .null => 0
  | .bool _ => 0
  | .integer _ => 0
  | .float _ => 0
  | .text _ => 0

def itemsNesting : List Json → Nat
  | [] => 0
  | j :: rest => max (nesting j) (itemsNesting rest)

def membersNesting : List (String × Json) → Nat
  | [] => 0
  | (_, j) :: rest => max (nesting j) (membersNesting rest)

end

mutual

/-- Every number is read back: the integers fit 64 bits, and the doubles are finite and survive. -/
def Readable : Json → Prop
  | .array items => ItemsReadable items
  | .object members => MembersReadable members
  | .null => True
  | .bool _ => True
  | .integer n => -(2 ^ 63) ≤ n ∧ n < 2 ^ 64
  | .float d => d.isFinite = true ∧ d.ReadsBack
  | .text _ => True

def ItemsReadable : List Json → Prop
  | [] => True
  | j :: rest => Readable j ∧ ItemsReadable rest

def MembersReadable : List (String × Json) → Prop
  | [] => True
  | (_, j) :: rest => Readable j ∧ MembersReadable rest

end

theorem Numeral.toJson?_ofInt {n : Int} (hlow : -(2 ^ 63) ≤ n) (hhigh : n < 2 ^ 64) :
    (ofInt n).toJson? = some (.integer n) := by
  have hwhole : Text.ofDigits (ofInt n).whole = n.natAbs := Text.ofDigits_toDigits _
  have hsign : (ofInt n).negative = decide (n < 0) := rfl
  have hbits : (1 : Nat) <<< 63 = 2 ^ 63 := rfl
  have hsize : UInt64.size = 2 ^ 64 := rfl
  have hrange : if (ofInt n).negative then
      0 < Text.ofDigits (ofInt n).whole ∧ Text.ofDigits (ofInt n).whole ≤ 1 <<< 63
      else Text.ofDigits (ofInt n).whole < UInt64.size := by
    rw [hwhole, hbits, hsize, hsign]
    by_cases hn : n < 0
    · rw [if_pos (decide_eq_true hn)]
      omega
    · rw [if_neg (by simpa using hn)]
      omega
  rw [toJson?, if_pos ⟨rfl, rfl, hrange⟩, hwhole, hsign]
  congr 2
  by_cases hn : n < 0
  · rw [if_pos (decide_eq_true hn)]
    omega
  · rw [if_neg (by simpa using hn)]
    omega

theorem Numeral.toJson?_of_pointed {n : Numeral} (h : n.Pointed) :
    n.toJson? = n.toDouble?.map .float := by
  rw [toJson?]
  rcases h with h | h <;> simp [h]

theorem Written.toJson?_ofDouble {d : Double} (hfinite : d.isFinite = true) (h : d.ReadsBack)
    (levels : Nat) : (ofDouble d).toJson? levels = some (.float d) := by
  obtain ⟨s, n, hwire, hspelled, hpointed, -⟩ := Double.exists_wire_numeral hfinite
  have hread := Numeral.read?_eq_some.mpr hspelled
  rw [ofDouble, hwire, Option.bind_some, hread]
  simp only [toJson?]
  rw [Numeral.toJson?_of_pointed hpointed, h s n hwire hread, Option.map_some]

mutual

/-- A tree whose numbers are read back denotes itself once written. -/
theorem toJson?_ofJson (j : Json) {levels : Nat} (h : j.Readable) (hlevels : j.nesting ≤ levels) :
    (Written.ofJson j).toJson? levels = some j := by
  match j with
  | .null => rw [Written.ofJson, Written.toJson?]
  | .bool b => rw [Written.ofJson, Written.toJson?]
  | .integer n =>
    rw [Readable] at h
    rw [Written.ofJson, Written.toJson?, Numeral.toJson?_ofInt h.1 h.2]
  | .float d =>
    rw [Readable] at h
    rw [Written.ofJson, Written.toJson?_ofDouble h.1 h.2]
  | .text s => rw [Written.ofJson, Written.toJson?, Option.map_some]
  | .array items =>
    rw [Readable] at h
    rw [nesting] at hlevels
    obtain ⟨rest, rfl⟩ : ∃ rest, levels = rest + 1 := ⟨levels - 1, by omega⟩
    rw [Written.ofJson, Written.toJson?,
      itemsToJson?_ofItems items h (by omega), Option.map_some]
  | .object members =>
    rw [Readable] at h
    rw [nesting] at hlevels
    obtain ⟨rest, rfl⟩ : ∃ rest, levels = rest + 1 := ⟨levels - 1, by omega⟩
    rw [Written.ofJson, Written.toJson?,
      membersToJson?_ofMembers members h (by omega), Option.map_some]

theorem itemsToJson?_ofItems (items : List Json) {levels : Nat} (h : ItemsReadable items)
    (hlevels : itemsNesting items ≤ levels) :
    Written.itemsToJson? levels (Written.ofItems items) = some items := by
  match items with
  | [] => rw [Written.ofItems, Written.itemsToJson?]
  | j :: rest =>
    rw [ItemsReadable] at h
    rw [itemsNesting, Nat.max_le] at hlevels
    rw [Written.ofItems, Written.itemsToJson?, toJson?_ofJson j h.1 hlevels.1,
      itemsToJson?_ofItems rest h.2 hlevels.2]

theorem membersToJson?_ofMembers (members : List (String × Json)) {levels : Nat}
    (h : MembersReadable members) (hlevels : membersNesting members ≤ levels) :
    Written.membersToJson? levels (Written.ofMembers members) = some members := by
  match members with
  | [] => rw [Written.ofMembers, Written.membersToJson?]
  | (key, j) :: rest =>
    rw [MembersReadable] at h
    rw [membersNesting, Nat.max_le] at hlevels
    have hj := toJson?_ofJson j h.1 hlevels.1
    have hrest := membersToJson?_ofMembers rest h.2 hlevels.2
    simp only [Written.ofMembers, Written.membersToJson?, hj, hrest]

end

/-- The compact text of such a tree is read as the tree. -/
theorem parse?_compact {j : Json} (h : j.Readable) (hnesting : j.nesting ≤ maxNesting) :
    parse? j.compact = some j := by
  rw [parse?, written?_compact]
  exact toJson?_ofJson j h hnesting

namespace Numeral

theorem isFinite_neg (d : Double) : d.neg.isFinite = d.isFinite := by
  cases d <;> rfl

theorem isFinite_of_kept {d kept : Double} (h : (if d.isFinite then some d else none) = some kept) :
    kept.isFinite = true := by
  split at h
  · rename_i hfinite
    exact Option.some.inj h ▸ hfinite
  · cases h

theorem isFinite_of_scale? {d scaled : Double} {exponent : Int}
    (h : scale? d exponent = some scaled) : scaled.isFinite = true := by
  induction d, exponent using scale?.induct with
  | case1 d exponent hsmall | case2 d exponent hsmall =>
    rw [scale?, if_pos hsmall] at h
    exact isFinite_of_kept h
  | case3 d exponent hsmall hzero =>
    rw [scale?, if_neg hsmall, if_pos hzero] at h
    obtain rfl := Option.some.inj h
    cases d with
    | finite negative rank => rfl
    | nan => cases hzero
    | infinite negative => cases hzero
  | case4 d exponent hsmall hzero hlarge =>
    rw [scale?, if_neg hsmall, if_neg hzero, if_pos hlarge] at h
    cases h
  | case5 d exponent hsmall hzero hlarge ih =>
    rw [scale?, if_neg hsmall, if_neg hzero, if_neg hlarge] at h
    exact ih h

theorem isFinite_of_toDouble? {n : Numeral} {d : Double} (h : n.toDouble? = some d) :
    d.isFinite = true := by
  simp only [toDouble?] at h
  obtain ⟨scaled, hscaled, rfl⟩ := Option.map_eq_some_iff.mp h
  have hfinite := isFinite_of_scale? hscaled
  split
  · rwa [isFinite_neg]
  · exact hfinite

/-- A literal denotes an integer that fits 64 bits or a finite double. -/
theorem toJson?_cases {n : Numeral} {j : Json} (h : n.toJson? = some j) :
    (∃ i, j = .integer i ∧ -(2 ^ 63) ≤ i ∧ i < 2 ^ 64) ∨ ∃ d, j = .float d ∧ d.isFinite = true := by
  have hbits : (1 : Nat) <<< 63 = 2 ^ 63 := rfl
  have hsize : UInt64.size = 2 ^ 64 := rfl
  by_cases hinteger : n.fraction = [] ∧ n.exponent = none ∧
      (if n.negative then 0 < Text.ofDigits n.whole ∧ Text.ofDigits n.whole ≤ 1 <<< 63
        else Text.ofDigits n.whole < UInt64.size)
  · rw [toJson?, if_pos hinteger] at h
    obtain rfl := Option.some.inj h
    obtain ⟨-, -, hrange⟩ := hinteger
    rw [hbits, hsize] at hrange
    refine .inl ⟨_, rfl, ?_⟩
    cases hnegative : n.negative with
    | true =>
      rw [if_pos hnegative] at hrange
      rw [if_pos rfl]
      omega
    | false =>
      rw [hnegative, if_neg Bool.false_ne_true] at hrange
      rw [if_neg Bool.false_ne_true]
      omega
  · rw [toJson?, if_neg hinteger] at h
    obtain ⟨d, hd, rfl⟩ := Option.map_eq_some_iff.mp h
    exact .inr ⟨d, rfl, isFinite_of_toDouble? hd⟩

end Numeral

end Json

end Inventory
