import Inventory.Proofs.JsonText.Rendered
import Inventory.Proofs.SliceDiff
import Inventory.Proofs.ValueWire

/-! Texts tell trees apart. A reader that rounds each literal once, to the nearest double, gets back
every tree with finite numbers, so such trees with one compact text are equal. Two values have one
canonical text exactly when their normalized forms are equal. -/

namespace Inventory

namespace Json

mutual

/-- Every double inside is finite. -/
def Finite : Json → Prop
  | .array items => ItemsFinite items
  | .object members => MembersFinite members
  | .float d => d.isFinite = true
  | .null => True
  | .bool _ => True
  | .integer _ => True
  | .text _ => True

def ItemsFinite : List Json → Prop
  | [] => True
  | j :: rest => Finite j ∧ ItemsFinite rest

def MembersFinite : List (String × Json) → Prop
  | [] => True
  | (_, j) :: rest => Finite j ∧ MembersFinite rest

end

namespace Numeral

/-- The number of a literal with one rounding, or none if it is that of an integer. -/
def rounded (n : Numeral) : Json :=
  if n.fraction = [] ∧ n.exponent = none then
    .integer (if n.negative then -(Text.ofDigits n.whole : Int) else Text.ofDigits n.whole)
  else .float n.nearest

theorem rounded_ofInt (n : Int) : (ofInt n).rounded = .integer n := by
  have hwhole : Text.ofDigits (ofInt n).whole = n.natAbs := Text.ofDigits_toDigits _
  have hsign : (ofInt n).negative = decide (n < 0) := rfl
  rw [rounded, if_pos ⟨rfl, rfl⟩, hwhole, hsign]
  congr 1
  by_cases hn : n < 0
  · rw [if_pos (decide_eq_true hn)]
    omega
  · rw [if_neg (by simpa using hn)]
    omega

theorem rounded_of_pointed {n : Numeral} (h : n.Pointed) : n.rounded = .float n.nearest := by
  rw [rounded, if_neg]
  rintro ⟨hfraction, hexponent⟩
  rcases h with h | h
  · exact h hfraction
  · exact h hexponent

end Numeral

mutual

/-- What is written, each of its numbers with one rounding. -/
def Written.rounded : Written → Json
  | .null => .null
  | .bool b => .bool b
  | .number n => n.rounded
  | .text content => .text (content.getD "")
  | .array items => .array (Written.roundedItems items)
  | .object members => .object (Written.roundedMembers members)

def Written.roundedItems : List Written → List Json
  | [] => []
  | w :: rest => Written.rounded w :: Written.roundedItems rest

def Written.roundedMembers : List (Option String × Written) → List (String × Json)
  | [] => []
  | (key, w) :: rest => (key.getD "", Written.rounded w) :: Written.roundedMembers rest

end

theorem Written.rounded_ofDouble {d : Double} (h : d.isFinite = true) :
    (Written.ofDouble d).rounded = .float d := by
  obtain ⟨s, n, hwire, hspelled, hpointed, hnearest⟩ := Double.exists_wire_numeral h
  rw [ofDouble, hwire, Option.bind_some, Numeral.read?_eq_some.mpr hspelled]
  simp only [rounded]
  rw [Numeral.rounded_of_pointed hpointed, hnearest]

mutual

/-- One rounding of each literal gives back the tree that was written. -/
theorem rounded_ofJson (j : Json) (h : j.Finite) : (Written.ofJson j).rounded = j := by
  match j with
  | .null | .bool _ => rw [Written.ofJson, Written.rounded]
  | .text s => rw [Written.ofJson, Written.rounded, Option.getD_some]
  | .integer n => rw [Written.ofJson, Written.rounded, Numeral.rounded_ofInt]
  | .float d =>
    rw [Finite] at h
    rw [Written.ofJson, Written.rounded_ofDouble h]
  | .array items =>
    rw [Finite] at h
    rw [Written.ofJson, Written.rounded, roundedItems_ofItems items h]
  | .object members =>
    rw [Finite] at h
    rw [Written.ofJson, Written.rounded, roundedMembers_ofMembers members h]

theorem roundedItems_ofItems (items : List Json) (h : ItemsFinite items) :
    Written.roundedItems (Written.ofItems items) = items := by
  match items with
  | [] => rw [Written.ofItems, Written.roundedItems]
  | j :: rest =>
    rw [ItemsFinite] at h
    rw [Written.ofItems, Written.roundedItems, rounded_ofJson j h.1, roundedItems_ofItems rest h.2]

theorem roundedMembers_ofMembers (members : List (String × Json)) (h : MembersFinite members) :
    Written.roundedMembers (Written.ofMembers members) = members := by
  match members with
  | [] => rw [Written.ofMembers, Written.roundedMembers]
  | (key, j) :: rest =>
    rw [MembersFinite] at h
    rw [Written.ofMembers, Written.roundedMembers, rounded_ofJson j h.1,
      roundedMembers_ofMembers rest h.2, Option.getD_some]

end

theorem compact_injective {i j : Json} (hi : i.Finite) (hj : j.Finite) (h : i.compact = j.compact) :
    i = j := by
  rw [← rounded_ofJson i hi, ofJson_eq_of_compact h, rounded_ofJson j hj]

end Json

namespace Value

mutual

theorem finite_toJson (v : Value) : v.toJson.Finite := by
  match v with
  | .null | .bool _ | .int _ | .text _ => simp [toJson, Json.Finite]
  | .float d =>
    rw [toJson, Json.ofDouble]
    split
    · rename_i hfinite
      rwa [Json.Finite]
    · rw [Json.Finite]
      trivial
  | .list items =>
    rw [toJson, Json.Finite]
    exact finite_allToJson items

theorem finite_allToJson (items : List Value) : Json.ItemsFinite (allToJson items) := by
  match items with
  | [] => simp [allToJson, Json.ItemsFinite]
  | v :: rest =>
    rw [allToJson, Json.ItemsFinite]
    exact ⟨finite_toJson v, finite_allToJson rest⟩

end

theorem toJson_injective {v w : Value} (hv : v.isFinite = true) (hw : w.isFinite = true)
    (h : v.toJson = w.toJson) : v = w := by
  have hread := v.ofJson?_toJson
  rw [h, ofJson?_toJson, (received_eq_self v).mpr hv, (received_eq_self w).mpr hw] at hread
  exact (Option.some.inj hread).symm

/-- Finite values have one text only if they are equal. -/
theorem wire_injective {v w : Value} (hv : v.isFinite = true) (hw : w.isFinite = true)
    (h : v.wire = w.wire) : v = w :=
  toJson_injective hv hw (Json.compact_injective v.finite_toJson w.finite_toJson h)

theorem sameAs_iff_normalized {v w : Value} (hv : v.isFinite = true) (hw : w.isFinite = true) :
    v.sameAs w = true ↔ v.normalized = w.normalized := by
  rw [sameAs_iff]
  constructor
  · exact wire_injective (isFinite_normalized hv) (isFinite_normalized hw)
  · intro h
    rw [canonical, canonical, h]

theorem normalized_eq_null {v : Value} : v.normalized = .null ↔ v = .null := by
  cases v with
  | float d =>
    rw [normalized]
    split <;> simp
  | _ => simp [normalized]

/-- Of two finite values that count as the same both are null or neither. -/
theorem eq_null_iff_of_sameAs {v w : Value} (hv : v.isFinite = true) (hw : w.isFinite = true)
    (h : v.sameAs w = true) : v = .null ↔ w = .null := by
  rw [← normalized_eq_null, (sameAs_iff_normalized hv hw).mp h, normalized_eq_null]

end Value

end Inventory
