import Inventory.Proofs.FiniteValue
import Inventory.Value.Json

/-! Values sent as JSON trees and read again. A number without a JSON form arrives as null, and
everything else arrives as it was sent. Objects whose keys ascend are sorted already. -/

namespace Inventory

theorem putEntry_of_lt {α : Type} {key : String} {value : α} {entries : List (String × α)}
    (h : ∀ e ∈ entries, key < e.1) : putEntry key value entries = (key, value) :: entries := by
  cases entries with
  | nil => rfl
  | cons head rest => exact if_pos (h head List.mem_cons_self)

theorem Ascending.map {α β : Type} {entries : List (String × α)} (h : Ascending entries)
    (f : α → β) : Ascending (entries.map fun e => (e.1, f e.2)) :=
  List.pairwise_map.mpr h

theorem Json.sortedMembers_of_ascending {members : List (String × Json)} (h : Ascending members) :
    sortedMembers members = members.map fun e => (e.1, e.2.sorted) := by
  induction members with
  | nil => rfl
  | cons head rest ih =>
    obtain ⟨key, j⟩ := head
    obtain ⟨hkey, hrest⟩ := List.pairwise_cons.mp h
    have hlater : ∀ e ∈ rest.map fun e => (e.1, e.2.sorted), key < e.1 := by
      intro e he
      obtain ⟨e', he', rfl⟩ := List.mem_map.mp he
      exact hkey e' he'
    have hno : ((rest.map fun e => (e.1, e.2.sorted)).any (·.1 == key)) = false := by
      rw [List.any_eq_false]
      intro e he hk
      have hlt := hlater e he
      rw [beq_iff_eq.mp hk] at hlt
      exact String.lt_irrefl _ hlt
    rw [sortedMembers, ih hrest, hno, if_neg Bool.false_ne_true, putEntry_of_lt hlater,
      List.map_cons]

/-- Two members in the wrong order change places. -/
theorem Json.sortedMembers_pair {key later : String} (h : later < key) (j k : Json) :
    sortedMembers [(key, j), (later, k)] = [(later, k.sorted), (key, j.sorted)] := by
  have hne : (later == key) = false := beq_false_of_ne (String.ne_of_lt h)
  have hlast : sortedMembers [(later, k)] = [(later, k.sorted)] := rfl
  rw [sortedMembers, hlast, List.any_cons, hne, List.any_nil, Bool.or_false,
    if_neg Bool.false_ne_true, putEntry, if_neg (String.lt_asymm h), if_neg (String.ne_of_lt h).symm, putEntry]

theorem Json.sortedItems_eq_map (items : List Json) : sortedItems items = items.map sorted := by
  induction items with
  | nil => rfl
  | cons j rest ih => rw [sortedItems, ih, List.map_cons]

namespace Value

theorem allToJson_eq_map (items : List Value) : allToJson items = items.map toJson := by
  induction items with
  | nil => rfl
  | cons v rest ih => rw [allToJson, ih, List.map_cons]

mutual

theorem sorted_toJson (v : Value) : v.toJson.sorted = v.toJson := by
  match v with
  | .null => rfl
  | .bool _ => rfl
  | .int _ => rfl
  | .float d =>
    rw [toJson, Json.ofDouble]
    cases d.isFinite <;> rfl
  | .text _ => rfl
  | .list items => rw [toJson, Json.sorted, sortedItems_allToJson items]

theorem sortedItems_allToJson (items : List Value) :
    Json.sortedItems (allToJson items) = allToJson items := by
  match items with
  | [] => rfl
  | v :: rest => rw [allToJson, Json.sortedItems, sorted_toJson v, sortedItems_allToJson rest]

end

mutual

def received : Value → Value
  | .float d => if d.isFinite then .float d else .null
  | .list items => .list (receivedAll items)
  | .null => .null
  | .bool b => .bool b
  | .int n => .int n
  | .text s => .text s

def receivedAll : List Value → List Value
  | [] => []
  | v :: rest => received v :: receivedAll rest

end

mutual

theorem ofJson?_toJson (v : Value) : ofJson? v.toJson = some v.received := by
  match v with
  | .null => rfl
  | .bool _ => rfl
  | .int n =>
    have hrange : Int64.minValue.toInt ≤ n.toInt ∧ n.toInt ≤ Int64.maxValue.toInt :=
      ⟨n.minValue_le_toInt, n.toInt_le⟩
    rw [toJson, ofJson?, if_pos hrange, Int64.ofInt_toInt, received]
  | .float d =>
    rw [toJson, Json.ofDouble, received]
    cases d.isFinite <;> rfl
  | .text _ => rfl
  | .list items => rw [toJson, ofJson?, allOfJson?_allToJson items, received, Option.map_some]

theorem allOfJson?_allToJson (items : List Value) :
    allOfJson? (allToJson items) = some (receivedAll items) := by
  match items with
  | [] => rfl
  | v :: rest => rw [allToJson, allOfJson?, ofJson?_toJson v, allOfJson?_allToJson rest, receivedAll]

end

mutual

theorem received_eq_self (v : Value) : v.received = v ↔ v.isFinite = true := by
  match v with
  | .null => simp [received, isFinite]
  | .bool _ => simp [received, isFinite]
  | .int _ => simp [received, isFinite]
  | .float d =>
    rw [received, isFinite]
    cases d.isFinite <;> simp
  | .text _ => simp [received, isFinite]
  | .list items => rw [received, isFinite, Value.list.injEq, receivedAll_eq_self items]

theorem receivedAll_eq_self (items : List Value) :
    receivedAll items = items ↔ allFinite items = true := by
  match items with
  | [] => simp [receivedAll, allFinite]
  | v :: rest =>
    rw [receivedAll, allFinite, List.cons.injEq, received_eq_self v, receivedAll_eq_self rest,
      Bool.and_eq_true]

end

end Value

theorem Fields.sorted_toJson (fields : Fields) : fields.toJson.sorted = fields.toJson := by
  have hmembers : Ascending (fields.entries.map fun e => (e.1, e.2.toJson)) :=
    fields.ascending.map Value.toJson
  rw [toJson, Json.sorted, Json.sortedMembers_of_ascending hmembers, List.map_map]
  congr 1
  exact List.map_congr_left fun e _ => by rw [Function.comp_apply, Value.sorted_toJson]

end Inventory
