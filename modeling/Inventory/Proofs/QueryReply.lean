import Inventory.Proofs.MemberReading
import Inventory.Query

/-! What a query reply says. Its results are an array of objects whose values hold no object at any
depth; they cannot be left out, while the status and the message can. -/

namespace Inventory

namespace Json

mutual

/-- No object stands in it, at any depth. -/
def ObjectFree : Json → Prop
  | .array items => ItemsObjectFree items
  | .object _ => False
  | .null => True
  | .bool _ => True
  | .integer _ => True
  | .float _ => True
  | .text _ => True

def ItemsObjectFree : List Json → Prop
  | [] => True
  | j :: rest => ObjectFree j ∧ ItemsObjectFree rest

end

/-- The attributes of an object of the service. -/
def IsRow : Json → Prop
  | .object members => ∀ e ∈ members, e.2.ObjectFree
  | _ => False

def IsTable : Json → Prop
  | .array items => ∀ item ∈ items, item.IsRow
  | _ => False

end Json

namespace Value

mutual

theorem ofJson?_isSome (j : Json) : (∃ v, ofJson? j = some v) ↔ j.ObjectFree := by
  match j with
  | .null | .bool _ | .float _ | .text _ => simp [ofJson?, Json.ObjectFree]
  | .integer n =>
    rw [ofJson?, Json.ObjectFree]
    split <;> simp
  | .array items =>
    rw [ofJson?, Json.ObjectFree, ← allOfJson?_isSome items]
    simp
  | .object _ => simp [ofJson?, Json.ObjectFree]

theorem allOfJson?_isSome (items : List Json) :
    (∃ vs, allOfJson? items = some vs) ↔ Json.ItemsObjectFree items := by
  match items with
  | [] => simp [allOfJson?, Json.ItemsObjectFree]
  | j :: rest =>
    rw [allOfJson?, Json.ItemsObjectFree, ← ofJson?_isSome j, ← allOfJson?_isSome rest]
    cases ofJson? j <;> cases allOfJson? rest <;> simp

end

theorem ofJson_eq_ok {j : Json} {v : Value} : ofJson j = .ok v ↔ ofJson? j = some v := by
  rw [ofJson]
  cases ofJson? j <;> simp

end Value

namespace Fields

theorem readMembers_isOk {members : List (String × Json)} {fields : Fields} :
    (∃ row, readMembers members fields = .ok row) ↔ ∀ e ∈ members, e.2.ObjectFree := by
  induction members generalizing fields with
  | nil => simp [readMembers]
  | cons head rest ih =>
    obtain ⟨key, j⟩ := head
    rw [List.forall_mem_cons, ← Value.ofJson?_isSome j, readMembers, Value.ofJson]
    cases Value.ofJson? j with
    | none => simp
    | some v => simpa using ih

theorem ofJson_isOk {j : Json} : (∃ row, ofJson j = .ok row) ↔ j.IsRow := by
  cases j with
  | object members => exact readMembers_isOk
  | _ => simp [ofJson, Json.IsRow]

theorem allOfJson_isOk {items : List Json} :
    (∃ rows, allOfJson items = .ok rows) ↔ ∀ item ∈ items, item.IsRow := by
  induction items with
  | nil => simp [allOfJson]
  | cons j rest ih =>
    rw [List.forall_mem_cons, ← ofJson_isOk, ← ih, allOfJson]
    cases ofJson j with
    | error e => simp
    | ok row => cases allOfJson rest <;> simp [Except.map]

/-- The results of a query are read exactly when they are a table. -/
theorem listOfJson_isOk {j : Json} : (∃ rows, listOfJson j = .ok rows) ↔ j.IsTable := by
  cases j with
  | array items => exact allOfJson_isOk
  | _ => simp [listOfJson, Json.IsTable]

end Fields

namespace QueryReply

theorem jsonFields_commute : jsonFields.Pairwise Json.Field.Commutes := by
  simp only [jsonFields, List.pairwise_cons, List.forall_mem_cons, List.not_mem_nil, false_implies,
    implies_true, and_true, List.Pairwise.nil]
  refine ⟨⟨?_, ?_⟩, ?_⟩ <;>
    exact Json.Field.commutes_of_put (fun _ _ => rfl) (fun _ _ => rfl) fun _ _ _ => rfl

theorem readMembers_eq_ok {members : List (String × Json)} {acc r : QueryReply}
    (hkeys : (members.map (·.1)).Nodup) :
    Json.readMembers jsonFields members acc = .ok r ↔
      Json.ReadsPart Json.toText? (members.lookup "status") acc.status r.status ∧
      Json.ReadsPart Json.toText? (members.lookup "message") acc.message r.message ∧
      Json.ReadsPart Fields.listOfJson (members.lookup "result") acc.result r.result := by
  have hstatus : ∀ acc mid : QueryReply, ∀ found,
      Json.ReadsPart (fun j => j.toText?.map fun s => { acc with status := s }) found acc mid ↔
        ∃ s, Json.ReadsPart Json.toText? found acc.status s ∧ mid = { acc with status := s } :=
    fun _ _ _ => Json.readsPart_map
  have hmessage : ∀ acc mid : QueryReply, ∀ found,
      Json.ReadsPart (fun j => j.toText?.map fun s => { acc with message := s }) found acc mid ↔
        ∃ s, Json.ReadsPart Json.toText? found acc.message s ∧ mid = { acc with message := s } :=
    fun _ _ _ => Json.readsPart_map
  have hresult : ∀ acc mid : QueryReply, ∀ found,
      Json.ReadsPart (fun j => (Fields.listOfJson j).map fun l => { acc with result := l })
          found acc mid ↔
        ∃ l, Json.ReadsPart Fields.listOfJson found acc.result l ∧ mid = { acc with result := l } :=
    fun _ _ _ => Json.readsPart_map
  rw [Json.readMembers_eq_ok_iff_gathers (by decide) jsonFields_commute hkeys]
  simp only [jsonFields, Json.Gathers, hstatus, hmessage, hresult]
  constructor
  · rintro ⟨_, ⟨s, hs, rfl⟩, _, ⟨m, hm, rfl⟩, _, ⟨l, hl, rfl⟩, rfl⟩
    exact ⟨hs, hm, hl⟩
  · rintro ⟨hs, hm, hl⟩
    exact ⟨_, ⟨_, hs, rfl⟩, _, ⟨_, hm, rfl⟩, _, ⟨_, hl, rfl⟩, rfl⟩

theorem ofJson_object {members : List (String × Json)} {r : QueryReply}
    (hkeys : (members.map (·.1)).Nodup) : ofJson (.object members) = .ok r ↔
      members.lookup "result" ≠ none ∧
      Json.ReadsPart Json.toText? (members.lookup "status") none r.status ∧
      Json.ReadsPart Json.toText? (members.lookup "message") none r.message ∧
      Json.ReadsPart Fields.listOfJson (members.lookup "result") [] r.result := by
  rw [ofJson, Json.toRecord_object_eq_ok, readMembers_eq_ok hkeys, and_comm]
  simp [jsonFields]

theorem records_eq_ok {j : Json} {set : RecordSet} : records j = .ok set ↔
    ∃ r, ofJson j = .ok r ∧ r.status ≠ some "error" ∧ set = ⟨r.result.map Record.ofFields⟩ := by
  rw [records]
  cases ofJson j with
  | error e => simp
  | ok r =>
    by_cases hstatus : r.status = some "error"
    · simp [hstatus]
    · simp [hstatus, eq_comm]

/-- Without results nothing else of a reply is told. -/
theorem ofJson_object_of_absent {members : List (String × Json)} {status message : Option String}
    (hkeys : (members.map (·.1)).Nodup) (hresult : members.lookup "result" = none)
    (hstatus : Json.ReadsPart Json.toText? (members.lookup "status") none status)
    (hmessage : Json.ReadsPart Json.toText? (members.lookup "message") none message) :
    ofJson (.object members) = .error (.missing "result") := by
  have hread : Json.readMembers jsonFields members ⟨none, none, []⟩ =
      .ok ⟨status, message, []⟩ := by
    rw [readMembers_eq_ok hkeys, hresult]
    exact ⟨hstatus, hmessage, rfl⟩
  have hany : members.any (·.1 == "result") = false := by
    rw [any_key_eq, hresult, Option.isSome_none]
  exact Json.toRecord_object_of_missing hread (by simp [jsonFields, hany])

end QueryReply

end Inventory
