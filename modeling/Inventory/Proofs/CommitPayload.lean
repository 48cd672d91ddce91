import Inventory.Proofs.CommitOutcome
import Inventory.Proofs.CommitPartition
import Inventory.Proofs.Delta
import Inventory.Proofs.ValueWire

/-! What of a commit request reaches the transport. The identity of a change set and its changes
share one object, so a changed identity takes the place of the identity itself; every other change
set can be read back, as far as its numbers have a JSON form. -/

namespace Inventory

namespace FieldChange

def payload : FieldChange → Json
  | .update old new =>
    .object [("action", .text "update"), ("new", new.toJson), ("old", old.toJson)]
  | .multi add remove =>
    .object [("action", .text "multi"), ("add", .array (add.map Value.toJson)),
      ("remove", .array (remove.map Value.toJson))]

def isFinite : FieldChange → Bool
  | .update old new => old.isFinite && new.isFinite
  | .multi add remove => Value.allFinite add && Value.allFinite remove

def received : FieldChange → FieldChange
  | .update old new => .update old.received new.received
  | .multi add remove => .multi (Value.receivedAll add) (Value.receivedAll remove)

def valuesOfJson? : Json → Option (List Value)
  | .array items => Value.allOfJson? items
  | _ => none

def ofJson? : Json → Option FieldChange
  | .object members =>
    match members.lookup "action" with
    | some (.text "update") =>
      (members.lookup "old").bind fun old => (members.lookup "new").bind fun new =>
        (Value.ofJson? old).bind fun old => (Value.ofJson? new).map (.update old)
    | some (.text "multi") =>
      (members.lookup "add").bind fun add => (members.lookup "remove").bind fun remove =>
        (valuesOfJson? add).bind fun add => (valuesOfJson? remove).map (.multi add)
    | _ => none
  | _ => none

theorem sorted_toJson (change : FieldChange) : change.toJson.sorted = change.payload := by
  cases change with
  | update old new =>
    have hvalues : Json.sortedMembers [("old", old.toJson), ("new", new.toJson)] =
        [("new", new.toJson), ("old", old.toJson)] := by
      rw [Json.sortedMembers_pair (by decide), Value.sorted_toJson, Value.sorted_toJson]
    have hlater : ∀ e ∈ [("new", new.toJson), ("old", old.toJson)], ("action" : String) < e.1 := by
      simp only [List.forall_mem_cons]
      decide
    rw [toJson, Json.sorted, Json.sortedMembers, hvalues, putEntry_of_lt hlater]
    rfl
  | multi add remove =>
    have hitems : ∀ items : List Value,
        (Json.array (items.map Value.toJson)).sorted = .array (items.map Value.toJson) := by
      intro items
      rw [← Value.allToJson_eq_map, Json.sorted, Value.sortedItems_allToJson]
    have hkeys : Ascending [("action", Json.text "multi"), ("add", .array (add.map Value.toJson)),
        ("remove", .array (remove.map Value.toJson))] := by
      simp only [Ascending, List.pairwise_cons, List.forall_mem_cons, and_true, List.Pairwise.nil]
      decide
    rw [toJson, Json.sorted, Json.sortedMembers_of_ascending hkeys]
    simp only [List.map_cons, List.map_nil, hitems]
    rfl

theorem ofJson?_payload (change : FieldChange) : ofJson? change.payload = some change.received := by
  cases change with
  | update old new => simp [payload, ofJson?, received, lookup_cons_eq, Value.ofJson?_toJson]
  | multi add remove =>
    simp [payload, ofJson?, received, lookup_cons_eq, valuesOfJson?, ← Value.allToJson_eq_map,
      Value.allOfJson?_allToJson]

theorem received_eq_self {change : FieldChange} :
    change.received = change ↔ change.isFinite = true := by
  cases change with
  | update old new => simp [received, isFinite, Value.received_eq_self]
  | multi add remove => simp [received, isFinite, Value.receivedAll_eq_self]

end FieldChange

namespace ChangeSet

def payload (c : ChangeSet) : TextMap Json := c.changes.filterMap fun _ change => some change.payload

def received (c : ChangeSet) : ChangeSet :=
  { c with changes := c.changes.filterMap fun _ change => some change.received }

def identity (c : ChangeSet) : Json := (c.objectId.map fun id => Json.integer id.toInt).getD .null

/-- The identity gives way to a change of the same name. -/
def sent (c : ChangeSet) : TextMap Json :=
  if (c.get? objectIdName).isSome then c.payload else c.payload.insert objectIdName c.identity

def ofJson? : Json → Option ChangeSet
  | .object members =>
    match members.lookup objectIdName with
    | some (.integer n) =>
      ((members.filter (·.1 ≠ objectIdName)).mapM fun e =>
          (FieldChange.ofJson? e.2).map (e.1, ·)).map fun changes =>
        ⟨some (.ofInt n), .ofList changes⟩
    | _ => none
  | _ => none

def IsFinite (c : ChangeSet) : Prop :=
  ∀ field change, c.get? field = some change → change.isFinite = true

theorem payload_entries (c : ChangeSet) :
    c.payload.entries = c.changes.entries.map fun e => (e.1, e.2.payload) := by
  simp [payload, TextMap.filterMap, List.filterMap_eq_map']

theorem get?_payload (c : ChangeSet) (field : String) :
    c.payload.get? field = (c.get? field).map FieldChange.payload := by
  rw [payload, TextMap.get?_filterMap, get?]
  cases c.changes.get? field <;> rfl

theorem sorted_toJson (c : ChangeSet) : c.toJson.sorted = .object c.sent.entries := by
  have hchanges : Ascending (c.changes.entries.map fun e => (e.1, e.2.toJson)) :=
    c.changes.ascending.map FieldChange.toJson
  have hlater : Json.sortedMembers (c.changes.entries.map fun e => (e.1, e.2.toJson)) =
      c.payload.entries := by
    rw [Json.sortedMembers_of_ascending hchanges, List.map_map, payload_entries]
    exact List.map_congr_left fun e _ => by rw [Function.comp_apply, FieldChange.sorted_toJson]
  have hidentity : c.identity.sorted = c.identity := by
    rw [identity]
    cases c.objectId <;> rfl
  have hany : c.payload.entries.any (·.1 == objectIdName) = (c.get? objectIdName).isSome := by
    have hget := c.get?_payload objectIdName
    rw [TextMap.get?] at hget
    rw [any_key_eq, hget, Option.isSome_map]
  rw [toJson, Json.sorted, Json.sortedMembers, hlater, hany, sent]
  cases (c.get? objectIdName).isSome with
  | true => rfl
  | false =>
    rw [if_neg Bool.false_ne_true, if_neg Bool.false_ne_true]
    exact congrArg (fun j => Json.object (putEntry objectIdName j c.payload.entries)) hidentity

/-- The object of a change set: the identity as an integer, and under every other name the change of
that attribute. -/
structure FlatIn (c : ChangeSet) (members : List (String × Json)) : Prop where
  identity : ∃ id, c.objectId = some id ∧
    members.lookup objectIdName = some (.integer id.toInt)
  changes : ∀ field, field ≠ objectIdName →
    members.lookup field = (c.get? field).map FieldChange.payload
  keys : (members.map (·.1)).Nodup
  size : members.length = 1 + c.changes.size

/-- What the members of an object tell of a change set. A change of the identity hides it. -/
structure Arrives (c : ChangeSet) (members : List (String × Json)) : Prop where
  flat_iff : c.FlatIn members ↔ c.get? objectIdName = none
  read_iff : ofJson? (.object members) = some c ↔ c.get? objectIdName = none ∧ c.IsFinite
  hidden : ∀ change, c.get? objectIdName = some change →
    members.lookup objectIdName = some change.payload ∧ members.length = c.changes.size

theorem received_eq_self {c : ChangeSet} : c.received = c ↔ c.IsFinite := by
  obtain ⟨id, changes⟩ := c
  rw [received, ChangeSet.mk.injEq, IsFinite]
  constructor
  · rintro ⟨-, h⟩ field change hc
    have hget : (changes.get? field).map FieldChange.received = changes.get? field := by
      conv => rhs; rw [← h]
      rw [TextMap.get?_filterMap]
      cases changes.get? field <;> rfl
    have hsome : changes.get? field = some change := hc
    rw [hsome, Option.map_some, Option.some.injEq] at hget
    exact FieldChange.received_eq_self.mp hget
  · intro h
    refine ⟨rfl, TextMap.ext_get? fun field => ?_⟩
    rw [TextMap.get?_filterMap]
    cases hc : changes.get? field with
    | none => rfl
    | some change => exact congrArg some (FieldChange.received_eq_self.mpr (h field change hc))

theorem readChanges_payload (entries : List (String × FieldChange)) :
    (entries.map fun e => (e.1, e.2.payload)).mapM
        (fun e => (FieldChange.ofJson? e.2).map (e.1, ·)) =
      some (entries.map fun e => (e.1, e.2.received)) := by
  induction entries with
  | nil => rfl
  | cons e rest ih =>
    rw [List.map_cons, List.mapM_cons, ih, FieldChange.ofJson?_payload]
    rfl

/-- Beside its identity a change set is read as it arrives. -/
theorem ofJson?_insert {c : ChangeSet} {id : Int64} (hid : c.objectId = some id)
    (h : c.get? objectIdName = none) :
    ofJson? (.object (c.payload.insert objectIdName (.integer id.toInt)).entries) =
      some c.received := by
  have hlookup : (c.payload.insert objectIdName (.integer id.toInt)).entries.lookup objectIdName =
      some (.integer id.toInt) := by
    have hget := TextMap.get?_insert c.payload objectIdName objectIdName (.integer id.toInt)
    rwa [if_pos rfl] at hget
  have hothers : (c.payload.insert objectIdName (.integer id.toInt)).entries.filter
      (·.1 ≠ objectIdName) = c.changes.entries.map fun e => (e.1, e.2.payload) := by
    have hentries : (c.payload.insert objectIdName (.integer id.toInt)).entries =
        putEntry objectIdName (.integer id.toInt) c.payload.entries := rfl
    rw [hentries, filter_putEntry, payload_entries, List.filter_eq_self]
    intro e he
    obtain ⟨⟨field, change⟩, hm, rfl⟩ := List.mem_map.mp he
    have hget : c.get? field = some change := TextMap.mem_entries.mp hm
    simp only [ne_eq, decide_not, Bool.not_eq_true', decide_eq_false_iff_not]
    rintro rfl
    rw [h] at hget
    cases hget
  have hreceived : (c.changes.entries.map fun e => (e.1, e.2.received)) =
      (c.changes.filterMap fun _ change => some change.received).entries := by
    simp [TextMap.filterMap, List.filterMap_eq_map']
  rw [ofJson?, hlookup]
  simp only
  rw [hothers, readChanges_payload, Option.map_some, hreceived, TextMap.ofList_entries,
    Int64.ofInt_toInt, received, hid]

theorem length_payload (c : ChangeSet) : c.payload.entries.length = c.changes.size := by
  rw [payload_entries, List.length_map]
  rfl

theorem arrives_kept {c : ChangeSet} {id : Int64} (hid : c.objectId = some id)
    (h : c.get? objectIdName = none) :
    c.Arrives (c.payload.insert objectIdName (.integer id.toInt)).entries := by
  have hlookup : c.payload.entries.lookup objectIdName = none := by
    have hget := c.get?_payload objectIdName
    rwa [h] at hget
  refine ⟨iff_of_true ⟨⟨id, hid, ?_⟩, fun field hf => ?_, ?_, ?_⟩ h, ?_, fun change hc => ?_⟩
  · exact (TextMap.get?_insert _ _ _ _).trans (if_pos rfl)
  · rw [← get?_payload]
    exact (TextMap.get?_insert _ _ _ _).trans (if_neg hf)
  · exact TextMap.nodup_keys _
  · rw [← length_payload, Nat.add_comm]
    exact length_putEntry hlookup _
  · rw [ofJson?_insert hid h, Option.some.injEq, received_eq_self]
    simp [h]
  · rw [h] at hc
    cases hc

theorem arrives_hidden {c : ChangeSet} {change : FieldChange}
    (h : c.get? objectIdName = some change) : c.Arrives c.payload.entries := by
  have hlookup : c.payload.entries.lookup objectIdName = some change.payload := by
    have hget := c.get?_payload objectIdName
    rwa [h] at hget
  have hne : c.get? objectIdName ≠ none := by
    rw [h]
    exact nofun
  refine ⟨iff_of_false ?_ hne, iff_of_false ?_ fun hread => hne hread.1, fun change' hc => ?_⟩
  · rintro ⟨⟨id, -, hinteger⟩, -, -, -⟩
    rw [hlookup] at hinteger
    cases change <;> cases hinteger
  · rw [ofJson?, hlookup]
    cases change <;> exact nofun
  · obtain rfl := Option.some.inj (h.symm.trans hc)
    exact ⟨hlookup, c.length_payload⟩

theorem arrives {c : ChangeSet} {id : Int64} (hid : c.objectId = some id) :
    ∃ members, c.toJson.sorted = .object members ∧ c.Arrives members := by
  have hidentity : c.identity = .integer id.toInt := by rw [identity, hid]; rfl
  refine ⟨_, c.sorted_toJson, ?_⟩
  rw [sent, hidentity]
  cases h : c.get? objectIdName with
  | none =>
    rw [Option.isSome_none, if_neg Bool.false_ne_true]
    exact arrives_kept hid h
  | some change =>
    rw [Option.isSome_some, if_pos rfl]
    exact arrives_hidden h

end ChangeSet

namespace CommitRequest

theorem sorted_toJson (request : CommitRequest) :
    request.toJson.sorted = .object [
      ("changed", .array (request.changed.map fun c => c.toJson.sorted)),
      ("created", .array (request.created.map Fields.toJson)),
      ("deleted", .array (request.deleted.map fun id => .integer id.toInt))] := by
  have hcreated : (Json.array (request.created.map Fields.toJson)).sorted =
      .array (request.created.map Fields.toJson) := by
    rw [Json.sorted, Json.sortedItems_eq_map, List.map_map]
    congr 1
    exact List.map_congr_left fun fields _ => fields.sorted_toJson
  have hchanged : (Json.array (request.changed.map ChangeSet.toJson)).sorted =
      .array (request.changed.map fun c => c.toJson.sorted) := by
    rw [Json.sorted, Json.sortedItems_eq_map, List.map_map]
    rfl
  have hdeleted : (Json.array (request.deleted.map fun id => Json.integer id.toInt)).sorted =
      .array (request.deleted.map fun id => .integer id.toInt) := by
    rw [Json.sorted, Json.sortedItems_eq_map, List.map_map]
    rfl
  have hkeys : Ascending [("changed", Json.array (request.changed.map ChangeSet.toJson)),
      ("deleted", .array (request.deleted.map fun id => .integer id.toInt))] := by
    simp only [Ascending, List.pairwise_cons, List.forall_mem_cons, and_true, List.Pairwise.nil]
    decide
  have hfirst : ¬("created" : String) < "changed" := by decide
  have hlast : ("created" : String) < "deleted" := by decide
  rw [toJson, Json.sorted, Json.sortedMembers, Json.sortedMembers_of_ascending hkeys]
  simp only [List.map_cons, List.map_nil, hcreated, hchanged, hdeleted]
  rw [if_neg (by simp), putEntry, if_neg hfirst, if_neg (by decide), putEntry, if_pos hlast]

theorem exists_objectId {records : List Record} {request : CommitRequest}
    (h : ofRecords records = .ok request) {c : ChangeSet} (hc : c ∈ request.changed) :
    ∃ id, c.objectId = some id := by
  obtain ⟨hidentified, rfl⟩ := ofRecords_eq_ok.mp h
  obtain ⟨r, hr, hstate, rfl⟩ := mem_changed.mp hc
  exact Option.ne_none_iff_exists'.mp fun hnone => hidentified r hr ⟨.inl hstate, hnone⟩

end CommitRequest

variable {τ : Type} [Transport τ]

/-- The identity is among the changes of a record when its value is not the settled one any more. -/
theorem Record.changes_identity_eq_none (fields : Fields) (events : List (Event τ)) :
    let r := (ofFields fields).history events
    r.changes.get? objectIdName = none ↔
      ∀ old new, r.rollback.fields.get? objectIdName = some old →
        r.fields.get? objectIdName = some new → old.sameAs new = true := by
  intro r
  have h : r.Tracks ((Ledger.ofFields fields).writeAll ((ofFields fields).entries events)) :=
    (tracks_ofFields fields).history events
  rw [h.rollback_eq, ofFields]
  constructor
  · intro hnone old new hold hnew
    by_contra hno
    have hchange := h.changes_get?.mpr ⟨old, new, hold, hnew, Bool.not_eq_true _ ▸ hno, rfl⟩
    rw [hnone] at hchange
    cases hchange
  · intro hsame
    by_contra hno
    obtain ⟨change, hchange⟩ := Option.ne_none_iff_exists'.mp hno
    obtain ⟨old, new, hold, hnew, hdiffer, -⟩ := h.changes_get?.mp hchange
    rw [hsame old new hold hnew] at hdiffer
    cases hdiffer

/-- The payload of a commit has the keys `changed`, `created` and `deleted`. An element of `changed`
is the flat object of its change set, and tells all of it if its numbers are finite, unless the
identity itself is among the changes: then that change stands where the identity should. -/
theorem commit_payload_flat_iff :
    (∀ (records : List Record) (request : CommitRequest),
      CommitRequest.ofRecords records = .ok request →
      ∀ (t : τ) (earlier : List (Endpoint × Json)),
      ∃ items, (commit records (⟨t, earlier⟩ : Observed τ)).2.2.sent = earlier ++
          [(.commit, .object [("changed", .array items),
            ("created", .array (request.created.map Fields.toJson)),
            ("deleted", .array (request.deleted.map fun id => .integer id.toInt))])] ∧
        List.Forall₂ (fun (c : ChangeSet) item => ∃ members, item = .object members ∧
          c.Arrives members) request.changed items) ∧
    (∀ (fields : Fields) (events : List (Event τ)),
      let r := (Record.ofFields fields).history events
      r.changes.get? objectIdName = none ↔
        ∀ old new, r.rollback.fields.get? objectIdName = some old →
          r.fields.get? objectIdName = some new → old.sameAs new = true) := by
  refine ⟨fun records request hrequest t earlier => ?_, Record.changes_identity_eq_none⟩
  refine ⟨request.changed.map fun c => c.toJson.sorted, ?_, ?_⟩
  · rw [← request.sorted_toJson]
    exact congrArg Observed.sent (commit_sent hrequest (⟨t, earlier⟩ : Observed τ))
  · rw [List.forall₂_map_right_iff, List.forall₂_same]
    intro c hc
    obtain ⟨id, hid⟩ := CommitRequest.exists_objectId hrequest hc
    exact ChangeSet.arrives hid

/-- Object 1 was given the identity 2: what is sent for it says nowhere that the change is for an
object 2. -/
theorem commit_payload_hides_identity :
    let r := (Record.ofFields (.ofList [(objectIdName, .int 1)])).history
      ([.set objectIdName (.int 2)] : List (Event Script))
    let c : ChangeSet := ⟨some 2, .ofList [(objectIdName, .update (.int 1) (.int 2))]⟩
    CommitRequest.ofRecords [r] = .ok ⟨[], [c], []⟩ ∧
    (commit [r] (⟨.ofReplies [], []⟩ : Observed Script)).2.2.sent =
      [(.commit, .object [
        ("changed", .array [.object [(objectIdName, .object [("action", .text "update"),
          ("new", .integer 2), ("old", .integer 1)])]]),
        ("created", .array []), ("deleted", .array [])])] := by
  intro r c
  have hdiffer : (Value.int 1).sameAs (.int 2) = false := by decide +kernel
  have hcurrent : r.fields.get? objectIdName = some (.int 2) := rfl
  have hchanges : r.changes = c := Record.changes_of_single rfl hcurrent hdiffer
  have hstate : r.state = .changed := by
    rw [Record.state_eq_changed, hchanges]
    exact ⟨⟨_, hcurrent, by simp⟩, rfl, rfl⟩
  have hrequest : CommitRequest.ofRecords [r] = .ok ⟨[], [c], []⟩ := by
    rw [CommitRequest.ofRecords_eq_ok_iff_sorts, ← hchanges]
    exact .changed hstate rfl .nil
  have hsent := congrArg Observed.sent
    (commit_sent hrequest (⟨.ofReplies [], []⟩ : Observed Script))
  rw [CommitRequest.sorted_toJson, List.map_singleton, c.sorted_toJson] at hsent
  exact ⟨hrequest, hsent⟩

end Inventory
