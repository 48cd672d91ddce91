import Inventory.Http
import Inventory.Proofs.CanonicalText
import Inventory.Proofs.CommitPayload
import Inventory.Proofs.FiniteRecord

/-! What a commit sends of records that came from the service. Each part of the payload is read back as
the value of the record it was made of, so no null stands for a number, and the text of the payload is
read as the payload. -/

namespace Inventory

namespace Value

/-- The value or an element of it. -/
def PartOf (v w : Value) : Prop := v = w ∨ ∃ items, w = .list items ∧ v ∈ items

variable {v w : Value}

theorem PartOf.isFinite (h : v.PartOf w) (hw : w.isFinite = true) : v.isFinite = true := by
  rcases h with rfl | ⟨items, rfl, hv⟩
  · exact hw
  · rw [Value.isFinite] at hw
    exact allFinite_iff.mp hw v hv

theorem eq_of_holds_float {d e : Double} (h : (Value.float e).Holds d) : d = e := by
  cases h
  rfl

theorem PartOf.holds (h : v.PartOf w) {d : Double} (hd : v.Holds d) : w.Holds d := by
  rcases h with rfl | ⟨items, rfl, hv⟩
  · exact hd
  · exact .element hv hd

end Value

theorem mem_of_mem_missingFrom {items others : List Value} {v : Value}
    (h : v ∈ missingFrom (byCanonical items) (byCanonical others)) : v ∈ items := by
  rw [missingFrom, List.mem_map] at h
  obtain ⟨⟨key, w⟩, he, rfl⟩ := h
  exact (mem_of_byCanonical (TextMap.mem_entries.mp (List.mem_filter.mp he).1)).1

namespace FieldChange

def parts : FieldChange → List Value
  | .update old new => [old, new]
  | .multi add remove => add ++ remove

def TakenFrom (old new : Value) : FieldChange → Prop
  | .update before after => before = old ∧ after = new
  | .multi add remove => ∃ items others, old = .list items ∧ new = .list others ∧
    add ⊆ others ∧ remove ⊆ items

variable {old new : Value} {change : FieldChange}

theorem between_takenFrom (old new : Value) : (between old new).TakenFrom old new := by
  unfold between
  split
  · rename_i items others
    exact ⟨items, others, rfl, rfl, fun _ => mem_of_mem_missingFrom, fun _ => mem_of_mem_missingFrom⟩
  · exact ⟨rfl, rfl⟩

theorem TakenFrom.partOf (h : change.TakenFrom old new) {v : Value} (hv : v ∈ change.parts) :
    v.PartOf old ∨ v.PartOf new := by
  cases change with
  | update before after =>
    obtain ⟨rfl, rfl⟩ := h
    rcases List.mem_pair.mp hv with rfl | rfl
    · exact .inl (.inl rfl)
    · exact .inr (.inl rfl)
  | multi add remove =>
    obtain ⟨items, others, rfl, rfl, hadd, hremove⟩ := h
    rcases List.mem_append.mp hv with hv | hv
    · exact .inr (.inr ⟨others, rfl, hadd hv⟩)
    · exact .inl (.inr ⟨items, rfl, hremove hv⟩)

theorem isFinite_iff_parts : change.isFinite = true ↔ ∀ v ∈ change.parts, v.isFinite = true := by
  cases change with
  | update old new => simp [isFinite, parts]
  | multi add remove => simp [isFinite, parts, Value.allFinite_iff, or_imp, forall_and]

end FieldChange

namespace Json

theorem itemsReadable_iff {items : List Json} :
    ItemsReadable items ↔ ∀ j ∈ items, j.Readable := by
  induction items with
  | nil => simp [ItemsReadable]
  | cons j rest ih => rw [ItemsReadable, ih, List.forall_mem_cons]

theorem membersReadable_iff {members : List (String × Json)} :
    MembersReadable members ↔ ∀ e ∈ members, e.2.Readable := by
  induction members with
  | nil => simp [MembersReadable]
  | cons e rest ih => rw [MembersReadable, ih, List.forall_mem_cons]

theorem readable_text (s : String) : (text s).Readable := by
  rw [Readable]
  trivial

theorem readable_int64 (n : Int64) : (integer n.toInt).Readable :=
  Value.readable_toJson (.int n) rfl nofun

theorem readable_array {items : List Json} (h : ∀ j ∈ items, j.Readable) :
    (array items).Readable := by
  rw [Readable]
  exact itemsReadable_iff.mpr h

theorem readable_object {members : List (String × Json)} (h : ∀ e ∈ members, e.2.Readable) :
    (object members).Readable := by
  rw [Readable]
  exact membersReadable_iff.mpr h

end Json

theorem FieldChange.readable_payload {change : FieldChange}
    (h : ∀ v ∈ change.parts, v.toJson.Readable) : change.payload.Readable := by
  cases change with
  | update old new =>
    apply Json.readable_object
    simp only [List.forall_mem_cons]
    exact ⟨Json.readable_text _, h new (by simp [parts]), h old (by simp [parts]),
      List.forall_mem_nil _⟩
  | multi add remove =>
    have hadd : ∀ v ∈ add, v.toJson.Readable := fun v hv => h v (List.mem_append_left remove hv)
    have hremove : ∀ v ∈ remove, v.toJson.Readable := fun v hv => h v (List.mem_append_right add hv)
    apply Json.readable_object
    simp only [List.forall_mem_cons]
    exact ⟨Json.readable_text _, Json.readable_array (List.forall_mem_map.mpr hadd),
      Json.readable_array (List.forall_mem_map.mpr hremove), List.forall_mem_nil _⟩

namespace ChangeSet

theorem get?_sent (c : ChangeSet) (field : String) : c.sent.get? field =
    ((c.get? field).map FieldChange.payload).or
      (if field = objectIdName then some c.identity else none) := by
  rw [sent]
  cases h : c.get? objectIdName with
  | none =>
    rw [Option.isSome_none, if_neg Bool.false_ne_true, TextMap.get?_insert, get?_payload]
    by_cases hf : field = objectIdName
    · simp [hf, h]
    · simp [hf]
  | some change =>
    rw [Option.isSome_some, if_pos rfl, get?_payload]
    by_cases hf : field = objectIdName
    · simp [hf, h]
    · simp [hf]

theorem readable {c : ChangeSet}
    (h : ∀ field change, c.get? field = some change → change.payload.Readable) :
    c.toJson.sorted.Readable := by
  have hidentity : c.identity.Readable := by
    rw [identity]
    cases c.objectId with
    | none => simp [Json.Readable]
    | some id => exact Json.readable_int64 id
  rw [sorted_toJson]
  apply Json.readable_object
  rintro ⟨field, j⟩ he
  have hj : c.sent.get? field = some j := TextMap.mem_entries.mp he
  rw [get?_sent, Option.or_eq_some_iff] at hj
  rcases hj with hj | ⟨-, hj⟩
  · obtain ⟨change, hchange, rfl⟩ := Option.map_eq_some_iff.mp hj
    exact h field change hchange
  · split at hj
    · exact Option.some.inj hj ▸ hidentity
    · cases hj

end ChangeSet

namespace Fields

variable {fields : Fields}

/-- The entries read so far are in the accumulator, and the rest go in one by one. -/
theorem readMembers_entries {entries : List (String × Value)}
    (h : ∀ e ∈ entries, e.2.isFinite = true) (acc : Fields) :
    readMembers (entries.map fun (k, v) => (k, v.toJson)) acc =
      .ok (entries.foldl (fun m e => m.insert e.1 e.2) acc) := by
  induction entries generalizing acc with
  | nil => rfl
  | cons e rest ih =>
    obtain ⟨he, hrest⟩ := List.forall_mem_cons.mp h
    have hvalue : Value.ofJson e.2.toJson = .ok e.2 := by
      rw [Value.ofJson_eq_ok, Value.ofJson?_toJson, (Value.received_eq_self e.2).mpr he]
    rw [List.map_cons, readMembers, hvalue]
    exact ih hrest _

theorem ofJson_toJson (h : fields.Finite) : ofJson fields.toJson = .ok fields := by
  have hentries : ∀ e ∈ fields.entries, e.2.isFinite = true :=
    fun e he => h e.1 e.2 (TextMap.mem_entries.mp he)
  rw [toJson, ofJson, readMembers_entries hentries]
  exact congrArg Except.ok fields.ofList_entries

theorem readable_toJson (h : ∀ field v, fields.get? field = some v → v.toJson.Readable) :
    fields.toJson.Readable :=
  Json.readable_object (List.forall_mem_map.mpr fun e he => h e.1 e.2 (TextMap.mem_entries.mp he))

end Fields

namespace CommitRequest

theorem readable {request : CommitRequest}
    (hcreated : ∀ fields ∈ request.created, fields.toJson.Readable)
    (hchanged : ∀ c ∈ request.changed, c.toJson.sorted.Readable) :
    request.toJson.sorted.Readable := by
  rw [sorted_toJson]
  apply Json.readable_object
  simp only [List.forall_mem_cons]
  exact ⟨Json.readable_array (List.forall_mem_map.mpr hchanged),
    Json.readable_array (List.forall_mem_map.mpr hcreated),
    Json.readable_array (List.forall_mem_map.mpr fun id _ => Json.readable_int64 id),
    List.forall_mem_nil _⟩

end CommitRequest

namespace Record

def ReadsBack (r : Record) : Prop := ∀ v, r.Holds v → ∀ d, v.Holds d → d.ReadsBack

def CreatedAs (r : Record) (item : Json) : Prop := Fields.ofJson item = .ok r.fields

/-- What a member of an element of `changed` says of a record: its identity, or a change that is read
back, with nothing in it but the remembered value and the current one. -/
inductive Tells (r : Record) : String → Json → Prop where
  | identity {id : Int64} : r.objectId? = some id → Tells r objectIdName (.integer id.toInt)
  | change {field : String} {j : Json} {old new : Value} {change : FieldChange} :
      r.prior.get? field = some old → r.fields.get? field = some new → change.TakenFrom old new →
      FieldChange.ofJson? j = some change → Tells r field j

def ChangedAs (r : Record) (item : Json) : Prop :=
  ∃ members, item = .object members ∧ (∀ e ∈ members, r.Tells e.1 e.2) ∧
    ∀ field change, r.changes.get? field = some change →
      ∃ j, (field, j) ∈ members ∧ FieldChange.ofJson? j = some change

namespace FromService

variable {τ : Type} [Transport τ] {r : Record}

theorem exists_values (h : r.FromService τ) {field : String} {change : FieldChange}
    (hchange : r.changes.get? field = some change) :
    ∃ old new, r.prior.get? field = some old ∧ r.fields.get? field = some new ∧
      change.TakenFrom old new := by
  obtain ⟨l, hl⟩ := h.tracks
  have hget : r.changes.get? field = (r.prior.get? field).bind (r.change? field) :=
    TextMap.get?_filterMap r.change? r.prior field
  rw [hget] at hchange
  obtain ⟨old, hold, hchange⟩ := Option.bind_eq_some_iff.mp hchange
  obtain ⟨-, new, hnew, hcase⟩ := hl.change?_of_prior hold
  rw [hcase] at hchange
  split at hchange
  · cases hchange
  · obtain rfl := Option.some.inj hchange
    exact ⟨old, new, hold, hnew, FieldChange.between_takenFrom old new⟩

theorem exists_holder (h : r.FromService τ) {field : String} {change : FieldChange}
    (hchange : r.changes.get? field = some change) {v : Value} (hv : v ∈ change.parts) :
    ∃ w, r.Holds w ∧ v.PartOf w := by
  obtain ⟨old, new, hold, hnew, htaken⟩ := h.exists_values hchange
  rcases htaken.partOf hv with hpart | hpart
  · exact ⟨old, ⟨field, .inr hold⟩, hpart⟩
  · exact ⟨new, ⟨field, .inl hnew⟩, hpart⟩

theorem ofJson?_payload (h : r.FromService τ) {field : String} {change : FieldChange}
    (hchange : r.changes.get? field = some change) :
    FieldChange.ofJson? change.payload = some change := by
  have hfinite : change.isFinite = true := by
    rw [FieldChange.isFinite_iff_parts]
    intro v hv
    obtain ⟨w, hw, hpart⟩ := h.exists_holder hchange hv
    exact hpart.isFinite (h.finite.isFinite hw)
  rw [FieldChange.ofJson?_payload, FieldChange.received_eq_self.mpr hfinite]

theorem createdAs (h : r.FromService τ) : r.CreatedAs r.fields.toJson :=
  Fields.ofJson_toJson h.finite.fields

theorem changedAs (h : r.FromService τ) {id : Int64} (hid : r.objectId? = some id) :
    r.ChangedAs r.changes.toJson.sorted := by
  have hidentity : r.changes.identity = .integer id.toInt := by
    rw [ChangeSet.identity, show r.changes.objectId = some id from hid]
    rfl
  refine ⟨r.changes.sent.entries, r.changes.sorted_toJson, ?_, fun field change hchange => ?_⟩
  · rintro ⟨field, j⟩ he
    have hj : r.changes.sent.get? field = some j := TextMap.mem_entries.mp he
    rw [ChangeSet.get?_sent, Option.or_eq_some_iff] at hj
    rcases hj with hj | ⟨-, hj⟩
    · obtain ⟨change, hchange, rfl⟩ := Option.map_eq_some_iff.mp hj
      obtain ⟨old, new, hold, hnew, htaken⟩ := h.exists_values hchange
      exact .change hold hnew htaken (h.ofJson?_payload hchange)
    · split at hj
      · rename_i hf
        obtain rfl := Option.some.inj hj
        rw [hf, hidentity]
        exact .identity hid
      · cases hj
  · have hj : r.changes.sent.get? field = some change.payload := by
      rw [ChangeSet.get?_sent, hchange]
      rfl
    exact ⟨change.payload, TextMap.mem_entries.mpr hj, h.ofJson?_payload hchange⟩

theorem readable_value (h : r.FromService τ) (hback : r.ReadsBack) {v w : Value} (hw : r.Holds w)
    (hpart : v.PartOf w) : v.toJson.Readable :=
  Value.readable_toJson v (hpart.isFinite (h.finite.isFinite hw)) fun d hd =>
    hback w hw d (hpart.holds hd)

theorem readable_fields (h : r.FromService τ) (hback : r.ReadsBack) : r.fields.toJson.Readable :=
  Fields.readable_toJson fun field _ hv => h.readable_value hback ⟨field, .inl hv⟩ (.inl rfl)

theorem readable_changes (h : r.FromService τ) (hback : r.ReadsBack) :
    r.changes.toJson.sorted.Readable := by
  apply ChangeSet.readable
  intro field change hchange
  apply FieldChange.readable_payload
  intro v hv
  obtain ⟨w, hw, hpart⟩ := h.exists_holder hchange hv
  exact h.readable_value hback hw hpart

end FromService

end Record

variable {τ : Type} [Transport τ]

theorem Http.denotable_of_interpret {unreadable : Bytes → String} {status : Nat} {body : Bytes}
    {reply : Json} (h : interpret unreadable status body = .ok reply) : reply.Denotable := by
  rw [interpret] at h
  split at h
  · split at h
    · rename_i j hj
      obtain rfl := Except.ok.inj h
      obtain ⟨s, -, hs⟩ := Option.bind_eq_some_iff.mp hj
      exact Json.denotable_of_parseSorted? hs
    · cases h
  · cases h

theorem CommitRequest.readable_of_fromService {records : List Record} {request : CommitRequest}
    (hrecords : ∀ r ∈ records, r.FromService τ) (hback : ∀ r ∈ records, r.ReadsBack)
    (hrequest : ofRecords records = .ok request) : request.toJson.sorted.Readable := by
  obtain ⟨-, rfl⟩ := ofRecords_eq_ok.mp hrequest
  apply readable
  · intro fields hfields
    obtain ⟨r, hr, -, rfl⟩ := mem_created.mp hfields
    exact (hrecords r hr).readable_fields (hback r hr)
  · intro c hc
    obtain ⟨r, hr, -, rfl⟩ := mem_changed.mp hc
    exact (hrecords r hr).readable_changes (hback r hr)

/-- The replies to a client carry no numbers but those a text can denote. Of a record that comes out of
such a reply all values stay finite, whatever is done to it, so a null counts as the same as a null
alone; and what a commit sends of such records, or the text of it if its lists are not nested too deep,
is read as the values of the records. Of the reader this asks that it takes the literal of each double
in the records to be that double. -/
theorem sent_values_read_back :
    (∀ unreadable status body reply,
      Http.interpret unreadable status body = .ok reply → reply.Denotable) ∧
    (∀ r : Record, r.FromService τ → r.Finite ∧
      ∀ v w, r.Holds v → r.Holds w → v.sameAs w = true → (v = .null ↔ w = .null)) ∧
    (∀ (records : List Record) (request : CommitRequest), (∀ r ∈ records, r.FromService τ) →
      CommitRequest.ofRecords records = .ok request →
      ∀ (t : τ) (earlier : List (Endpoint × Json)), ∃ created changed,
        let payload : Json := .object [("changed", .array changed), ("created", .array created),
          ("deleted", .array (request.deleted.map fun id => .integer id.toInt))]
        (commit records (⟨t, earlier⟩ : Observed τ)).2.2.sent = earlier ++ [(.commit, payload)] ∧
        List.Forall₂ Record.CreatedAs (records.filter (·.state = .created)) created ∧
        List.Forall₂ Record.ChangedAs (records.filter (·.state = .changed)) changed ∧
        ((∀ r ∈ records, r.ReadsBack) → payload.nesting ≤ 127 →
          Json.parse? payload.compact = some payload)) := by
  refine ⟨fun _ _ _ _ => Http.denotable_of_interpret, fun r hr => ⟨hr.finite, ?_⟩, ?_⟩
  · intro v w hv hw hsame
    exact Value.eq_null_iff_of_sameAs (hr.finite.isFinite hv) (hr.finite.isFinite hw) hsame
  · intro records request hrecords hrequest t earlier
    have hsent := congrArg Observed.sent (commit_sent hrequest (⟨t, earlier⟩ : Observed τ))
    obtain ⟨hidentified, hsorted⟩ := CommitRequest.ofRecords_eq_ok.mp hrequest
    refine ⟨request.created.map Fields.toJson, request.changed.map fun c => c.toJson.sorted,
      ?_, ?_, ?_, fun hback hnesting => ?_⟩
    · rw [← request.sorted_toJson]
      exact hsent
    · rw [hsorted, CommitRequest.sortedByState, List.map_map, List.forall₂_map_right_iff,
        List.forall₂_same]
      intro r hr
      exact (hrecords r (List.mem_of_mem_filter hr)).createdAs
    · rw [hsorted, CommitRequest.sortedByState, List.map_map, List.forall₂_map_right_iff,
        List.forall₂_same]
      intro r hr
      obtain ⟨hmem, hstate⟩ := List.mem_filter.mp hr
      have hne : r.objectId? ≠ none := fun hnone =>
        hidentified r hmem ⟨.inl (of_decide_eq_true hstate), hnone⟩
      obtain ⟨id, hid⟩ := Option.ne_none_iff_exists'.mp hne
      exact (hrecords r hmem).changedAs hid
    · rw [← request.sorted_toJson] at hnesting ⊢
      exact Json.parse?_compact
        (CommitRequest.readable_of_fromService hrecords hback hrequest) hnesting

/-- A new object is given a NaN inside a list, which is refused, and then 1.0, which arrives beside the
null of its identity. -/
theorem write_after_refusal_read_back :
    let one : Value := .float (.ofInt 1)
    let fetched : Record := .ofFields (.ofList [("memory", .null), (objectIdName, .null)])
    let r := fetched.history
      ([.set "memory" (.list [.float .nan]), .set "memory" one] : List (Event Script))
    let payload : Json := .object [("changed", .array []),
      ("created", .array [.object [("memory", one.toJson), (objectIdName, .null)]]),
      ("deleted", .array [])]
    r.FromService Script ∧
    (commit [r] (⟨.ofReplies [], []⟩ : Observed Script)).2.2.sent = [(.commit, payload)] ∧
    Json.parse? payload.compact = some payload := by
  intro one fetched r payload
  have hrow : Json.Denotable (.object [("memory", .null)]) :=
    .object (List.forall_mem_singleton.mpr .null)
  have hreply : Json.Denotable (.object [("result", .object [("memory", .null)])]) :=
    .object (List.forall_mem_singleton.mpr hrow)
  have hservice : r.FromService Script := ⟨_, fetched, _, hreply, .fresh rfl, rfl⟩
  have hone : one.isFinite = true := by decide +kernel
  have hr : r = ⟨fetched.fields.insert "memory" one, (∅ : Fields).insert "memory" .null, false⟩ := by
    have hrefused : RecordSet.afterSet "memory" (.list [.float .nan]) fetched = fetched := rfl
    have hold : fetched.fields.get? "memory" = some .null := rfl
    simp only [r, Record.history, List.foldl_cons, List.foldl_nil, Record.undergo, hrefused]
    rw [RecordSet.afterSet, Record.set_of_finite hold hone]
    rfl
  have hfields : r.fields.entries = [("memory", one), (objectIdName, .null)] := by
    rw [hr]
    rfl
  have hprior : r.prior.entries = [("memory", .null)] := by
    rw [hr]
    rfl
  have hvalues : ∀ v, r.Holds v → v = one ∨ v = .null := by
    rintro v ⟨field, hv | hv⟩
    · have hm := TextMap.mem_entries.mpr hv
      rw [hfields] at hm
      simp only [List.mem_cons, Prod.mk.injEq, List.not_mem_nil, or_false] at hm
      exact hm.imp And.right And.right
    · have hm := TextMap.mem_entries.mpr hv
      rw [hprior] at hm
      exact .inr (Prod.mk.inj (List.mem_singleton.mp hm)).2
  have hback : r.ReadsBack := by
    intro v hv d hd
    rcases hvalues v hv with rfl | rfl
    · exact Value.eq_of_holds_float hd ▸ Double.readsBack_one
    · cases hd
  have hstate : r.state = .created := by
    have hidentity : r.fields.get? objectIdName = some .null :=
      TextMap.mem_entries.mp (by simp [hfields])
    simp only [Record.state, hidentity]
  have hrequest : CommitRequest.ofRecords [r] = .ok ⟨[r.fields], [], []⟩ :=
    CommitRequest.ofRecords_eq_ok_iff_sorts.mpr (.created hstate .nil)
  have hpayload : (CommitRequest.mk [r.fields] [] []).toJson.sorted = payload := by
    rw [CommitRequest.sorted_toJson, List.map_singleton, Fields.toJson, hfields]
    rfl
  have hsent : (commit [r] (⟨.ofReplies [], []⟩ : Observed Script)).2.2.sent =
      [(.commit, payload)] := by
    rw [← hpayload]
    exact congrArg Observed.sent (commit_sent hrequest _)
  obtain ⟨-, -, hcommit⟩ := @sent_values_read_back Script _
  obtain ⟨created, changed, hsame, -, -, hread⟩ :=
    hcommit [r] _ (List.forall_mem_singleton.mpr hservice) hrequest (.ofReplies []) []
  rw [hsent] at hsame
  rw [← (Prod.mk.inj (List.cons.inj hsame).1).2] at hread
  exact ⟨hservice, hsent, hread (List.forall_mem_singleton.mpr hback) (by decide +kernel)⟩

end Inventory
