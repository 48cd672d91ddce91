import Inventory.Proofs.ReportedFailure
import Inventory.Proofs.ValueWire

/-! What a fetch makes of a reply. The results are taken as a whole: each row becomes one record with the
attributes of that row, and one row that cannot be read makes the query fail. -/

namespace Inventory

namespace Json

/-- The keys of every object inside ascend. -/
def IsSorted (j : Json) : Prop := j.sorted = j

def members : Json → List (String × Json)
  | .object members => members
  | _ => []

theorem ascending_sortedMembers (members : List (String × Json)) :
    Ascending (sortedMembers members) := by
  induction members with
  | nil => exact List.Pairwise.nil
  | cons head rest ih =>
    obtain ⟨key, j⟩ := head
    rw [sortedMembers]
    split
    · exact ih
    · exact ascending_putEntry key j.sorted ih

theorem IsSorted.object {members : List (String × Json)} (h : (object members).IsSorted) :
    Ascending members ∧ ∀ e ∈ members, e.2.IsSorted := by
  rw [IsSorted, sorted] at h
  have hsame : sortedMembers members = members := object.inj h
  have hascending : Ascending members := hsame ▸ ascending_sortedMembers members
  refine ⟨hascending, fun e he => ?_⟩
  rw [sortedMembers_of_ascending hascending] at hsame
  have hentry := List.map_inj_left.mp (hsame.trans (List.map_id members).symm) e he
  exact congrArg Prod.snd hentry

theorem IsSorted.array {items : List Json} (h : (array items).IsSorted) :
    ∀ j ∈ items, j.IsSorted := by
  rw [IsSorted, sorted, sortedItems_eq_map] at h
  have hsame : items.map sorted = items := array.inj h
  exact List.map_inj_left.mp (hsame.trans (List.map_id items).symm)

theorem nodup_of_ascending {members : List (String × Json)} (h : Ascending members) :
    (members.map (·.1)).Nodup :=
  TextMap.nodup_keys ⟨members, h⟩

theorem lookup_eq_some {members : List (String × Json)} (h : Ascending members)
    {e : String × Json} (he : e ∈ members) : members.lookup e.1 = some e.2 :=
  (@TextMap.mem_entries Json ⟨members, h⟩ e.1 e.2).mp he

end Json

namespace Fields

theorem get?_readMembers {members : List (String × Json)} {acc row : Fields}
    (hkeys : (members.map (·.1)).Nodup) (h : readMembers members acc = .ok row) (key : String) :
    row.get? key =
      match members.lookup key with
      | some j => Value.ofJson? j
      | none => acc.get? key := by
  induction members generalizing acc with
  | nil =>
    rw [readMembers] at h
    obtain rfl := Except.ok.inj h
    rfl
  | cons head rest ih =>
    obtain ⟨k, j⟩ := head
    obtain ⟨hnot, hrest⟩ := List.nodup_cons.mp hkeys
    rw [readMembers] at h
    split at h
    · rename_i v hv
      rw [ih hrest h, lookup_cons_eq, TextMap.get?_insert]
      by_cases hkey : key = k
      · rw [if_pos hkey, if_pos hkey, hkey, lookup_eq_none_of_not_mem hnot]
        exact (Value.ofJson_eq_ok.mp hv).symm
      · rw [if_neg hkey, if_neg hkey]
    · cases h

theorem allOfJson_eq_ok {items : List Json} {rows : List Fields} :
    allOfJson items = .ok rows ↔ List.Forall₂ (fun item row => ofJson item = .ok row) items rows := by
  induction items generalizing rows with
  | nil =>
    rw [allOfJson, List.forall₂_nil_left_iff, Except.ok.injEq, eq_comm]
  | cons item rest ih =>
    rw [allOfJson, List.forall₂_cons_left_iff]
    cases ofJson item with
    | error e => simp
    | ok row => simp [Json.map_eq_ok, ih]

end Fields

/-- The attributes are the members of the row with their values, and nothing was done to the record. -/
structure Record.FetchedFrom (row : Json) (r : Record) : Prop where
  names : ∀ key, key ∈ r.fields.keys ↔ key ∈ row.members.map (·.1)
  values : ∀ e ∈ row.members, ∃ v, Value.ofJson? e.2 = some v ∧ r.fields.get? e.1 = some v
  untouched : r.prior = ∅
  kept : r.deleted = false

theorem Record.fetchedFrom_ofFields {row : Json} {fields : Fields} (hrow : row.IsSorted)
    (h : Fields.ofJson row = .ok fields) : (Record.ofFields fields).FetchedFrom row := by
  cases row with
  | object members =>
    have hascending := hrow.object.1
    have hget := Fields.get?_readMembers (Json.nodup_of_ascending hascending) h
    have hvalue : ∀ e ∈ members, ∃ v, Value.ofJson? e.2 = some v ∧ fields.get? e.1 = some v := by
      intro e he
      obtain ⟨v, hv⟩ := (Value.ofJson?_isSome e.2).mpr (Fields.readMembers_isOk.mp ⟨fields, h⟩ e he)
      refine ⟨v, hv, ?_⟩
      rw [hget, Json.lookup_eq_some hascending he]
      exact hv
    refine ⟨fun key => ⟨fun hkey => ?_, fun hkey => ?_⟩, hvalue, rfl, rfl⟩
    · obtain ⟨v, hv⟩ := TextMap.mem_keys.mp hkey
      replace hv := (hget key).symm.trans hv
      cases hlookup : members.lookup key with
      | none =>
        rw [hlookup] at hv
        cases hv
      | some j => exact List.mem_map_of_mem (mem_of_lookup_eq_some hlookup)
    · obtain ⟨e, he, rfl⟩ := List.mem_map.mp hkey
      obtain ⟨v, -, hv⟩ := hvalue e he
      exact TextMap.mem_keys.mpr ⟨v, hv⟩
  | _ => cases h

namespace QueryReply

/-- The parts of a reply: what stands under their names in an object, or in their order in an array. -/
inductive HasParts : Json → Option Json → Option Json → Json → Prop where
  | object {members : List (String × Json)} {result : Json} :
      members.lookup "result" = some result →
      HasParts (.object members) (members.lookup "status") (members.lookup "message") result
  | array (status message result : Json) :
      HasParts (.array [status, message, result]) (some status) (some message) result

/-- The reply can be read: it tells a status and a message, each perhaps left out, and the rows. -/
structure Tells (reply : Json) (status message : Option String) (rows : List Json) : Prop where
  parts : ∃ s m, HasParts reply s m (.array rows) ∧ Json.SaysText s status ∧ Json.SaysText m message
  rows : ∀ row ∈ rows, row.IsRow

theorem ofJson_array {items : List Json} {r : QueryReply} : ofJson (.array items) = .ok r ↔
    ∃ s m result, items = [s, m, result] ∧ s.toText? = .ok r.status ∧ m.toText? = .ok r.message ∧
      Fields.listOfJson result = .ok r.result := by
  rw [ofJson, Json.toRecord]
  obtain ⟨status, message, rows⟩ := r
  cases items with
  | nil => simp [jsonFields, Json.readItems]
  | cons s rest =>
    cases hs : s.toText? with
    | error e => simp [jsonFields, Json.readItems, hs, Except.map]
    | ok found =>
      cases rest with
      | nil => simp [jsonFields, Json.readItems, hs, Except.map]
      | cons m rest =>
        cases hm : m.toText? with
        | error e => simp [jsonFields, Json.readItems, hs, hm, Except.map]
        | ok told =>
          cases rest with
          | nil => simp [jsonFields, Json.readItems, hs, hm, Except.map]
          | cons result rest =>
            cases hr : Fields.listOfJson result with
            | error e => simp [jsonFields, Json.readItems, hs, hm, hr, Except.map]
            | ok read => cases rest <;> simp [jsonFields, Json.readItems, hs, hm, hr, Except.map]

/-- Each row is read as an object of its own. -/
def RowsRead (rows : List Json) (read : List Fields) : Prop :=
  List.Forall₂ (fun row fields => Fields.ofJson row = .ok fields) rows read

theorem listOfJson_eq_ok {result : Json} {read : List Fields} :
    Fields.listOfJson result = .ok read ↔ ∃ rows, result = .array rows ∧ RowsRead rows read := by
  cases result with
  | array rows => simp [Fields.listOfJson, Fields.allOfJson_eq_ok, RowsRead]
  | _ => simp [Fields.listOfJson]

/-- A reply is read from its parts, whichever of the two forms it has. -/
theorem ofJson_eq_ok {reply : Json} (hreply : reply.IsSorted) {r : QueryReply} :
    ofJson reply = .ok r ↔ ∃ s m rows, HasParts reply s m (.array rows) ∧
      Json.SaysText s r.status ∧ Json.SaysText m r.message ∧ RowsRead rows r.result := by
  cases reply with
  | object members =>
    rw [ofJson_object (Json.nodup_of_ascending hreply.object.1), ← Json.saysText_iff,
      ← Json.saysText_iff]
    constructor
    · rintro ⟨hpresent, hstatus, hmessage, hread⟩
      obtain ⟨result, hresult⟩ := Option.ne_none_iff_exists'.mp hpresent
      rw [hresult] at hread
      obtain ⟨rows, rfl, hrows⟩ := listOfJson_eq_ok.mp hread
      exact ⟨_, _, rows, .object hresult, hstatus, hmessage, hrows⟩
    · rintro ⟨_, _, rows, hparts, hstatus, hmessage, hrows⟩
      cases hparts with
      | object hresult =>
        rw [hresult]
        exact ⟨nofun, hstatus, hmessage, listOfJson_eq_ok.mpr ⟨rows, rfl, hrows⟩⟩
  | array items =>
    rw [ofJson_array]
    constructor
    · rintro ⟨s, m, result, rfl, hstatus, hmessage, hread⟩
      obtain ⟨rows, rfl, hrows⟩ := listOfJson_eq_ok.mp hread
      exact ⟨_, _, rows, .array s m _, Json.saysText_iff.mpr hstatus, Json.saysText_iff.mpr hmessage,
        hrows⟩
    · rintro ⟨_, _, rows, hparts, hstatus, hmessage, hrows⟩
      cases hparts with
      | array s m =>
        exact ⟨s, m, _, rfl, Json.saysText_iff.mp hstatus, Json.saysText_iff.mp hmessage,
          listOfJson_eq_ok.mpr ⟨rows, rfl, hrows⟩⟩
  | _ =>
    constructor
    · nofun
    · rintro ⟨_, _, _, hparts, -⟩
      cases hparts

theorem exists_rowsRead {rows : List Json} :
    (∃ read, RowsRead rows read) ↔ ∀ row ∈ rows, row.IsRow := by
  simp only [RowsRead, ← Fields.allOfJson_eq_ok, Fields.allOfJson_isOk]

theorem Tells.ofJson_eq {reply : Json} {status message : Option String} {rows : List Json}
    (h : Tells reply status message rows) (hreply : reply.IsSorted) :
    ∃ read, ofJson reply = .ok ⟨status, message, read⟩ ∧ RowsRead rows read := by
  obtain ⟨s, m, hparts, hstatus, hmessage⟩ := h.parts
  obtain ⟨read, hread⟩ := exists_rowsRead.mpr h.rows
  exact ⟨read, (ofJson_eq_ok hreply).mpr ⟨s, m, rows, hparts, hstatus, hmessage, hread⟩, hread⟩

theorem tells_of_ofJson {reply : Json} (hreply : reply.IsSorted) {r : QueryReply}
    (h : ofJson reply = .ok r) : ∃ rows, Tells reply r.status r.message rows := by
  obtain ⟨s, m, rows, hparts, hstatus, hmessage, hread⟩ := (ofJson_eq_ok hreply).mp h
  exact ⟨rows, ⟨s, m, hparts, hstatus, hmessage⟩, exists_rowsRead.mp ⟨_, hread⟩⟩

theorem HasParts.rows_sorted {reply : Json} {s m : Option Json} {rows : List Json}
    (h : HasParts reply s m (.array rows)) (hreply : reply.IsSorted) :
    ∀ row ∈ rows, row.IsSorted := by
  cases h with
  | object hresult =>
    exact (hreply.object.2 _ (mem_of_lookup_eq_some hresult)).array
  | array s m => exact (hreply.array _ (by simp)).array

variable {reply : Json} {status message : Option String} {rows : List Json}

theorem Tells.records_eq_ok (h : Tells reply status message rows) (hreply : reply.IsSorted)
    (hstatus : status ≠ some "error") : ∃ set, records reply = .ok set ∧
      List.Forall₂ (fun row r => r.FetchedFrom row) rows set.records := by
  obtain ⟨read, hread, hrows⟩ := h.ofJson_eq hreply
  obtain ⟨_, _, hparts, -⟩ := h.parts
  refine ⟨_, QueryReply.records_eq_ok.mpr ⟨_, hread, hstatus, rfl⟩, ?_⟩
  have hboth := (List.forall₂_and_left _ _).mpr ⟨hparts.rows_sorted hreply, hrows⟩
  rw [List.forall₂_map_right_iff]
  exact hboth.imp fun row fields hrow => Record.fetchedFrom_ofFields hrow.1 hrow.2

theorem Tells.records_eq_error (h : Tells reply status message rows) (hreply : reply.IsSorted)
    (hstatus : status = some "error") :
    records reply = .error (.queryFailed (message.getD "query failed")) := by
  obtain ⟨read, hread, -⟩ := h.ofJson_eq hreply
  rw [records, hread]
  exact if_pos hstatus

theorem records_of_untold (hreply : reply.IsSorted)
    (h : ∀ status message rows, ¬Tells reply status message rows) : ∃ m : Mismatch,
      records reply = .error (.decode ("failed to decode query response: " ++ m.message)) := by
  cases hread : ofJson reply with
  | ok r =>
    obtain ⟨rows, htells⟩ := tells_of_ofJson hreply hread
    exact absurd htells (h _ _ rows)
  | error m => exact ⟨m, by rw [records, hread]⟩

end QueryReply

variable {τ : Type} [Transport τ]

/-- Whatever is asked of the results, the query has these records from then on. -/
structure Query.Loads (q : Query) (t : τ) (set : RecordSet) : Prop where
  all : (q.all t).1 = .ok set ∧ (q.all t).2.1 = { q with loaded := some set }
  one : (q.one t).1 = Query.only set ∧ (q.one t).2.1 = { q with loaded := some set }
  count : (q.count t).1 = .ok set.size ∧ (q.count t).2.1 = { q with loaded := some set }

theorem Query.loads_of_records {q : Query} {t : τ} {reply : Json} {set : RecordSet}
    (hq : q.loaded = none)
    (hreply : (Transport.send t .query q.request.toJson.sorted).1 = .ok reply)
    (h : QueryReply.records reply = .ok set) : q.Loads t set := by
  have hanswer : answered q.request t = .ok set := by
    rw [answered, hreply]
    exact h
  have hall := all_of_unloaded hq t
  rw [hanswer] at hall
  have hone := q.one_eq t
  have hcount := q.count_eq t
  rw [hall] at hone hcount
  constructor
  · rw [hall]
    exact ⟨rfl, rfl⟩
  · rw [hone]
    exact ⟨rfl, rfl⟩
  · rw [hcount]
    exact ⟨rfl, rfl⟩

/-- A fetch succeeds exactly if the reply tells rows and no error, and then the query has one record for
each row, in their order, with the attributes of that row and no others. A reply that tells an error
fails with its message, and any other with the reason why it cannot be read; the query stays without
results in both cases, however many of the rows could be read. -/
theorem query_loads_exactly_the_rows (q : Query) (t : τ) (reply : Json) (hq : q.loaded = none)
    (hsent : (Transport.send t .query q.request.toJson.sorted).1 = .ok reply)
    (hreply : reply.IsSorted) :
    ((∃ set, (q.all t).1 = .ok set) ↔
      ∃ status message rows, QueryReply.Tells reply status message rows ∧ status ≠ some "error") ∧
    (∀ status message rows, QueryReply.Tells reply status message rows →
      (status ≠ some "error" → ∃ set, q.Loads t set ∧
        List.Forall₂ (fun row r => r.FetchedFrom row) rows set.records) ∧
      (status = some "error" → q.Fails t (.queryFailed (message.getD "query failed")))) ∧
    ((∀ status message rows, ¬QueryReply.Tells reply status message rows) → ∃ m : Mismatch,
      q.Fails t (.decode ("failed to decode query response: " ++ m.message))) := by
  refine ⟨⟨?_, ?_⟩, fun status message rows htells => ⟨fun hstatus => ?_, fun hstatus => ?_⟩, ?_⟩
  · rintro ⟨set, hset⟩
    rw [Query.all_of_unloaded hq, Query.answered, hsent] at hset
    obtain ⟨r, hread, hstatus, -⟩ := QueryReply.records_eq_ok.mp hset
    obtain ⟨rows, htells⟩ := QueryReply.tells_of_ofJson hreply hread
    exact ⟨_, _, rows, htells, hstatus⟩
  · rintro ⟨status, message, rows, htells, hstatus⟩
    obtain ⟨set, hset, -⟩ := htells.records_eq_ok hreply hstatus
    exact ⟨set, (Query.loads_of_records hq hsent hset).all.1⟩
  · obtain ⟨set, hset, hrows⟩ := htells.records_eq_ok hreply hstatus
    exact ⟨set, Query.loads_of_records hq hsent hset, hrows⟩
  · exact Query.fails_of_records hq hsent (htells.records_eq_error hreply hstatus)
  · intro huntold
    obtain ⟨m, hm⟩ := QueryReply.records_of_untold hreply huntold
    exact ⟨m, Query.fails_of_records hq hsent hm⟩

/-- Two rows, the second without attributes, come as the third item of an array; an object deep inside
the list of one row spoils the whole of a reply. -/
theorem query_loads_both_rows_or_none :
    let row : Json := .object [("hostname", .text "a"), ("tags", .array [.array [.integer 1], .null])]
    let spoilt : Json := .object [("tags", .array [.array [.object []], .null])]
    let listed : Json := .array [.null, .text "two", .array [row, .object []]]
    let broken : Json := .object [("result", .array [row, spoilt]), ("status", .text "success")]
    let q := Query.ofFilters ∅
    (∃ set, q.Loads (Script.ofReplies [.ok listed]) set ∧
      List.Forall₂ (fun row r => r.FetchedFrom row) [row, .object []] set.records) ∧
    ∃ m : Mismatch, q.Fails (Script.ofReplies [.ok broken])
      (.decode ("failed to decode query response: " ++ m.message)) := by
  intro row spoilt listed broken q
  have hrow : row.IsRow := by
    simp [row, Json.IsRow, Json.ObjectFree, Json.ItemsObjectFree]
  have htells : QueryReply.Tells listed none (some "two") [row, .object []] :=
    ⟨⟨_, _, .array _ _ _, .inl ⟨.inr rfl, rfl⟩, .inr ⟨_, rfl, rfl⟩⟩,
      List.forall_mem_cons.mpr ⟨hrow, List.forall_mem_singleton.mpr (List.forall_mem_nil _)⟩⟩
  have huntold : ∀ status message rows, ¬QueryReply.Tells broken status message rows := by
    rintro status message rows ⟨⟨_, _, hparts, -⟩, hrows⟩
    cases show QueryReply.HasParts (.object broken.members) _ _ _ from hparts with
    | object hresult =>
      obtain rfl : [row, spoilt] = rows := Json.array.inj (Option.some.inj hresult)
      have hspoilt : spoilt.IsRow := hrows spoilt (by simp)
      simp [spoilt, Json.IsRow, Json.ObjectFree, Json.ItemsObjectFree] at hspoilt
  refine ⟨?_, ?_⟩
  · exact ((query_loads_exactly_the_rows q _ listed rfl rfl rfl).2.1 _ _ _ htells).1
      (Option.some_ne_none _).symm
  · exact (query_loads_exactly_the_rows q _ broken rfl rfl rfl).2.2 huntold

end Inventory
