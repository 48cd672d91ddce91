import Inventory.Proofs.CommitPartition
import Inventory.Proofs.RecordHistory

/-! Which object a commit addresses. The identity is an attribute like the others, so a commit goes
to the object that its last write names, and to the object that was fetched if nothing was written
to it since. -/

namespace Inventory

/-- What an entry makes of the last write to an attribute. -/
def Entry.latest (field : String) (w : Option Value) : Entry → Option Value
  | .set f v => if f = field ∧ v.isFinite = true then some v else w
  | .rollback => none
  | .delete => w
  | .commit _ => w

/-- The last value that was written to an attribute and not taken back. -/
def lastWrite (field : String) (entries : List Entry) : Option Value :=
  entries.foldl (Entry.latest field) none

namespace Ledger

variable {l : Ledger} {field : String} {v : Value}

theorem write_keeps {w : Option Value} {e : Entry} (he : e ≠ .commit true)
    (hb : l.base.get? field = some v) (hc : l.current.get? field = some (w.getD v)) :
    (l.write e).base = l.base ∧ (l.write e).current.get? field = some ((e.latest field w).getD v) := by
  cases e with
  | set f x =>
    by_cases hx : f ∈ l.base.keys ∧ x.isFinite = true
    · rw [write_set hx.1 hx.2, TextMap.get?_insert]
      refine ⟨rfl, ?_⟩
      by_cases hf : f = field
      · simp [Entry.latest, hf, hx.2]
      · simp [Entry.latest, hf, Ne.symm hf, hc]
    · have hno : ¬(f = field ∧ x.isFinite = true) := by
        rintro ⟨rfl, hfinite⟩
        exact hx ⟨TextMap.mem_keys.mpr ⟨v, hb⟩, hfinite⟩
      rw [write_set_refused hx, Entry.latest, if_neg hno]
      exact ⟨rfl, hc⟩
  | delete => exact ⟨rfl, hc⟩
  | rollback => exact ⟨rfl, hb⟩
  | commit accepted =>
    cases accepted with
    | true => exact absurd rfl he
    | false => exact ⟨rfl, hc⟩

/-- Until a commit is accepted an attribute holds the last value written to it, or else the settled
one. -/
theorem get?_writeAll {w : Option Value} {entries : List Entry} (h : .commit true ∉ entries)
    (hb : l.base.get? field = some v) (hc : l.current.get? field = some (w.getD v)) :
    (l.writeAll entries).current.get? field =
      some ((entries.foldl (Entry.latest field) w).getD v) := by
  induction entries generalizing l w with
  | nil => exact hc
  | cons e rest ih =>
    rw [List.mem_cons, not_or] at h
    obtain ⟨hbase, hcurrent⟩ := write_keeps (Ne.symm h.1) hb hc
    exact ih h.2 (hbase.symm ▸ hb) hcurrent

end Ledger

variable {τ : Type} [Transport τ]

theorem Record.get?_history {fields : Fields} {events : List (Event τ)} {field : String} {v : Value}
    (h : .commit true ∉ (ofFields fields).entries events) (hv : fields.get? field = some v) :
    ((ofFields fields).history events).fields.get? field =
      some ((lastWrite field ((ofFields fields).entries events)).getD v) := by
  have htracks := (tracks_ofFields fields).history events
  have hcurrent : (Ledger.ofFields fields).current.get? field =
      some ((none : Option Value).getD v) := hv
  rw [htracks.fields]
  exact Ledger.get?_writeAll h hv hcurrent

theorem Record.state_eq_created {r : Record} {v : Value}
    (hv : r.fields.get? objectIdName = some v) : r.state = .created ↔ v = .null := by
  rw [state, hv]
  cases v with
  | null => simp
  | _ => cases r.deleted <;> cases r.changes.isEmpty <;> simp

/-- What a request of one record alone says about the object. -/
structure CommitRequest.Addresses (request : CommitRequest) (v : Value) : Prop where
  created_iff : request.created ≠ [] ↔ v = .null
  changed : ∀ c ∈ request.changed, c.objectId = v.asInt64? ∧ c.objectId ≠ none
  deleted : ∀ id ∈ request.deleted, v.asInt64? = some id

theorem Record.addresses {r : Record} {v : Value} {request : CommitRequest}
    (hv : r.fields.get? objectIdName = some v)
    (h : CommitRequest.ofRecords [r] = .ok request) : request.Addresses v := by
  have hid : r.objectId? = v.asInt64? := by rw [objectId?, hv, Option.bind_some]
  obtain ⟨hidentified, rfl⟩ := CommitRequest.ofRecords_eq_ok.mp h
  rw [List.forall_mem_singleton] at hidentified
  refine ⟨?_, fun c hc => ?_, fun id hm => ?_⟩
  · rw [← state_eq_created hv]
    simp [CommitRequest.sortedByState]
  · obtain ⟨s, hs, hstate, rfl⟩ := CommitRequest.mem_changed.mp hc
    obtain rfl := List.mem_singleton.mp hs
    exact ⟨hid, fun hnone => hidentified ⟨.inl hstate, hnone⟩⟩
  · obtain ⟨s, hs, -, hsome⟩ := CommitRequest.mem_deleted.mp hm
    obtain rfl := List.mem_singleton.mp hs
    exact hid.symm.trans hsome

theorem CommitRequest.Addresses.keeps {request : CommitRequest} {v : Value} {n : Int64}
    (h : request.Addresses v) (hn : v.asInt64? = some n) :
    request.created = [] ∧ (∀ c ∈ request.changed, c.objectId = some n) ∧
      ∀ id ∈ request.deleted, id = n := by
  refine ⟨?_, fun c hc => (h.changed c hc).1.trans hn, fun id hid => ?_⟩
  · have hnull : v ≠ .null := by
      rintro rfl
      cases hn
    exact Decidable.byContradiction fun hne => hnull (h.created_iff.mp hne)
  · exact Option.some.inj ((h.deleted id hid).symm.trans hn)

/-- A record that was fetched with an integer identity adds to the next commit what its last write
to the identity says: a creation if that is null, and otherwise entries for the object of that
number. Without such a write, or with one of the same number, this is the object that was fetched. -/
theorem commit_addresses_last_identity {fields : Fields} {events : List (Event τ)} {settled : Value}
    {n : Int64} (hsettled : fields.get? objectIdName = some settled)
    (hn : settled.asInt64? = some n)
    (hpending : .commit true ∉ (Record.ofFields fields).entries events)
    {before after : List Record} {request : CommitRequest}
    (hrequest : CommitRequest.ofRecords
      (before ++ (Record.ofFields fields).history events :: after) = .ok request) :
    let written := lastWrite objectIdName ((Record.ofFields fields).entries events)
    ∃ front own back,
      CommitRequest.ofRecords before = .ok front ∧
      CommitRequest.ofRecords [(Record.ofFields fields).history events] = .ok own ∧
      CommitRequest.ofRecords after = .ok back ∧ request = front ++ (own ++ back) ∧
      own.Addresses (written.getD settled) ∧
      ((∀ v, written = some v → v.asInt64? = some n) →
        own.created = [] ∧ (∀ c ∈ own.changed, c.objectId = some n) ∧
          ∀ id ∈ own.deleted, id = n) := by
  intro written
  have hid := Record.get?_history hpending hsettled
  obtain ⟨front, rest, hfront, hrest, rfl⟩ := CommitRequest.ofRecords_append_eq_ok.mp hrequest
  rw [← List.singleton_append] at hrest
  obtain ⟨own, back, hown, hback, rfl⟩ := CommitRequest.ofRecords_append_eq_ok.mp hrest
  have haddresses : own.Addresses (written.getD settled) := Record.addresses hid hown
  refine ⟨front, own, back, hfront, hown, hback, rfl, haddresses, fun hw => haddresses.keeps ?_⟩
  cases hwritten : written with
  | none => exact hn
  | some v => exact hw v hwritten

/-- A write that is taken back leaves the next commit to the object that was fetched. -/
theorem commit_addresses_fetched_after_rollback :
    let fields : Fields := .ofList [("hostname", .text "a"), (objectIdName, .int 1)]
    let events : List (Event Script) :=
      [.set objectIdName (.int 2), .delete, .commit [] [] (.ofReplies []), .rollback, .delete]
    ∃ front own back,
      CommitRequest.ofRecords [] = .ok front ∧
      CommitRequest.ofRecords [(Record.ofFields fields).history events] = .ok own ∧
      CommitRequest.ofRecords [] = .ok back ∧
      (⟨[], [], [1]⟩ : CommitRequest) = front ++ (own ++ back) ∧
      own.Addresses ((lastWrite objectIdName ((Record.ofFields fields).entries events)).getD (.int 1)) ∧
      ((∀ v, lastWrite objectIdName ((Record.ofFields fields).entries events) = some v →
          v.asInt64? = some 1) →
        own.created = [] ∧ (∀ c ∈ own.changed, c.objectId = some 1) ∧
          ∀ id ∈ own.deleted, id = 1) := by
  intro fields events
  have hentries : (Record.ofFields fields).entries events =
      [.set objectIdName (.int 2), .delete, .commit false, .rollback, .delete] := rfl
  have hpending : .commit true ∉ (Record.ofFields fields).entries events := by
    simp [hentries]
  have hrequest : CommitRequest.ofRecords
      ([] ++ (Record.ofFields fields).history events :: []) = .ok ⟨[], [], [1]⟩ :=
    CommitRequest.ofRecords_eq_ok_iff_sorts.mpr (.deleted rfl rfl .nil)
  exact commit_addresses_last_identity rfl rfl hpending hrequest

/-- A record that was fetched as object 1 deletes object 2, or creates an object, once its identity
was written to. -/
theorem commit_follows_identity_writes :
    let fields : Fields := .ofList [(objectIdName, .int 1)]
    let rewritten : List (Event Script) := [.set objectIdName (.int 2), .delete]
    let detached : List (Event Script) := [.set objectIdName .null]
    (Record.ofFields fields).objectId? = some 1 ∧
    CommitRequest.ofRecords [(Record.ofFields fields).history rewritten] = .ok ⟨[], [], [2]⟩ ∧
    CommitRequest.ofRecords [(Record.ofFields fields).history detached] =
      .ok ⟨[.ofList [(objectIdName, .null)]], [], []⟩ :=
  ⟨rfl, rfl, rfl⟩

end Inventory
