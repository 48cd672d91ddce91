import Inventory.Commit

/-! What a commit request holds: an entry for every record with something to send, in the list of
its state. -/

namespace Inventory

/-- A changed or deleted record that does not say which object it is. -/
def Record.Unidentified (r : Record) : Prop :=
  (r.state = .changed ∨ r.state = .deleted) ∧ r.objectId? = none

theorem Record.identityFailure?_eq_none {r : Record} {index : Nat} :
    identityFailure? (r, index) = none ↔ ¬r.Unidentified := by
  by_cases h : r.Unidentified
  · have hf : (r.state = .changed ∨ r.state = .deleted) ∧ r.objectId? = none := h
    simp [identityFailure?, hf, h]
  · have hf : ¬((r.state = .changed ∨ r.state = .deleted) ∧ r.objectId? = none) := h
    simp only [identityFailure?, if_neg hf, h, not_false_eq_true]

namespace CommitRequest

def sortedByState (records : List Record) : CommitRequest where
  created := (records.filter (·.state = .created)).map Record.fields
  changed := (records.filter (·.state = .changed)).map Record.changes
  deleted := (records.filter (·.state = .deleted)).filterMap Record.objectId?

theorem failures_isEmpty {records : List Record} :
    (records.zipIdx.filterMap Record.identityFailure?).isEmpty = true ↔
      ∀ r ∈ records, ¬r.Unidentified := by
  rw [List.isEmpty_iff, List.filterMap_eq_nil_iff]
  constructor
  · intro h r hr
    obtain ⟨index, hi, rfl⟩ := List.mem_iff_getElem.mp hr
    exact Record.identityFailure?_eq_none.mp
      (h (records[index], index) (List.mk_mem_zipIdx_iff_getElem?.mpr (by simp [hi])))
  · rintro h ⟨r, index⟩ hm
    exact Record.identityFailure?_eq_none.mpr
      (h r (List.mem_of_getElem? (List.mk_mem_zipIdx_iff_getElem?.mp hm)))

theorem ofRecords_eq_ok {records : List Record} {request : CommitRequest} :
    ofRecords records = .ok request ↔
      (∀ r ∈ records, ¬r.Unidentified) ∧ request = sortedByState records := by
  rw [← failures_isEmpty, ofRecords]
  cases (records.zipIdx.filterMap Record.identityFailure?).isEmpty with
  | true => simp [sortedByState, eq_comm]
  | false => simp

theorem mem_created {records : List Record} {fields : Fields} :
    fields ∈ (sortedByState records).created ↔
      ∃ r ∈ records, r.state = .created ∧ r.fields = fields := by
  simp [sortedByState, and_assoc]

theorem mem_changed {records : List Record} {c : ChangeSet} :
    c ∈ (sortedByState records).changed ↔
      ∃ r ∈ records, r.state = .changed ∧ r.changes = c := by
  simp [sortedByState, and_assoc]

theorem mem_deleted {records : List Record} {id : Int64} :
    id ∈ (sortedByState records).deleted ↔
      ∃ r ∈ records, r.state = .deleted ∧ r.objectId? = some id := by
  simp [sortedByState, and_assoc]

end CommitRequest

end Inventory
