import Inventory.Proofs.CommitPayload

/-! What a successful commit leaves behind. Every record is settled, and committing the records again
changes nothing about them: time after time it sends the fields of those that are not stored, and no
change or deletion. -/

namespace Inventory

namespace Record

/-- The record carries an identity, usable or not. -/
def Stored (r : Record) : Prop := ∃ v, r.fields.get? objectIdName = some v ∧ v ≠ .null

structure Settled (r : Record) : Prop where
  unwritten : r.prior = ∅
  unmarked : r.deleted = false

/-- What a commit that succeeded makes of a record. -/
structure SettlesTo (r s : Record) : Prop where
  settled : s.Settled
  stored : r.state = .changed ∨ r.state = .consistent →
    s.state = .consistent ∧ s.fields = r.fields
  unstored : r.state = .created ∨ r.state = .deleted →
    s.state = .created ∧ ∀ field, s.fields.get? field =
      if r.deleted = true ∧ field = objectIdName then some .null else r.fields.get? field

/-- The identity comes first, then the mark, then the changes. -/
theorem state_cases (r : Record) :
    (r.state = .created ∧ ¬r.Stored) ∨
    (r.state = .deleted ∧ r.Stored ∧ r.deleted = true) ∨
    (r.state = .changed ∧ r.Stored ∧ r.deleted = false ∧ r.changes.isEmpty = false) ∨
    (r.state = .consistent ∧ r.Stored ∧ r.deleted = false ∧ r.changes.isEmpty = true) := by
  unfold state
  split
  · rename_i hid
    exact .inl ⟨rfl, fun ⟨v, hv, _⟩ => by simp [hid] at hv⟩
  · rename_i hid
    exact .inl ⟨rfl, fun ⟨v, hv, hne⟩ => hne (Option.some.inj (hv.symm.trans hid))⟩
  · rename_i v hne hid
    have hstored : r.Stored := ⟨v, hid, hne⟩
    cases hd : r.deleted with
    | true => exact .inr (.inl ⟨rfl, hstored, rfl⟩)
    | false =>
      cases hc : r.changes.isEmpty with
      | false => exact .inr (.inr (.inl ⟨rfl, hstored, rfl, rfl⟩))
      | true => exact .inr (.inr (.inr ⟨rfl, hstored, rfl, rfl⟩))

theorem state_of_not_stored {r : Record} (h : ¬r.Stored) : r.state = .created := by
  rcases r.state_cases with ⟨hs, -⟩ | ⟨-, hstored, -⟩ | ⟨-, hstored, -⟩ | ⟨-, hstored, -⟩
  · exact hs
  all_goals exact absurd hstored h

theorem Settled.changes_isEmpty {r : Record} (h : r.Settled) : r.changes.isEmpty = true := by
  rw [changes, h.unwritten]
  rfl

theorem Settled.state_eq {r : Record} (h : r.Settled) :
    (r.state = .created ∧ ¬r.Stored) ∨ (r.state = .consistent ∧ r.Stored) := by
  rcases r.state_cases with hc | ⟨-, -, hd⟩ | ⟨-, -, -, hno⟩ | ⟨hs, hstored, -⟩
  · exact .inl hc
  · rw [h.unmarked] at hd
    cases hd
  · rw [h.changes_isEmpty] at hno
    cases hno
  · exact .inr ⟨hs, hstored⟩

theorem Settled.not_unidentified {r : Record} (h : r.Settled) : ¬r.Unidentified := by
  rintro ⟨hs, -⟩
  rcases h.state_eq with ⟨hc, -⟩ | ⟨hc, -⟩ <;> simp [hc] at hs

theorem Settled.confirm_eq {r : Record} (h : r.Settled) : r.confirm = r := by
  obtain ⟨fields, prior, deleted⟩ := r
  obtain rfl : prior = ∅ := h.unwritten
  obtain rfl : deleted = false := h.unmarked
  rfl

theorem settled_confirm (r : Record) : r.confirm.Settled := ⟨rfl, rfl⟩

theorem get?_confirm (r : Record) (field : String) : r.confirm.fields.get? field =
    if r.deleted = true ∧ field = objectIdName then some .null else r.fields.get? field := by
  rw [confirm]
  cases r.deleted with
  | true => simp [TextMap.get?_insert]
  | false => simp

theorem settlesTo_confirm (r : Record) : r.SettlesTo r.confirm := by
  have hsettled := r.settled_confirm
  refine ⟨hsettled, fun hs => ?_, fun hs => ⟨?_, r.get?_confirm⟩⟩
  · have hstored : r.Stored ∧ r.deleted = false := by
      rcases r.state_cases with ⟨hc, -⟩ | ⟨hc, -⟩ | ⟨-, hr, hd, -⟩ | ⟨-, hr, hd, -⟩
      · simp [hc] at hs
      · simp [hc] at hs
      all_goals exact ⟨hr, hd⟩
    have hfields : r.confirm.fields = r.fields := by rw [confirm, hstored.2]; rfl
    rcases hsettled.state_eq with ⟨-, hno⟩ | ⟨hc, -⟩
    · rw [Stored, hfields] at hno
      exact absurd hstored.1 hno
    · exact ⟨hc, hfields⟩
  · apply state_of_not_stored
    rintro ⟨v, hv, hne⟩
    rw [get?_confirm] at hv
    rcases r.state_cases with ⟨-, hno⟩ | ⟨-, -, hd⟩ | ⟨hc, -⟩ | ⟨hc, -⟩
    · by_cases hd : r.deleted = true
      · rw [if_pos ⟨hd, rfl⟩] at hv
        exact hne (Option.some.inj hv).symm
      · rw [if_neg (fun h => hd h.1)] at hv
        exact hno ⟨v, hv, hne⟩
    · rw [if_pos ⟨hd, rfl⟩] at hv
      exact hne (Option.some.inj hv).symm
    · simp [hc] at hs
    · simp [hc] at hs

end Record

/-- The fields of the records that had no object, or lose theirs, with the values after the commit. -/
def unstoredFields (before after : List Record) : List Fields :=
  ((before.zip after).filter fun e => e.1.state = .created ∨ e.1.state = .deleted).map (·.2.fields)

/-- The payload that creates objects and does nothing else. -/
def creationPayload (created : List Fields) : Json :=
  .object [("changed", .array []), ("created", .array (created.map Fields.toJson)),
    ("deleted", .array [])]

namespace CommitRequest

theorem ofRecords_of_settled {records : List Record} (h : ∀ r ∈ records, r.Settled) :
    ofRecords records =
      .ok ⟨(records.filter (·.state = .created)).map Record.fields, [], []⟩ := by
  rw [ofRecords_eq_ok]
  refine ⟨fun r hr => (h r hr).not_unidentified, ?_⟩
  have hnone : ∀ s : CommitState, s = .changed ∨ s = .deleted →
      records.filter (·.state = s) = [] := by
    intro s hs
    rw [List.filter_eq_nil_iff]
    intro r hr
    rcases (h r hr).state_eq with ⟨hc, -⟩ | ⟨hc, -⟩ <;> rcases hs with rfl | rfl <;> simp [hc]
  rw [sortedByState, hnone .changed (.inl rfl), hnone .deleted (.inr rfl)]
  rfl

theorem created_confirm (records : List Record) :
    ((records.map Record.confirm).filter (·.state = .created)).map Record.fields =
      unstoredFields records (records.map Record.confirm) := by
  have hzip : records.zip (records.map Record.confirm) = records.map fun r => (r, r.confirm) :=
    List.map_prod_left_eq_zip.symm
  have hstate : ∀ r : Record, r.confirm.state = .created ↔
      r.state = .created ∨ r.state = .deleted := by
    intro r
    have hr := r.settlesTo_confirm
    constructor
    · intro hc
      rcases r.state_cases with ⟨hs, -⟩ | ⟨hs, -⟩ | ⟨hs, -⟩ | ⟨hs, -⟩
      · exact .inl hs
      · exact .inr hs
      · simp [(hr.stored (.inl hs)).1] at hc
      · simp [(hr.stored (.inr hs)).1] at hc
    · intro hs
      exact (hr.unstored hs).1
  rw [unstoredFields, hzip, List.filter_map, List.filter_map, List.map_map, List.map_map]
  simp only [Function.comp_def, hstate]

end CommitRequest

variable {τ : Type} [Transport τ]

/-- A commit of settled records leaves them as they are, whatever the service answers, and asks for
the creation of those that are not stored. -/
theorem commit_of_settled {records : List Record} (h : ∀ r ∈ records, r.Settled) (o : Observed τ) :
    (commit records o).2.1 = records ∧
      (commit records o).2.2.sent = o.sent ++ [(.commit,
        creationPayload ((records.filter (·.state = .created)).map Record.fields))] := by
  have hrequest := CommitRequest.ofRecords_of_settled h
  constructor
  · rw [commit_records, List.map_congr_left fun r hr => (h r hr).confirm_eq, List.map_id'']
    · exact ite_self records
    · exact fun _ => rfl
  · rw [commit_sent hrequest, CommitRequest.sorted_toJson]
    rfl

def recommit : Nat → List Record → Observed τ → List Record × Observed τ
  | 0, records, o => (records, o)
  | times + 1, records, o => recommit times (commit records o).2.1 (commit records o).2.2

theorem recommit_of_settled {records : List Record} (h : ∀ r ∈ records, r.Settled) (times : Nat)
    (o : Observed τ) :
    (recommit times records o).1 = records ∧
      (recommit times records o).2.sent = o.sent ++ List.replicate times (.commit,
        creationPayload ((records.filter (·.state = .created)).map Record.fields)) := by
  induction times generalizing o with
  | zero => simp [recommit]
  | succ times ih =>
    obtain ⟨hrecords, hsent⟩ := commit_of_settled h o
    obtain ⟨hrest, hmore⟩ := ih (commit records o).2.2
    rw [recommit, hrecords]
    refine ⟨hrest, ?_⟩
    rw [hmore, hsent, List.append_assoc, List.replicate_succ]
    rfl

/-- After a commit that succeeded every record is settled. From then on, without other operations in
between, each further commit leaves the records as they are and sends the same request: the creation
of those that had no object or lost theirs, no change and no deletion. -/
theorem commit_settles_for_good {records : List Record} {t : τ} {id : Int64}
    (h : (commit records t).1 = .ok id) :
    let after := (commit records t).2.1
    List.Forall₂ Record.SettlesTo records after ∧
    CommitRequest.ofRecords after = .ok ⟨unstoredFields records after, [], []⟩ ∧
    ∀ (times : Nat) (o : Observed τ),
      (recommit times after o).1 = after ∧
      (recommit times after o).2.sent =
        o.sent ++ List.replicate times (.commit, creationPayload (unstoredFields records after)) := by
  intro after
  have hafter : after = records.map Record.confirm := by
    have hr := commit_records records t
    rw [h] at hr
    exact hr
  have hsettled : ∀ r ∈ after, r.Settled := by
    rw [hafter]
    intro r hr
    obtain ⟨s, -, rfl⟩ := List.mem_map.mp hr
    exact s.settled_confirm
  have hcreated : (after.filter (·.state = .created)).map Record.fields =
      unstoredFields records after := by
    rw [hafter]
    exact CommitRequest.created_confirm records
  rw [← hcreated]
  refine ⟨?_, CommitRequest.ofRecords_of_settled hsettled, recommit_of_settled hsettled⟩
  rw [hafter, List.forall₂_map_right_iff, List.forall₂_same]
  exact fun r _ => r.settlesTo_confirm

/-- A record without identity, one marked for deletion, one with a pending write and one that is in step
with the service. -/
theorem commit_settles_one_of_each :
    let fresh : Record := .ofFields (.ofList [("hostname", .text "a")])
    let doomed : Record := (Record.ofFields (.ofList [(objectIdName, .int 1)])).delete
    let edited : Record := (Record.ofFields
      (.ofList [(objectIdName, .int 2), ("hostname", .text "b")])).history
        ([.set "hostname" (.text "c")] : List (Event Script))
    let quiet : Record := .ofFields (.ofList [(objectIdName, .int 3)])
    let t : Script := .ofReplies [.ok (.object [("commit_id", .integer 7), ("status", .text "success")])]
    let after := (commit [fresh, doomed, edited, quiet] t).2.1
    let again := recommit 2 after (⟨.ofReplies [], []⟩ : Observed Script)
    (commit [fresh, doomed, edited, quiet] t).1 = .ok 7 ∧ again.1 = after ∧
    again.2.sent = List.replicate 2 (.commit, .object [("changed", .array []),
      ("created", .array [.object [("hostname", .text "a")], .object [(objectIdName, .null)]]),
      ("deleted", .array [])]) := by
  intro fresh doomed edited quiet t after again
  have hfresh : fresh.state = .created := rfl
  have hdoomed : doomed.state = .deleted := rfl
  have hedited : edited.state = .changed := by decide +kernel
  have hquiet : quiet.state = .consistent := rfl
  have hrequest : CommitRequest.ofRecords [fresh, doomed, edited, quiet] =
      .ok ⟨[fresh.fields], [edited.changes], [1]⟩ :=
    CommitRequest.ofRecords_eq_ok_iff_sorts.mpr
      (.created hfresh (.deleted hdoomed rfl (.changed hedited rfl (.consistent hquiet .nil))))
  have hanswer : (commit [fresh, doomed, edited, quiet] t).1 = .ok 7 := by
    rw [commit_of_request hrequest]
    rfl
  have hafter : after = [fresh, doomed, edited, quiet].map Record.confirm := by
    have hrecords := commit_records [fresh, doomed, edited, quiet] t
    rw [hanswer] at hrecords
    exact hrecords
  have hcreated : unstoredFields [fresh, doomed, edited, quiet] after =
      [fresh.confirm.fields, doomed.confirm.fields] := by
    rw [hafter]
    simp [unstoredFields, hfresh, hdoomed, hedited, hquiet]
  obtain ⟨-, -, hagain⟩ := commit_settles_for_good hanswer
  obtain ⟨hsame, hsent⟩ := hagain 2 (⟨.ofReplies [], []⟩ : Observed Script)
  refine ⟨hanswer, hsame, ?_⟩
  rw [hsent, hcreated]
  rfl

end Inventory
