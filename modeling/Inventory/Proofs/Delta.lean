import Inventory.Proofs.CommitRequest
import Inventory.Proofs.RecordHistory
import Inventory.Proofs.SliceDiff

/-! The delta of a record leads from the settled values to the current ones and holds nothing else.
It decides, with the identity and the mark of deletion, where a record stands in a commit. -/

namespace Inventory

/-- The same value; of two lists the same set of elements. -/
def Value.Matches (v w : Value) : Prop :=
  match v, w with
  | .list items, .list others => forms items = forms others
  | v, w => v.sameAs w = true

namespace Value

theorem sameAs_refl (v : Value) : v.sameAs v = true := sameAs_iff.mpr rfl

theorem matches_of_sameAs {v w : Value} (h : v.sameAs w = true) : v.Matches w := by
  unfold Matches
  split
  · exact forms_eq_of_sameAs h
  · exact h

end Value

/-- Taking away what is lost and adding what is gained makes one set of forms out of the other. -/
theorem forms_lost_gained (old new : List Value) :
    forms old \ forms (sliceDiff old new).2 ∪ forms (sliceDiff old new).1 = forms new := by
  rw [forms_lost, forms_gained]
  calc forms old \ (forms old \ forms new) ∪ forms new \ forms old
      = forms new ∩ forms old ∪ forms new \ forms old := by
        rw [Set.sdiff_sdiff_right_self, Set.inter_comm]
    _ = forms new := Set.inter_union_sdiff _ _

namespace FieldChange

/-- What a change says of the value before and the value after. -/
def Describes (old new : Value) : FieldChange → Prop
  | .update before after => before = old ∧ after = new ∧
    ¬∃ items others, old = .list items ∧ new = .list others
  | .multi add remove => ∃ items others, old = .list items ∧ new = .list others ∧
    forms remove ⊆ forms items ∧ Disjoint (forms add) (forms items) ∧
    forms items \ forms remove ∪ forms add = forms others

def applyTo (v : Value) : FieldChange → Value
  | .update _ new => new
  | .multi add remove =>
    match v with
    | .list items => .list ((items.filter fun w => !remove.any (·.sameAs w)) ++ add)
    | _ => .list add

theorem between_describes (old new : Value) : (between old new).Describes old new := by
  unfold between
  split
  · rename_i items others
    refine ⟨items, others, rfl, rfl, ?_, ?_, forms_lost_gained items others⟩
    · rw [forms_lost]
      exact Set.sdiff_subset
    · rw [forms_gained]
      exact Set.disjoint_sdiff_left
  · rename_i hno
    exact ⟨rfl, rfl, fun ⟨items, others, ho, hn⟩ => hno items others ho hn⟩

theorem between_applyTo (old new : Value) : ((between old new).applyTo old).Matches new := by
  unfold between
  split
  · rename_i items others
    rw [applyTo, Value.Matches, forms_append, forms_filter_sameAs]
    exact forms_lost_gained items others
  · exact Value.matches_of_sameAs new.sameAs_refl

end FieldChange

/-- The values after the changes, for the same attributes. -/
def ChangeSet.applyTo (c : ChangeSet) (fields : Fields) : Fields :=
  fields.filterMap fun field v =>
    match c.get? field with
    | some change => some (change.applyTo v)
    | none => some v

namespace Record.Tracks

variable {r : Record} {l : Ledger}

theorem changes_get? (h : r.Tracks l) {field : String} {change : FieldChange} :
    r.changes.get? field = some change ↔ ∃ old new, l.base.get? field = some old ∧
      r.fields.get? field = some new ∧ old.sameAs new = false ∧ change = .between old new := by
  have hget : r.changes.get? field = (r.prior.get? field).bind (r.change? field) :=
    TextMap.get?_filterMap r.change? r.prior field
  rw [hget]
  constructor
  · intro hc
    obtain ⟨old, hp, hch⟩ := Option.bind_eq_some_iff.mp hc
    obtain ⟨hb, new, hnew, hchange⟩ := h.change?_of_prior hp
    rw [hchange] at hch
    cases hs : old.sameAs new with
    | true => simp [hs] at hch
    | false =>
      simp only [hs, Bool.false_eq_true, if_false, Option.some.injEq] at hch
      exact ⟨old, new, hb, hnew, hs, hch.symm⟩
  · rintro ⟨old, new, hb, hnew, hs, rfl⟩
    have ht : field ∈ l.touched := by
      by_contra hno
      rw [h.fields, h.untouched field hno, hb] at hnew
      rw [Option.some.inj hnew, Value.sameAs_refl] at hs
      cases hs
    have hp : r.prior.get? field = some old := by rw [h.prior, if_pos ht, hb]
    obtain ⟨-, new', hnew', hchange⟩ := h.change?_of_prior hp
    obtain rfl := Option.some.inj (hnew'.symm.trans hnew)
    rw [hp, Option.bind_some, hchange, hs]
    rfl

theorem get?_base_isSome (h : r.Tracks l) (field : String) :
    (∃ old, l.base.get? field = some old) ↔ ∃ new, r.fields.get? field = some new := by
  rw [← TextMap.mem_keys, ← TextMap.mem_keys, h.mem_keys]

theorem changes_applyTo (h : r.Tracks l) (field : String) :
    Option.Rel Value.Matches ((r.changes.applyTo l.base).get? field) (r.fields.get? field) := by
  rw [ChangeSet.applyTo, TextMap.get?_filterMap]
  cases hb : l.base.get? field with
  | none =>
    have hnone : r.fields.get? field = none := by
      by_contra hno
      obtain ⟨old, hold⟩ := (h.get?_base_isSome field).mpr (Option.ne_none_iff_exists'.mp hno)
      simp [hb] at hold
    rw [hnone]
    exact .none
  | some old =>
    obtain ⟨new, hnew⟩ := (h.get?_base_isSome field).mp ⟨old, hb⟩
    rw [hnew, Option.bind_some]
    cases hc : r.changes.get? field with
    | none =>
      have hs : old.sameAs new = true := by
        by_contra hno
        have hch := h.changes_get?.mpr
          ⟨old, new, hb, hnew, Bool.not_eq_true _ ▸ hno, rfl⟩
        simp [hc] at hch
      exact .some (Value.matches_of_sameAs hs)
    | some change =>
      obtain ⟨old', new', hb', hnew', -, rfl⟩ := h.changes_get?.mp hc
      obtain rfl := Option.some.inj (hb.symm.trans hb')
      obtain rfl := Option.some.inj (hnew.symm.trans hnew')
      exact .some (FieldChange.between_applyTo old new)

end Record.Tracks

namespace Record

/-- What is sent for a record of which one attribute was written, and not back to its settled value. -/
theorem changes_of_single {r : Record} {field : String} {old new : Value}
    (hprior : r.prior.entries = [(field, old)]) (hnew : r.fields.get? field = some new)
    (hdiffer : old.sameAs new = false) :
    r.changes = ⟨r.objectId?, .ofList [(field, .between old new)]⟩ := by
  have hchange : r.change? field old = some (.between old new) := by
    simp [change?, hnew, hdiffer]
  have hentries : (r.prior.filterMap r.change?).entries =
      (TextMap.ofList [(field, FieldChange.between old new)]).entries := by
    simp only [TextMap.filterMap, hprior, List.filterMap_cons, hchange]
    rfl
  rw [changes, TextMap.ext hentries]

theorem state_eq_changed {r : Record} : r.state = .changed ↔
    (∃ id, r.fields.get? objectIdName = some id ∧ id ≠ .null) ∧ r.deleted = false ∧
      r.changes.isEmpty = false := by
  unfold state
  split
  · rename_i hid
    simp [hid]
  · rename_i hid
    simp [hid]
  · rename_i id hnull hid
    have hnull : id ≠ .null := hnull
    cases hd : r.deleted with
    | true => simp
    | false => cases he : r.changes.isEmpty <;> simp [hid, hnull]

theorem state_of_changes {r : Record} (h : r.changes.isEmpty = false) :
    r.state = .created ∨ r.state = .deleted ∨ r.state = .changed := by
  unfold state
  split
  · exact .inl rfl
  · exact .inl rfl
  · cases hd : r.deleted <;> simp [h]

end Record

namespace CommitRequest

theorem changed_isEmpty {records : List Record} {request : CommitRequest}
    (h : ofRecords records = .ok request) {c : ChangeSet} (hc : c ∈ request.changed) :
    c.isEmpty = false := by
  obtain ⟨-, rfl⟩ := ofRecords_eq_ok.mp h
  obtain ⟨r, -, hs, rfl⟩ := mem_changed.mp hc
  exact (Record.state_eq_changed.mp hs).2.2

theorem lists_changes {records : List Record} {request : CommitRequest}
    (h : ofRecords records = .ok request) {r : Record} (hr : r ∈ records)
    (hc : r.changes.isEmpty = false) :
    (r.state = .created ∧ r.fields ∈ request.created) ∨
    (r.state = .deleted ∧ ∃ id, r.objectId? = some id ∧ id ∈ request.deleted) ∨
    (r.state = .changed ∧ r.changes ∈ request.changed) := by
  obtain ⟨hids, rfl⟩ := ofRecords_eq_ok.mp h
  rcases Record.state_of_changes hc with hs | hs | hs
  · exact .inl ⟨hs, mem_created.mpr ⟨r, hr, hs, rfl⟩⟩
  · have hne : r.objectId? ≠ none := fun hno => hids r hr ⟨.inr hs, hno⟩
    obtain ⟨id, hid⟩ := Option.ne_none_iff_exists'.mp hne
    exact .inr (.inl ⟨hs, id, hid, mem_deleted.mpr ⟨r, hr, hs, hid⟩⟩)
  · exact .inr (.inr ⟨hs, mem_changed.mpr ⟨r, hr, hs, rfl⟩⟩)

end CommitRequest

variable {τ : Type} [Transport τ]

/-- After any history the delta lists the attributes whose values differ from those a rollback would
give, says how they differ, and is sent when it says anything. -/
theorem delta_sound_and_minimal (fields : Fields) (events : List (Event τ)) :
    let r := (Record.ofFields fields).history events
    let base := r.rollback.fields
    (∀ field, (∃ change, r.changes.get? field = some change) ↔
      ∃ old new, base.get? field = some old ∧ r.fields.get? field = some new ∧
        old.sameAs new = false) ∧
    (∀ field change, r.changes.get? field = some change →
      ∃ old new, base.get? field = some old ∧ r.fields.get? field = some new ∧
        change.Describes old new) ∧
    (∀ field, Option.Rel Value.Matches ((r.changes.applyTo base).get? field)
      (r.fields.get? field)) ∧
    (r.state = .changed ↔ (∃ id, r.fields.get? objectIdName = some id ∧ id ≠ .null) ∧
      r.deleted = false ∧ r.changes.isEmpty = false) ∧
    (∀ before after request, CommitRequest.ofRecords (before ++ r :: after) = .ok request →
      (∀ c ∈ request.changed, c.isEmpty = false) ∧
      (r.changes.isEmpty = false →
        (r.state = .created ∧ r.fields ∈ request.created) ∨
        (r.state = .deleted ∧ ∃ id, r.objectId? = some id ∧ id ∈ request.deleted) ∨
        (r.state = .changed ∧ r.changes ∈ request.changed))) := by
  intro r base
  have h : r.Tracks ((Ledger.ofFields fields).writeAll ((Record.ofFields fields).entries events)) :=
    (Record.tracks_ofFields fields).history events
  have hbase : base = ((Ledger.ofFields fields).writeAll
      ((Record.ofFields fields).entries events)).base := congrArg Record.fields h.rollback_eq
  rw [hbase]
  refine ⟨fun field => ?_, fun field change hc => ?_, h.changes_applyTo, Record.state_eq_changed,
    fun before after request hreq => ⟨fun c hc => CommitRequest.changed_isEmpty hreq hc, fun hc =>
      CommitRequest.lists_changes hreq (List.mem_append_right before List.mem_cons_self) hc⟩⟩
  · constructor
    · rintro ⟨change, hc⟩
      obtain ⟨old, new, hb, hn, hs, -⟩ := h.changes_get?.mp hc
      exact ⟨old, new, hb, hn, hs⟩
    · rintro ⟨old, new, hb, hn, hs⟩
      exact ⟨_, h.changes_get?.mpr ⟨old, new, hb, hn, hs, rfl⟩⟩
  · obtain ⟨old, new, hb, hn, -, rfl⟩ := h.changes_get?.mp hc
    exact ⟨old, new, hb, hn, FieldChange.between_describes old new⟩

end Inventory
