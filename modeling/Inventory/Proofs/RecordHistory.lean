import Inventory.Proofs.CommitOutcome
import Inventory.Proofs.FiniteValue
import Mathlib.Data.Finset.Insert

/-! Records over whole histories. A ledger keeps the settled values of a record apart from the
current ones, with the set of attributes written since; it says what a record must be after any
sequence of events. -/

namespace Inventory

/-- What can happen to a record. It is committed as a member of a list, and the service may refuse
the whole of it. -/
inductive Event (τ : Type) where
  | set (field : String) (v : Value)
  | delete
  | rollback
  | commit (before after : List Record) (t : τ)

structure Ledger where
  base : Fields
  current : Fields
  touched : Finset String
  deleted : Bool

/-- An event with the answer of the service. -/
inductive Entry where
  | set (field : String) (v : Value)
  | delete
  | rollback
  | commit (accepted : Bool)

namespace Ledger

def ofFields (fields : Fields) : Ledger := ⟨fields, fields, ∅, false⟩

def write (l : Ledger) : Entry → Ledger
  | .set field v =>
    if field ∈ l.base.keys ∧ v.isFinite = true then
      { l with current := l.current.insert field v, touched := insert field l.touched }
    else l
  | .delete => { l with deleted := true }
  | .rollback => ofFields l.base
  | .commit true =>
    ofFields (if l.deleted then l.current.insert objectIdName .null else l.current)
  | .commit false => l

theorem write_set {l : Ledger} {field : String} {v : Value} (hk : field ∈ l.base.keys)
    (hv : v.isFinite = true) : l.write (.set field v) =
      { l with current := l.current.insert field v, touched := insert field l.touched } :=
  if_pos ⟨hk, hv⟩

theorem write_set_refused {l : Ledger} {field : String} {v : Value}
    (h : ¬(field ∈ l.base.keys ∧ v.isFinite = true)) : l.write (.set field v) = l :=
  if_neg h

def writeAll (l : Ledger) (entries : List Entry) : Ledger := entries.foldl write l

end Ledger

variable {τ : Type} [Transport τ]

namespace Record

def undergo (r : Record) : Event τ → Record
  | .set field v => RecordSet.afterSet field v r
  | .delete => r.delete
  | .rollback => r.rollback
  | .commit before after t =>
    (Inventory.commit (before ++ r :: after) t).2.1[before.length]?.getD r

def history (r : Record) (events : List (Event τ)) : Record := events.foldl undergo r

def entry (r : Record) : Event τ → Entry
  | .set field v => .set field v
  | .delete => .delete
  | .rollback => .rollback
  | .commit before after t => .commit (Inventory.commit (before ++ r :: after) t).1.isOk

def entries (r : Record) : List (Event τ) → List Entry
  | [] => []
  | e :: rest => r.entry e :: (r.undergo e).entries rest

/-- What the ledger of a record says about it. -/
structure Tracks (r : Record) (l : Ledger) : Prop where
  fields : r.fields = l.current
  deleted : r.deleted = l.deleted
  keys : l.current.keys = l.base.keys
  touched : ∀ field ∈ l.touched, field ∈ l.base.keys
  prior : ∀ field, r.prior.get? field = if field ∈ l.touched then l.base.get? field else none
  untouched : ∀ field ∉ l.touched, l.current.get? field = l.base.get? field

theorem tracks_ofFields (fields : Fields) : (ofFields fields).Tracks (.ofFields fields) where
  fields := rfl
  deleted := rfl
  keys := rfl
  touched := by simp [Ledger.ofFields]
  prior := by simp [ofFields, Ledger.ofFields, TextMap.get?_empty]
  untouched := fun _ _ => rfl

theorem set_of_absent {r : Record} {field : String} (h : field ∉ r.fields.keys) (v : Value) :
    r.set field v = .error (.unknownField field) := by
  have hg : r.fields.get? field = none := by
    apply Option.eq_none_iff_forall_not_mem.mpr
    intro w hw
    exact h (TextMap.mem_keys.mpr ⟨w, hw⟩)
  simp only [set, hg]

theorem set_of_nonFinite {r : Record} {field : String} {v : Value} (h : field ∈ r.fields.keys)
    (hv : v.isFinite = false) : r.set field v = .error (.invalidValue field nonFinite) := by
  obtain ⟨w, hw⟩ := TextMap.mem_keys.mp h
  simp [set, hw, hv]

theorem set_of_finite {r : Record} {field : String} {v w : Value} (h : r.fields.get? field = some w)
    (hv : v.isFinite = true) : r.set field v = .ok { r with
      fields := r.fields.insert field v
      prior := if r.prior.contains field then r.prior else r.prior.insert field w } := by
  simp [set, h, hv]

theorem undergo_commit (r : Record) (before after : List Record) (t : τ) :
    r.undergo (.commit before after t) =
      if (Inventory.commit (before ++ r :: after) t).1.isOk then r.confirm else r := by
  rw [undergo, commit_records]
  cases (Inventory.commit (before ++ r :: after) t).1.isOk <;> simp

namespace Tracks

variable {r : Record} {l : Ledger}

theorem mem_keys (h : r.Tracks l) {field : String} :
    field ∈ r.fields.keys ↔ field ∈ l.base.keys := by rw [h.fields, h.keys]

theorem set (h : r.Tracks l) (field : String) (v : Value) :
    (RecordSet.afterSet field v r).Tracks (l.write (.set field v)) := by
  by_cases hk : field ∈ r.fields.keys
  · cases hv : v.isFinite with
    | false =>
      rw [RecordSet.afterSet, set_of_nonFinite hk hv, Ledger.write_set_refused (by simp [hv])]
      exact h
    | true =>
      obtain ⟨w, hw⟩ := TextMap.mem_keys.mp hk
      have hb := h.mem_keys.mp hk
      have hcurrent : field ∈ l.current.keys := h.fields ▸ hk
      rw [RecordSet.afterSet, set_of_finite hw hv, Ledger.write_set hb hv]
      refine ⟨congrArg (TextMap.insert · field v) h.fields, h.deleted, ?_, ?_, ?_, ?_⟩
      · exact (TextMap.keys_insert_of_mem hcurrent v).trans h.keys
      · intro k hm
        rcases Finset.mem_insert.mp hm with rfl | hm
        · exact hb
        · exact h.touched k hm
      · intro k
        by_cases ht : field ∈ l.touched
        · -- a later write leaves the remembered value alone
          obtain ⟨old, hold⟩ := TextMap.mem_keys.mp hb
          have hp : r.prior.contains field = true :=
            TextMap.contains_iff.mpr ⟨old, by rw [h.prior, if_pos ht, hold]⟩
          simp only [hp, if_true, Finset.insert_eq_of_mem ht]
          exact h.prior k
        · have hp : r.prior.contains field = false := by
            simp [TextMap.contains, h.prior, ht]
          have hwb : l.base.get? field = some w := by
            rw [← h.untouched field ht, ← h.fields, hw]
          simp only [hp, Bool.false_eq_true, if_false, TextMap.get?_insert, Finset.mem_insert]
          by_cases hkf : k = field
          · simp [hkf, hwb]
          · simp [hkf, h.prior]
      · intro k hm
        simp only [Finset.mem_insert, not_or] at hm
        rw [TextMap.get?_insert, if_neg hm.1, h.untouched k hm.2]
  · rw [RecordSet.afterSet, set_of_absent hk,
      Ledger.write_set_refused fun hh => hk (h.mem_keys.mpr hh.1)]
    exact h

theorem delete (h : r.Tracks l) : r.delete.Tracks (l.write .delete) :=
  ⟨h.fields, rfl, h.keys, h.touched, h.prior, h.untouched⟩

theorem rollback_eq (h : r.Tracks l) : r.rollback = ofFields l.base := by
  have hf : r.fields.overlay r.prior = l.base := by
    apply TextMap.ext_get?
    intro k
    rw [TextMap.get?_overlay, h.prior]
    by_cases hk : k ∈ l.touched
    · obtain ⟨v, hv⟩ := TextMap.mem_keys.mp (h.touched k hk)
      simp [hk, hv]
    · simp [hk, h.fields, h.untouched k hk]
  rw [rollback, hf, ofFields]

theorem confirm_eq (h : r.Tracks l) : r.confirm =
    ofFields (if l.deleted then l.current.insert objectIdName .null else l.current) := by
  rw [confirm, h.fields, h.deleted, ofFields]

theorem undergo (h : r.Tracks l) (e : Event τ) : (r.undergo e).Tracks (l.write (r.entry e)) := by
  cases e with
  | set field v => exact h.set field v
  | delete => exact h.delete
  | rollback =>
    rw [Record.undergo, h.rollback_eq]
    exact tracks_ofFields l.base
  | commit before after t =>
    rw [undergo_commit, entry]
    cases (Inventory.commit (before ++ r :: after) t).1.isOk with
    | true =>
      rw [if_pos rfl, h.confirm_eq]
      exact tracks_ofFields _
    | false => exact h

theorem history (h : r.Tracks l) (events : List (Event τ)) :
    (r.history events).Tracks (l.writeAll (r.entries events)) := by
  induction events generalizing r l with
  | nil => exact h
  | cons e rest ih => exact ih (h.undergo e)

theorem get?_of_prior (h : r.Tracks l) {field : String} {old : Value}
    (hp : r.prior.get? field = some old) :
    l.base.get? field = some old ∧ ∃ new, r.fields.get? field = some new := by
  rw [h.prior] at hp
  by_cases hk : field ∈ l.touched
  · rw [if_pos hk] at hp
    exact ⟨hp, TextMap.mem_keys.mp (h.mem_keys.mpr (h.touched field hk))⟩
  · simp [hk] at hp

end Tracks

theorem set_eq_unknownField (r : Record) (field : String) (v : Value) :
    r.set field v = .error (.unknownField field) ↔ field ∉ r.fields.keys := by
  constructor
  · intro h hk
    obtain ⟨w, hw⟩ := TextMap.mem_keys.mp hk
    cases hv : v.isFinite with
    | false => simp [set_of_nonFinite hk hv] at h
    | true => simp [set_of_finite hw hv] at h
  · intro h
    exact set_of_absent h v

theorem set_eq_invalidValue (r : Record) (field : String) (v : Value) :
    r.set field v = .error (.invalidValue field nonFinite) ↔
      field ∈ r.fields.keys ∧ ∃ d, v.Holds d ∧ d.isFinite = false := by
  rw [← Value.not_isFinite_iff]
  by_cases hk : field ∈ r.fields.keys
  · obtain ⟨w, hw⟩ := TextMap.mem_keys.mp hk
    cases hv : v.isFinite with
    | false => simp [set_of_nonFinite hk hv, hk]
    | true => simp [set_of_finite hw hv]
  · simp [set_of_absent hk, hk]

theorem set_eq_error {r : Record} {field : String} {v : Value} {e : Error}
    (h : r.set field v = .error e) :
    e = .unknownField field ∨ e = .invalidValue field nonFinite := by
  by_cases hk : field ∈ r.fields.keys
  · obtain ⟨w, hw⟩ := TextMap.mem_keys.mp hk
    cases hv : v.isFinite with
    | false =>
      rw [set_of_nonFinite hk hv] at h
      exact .inr (Except.error.inj h).symm
    | true => simp [set_of_finite hw hv] at h
  · rw [set_of_absent hk] at h
    exact .inl (Except.error.inj h).symm

theorem undergo_failed_set {r : Record} {field : String} {v : Value} {e : Error}
    (h : r.set field v = .error e) : r.undergo (.set field v : Event τ) = r := by
  simp only [undergo, RecordSet.afterSet, h]

theorem undergo_commit_cases (r : Record) (before after : List Record) (t : τ) :
    (∃ id, (Inventory.commit (before ++ r :: after) t).1 = .ok id ∧
      r.undergo (.commit before after t) = r.confirm) ∨
    (∃ e, (Inventory.commit (before ++ r :: after) t).1 = .error e ∧
      r.undergo (.commit before after t) = r) := by
  have hu := undergo_commit r before after t
  cases ha : (Inventory.commit (before ++ r :: after) t).1 with
  | ok id =>
    rw [ha] at hu
    exact .inl ⟨id, rfl, hu.trans (if_pos rfl)⟩
  | error e =>
    rw [ha] at hu
    exact .inr ⟨e, rfl, hu.trans (if_neg (by simp [Except.isOk, Except.toBool]))⟩

/-- The comparison with null for an attribute that a record lacks never takes place. -/
theorem Tracks.change?_of_prior {r : Record} {l : Ledger} (h : r.Tracks l) {field : String}
    {old : Value} (hp : r.prior.get? field = some old) :
    l.base.get? field = some old ∧ ∃ new, r.fields.get? field = some new ∧
      r.change? field old = if old.sameAs new then none else some (.between old new) := by
  obtain ⟨hb, new, hnew⟩ := h.get?_of_prior hp
  exact ⟨hb, new, hnew, by rw [change?, hnew, Option.getD_some]⟩

end Record

/-- A record is at every moment what its ledger says: the current values, the settled values of the
attributes written since, and the mark of deletion. -/
theorem record_refines_ledger (fields : Fields) (events : List (Event τ)) :
    let r := (Record.ofFields fields).history events
    let l := (Ledger.ofFields fields).writeAll ((Record.ofFields fields).entries events)
    r.Tracks l ∧
    r.rollback = .ofFields l.base ∧
    r.confirm = .ofFields (if l.deleted then l.current.insert objectIdName .null else l.current) ∧
    (∀ (before after : List Record) (t : τ),
      (∃ id, (commit (before ++ r :: after) t).1 = .ok id ∧
        r.undergo (.commit before after t) = r.confirm) ∨
      (∃ e, (commit (before ++ r :: after) t).1 = .error e ∧
        r.undergo (.commit before after t) = r)) ∧
    (∀ field v,
      (r.set field v = .error (.unknownField field) ↔ field ∉ r.fields.keys) ∧
      (r.set field v = .error (.invalidValue field Record.nonFinite) ↔
        field ∈ r.fields.keys ∧ ∃ d, v.Holds d ∧ d.isFinite = false) ∧
      (∀ e, r.set field v = .error e →
        (e = .unknownField field ∨ e = .invalidValue field Record.nonFinite) ∧
        r.undergo (.set field v : Event τ) = r)) ∧
    (∀ field old, r.prior.get? field = some old →
      l.base.get? field = some old ∧ ∃ new, r.fields.get? field = some new ∧
        r.change? field old = if old.sameAs new then none else some (.between old new)) := by
  intro r l
  have h : r.Tracks l := (Record.tracks_ofFields fields).history events
  refine ⟨h, h.rollback_eq, h.confirm_eq, r.undergo_commit_cases, fun field v => ⟨?_, ?_, ?_⟩,
    fun field old hp => h.change?_of_prior hp⟩
  · exact r.set_eq_unknownField field v
  · exact r.set_eq_invalidValue field v
  · intro e he
    exact ⟨Record.set_eq_error he, Record.undergo_failed_set he⟩

end Inventory
