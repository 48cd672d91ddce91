import Inventory.Proofs.RecordHistory

/-! Edits of a record set as edits of its members. Every member goes the way it would go alone, and
the answer to a write names the members that refused it. -/

namespace Inventory

inductive Edit where
  | set (field : String) (v : Value)
  | delete
  | rollback

namespace Record

def edit (r : Record) : Edit → Record
  | .set field v =>
    match r.set field v with
    | .ok r => r
    | .error _ => r
  | .delete => r.delete
  | .rollback => r.rollback

def editAll (r : Record) (edits : List Edit) : Record := edits.foldl edit r

theorem edit_set_ok {r r' : Record} {field : String} {v : Value} (h : r.set field v = .ok r') :
    r.edit (.set field v) = r' := by
  simp only [edit, h]

theorem edit_set_error {r : Record} {field : String} {v : Value} {e : Error}
    (h : r.set field v = .error e) : r.edit (.set field v) = r := by
  simp only [edit, h]

theorem get?_of_set {r r' : Record} {field : String} {v : Value} (h : r.set field v = .ok r') :
    r'.fields.get? field = some v := by
  by_cases hk : field ∈ r.fields.keys
  · obtain ⟨w, hw⟩ := TextMap.mem_keys.mp hk
    cases hv : v.isFinite with
    | false => simp [set_of_nonFinite hk hv] at h
    | true =>
      rw [set_of_finite hw hv] at h
      obtain rfl := Except.ok.inj h
      rw [TextMap.get?_insert, if_pos rfl]
  · simp [set_of_absent hk] at h

/-- Whether the record has the attribute is asked before the value is looked at. -/
theorem set_eq_error_iff {r : Record} {field : String} {v : Value} {e : Error} :
    r.set field v = .error e ↔
      field ∉ r.fields.keys ∧ e = .unknownField field ∨
      field ∈ r.fields.keys ∧ v.isFinite = false ∧ e = .invalidValue field nonFinite := by
  by_cases hk : field ∈ r.fields.keys
  · obtain ⟨w, hw⟩ := TextMap.mem_keys.mp hk
    cases hv : v.isFinite with
    | false =>
      have hset : r.set field v = .error e ↔ e = .invalidValue field nonFinite := by
        rw [set_of_nonFinite hk hv, Except.error.injEq, eq_comm]
      simp [hset, hk]
    | true => simp [set_of_finite hw hv, hk]
  · have hset : r.set field v = .error e ↔ e = .unknownField field := by
      rw [set_of_absent hk, Except.error.injEq, eq_comm]
    simp [hset, hk]

end Record

namespace RecordSet

def edit (s : RecordSet) : Edit → RecordSet
  | .set field v => (s.set field v).2
  | .delete => s.delete
  | .rollback => s.rollback

def editAll (s : RecordSet) (edits : List Edit) : RecordSet := edits.foldl edit s

/-- The members that refuse a value, in the order of the set, each with its identity and its own
error. -/
structure Refused (s : RecordSet) (field : String) (v : Value) (members : List (MemberError Error)) :
    Prop where
  ascending : members.Pairwise fun m n => m.index < n.index
  mem_iff : ∀ m, m ∈ members ↔ ∃ r, s.get? m.index = some r ∧
    r.set field v = .error m.error ∧ m.objectId = r.objectId?

theorem records_edit (s : RecordSet) (e : Edit) :
    (s.edit e).records = s.records.map (Record.edit · e) := by
  cases e with
  | set field v =>
    apply List.map_congr_left
    intro r _
    cases hset : r.set field v with
    | ok r' => simp [afterSet, hset, Record.edit_set_ok hset]
    | error e => simp [afterSet, hset, Record.edit_set_error hset]
  | delete => rfl
  | rollback => rfl

/-- The members after a run of edits are the members as each is after the same run. -/
theorem records_editAll (s : RecordSet) (edits : List Edit) :
    (s.editAll edits).records = s.records.map (Record.editAll · edits) := by
  induction edits generalizing s with
  | nil => simp [editAll, Record.editAll]
  | cons e rest ih =>
    have hstep : (s.editAll (e :: rest)).records =
        (s.edit e).records.map (Record.editAll · rest) := ih (s.edit e)
    rw [hstep, records_edit, List.map_map]
    rfl

theorem get?_editAll (s : RecordSet) (edits : List Edit) (index : Nat) :
    (s.editAll edits).get? index = (s.get? index).map (Record.editAll · edits) := by
  rw [get?, records_editAll, List.getElem?_map, get?]

theorem size_editAll (s : RecordSet) (edits : List Edit) : (s.editAll edits).size = s.size := by
  rw [size, records_editAll, List.length_map, size]

theorem failure?_eq_some {field : String} {v : Value} {r : Record} {index : Nat}
    {m : MemberError Error} : failure? field v (r, index) = some m ↔
      m.index = index ∧ r.set field v = .error m.error ∧ m.objectId = r.objectId? := by
  cases hset : r.set field v with
  | ok r' => simp [failure?, hset]
  | error e =>
    obtain ⟨i, id, e'⟩ := m
    simp only [failure?, hset, Option.some.injEq, MemberError.mk.injEq, Except.error.injEq]
    constructor
    · rintro ⟨rfl, rfl, rfl⟩
      simp
    · rintro ⟨rfl, rfl, rfl⟩
      simp

theorem refused_failures (s : RecordSet) (field : String) (v : Value) :
    s.Refused field v (s.records.zipIdx.filterMap (failure? field v)) := by
  refine ⟨?_, fun m => ?_⟩
  · have hindexes : s.records.zipIdx.Pairwise fun a b => a.2 < b.2 := by
      apply List.pairwise_map.mp
      rw [List.zipIdx_map_snd]
      exact List.pairwise_lt_range'
    apply hindexes.filterMap
    intro a b hab m hm n hn
    have hm' := (failure?_eq_some.mp hm).1
    have hn' := (failure?_eq_some.mp hn).1
    rw [hm', hn']
    exact hab
  · simp only [List.mem_filterMap, Prod.exists, List.mk_mem_zipIdx_iff_getElem?, failure?_eq_some]
    constructor
    · rintro ⟨r, index, hr, rfl, hrest⟩
      exact ⟨r, hr, hrest⟩
    · rintro ⟨r, hr, hrest⟩
      exact ⟨r, m.index, hr, rfl, hrest⟩

theorem set_fst (s : RecordSet) (field : String) (v : Value) : ∃ members,
    s.Refused field v members ∧
      (s.set field v).1 = if members.isEmpty then .ok () else .error (.batch members) :=
  ⟨_, s.refused_failures field v, rfl⟩

theorem Refused.eq_nil_iff {s : RecordSet} {field : String} {v : Value}
    {members : List (MemberError Error)} (h : s.Refused field v members) :
    members = [] ↔ ∀ r ∈ s.records, ∃ r', r.set field v = .ok r' := by
  constructor
  · rintro rfl r hr
    cases hset : r.set field v with
    | ok r' => exact ⟨r', rfl⟩
    | error e =>
      obtain ⟨index, hindex⟩ := List.getElem?_of_mem hr
      have hmem := (h.mem_iff ⟨index, r.objectId?, e⟩).mpr ⟨r, hindex, hset, rfl⟩
      simp at hmem
  · intro hall
    apply List.eq_nil_iff_forall_not_mem.mpr
    intro m hm
    obtain ⟨r, hr, hset, -⟩ := (h.mem_iff m).mp hm
    obtain ⟨r', hr'⟩ := hall r (List.mem_of_getElem? hr)
    simp [hset] at hr'

theorem set_eq_ok {s : RecordSet} {field : String} {v : Value} :
    (s.set field v).1 = .ok () ↔ ∀ r ∈ s.records, ∃ r', r.set field v = .ok r' := by
  obtain ⟨members, hrefused, hset⟩ := s.set_fst field v
  rw [hset, ← hrefused.eq_nil_iff]
  by_cases hm : members = []
  · simp [hm]
  · simp [hm]

theorem set_eq_error {s : RecordSet} {field : String} {v : Value} {e : Error}
    (h : (s.set field v).1 = .error e) :
    ∃ members, members ≠ [] ∧ s.Refused field v members ∧ e = .batch members := by
  obtain ⟨members, hrefused, hset⟩ := s.set_fst field v
  rw [hset] at h
  by_cases hm : members = []
  · simp [hm] at h
  · have he : Error.batch members = e := by simpa [hm] using h
    exact ⟨members, hm, hrefused, he.symm⟩

theorem get?_set {s : RecordSet} {index : Nat} {r : Record} (h : s.get? index = some r)
    (field : String) (v : Value) :
    (s.set field v).2.get? index = some (r.edit (.set field v)) := by
  have hmap : (s.set field v).2.get? index = (s.get? index).map (Record.edit · (.set field v)) :=
    s.get?_editAll [.set field v] index
  rw [hmap, h, Option.map_some]

end RecordSet

/-- A run of edits of a set leaves every member as the same run of edits of that record alone, and
keeps the members in their places. Wherever the run stands, a write to the set succeeds if and only if
every member takes it. Otherwise the answer names just the members that refuse it, each under its place
and its identity, with the error that the record itself gives; a record that refuses it stays as it
is, and all others hold the new value. -/
theorem set_edits_are_member_edits (s : RecordSet) (edits : List Edit) :
    let now := s.editAll edits
    now.size = s.size ∧
    (∀ index, now.get? index = (s.get? index).map (Record.editAll · edits)) ∧
    ∀ field v,
      ((now.set field v).1 = .ok () ↔ ∀ r ∈ now.records, ∃ r', r.set field v = .ok r') ∧
      (∀ e, (now.set field v).1 = .error e →
        ∃ members, members ≠ [] ∧ now.Refused field v members ∧ e = .batch members) ∧
      ∀ index r, now.get? index = some r →
        (∀ r', r.set field v = .ok r' →
          (now.set field v).2.get? index = some r' ∧ r'.fields.get? field = some v) ∧
        ∀ e, r.set field v = .error e →
          (now.set field v).2.get? index = some r ∧
          (field ∉ r.fields.keys ∧ e = .unknownField field ∨
            field ∈ r.fields.keys ∧ v.isFinite = false ∧
              e = .invalidValue field Record.nonFinite) := by
  intro now
  refine ⟨s.size_editAll edits, s.get?_editAll edits, fun field v => ⟨RecordSet.set_eq_ok,
    fun _ => RecordSet.set_eq_error, fun index r hr => ⟨fun r' hset => ?_, fun e hset => ?_⟩⟩⟩
  · have hget := RecordSet.get?_set hr field v
    rw [Record.edit_set_ok hset] at hget
    exact ⟨hget, Record.get?_of_set hset⟩
  · have hget := RecordSet.get?_set hr field v
    rw [Record.edit_set_error hset] at hget
    exact ⟨hget, Record.set_eq_error_iff.mp hset⟩

end Inventory
