import Inventory.Proofs.ObjectCreation

/-! Values given to a record one after the other. The first one that the record cannot take decides the
failure; if it takes all of them, only the last value under each name shows, so that values for
different attributes may change places. -/

namespace Inventory

/-- Why a record does not take a value, if it does not. -/
def Record.refusal? (r : Record) (e : String × Value) : Option Error :=
  if e.1 ∈ r.fields.keys then
    if e.2.isFinite then none else some (.invalidValue e.1 nonFinite)
  else some (.unknownField e.1)

/-- The failure of the first value that a record does not take. -/
def Record.firstRefusal? (r : Record) (attributes : List (String × Value)) : Option Error :=
  attributes.findSome? r.refusal?

/-- The same values are given for each attribute, in the same order. -/
def SameGiven (attributes others : List (String × Value)) : Prop :=
  ∀ name, attributes.filter (·.1 == name) = others.filter (·.1 == name)

namespace Record

theorem set_of_refusal {r : Record} {field : String} {v : Value} {e : Error}
    (h : r.refusal? (field, v) = some e) : r.set field v = .error e := by
  rw [refusal?] at h
  by_cases hk : field ∈ r.fields.keys
  · cases hv : v.isFinite with
    | true => simp [hk, hv] at h
    | false =>
      have he : Error.invalidValue field nonFinite = e := by simpa [hk, hv] using h
      rw [set_of_nonFinite hk hv, he]
  · have he : Error.unknownField field = e := by simpa [hk] using h
    rw [set_of_absent hk, he]

/-- A value that is taken changes no name. -/
theorem exists_set {r : Record} {field : String} {v : Value} (h : r.refusal? (field, v) = none) :
    ∃ s, r.set field v = .ok s ∧ s.fields.keys = r.fields.keys := by
  have hk : field ∈ r.fields.keys := by
    by_contra hk
    simp [refusal?, hk] at h
  have hv : v.isFinite = true := by
    by_contra hv
    simp [refusal?, hk, hv] at h
  obtain ⟨w, hw⟩ := TextMap.mem_keys.mp hk
  exact ⟨_, set_of_finite hw hv, TextMap.keys_insert_of_mem hk v⟩

theorem firstRefusal?_congr {r s : Record} (h : s.fields.keys = r.fields.keys)
    (attributes : List (String × Value)) :
    s.firstRefusal? attributes = r.firstRefusal? attributes := by
  have hone : s.refusal? = r.refusal? := by
    funext e
    rw [refusal?, refusal?, h]
  rw [firstRefusal?, firstRefusal?, hone]

theorem setAll_of_refusal {r : Record} {attributes : List (String × Value)} {e : Error}
    (h : r.firstRefusal? attributes = some e) : r.setAll attributes = .error e := by
  induction attributes generalizing r with
  | nil => simp [firstRefusal?] at h
  | cons head rest ih =>
    obtain ⟨field, v⟩ := head
    rw [firstRefusal?, List.findSome?_cons] at h
    cases hone : r.refusal? (field, v) with
    | some e' =>
      have he : e' = e := by simpa [hone] using h
      simp only [setAll, set_of_refusal hone, he]
    | none =>
      obtain ⟨s, hset, hkeys⟩ := exists_set hone
      have hrest : s.firstRefusal? rest = some e := by
        rw [firstRefusal?_congr hkeys, firstRefusal?]
        simpa [hone] using h
      simp only [setAll, hset]
      exact ih hrest

theorem exists_setAll {r : Record} {attributes : List (String × Value)}
    (h : r.firstRefusal? attributes = none) : ∃ s, r.setAll attributes = .ok s := by
  induction attributes generalizing r with
  | nil => exact ⟨r, rfl⟩
  | cons head rest ih =>
    obtain ⟨field, v⟩ := head
    rw [firstRefusal?, List.findSome?_eq_none_iff, List.forall_mem_cons] at h
    obtain ⟨s, hset, hkeys⟩ := exists_set h.1
    have hrest : s.firstRefusal? rest = none := by
      rw [firstRefusal?_congr hkeys, firstRefusal?, List.findSome?_eq_none_iff]
      exact h.2
    obtain ⟨last, hlast⟩ := ih hrest
    refine ⟨last, ?_⟩
    simp only [setAll, hset]
    exact hlast

/-- Values are kept as prior only for the attributes that something was given for. -/
theorem get?_prior_setAll {r s : Record} {attributes : List (String × Value)}
    (h : r.setAll attributes = .ok s) (field : String) :
    s.prior.get? field =
      (r.prior.get? field).or
        (if (lastGiven? field attributes).isSome then r.fields.get? field else none) := by
  induction attributes generalizing r with
  | nil =>
    rw [setAll_nil h]
    simp [lastGiven?]
  | cons head rest ih =>
    obtain ⟨name, v⟩ := head
    obtain ⟨next, hset, hrest⟩ := setAll_cons h
    obtain ⟨hfinite, -, hfields⟩ := set_eq_ok hset
    have hk : name ∈ r.fields.keys := by
      by_contra hk
      rw [set_of_absent hk] at hset
      cases hset
    obtain ⟨w, hw⟩ := TextMap.mem_keys.mp hk
    have hprior : next.prior.get? field =
        (r.prior.get? field).or (if field = name then some w else none) := by
      rw [set_of_finite hw hfinite] at hset
      obtain rfl := Except.ok.inj hset
      dsimp only
      cases hc : r.prior.contains name with
      | true =>
        obtain ⟨u, hu⟩ := TextMap.contains_iff.mp hc
        by_cases hf : field = name
        · simp [hf, hu]
        · simp [hf]
      | false =>
        have hnone : r.prior.get? name = none := by
          simpa [TextMap.contains] using hc
        by_cases hf : field = name
        · simp [hf, hnone, TextMap.get?_insert]
        · simp [hf, TextMap.get?_insert]
    rw [ih hrest, hprior, hfields, TextMap.get?_insert, lastGiven?_cons]
    by_cases hf : field = name
    · subst hf
      cases r.prior.get? field <;> simp [hw]
    · cases lastGiven? field rest <;> simp [hf]

theorem deleted_setAll {r s : Record} {attributes : List (String × Value)}
    (h : r.setAll attributes = .ok s) : s.deleted = r.deleted := by
  induction attributes generalizing r with
  | nil => rw [setAll_nil h]
  | cons head rest ih =>
    obtain ⟨name, v⟩ := head
    obtain ⟨next, hset, hrest⟩ := setAll_cons h
    have hnext : next.deleted = r.deleted := by
      rw [set] at hset
      split at hset
      · cases hset
      · split at hset
        · obtain rfl := Except.ok.inj hset
          rfl
        · cases hset
    rw [ih hrest, hnext]

end Record

theorem lastGiven?_eq_getLast? (name : String) (attributes : List (String × Value)) :
    lastGiven? name attributes = ((attributes.filter (·.1 == name)).getLast?).map (·.2) := by
  induction attributes with
  | nil => rfl
  | cons head rest ih =>
    obtain ⟨field, v⟩ := head
    rw [lastGiven?_cons, ih, List.filter_cons]
    by_cases hf : field = name
    · subst hf
      rw [if_pos rfl, if_pos (by simp), List.getLast?_cons]
      cases (rest.filter (·.1 == field)).getLast? <;> rfl
    · rw [if_neg (Ne.symm hf), if_neg (by simpa using hf), Option.or_none]

namespace SameGiven

variable {attributes others : List (String × Value)}

theorem lastGiven? (h : SameGiven attributes others) (name : String) :
    lastGiven? name attributes = Inventory.lastGiven? name others := by
  rw [lastGiven?_eq_getLast?, lastGiven?_eq_getLast?, h name]

theorem mem_iff (h : SameGiven attributes others) (e : String × Value) :
    e ∈ attributes ↔ e ∈ others := by
  have hname := h e.1
  have hleft : e ∈ attributes.filter (·.1 == e.1) ↔ e ∈ attributes := by simp
  have hright : e ∈ others.filter (·.1 == e.1) ↔ e ∈ others := by simp
  rw [← hleft, hname, hright]

/-- Neither is refused, and then the records are equal, or both are. -/
theorem setAll (h : SameGiven attributes others) (r : Record) :
    (∃ s, r.setAll attributes = .ok s ∧ r.setAll others = .ok s) ∨
      ∃ e e', r.setAll attributes = .error e ∧ r.setAll others = .error e' := by
  have hrefused : r.firstRefusal? attributes = none ↔ r.firstRefusal? others = none := by
    simp only [Record.firstRefusal?, List.findSome?_eq_none_iff, h.mem_iff]
  cases ha : r.firstRefusal? attributes with
  | some e =>
    have hne : r.firstRefusal? others ≠ none := by
      intro ho
      rw [hrefused.mpr ho] at ha
      cases ha
    obtain ⟨e', ho⟩ := Option.ne_none_iff_exists'.mp hne
    exact .inr ⟨e, e', Record.setAll_of_refusal ha, Record.setAll_of_refusal ho⟩
  | none =>
    obtain ⟨s, hs⟩ := Record.exists_setAll ha
    obtain ⟨s', hs'⟩ := Record.exists_setAll (hrefused.mp ha)
    have hfields : s.fields = s'.fields := by
      apply TextMap.ext_get?
      intro field
      rw [Record.get?_setAll hs, Record.get?_setAll hs', h.lastGiven?]
    have hprior : s.prior = s'.prior := by
      apply TextMap.ext_get?
      intro field
      rw [Record.get?_prior_setAll hs, Record.get?_prior_setAll hs', h.lastGiven?]
    have hdeleted : s.deleted = s'.deleted := by
      rw [Record.deleted_setAll hs, Record.deleted_setAll hs']
    have hsame : s = s' := by
      obtain ⟨fields, prior, deleted⟩ := s
      obtain ⟨fields', prior', deleted'⟩ := s'
      obtain rfl : fields = fields' := hfields
      obtain rfl : prior = prior' := hprior
      obtain rfl : deleted = deleted' := hdeleted
      rfl
    exact .inl ⟨s, hs, hsame ▸ hs'⟩

end SameGiven

theorem sameGiven_swap {e f : String × Value} (h : e.1 ≠ f.1) (front back : List (String × Value)) :
    SameGiven (front ++ e :: f :: back) (front ++ f :: e :: back) := by
  intro name
  rw [List.filter_append, List.filter_append]
  congr 1
  by_cases he : e.1 = name
  · have hf : ¬f.1 = name := fun hf => h (he.trans hf.symm)
    simp [he, hf]
  · simp [he, List.filter_cons]

end Inventory
