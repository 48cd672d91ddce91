import Inventory.TextMap
import Mathlib.Data.List.Induction
import Mathlib.Data.List.Sort
import Mathlib.Data.String.Basic

/-! Finite maps by what they hold under each key. Entries stand in one order only, so two maps with
the same values under the same keys are equal. -/

namespace Inventory

theorem lookup_cons_eq {α : Type} (k key : String) (v : α) (rest : List (String × α)) :
    ((key, v) :: rest).lookup k = if k = key then some v else rest.lookup k := by
  by_cases hk : k = key
  · simp [hk]
  · have hb : (k == key) = false := beq_eq_false_iff_ne.mpr hk
    simp [List.lookup_cons, hb, hk]

theorem any_key_eq {α : Type} (k : String) (entries : List (String × α)) :
    entries.any (·.1 == k) = (entries.lookup k).isSome := by
  induction entries with
  | nil => rfl
  | cons head rest ih =>
    obtain ⟨key, v⟩ := head
    rw [List.any_cons, ih, lookup_cons_eq]
    by_cases hk : k = key
    · simp [hk]
    · simp [hk, Ne.symm hk]

theorem lookup_eq_none_of_not_mem {α : Type} {k : String} {entries : List (String × α)}
    (h : k ∉ entries.map (·.1)) : entries.lookup k = none := by
  rw [← Option.not_isSome_iff_eq_none, ← any_key_eq]
  intro hany
  obtain ⟨e, he, hk⟩ := List.any_eq_true.mp hany
  exact h (List.mem_map.mpr ⟨e, he, beq_iff_eq.mp hk⟩)

theorem mem_of_lookup_eq_some {α : Type} {k : String} {v : α} {entries : List (String × α)}
    (h : entries.lookup k = some v) : (k, v) ∈ entries := by
  obtain ⟨front, back, rfl, -⟩ := List.lookup_eq_some_iff.mp h
  simp

theorem lookup_putEntry {α : Type} (key k : String) (v : α) (entries : List (String × α)) :
    (putEntry key v entries).lookup k = if k = key then some v else entries.lookup k := by
  induction entries with
  | nil => rw [putEntry, lookup_cons_eq]
  | cons head rest ih =>
    obtain ⟨k', v'⟩ := head
    rw [putEntry, lookup_cons_eq]
    by_cases hlt : key < k'
    · rw [if_pos hlt, lookup_cons_eq, lookup_cons_eq]
    · by_cases heq : key = k'
      · subst heq
        rw [if_neg hlt, if_pos rfl, lookup_cons_eq]
        by_cases hk : k = key <;> simp [hk]
      · rw [if_neg hlt, if_neg heq, lookup_cons_eq, ih]
        by_cases hk : k = key
        · simp [hk, heq]
        · simp [hk]

theorem filter_putEntry {α : Type} (key : String) (value : α) (entries : List (String × α)) :
    (putEntry key value entries).filter (·.1 ≠ key) = entries.filter (·.1 ≠ key) := by
  induction entries with
  | nil => simp [putEntry]
  | cons head rest ih =>
    obtain ⟨k, v⟩ := head
    rw [putEntry]
    split
    · simp
    · split
      · rename_i heq
        simp [heq]
      · rw [List.filter_cons, List.filter_cons, ih]

theorem length_putEntry {α : Type} {key : String} {entries : List (String × α)}
    (h : entries.lookup key = none) (value : α) :
    (putEntry key value entries).length = entries.length + 1 := by
  induction entries with
  | nil => rfl
  | cons head rest ih =>
    obtain ⟨k, v⟩ := head
    rw [lookup_cons_eq] at h
    by_cases hk : key = k
    · simp [hk] at h
    · rw [if_neg hk] at h
      rw [putEntry]
      split
      · rfl
      · rw [List.length_cons, List.length_cons, ih h]

namespace TextMap

variable {α β : Type}

theorem get?_empty (k : String) : (∅ : TextMap α).get? k = none := rfl

theorem get?_insert (m : TextMap α) (key k : String) (v : α) :
    (m.insert key v).get? k = if k = key then some v else m.get? k :=
  lookup_putEntry key k v m.entries

theorem nodup_keys (m : TextMap α) : m.keys.Nodup := by
  have h : m.keys.Pairwise (· < ·) := List.pairwise_map.mpr m.ascending
  apply h.imp
  intro a b hab he
  subst he
  exact String.lt_irrefl a hab

theorem mem_entries {m : TextMap α} {k : String} {v : α} :
    (k, v) ∈ m.entries ↔ m.get? k = some v := by
  obtain ⟨entries, ascending⟩ := m
  simp only [get?]
  induction entries with
  | nil => simp
  | cons head rest ih =>
    obtain ⟨k', v'⟩ := head
    have hd := (List.pairwise_cons.mp ascending).1
    have hh := ih (List.pairwise_cons.mp ascending).2
    by_cases hk : k = k'
    · subst hk
      have hnot : (k, v) ∉ rest := fun hm => String.lt_irrefl k (hd _ hm)
      simp [hnot, eq_comm]
    · simp [hk, hh, lookup_cons_eq]

theorem mem_keys {m : TextMap α} {k : String} : k ∈ m.keys ↔ ∃ v, m.get? k = some v := by
  simp [keys, ← mem_entries]

theorem contains_iff {m : TextMap α} {k : String} :
    m.contains k = true ↔ ∃ v, m.get? k = some v := Option.isSome_iff_exists

theorem ext_get? {m n : TextMap α} (h : ∀ k, m.get? k = n.get? k) : m = n := by
  apply ext
  have hm : m.entries.Nodup := m.nodup_keys.of_map
  have hn : n.entries.Nodup := n.nodup_keys.of_map
  have hp : m.entries.Perm n.entries := by
    refine (List.perm_ext_iff_of_nodup hm hn).mpr ?_
    rintro ⟨k, v⟩
    rw [mem_entries, mem_entries, h k]
  refine hp.eq_of_pairwise ?_ m.ascending n.ascending
  intro a b _ _ hab hba
  exact absurd (String.lt_trans hab hba) (String.lt_irrefl _)

theorem keys_eq {m n : TextMap α} (h : ∀ k, (∃ v, m.get? k = some v) ↔ ∃ v, n.get? k = some v) :
    m.keys = n.keys := by
  have hp : m.keys.Perm n.keys := by
    refine (List.perm_ext_iff_of_nodup m.nodup_keys n.nodup_keys).mpr ?_
    intro k
    rw [mem_keys, mem_keys, h k]
  refine hp.eq_of_pairwise ?_ (List.pairwise_map.mpr m.ascending)
    (List.pairwise_map.mpr n.ascending)
  intro a b _ _ hab hba
  exact absurd (String.lt_trans hab hba) (String.lt_irrefl _)

theorem keys_insert_of_mem {m : TextMap α} {key : String} (h : key ∈ m.keys) (v : α) :
    (m.insert key v).keys = m.keys := by
  apply keys_eq
  intro k
  rw [get?_insert]
  by_cases hk : k = key
  · subst hk
    simpa using mem_keys.mp h
  · simp [hk]

theorem get?_filterMap (f : String → α → Option β) (m : TextMap α) (k : String) :
    (m.filterMap f).get? k = (m.get? k).bind (f k) := by
  apply Option.ext
  intro b
  rw [← mem_entries, Option.bind_eq_some_iff]
  simp only [filterMap, List.mem_filterMap, Option.map_eq_some_iff, Prod.mk.injEq]
  constructor
  · rintro ⟨⟨k', a⟩, hm, b', hf, rfl, rfl⟩
    exact ⟨a, mem_entries.mp hm, hf⟩
  · rintro ⟨a, ha, hf⟩
    exact ⟨(k, a), mem_entries.mpr ha, b, hf, rfl, rfl⟩

theorem map_entries_eq_iff {f : α → β} {m n : TextMap α} :
    (m.entries.map fun e => (e.1, f e.2)) = n.entries.map (fun e => (e.1, f e.2)) ↔
      ∀ k, (m.get? k).map f = (n.get? k).map f := by
  have hentries : ∀ o : TextMap α,
      (o.filterMap fun _ a => some (f a)).entries = o.entries.map fun e => (e.1, f e.2) := by
    intro o
    simp [filterMap, List.filterMap_eq_map']
  have hget : ∀ (o : TextMap α) k, (o.filterMap fun _ a => some (f a)).get? k = (o.get? k).map f := by
    intro o k
    rw [get?_filterMap, Option.map_eq_bind]
    rfl
  rw [← hentries m, ← hentries n]
  constructor
  · intro h k
    rw [← hget, ← hget, ext h]
  · intro h
    refine congrArg entries (ext_get? fun k => ?_)
    rw [hget, hget, h k]

theorem map_get?_eq_of_keys {f : α → β} {m n : TextMap α} (hkeys : m.keys = n.keys)
    (h : ∀ k a b, m.get? k = some a → n.get? k = some b → f a = f b) (k : String) :
    (m.get? k).map f = (n.get? k).map f := by
  have hsome : (∃ a, m.get? k = some a) ↔ ∃ b, n.get? k = some b := by
    rw [← mem_keys, ← mem_keys, hkeys]
  cases ha : m.get? k with
  | none =>
    cases hb : n.get? k with
    | none => rfl
    | some b =>
      obtain ⟨a, ha'⟩ := hsome.mpr ⟨b, hb⟩
      rw [ha] at ha'
      cases ha'
  | some a =>
    obtain ⟨b, hb⟩ := hsome.mp ⟨a, ha⟩
    rw [hb, Option.map_some, Option.map_some, h k a b ha hb]

theorem get?_foldl_insert (entries : List (String × α)) (m : TextMap α) (k : String)
    (hnd : (entries.map (·.1)).Nodup) :
    (entries.foldl (fun m e => m.insert e.1 e.2) m).get? k =
      (entries.lookup k).or (m.get? k) := by
  induction entries generalizing m with
  | nil => simp
  | cons head rest ih =>
    obtain ⟨key, v⟩ := head
    obtain ⟨hnot, hrest⟩ := List.nodup_cons.mp hnd
    rw [List.foldl_cons, ih _ hrest, get?_insert, lookup_cons_eq]
    by_cases hk : k = key
    · have hnone : rest.lookup k = none := lookup_eq_none_of_not_mem (hk ▸ hnot)
      rw [hnone, if_pos hk, if_pos hk, Option.none_or, Option.some_or]
    · simp [hk]

/-- Where the second map has a key, it decides. -/
theorem get?_overlay (m n : TextMap α) (k : String) :
    (m.overlay n).get? k = (n.get? k).or (m.get? k) :=
  get?_foldl_insert n.entries m k n.nodup_keys

theorem get?_ofList (entries : List (String × α)) (k : String) :
    (ofList entries).get? k = entries.reverse.lookup k := by
  induction entries using List.reverseRecOn with
  | nil => rfl
  | append_singleton entries e ih =>
    obtain ⟨key, v⟩ := e
    have hlast : ofList (entries ++ [(key, v)]) = (ofList entries).insert key v := by
      simp only [ofList, List.foldl_append, List.foldl_cons, List.foldl_nil]
    rw [hlast, get?_insert, List.reverse_append, List.reverse_singleton, List.singleton_append,
      lookup_cons_eq, ih]

theorem get?_ofList_append (front back : List (String × α)) (k : String) :
    (ofList (front ++ back)).get? k = ((ofList back).get? k).or ((ofList front).get? k) := by
  simp only [get?_ofList, List.reverse_append, List.lookup_append]

theorem ofList_entries (m : TextMap α) : ofList m.entries = m := by
  apply ext_get?
  intro k
  rw [ofList, get?_foldl_insert m.entries ∅ k m.nodup_keys, get?_empty, Option.or_none]
  rfl

end TextMap

end Inventory
