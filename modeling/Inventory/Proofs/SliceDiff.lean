import Inventory.Proofs.JsonItems
import Inventory.Proofs.TextMap
import Inventory.Record.Change
import Mathlib.Data.Set.Lattice
import Mathlib.Order.CompletePartialOrder

/-! Lists as the sets of the canonical forms of their elements. What a list gains and loses makes
the one set out of the other. -/

namespace Inventory

def forms (items : List Value) : Set String := {t | ∃ v ∈ items, v.canonical = t}

theorem mem_forms {items : List Value} {t : String} :
    t ∈ forms items ↔ ∃ v ∈ items, v.canonical = t := Iff.rfl

theorem forms_append (items others : List Value) :
    forms (items ++ others) = forms items ∪ forms others := by
  ext t
  simp only [mem_forms, Set.mem_union, List.mem_append, or_and_right, exists_or]

theorem mem_of_byCanonical {items : List Value} {t : String} {v : Value}
    (h : (byCanonical items).get? t = some v) : v ∈ items ∧ v.canonical = t := by
  rw [byCanonical, TextMap.get?_ofList] at h
  have hm := mem_of_lookup_eq_some h
  simp only [List.mem_reverse, List.mem_map, Prod.mk.injEq] at hm
  obtain ⟨w, hw, rfl, rfl⟩ := hm
  exact ⟨hw, rfl⟩

theorem byCanonical_contains (items : List Value) (t : String) :
    (byCanonical items).contains t = true ↔ t ∈ forms items := by
  rw [TextMap.contains, byCanonical, TextMap.get?_ofList, ← any_key_eq, List.any_eq_true]
  simp [mem_forms]

theorem forms_missingFrom (items others : List Value) :
    forms (missingFrom (byCanonical items) (byCanonical others)) = forms items \ forms others := by
  ext t
  rw [Set.mem_sdiff, ← byCanonical_contains others]
  simp only [mem_forms, missingFrom, List.mem_map, List.mem_filter, Bool.not_eq_true',
    Bool.not_eq_true]
  constructor
  · rintro ⟨v, ⟨⟨key, w⟩, ⟨hm, hno⟩, rfl⟩, ht⟩
    obtain ⟨hw, hkey⟩ := mem_of_byCanonical (TextMap.mem_entries.mp hm)
    have hk : key = t := hkey.symm.trans ht
    exact ⟨⟨w, hw, ht⟩, hk ▸ hno⟩
  · rintro ⟨ht, hno⟩
    obtain ⟨v, hv⟩ := TextMap.contains_iff.mp ((byCanonical_contains items t).mpr ht)
    exact ⟨v, ⟨(t, v), ⟨TextMap.mem_entries.mpr hv, hno⟩, rfl⟩, (mem_of_byCanonical hv).2⟩

theorem forms_gained (old new : List Value) :
    forms (sliceDiff old new).1 = forms new \ forms old := forms_missingFrom new old

theorem forms_lost (old new : List Value) :
    forms (sliceDiff old new).2 = forms old \ forms new := forms_missingFrom old new

theorem forms_filter_sameAs (items remove : List Value) :
    forms (items.filter fun v => !remove.any (·.sameAs v)) = forms items \ forms remove := by
  ext t
  simp only [Set.mem_sdiff, mem_forms, List.mem_filter, Bool.not_eq_true', List.any_eq_false,
    Value.sameAs, beq_iff_eq]
  constructor
  · rintro ⟨v, ⟨hv, hno⟩, rfl⟩
    exact ⟨⟨v, hv, rfl⟩, fun ⟨w, hw, he⟩ => hno w hw he⟩
  · rintro ⟨⟨v, hv, rfl⟩, hno⟩
    exact ⟨v, ⟨hv, fun w hw he => hno ⟨w, hw, he⟩⟩, rfl⟩

namespace Value

theorem allToJson_normalizedAll (items : List Value) :
    allToJson (normalizedAll items) = items.map fun v => v.normalized.toJson := by
  induction items with
  | nil => rfl
  | cons v rest ih => rw [normalizedAll, allToJson, ih, List.map_cons]

theorem sameAs_iff {v w : Value} : v.sameAs w = true ↔ v.canonical = w.canonical := by
  rw [sameAs, beq_iff_eq]

theorem map_canonical_of_sameAs {items others : List Value}
    (h : (Value.list items).sameAs (.list others) = true) :
    items.map canonical = others.map canonical := by
  have hr := String.ofList_injective (sameAs_iff.mp h)
  simp only [normalized, toJson, allToJson_normalizedAll] at hr
  have hm := Json.render_array_inj hr
  rw [List.map_map, List.map_map] at hm
  have hh := congrArg (List.map String.ofList) hm
  rwa [List.map_map, List.map_map] at hh

theorem forms_eq_of_sameAs {items others : List Value}
    (h : (Value.list items).sameAs (.list others) = true) : forms items = forms others := by
  have hmem : ∀ l : List Value, forms l = {t | t ∈ l.map canonical} := by
    intro l
    ext t
    simp [mem_forms]
  rw [hmem, hmem, map_canonical_of_sameAs h]

end Value

end Inventory
