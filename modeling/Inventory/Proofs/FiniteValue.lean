import Inventory.Value.Basic

/-! The numbers inside a value, at any depth. Normalizing brings no number in. -/

namespace Inventory

inductive Value.Holds (d : Double) : Value → Prop where
  | number : Holds d (.float d)
  | element {items : List Value} {v : Value} : v ∈ items → Holds d v → Holds d (.list items)

namespace Value

theorem allFinite_iff {items : List Value} :
    allFinite items = true ↔ ∀ v ∈ items, v.isFinite = true := by
  induction items with
  | nil => simp [allFinite]
  | cons v rest ih => simp [allFinite, ih]

theorem isFinite_iff : (v : Value) → (v.isFinite = true ↔ ∀ d, v.Holds d → d.isFinite = true)
  | .float d => by
    rw [isFinite]
    constructor
    · rintro h _ ⟨⟩
      exact h
    · intro h
      exact h d .number
  | .list items => by
    have hh : ∀ v ∈ items, (v.isFinite = true ↔ ∀ d, v.Holds d → d.isFinite = true) :=
      fun v _ => isFinite_iff v
    rw [isFinite, allFinite_iff]
    constructor
    · rintro h d (_ | ⟨hv, hd⟩)
      exact (hh _ hv).mp (h _ hv) d hd
    · intro h v hv
      exact (hh v hv).mpr fun d hd => h d (.element hv hd)
  | .null => by simp only [isFinite, true_iff]; rintro _ ⟨⟩
  | .bool _ => by simp only [isFinite, true_iff]; rintro _ ⟨⟩
  | .int _ => by simp only [isFinite, true_iff]; rintro _ ⟨⟩
  | .text _ => by simp only [isFinite, true_iff]; rintro _ ⟨⟩

theorem not_isFinite_iff {v : Value} :
    v.isFinite = false ↔ ∃ d, v.Holds d ∧ d.isFinite = false := by
  rw [← Bool.not_eq_true, isFinite_iff]
  simp

theorem mem_normalizedAll {w : Value} {items : List Value} :
    w ∈ normalizedAll items ↔ ∃ v ∈ items, v.normalized = w := by
  induction items with
  | nil => simp [normalizedAll]
  | cons v rest ih => simp [normalizedAll, ih, eq_comm]

theorem holds_of_holds_normalized {d : Double} : (v : Value) → v.normalized.Holds d → v.Holds d
  | .float e => by
    intro h
    rw [normalized] at h
    split at h
    · cases h
    · exact h
  | .list items => by
    have hitems : ∀ v ∈ items, v.normalized.Holds d → v.Holds d :=
      fun v _ => holds_of_holds_normalized v
    intro h
    rw [normalized] at h
    cases h with
    | element hw hd =>
      obtain ⟨v, hv, rfl⟩ := mem_normalizedAll.mp hw
      exact .element hv (hitems v hv hd)
  | .null | .bool _ | .int _ | .text _ => by
    intro h
    rw [normalized] at h
    exact h

theorem isFinite_normalized {v : Value} (h : v.isFinite = true) : v.normalized.isFinite = true := by
  rw [isFinite_iff] at h ⊢
  exact fun d hd => h d (holds_of_holds_normalized v hd)

end Value

end Inventory
