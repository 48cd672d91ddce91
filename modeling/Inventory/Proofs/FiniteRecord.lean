import Inventory.Proofs.FiniteReply
import Inventory.Proofs.RecordHistory

/-! Finite records. What a reply gives is finite, and no operation on a record lets in a value that is
not, neither among the current values nor among the remembered ones. -/

namespace Inventory

namespace Record

/-- The values of a record, current and remembered. -/
def Holds (r : Record) (v : Value) : Prop :=
  ∃ field, r.fields.get? field = some v ∨ r.prior.get? field = some v

structure Finite (r : Record) : Prop where
  fields : r.fields.Finite
  prior : r.prior.Finite

theorem finite_ofFields {fields : Fields} (h : fields.Finite) : (ofFields fields).Finite :=
  ⟨h, Fields.finite_empty⟩

namespace Finite

variable {r : Record}

theorem isFinite (h : r.Finite) {v : Value} (hv : r.Holds v) : v.isFinite = true := by
  obtain ⟨field, hv | hv⟩ := hv
  · exact h.fields field v hv
  · exact h.prior field v hv

theorem set (h : r.Finite) (field : String) (v : Value) : (RecordSet.afterSet field v r).Finite := by
  rw [RecordSet.afterSet]
  by_cases hk : field ∈ r.fields.keys
  · obtain ⟨w, hw⟩ := TextMap.mem_keys.mp hk
    cases hv : v.isFinite with
    | false =>
      rw [set_of_nonFinite hk hv]
      exact h
    | true =>
      have hprior : Fields.Finite
          (if r.prior.contains field then r.prior else r.prior.insert field w) := by
        split
        · exact h.prior
        · exact h.prior.insert (h.fields field w hw) field
      rw [set_of_finite hw hv]
      exact ⟨h.fields.insert hv field, hprior⟩
  · rw [set_of_absent hk]
    exact h

theorem rollback (h : r.Finite) : r.rollback.Finite := finite_ofFields (h.fields.overlay h.prior)

theorem confirm (h : r.Finite) : r.confirm.Finite := by
  apply finite_ofFields
  split
  · exact h.fields.insert rfl objectIdName
  · exact h.fields

variable {τ : Type} [Transport τ]

theorem undergo (h : r.Finite) (e : Event τ) : (r.undergo e).Finite := by
  cases e with
  | set field v => exact h.set field v
  | delete => exact ⟨h.fields, h.prior⟩
  | rollback => exact h.rollback
  | commit before after t =>
    rw [undergo_commit]
    split
    · exact h.confirm
    · exact h

theorem history (h : r.Finite) (events : List (Event τ)) : (r.history events).Finite := by
  induction events generalizing r with
  | nil => exact h
  | cons e rest ih => exact ih (h.undergo e)

end Finite

/-- A record decoded from a reply, after any operations. The numbers of the reply are such as a text can
denote. -/
def FromService (τ : Type) [Transport τ] (r : Record) : Prop :=
  ∃ (reply : Json) (r₀ : Record) (events : List (Event τ)),
    reply.Denotable ∧ r₀.DecodedFrom reply ∧ r = r₀.history events

theorem FromService.finite {τ : Type} [Transport τ] {r : Record} (h : r.FromService τ) :
    r.Finite := by
  obtain ⟨reply, r₀, events, hreply, hdecoded, rfl⟩ := h
  obtain ⟨fields, hfields, rfl⟩ := hdecoded.exists_fields hreply
  exact (finite_ofFields hfields).history events

theorem FromService.tracks {τ : Type} [Transport τ] {r : Record} (h : r.FromService τ) :
    ∃ l, r.Tracks l := by
  obtain ⟨reply, r₀, events, hreply, hdecoded, rfl⟩ := h
  obtain ⟨fields, -, rfl⟩ := hdecoded.exists_fields hreply
  exact ⟨_, (tracks_ofFields fields).history events⟩

end Record

end Inventory
