import Inventory.Proofs.CanonicalText
import Inventory.Proofs.Delta
import Inventory.Proofs.DoubleExact

/-! Values by the exact numbers they hold. Normalizing keeps the shape of a value and every number
in it but one: 2^63, which the range test lets through, becomes 2^63 - 1. Two finite values count as
the same exactly when they agree in shape and numbers after that replacement, so the reported
changes and the identities that a commit addresses are exact away from 2^63. -/

namespace Inventory

/-- What a value says, its integers and finite doubles as exact numbers. -/
inductive Exact where
  | null
  | bool (b : Bool)
  | number (q : ℚ)
  | nonFinite (d : Double)
  | text (s : String)
  | list (items : List Exact)

namespace Exact

def isNumber : Exact → Bool
  | .number _ => true
  | .nonFinite _ => true
  | _ => false

mutual

/-- With 2^63 - 1 in the place of 2^63. -/
def saturated : Exact → Exact
  | .number q => .number (if q = 2 ^ 63 then 2 ^ 63 - 1 else q)
  | .list items => .list (saturatedAll items)
  | .null => .null
  | .bool b => .bool b
  | .nonFinite d => .nonFinite d
  | .text s => .text s

def saturatedAll : List Exact → List Exact
  | [] => []
  | e :: rest => saturated e :: saturatedAll rest

end

end Exact

namespace Value

mutual

def exact : Value → Exact
  | .null => .null
  | .bool b => .bool b
  | .int n => .number n.toInt
  | .float d => if d.isFinite then .number d.toRat else .nonFinite d
  | .text s => .text s
  | .list items => .list (exactAll items)

def exactAll : List Value → List Exact
  | [] => []
  | v :: rest => exact v :: exactAll rest

end

theorem exact_int_saturated (n : Int64) : (exact (.int n)).saturated = exact (.int n) := by
  have hne : (n.toInt : ℚ) ≠ 2 ^ 63 := by
    have hlt : (n.toInt : ℚ) < ((2 ^ 63 : Int) : ℚ) := Int.cast_lt.mpr n.toInt_lt
    push_cast at hlt
    exact ne_of_lt hlt
  rw [exact, Exact.saturated, if_neg hne]

theorem exact_float_of_form {d : Double} {n : Int64} (h : d.toInt64? = some n) :
    exact (.int n) = (exact (.float d)).saturated := by
  obtain ⟨hfinite, z, hz, hlow, hhigh, hn⟩ := Double.toInt64?_eq_some.mp h
  rw [exact, exact, if_pos hfinite, Exact.saturated, hz, hn]
  congr 1
  by_cases hedge : z = 2 ^ 63
  · subst hedge
    norm_num
  · have hcast : (z : ℚ) ≠ 2 ^ 63 := by
      intro he
      apply hedge
      exact_mod_cast he
    rw [if_neg hcast, min_eq_left (by omega)]

theorem exact_float_of_no_form {d : Double} (h : d.toInt64? = none) :
    exact (.float d) = (exact (.float d)).saturated := by
  rw [exact]
  split
  · rename_i hfinite
    have hne : d.toRat ≠ 2 ^ 63 := by
      intro hedge
      have hform : d.toInt64? = some Int64.maxValue := by
        refine Double.toInt64?_eq_some.mpr ⟨hfinite, 2 ^ 63, ?_, by decide, by decide, by decide⟩
        rw [hedge]
        norm_num
      rw [h] at hform
      cases hform
    rw [Exact.saturated, if_neg hne]
  · rw [Exact.saturated]

mutual

/-- Normalizing keeps the shape and every number but 2^63. -/
theorem exact_normalized (v : Value) : v.normalized.exact = v.exact.saturated := by
  match v with
  | .null | .bool _ | .text _ => rw [normalized, exact, Exact.saturated]
  | .int n => rw [normalized, exact_int_saturated]
  | .float d =>
    rw [normalized]
    split
    · rename_i n hn
      exact exact_float_of_form hn
    · rename_i hn
      exact exact_float_of_no_form hn
  | .list items =>
    rw [normalized, exact, exact, Exact.saturated, exactAll_normalizedAll items]

theorem exactAll_normalizedAll (items : List Value) :
    exactAll (normalizedAll items) = Exact.saturatedAll (exactAll items) := by
  match items with
  | [] => rw [normalizedAll, exactAll, Exact.saturatedAll]
  | v :: rest =>
    rw [normalizedAll, exactAll, exactAll, Exact.saturatedAll, exact_normalized v,
      exactAll_normalizedAll rest]

end

/-- Some number inside is 2^63. -/
def HoldsEdge (v : Value) : Prop := ∃ d, v.Holds d ∧ d.toRat = 2 ^ 63

theorem holdsEdge_list {items : List Value} :
    (Value.list items).HoldsEdge ↔ ∃ v ∈ items, v.HoldsEdge := by
  constructor
  · rintro ⟨d, hd, hedge⟩
    cases hd with
    | element hv hd => exact ⟨_, hv, d, hd, hedge⟩
  · rintro ⟨v, hv, d, hd, hedge⟩
    exact ⟨d, .element hv hd, hedge⟩

mutual

theorem saturated_exact (v : Value) : v.exact.saturated = v.exact ↔ ¬v.HoldsEdge := by
  have hleaf : (∀ d, ¬v.Holds d) → ¬v.HoldsEdge := fun h ⟨d, hd, _⟩ => h d hd
  match v with
  | .null | .bool _ | .text _ =>
    rw [exact, Exact.saturated]
    exact iff_of_true rfl (hleaf nofun)
  | .int n => exact iff_of_true (exact_int_saturated n) (hleaf nofun)
  | .float d =>
    have hholds : (Value.float d).HoldsEdge ↔ d.toRat = 2 ^ 63 := by
      constructor
      · rintro ⟨e, he, hedge⟩
        cases he
        exact hedge
      · exact fun hedge => ⟨d, .number, hedge⟩
    rw [hholds, exact]
    split
    · rw [Exact.saturated, Exact.number.injEq]
      split
      · rename_i hedge
        rw [hedge]
        norm_num
      · rename_i hedge
        exact iff_of_true rfl hedge
    · rename_i hfinite
      have hzero : d.toRat ≠ 2 ^ 63 := by
        cases d with
        | finite negative rank => exact absurd rfl hfinite
        | nan => norm_num [Double.toRat]
        | infinite negative => norm_num [Double.toRat]
      rw [Exact.saturated]
      exact iff_of_true rfl hzero
  | .list items =>
    rw [exact, Exact.saturated, Exact.list.injEq, saturatedAll_exactAll items, holdsEdge_list]
    simp

theorem saturatedAll_exactAll (items : List Value) :
    Exact.saturatedAll (exactAll items) = exactAll items ↔ ∀ v ∈ items, ¬v.HoldsEdge := by
  match items with
  | [] => simp [exactAll, Exact.saturatedAll]
  | v :: rest =>
    rw [exactAll, Exact.saturatedAll, List.cons.injEq, saturated_exact v,
      saturatedAll_exactAll rest, List.forall_mem_cons]

end

/-- No number inside can be normalized further. -/
def Normal (v : Value) : Prop := ∀ d, v.Holds d → d.toInt64? = none

theorem normal_normalized : (v : Value) → v.normalized.Normal
  | .float d => by
    rw [normalized]
    split
    · intro e he
      cases he
    · rename_i hn
      intro e he
      cases he
      exact hn
  | .list items => by
    have hitems : ∀ v ∈ items, v.normalized.Normal := fun v _ => normal_normalized v
    rw [normalized]
    intro d hd
    cases hd with
    | element hw hd =>
      obtain ⟨v, hv, rfl⟩ := mem_normalizedAll.mp hw
      exact hitems v hv d hd
  | .null | .bool _ | .int _ | .text _ => by
    rw [normalized]
    intro d hd
    cases hd

theorem exact_int_ne_float {n : Int64} {d : Double} (h : d.toInt64? = none) :
    exact (.int n) ≠ exact (.float d) := by
  intro heq
  rw [exact, exact] at heq
  split at heq
  · rename_i hfinite
    have hlt := n.toInt_lt
    have hlow : -(2 ^ 63) ≤ n.toInt := n.le_toInt
    have hform : d.toInt64? = some n :=
      Double.toInt64?_eq_some.mpr ⟨hfinite, n.toInt, (Exact.number.inj heq).symm, hlow,
        by omega, by omega⟩
    rw [h] at hform
    cases hform
  · cases heq

theorem float_eq_of_exact {d e : Double} (hd : d.toInt64? = none)
    (h : exact (.float d) = exact (.float e)) : d = e := by
  rw [exact, exact] at h
  split at h
  · rename_i hfinite
    split at h
    · rename_i hfinite'
      rcases Double.eq_of_toRat_eq hfinite hfinite' (Exact.number.inj h) with heq | hzero
      · exact heq
      · have hform : d.toInt64? = some 0 :=
          Double.toInt64?_eq_some.mpr ⟨hfinite, 0, by rw [hzero, Int.cast_zero], by decide,
            by decide, by decide⟩
        rw [hd] at hform
        cases hform
    · cases h
  · split at h
    · cases h
    · exact Exact.nonFinite.inj h

theorem ne_exact_float {e : Exact} (h : e.isNumber = false) (d : Double) :
    e ≠ exact (.float d) := by
  rintro rfl
  rw [exact] at h
  split at h <;> cases h

mutual

/-- Normal values that agree in shape and numbers are equal. -/
theorem eq_of_exact (v w : Value) (hv : v.Normal) (hw : w.Normal) (h : v.exact = w.exact) :
    v = w := by
  cases v with
  | null =>
    cases w with
    | null => rfl
    | float d => exact absurd h (ne_exact_float rfl d)
    | _ => simp [exact] at h
  | bool b =>
    cases w with
    | bool c => simpa [exact] using h
    | float d => exact absurd h (ne_exact_float rfl d)
    | _ => simp [exact] at h
  | int m =>
    cases w with
    | int n =>
      rw [exact, exact] at h
      rw [Int64.toInt_inj.mp (Int.cast_inj.mp (Exact.number.inj h))]
    | float d => exact absurd h (exact_int_ne_float (hw d .number))
    | _ => simp [exact] at h
  | float d =>
    cases w with
    | int n => exact absurd h.symm (exact_int_ne_float (hv d .number))
    | float e => rw [float_eq_of_exact (hv d .number) h]
    | _ => exact absurd h.symm (ne_exact_float rfl d)
  | text s =>
    cases w with
    | text t => simpa [exact] using h
    | float d => exact absurd h (ne_exact_float rfl d)
    | _ => simp [exact] at h
  | list items =>
    cases w with
    | list others =>
      rw [exact, exact] at h
      rw [eq_of_exactAll items others (fun v hm d hd => hv d (.element hm hd))
        (fun w hm d hd => hw d (.element hm hd)) (Exact.list.inj h)]
    | float d => exact absurd h (ne_exact_float rfl d)
    | _ => simp [exact] at h

theorem eq_of_exactAll (items others : List Value) (hv : ∀ v ∈ items, v.Normal)
    (hw : ∀ w ∈ others, w.Normal) (h : exactAll items = exactAll others) : items = others := by
  match items, others with
  | [], [] => rfl
  | [], _ :: _ => simp [exactAll] at h
  | _ :: _, [] => simp [exactAll] at h
  | v :: items, w :: others =>
    rw [exactAll, exactAll] at h
    obtain ⟨hhead, htail⟩ := List.cons.inj h
    rw [List.forall_mem_cons] at hv hw
    rw [eq_of_exact v w hv.1 hw.1 hhead, eq_of_exactAll items others hv.2 hw.2 htail]

end

/-- Finite values count as the same exactly when they agree in shape and numbers, 2^63 read as the
integer before it. -/
theorem sameAs_iff_exact {v w : Value} (hv : v.isFinite = true) (hw : w.isFinite = true) :
    v.sameAs w = true ↔ v.exact.saturated = w.exact.saturated := by
  rw [sameAs_iff_normalized hv hw, ← exact_normalized, ← exact_normalized]
  constructor
  · intro h
    rw [h]
  · exact eq_of_exact _ _ v.normal_normalized w.normal_normalized

theorem asInt64?_eq_some_iff_normalized {v : Value} {n : Int64} :
    v.asInt64? = some n ↔ v.normalized = .int n := by
  rw [asInt64?]
  cases v.normalized <;> simp

/-- The integer form of a value is its number, 2^63 read as the integer before it. -/
theorem asInt64?_eq_some {v : Value} {n : Int64} :
    v.asInt64? = some n ↔ v.exact.saturated = .number n.toInt := by
  rw [asInt64?_eq_some_iff_normalized, ← exact_normalized]
  constructor
  · intro h
    rw [h, exact]
  · intro h
    refine eq_of_exact _ (.int n) v.normal_normalized nofun ?_
    rw [h, exact]

end Value

theorem Record.objectId?_eq_some {r : Record} {n : Int64} : r.objectId? = some n ↔
    ∃ v, r.fields.get? objectIdName = some v ∧ v.exact.saturated = .number n.toInt := by
  simp only [objectId?, Option.bind_eq_some_iff, Value.asInt64?_eq_some]

/-- Every object that the request changes or deletes is the one whose number a record holds. -/
theorem CommitRequest.identities_exact {records : List Record} {request : CommitRequest}
    (h : ofRecords records = .ok request) :
    (∀ c ∈ request.changed, ∃ id, c.objectId = some id ∧ ∃ r ∈ records, ∃ v,
      r.fields.get? objectIdName = some v ∧ v.exact.saturated = .number id.toInt) ∧
    (∀ id ∈ request.deleted, ∃ r ∈ records, ∃ v,
      r.fields.get? objectIdName = some v ∧ v.exact.saturated = .number id.toInt) := by
  obtain ⟨hids, rfl⟩ := ofRecords_eq_ok.mp h
  constructor
  · intro c hc
    obtain ⟨r, hr, hs, rfl⟩ := mem_changed.mp hc
    obtain ⟨id, hid⟩ := Option.ne_none_iff_exists'.mp fun hno => hids r hr ⟨.inl hs, hno⟩
    exact ⟨id, hid, r, hr, Record.objectId?_eq_some.mp hid⟩
  · intro id hid
    obtain ⟨r, hr, -, hr'⟩ := mem_deleted.mp hid
    exact ⟨r, hr, Record.objectId?_eq_some.mp hr'⟩

variable {τ : Type} [Transport τ]

/-- An attribute with finite values is reported as changed exactly when the number, or anything else
in it, is not what a rollback would give, 2^63 read as the integer before it. -/
theorem Record.reported_iff_exact {fields : Fields} {events : List (Event τ)} {field : String}
    {old new : Value}
    (hold : ((ofFields fields).history events).rollback.fields.get? field = some old)
    (hnew : ((ofFields fields).history events).fields.get? field = some new)
    (hfinite : old.isFinite = true ∧ new.isFinite = true) :
    (∃ change, ((ofFields fields).history events).changes.get? field = some change) ↔
      old.exact.saturated ≠ new.exact.saturated := by
  have h := (tracks_ofFields fields).history events
  rw [h.rollback_eq] at hold
  rw [Ne, ← Value.sameAs_iff_exact hfinite.1 hfinite.2, Bool.not_eq_true]
  constructor
  · rintro ⟨change, hchange⟩
    obtain ⟨old', new', hb, hn, hs, -⟩ := h.changes_get?.mp hchange
    obtain rfl := Option.some.inj (hold.symm.trans hb)
    obtain rfl := Option.some.inj (hnew.symm.trans hn)
    exact hs
  · intro hs
    exact ⟨_, h.changes_get?.mpr ⟨old, new, hold, hnew, hs, rfl⟩⟩

/-- Numbers are kept exactly, but for 2^63 in the place of which 2^63 - 1 stands: in the normalized
form, in the integer form and the identity, in what counts as the same value and so as a change, and
in the objects that a commit addresses. A value without 2^63 inside is kept as it is. -/
theorem numbers_exact_but_edge :
    (∀ v : Value, v.normalized.exact = v.exact.saturated) ∧
    (∀ v : Value, v.exact.saturated = v.exact ↔ ¬v.HoldsEdge) ∧
    (∀ (v : Value) (n : Int64), v.asInt64? = some n ↔ v.exact.saturated = .number n.toInt) ∧
    (∀ v w : Value, v.isFinite = true → w.isFinite = true →
      (v.sameAs w = true ↔ v.exact.saturated = w.exact.saturated)) ∧
    (∀ (fields : Fields) (events : List (Event τ)) (field : String) (old new : Value),
      let r := (Record.ofFields fields).history events
      r.rollback.fields.get? field = some old → r.fields.get? field = some new →
      old.isFinite = true → new.isFinite = true →
      ((∃ change, r.changes.get? field = some change) ↔
        old.exact.saturated ≠ new.exact.saturated)) ∧
    (∀ (r : Record) (n : Int64), r.objectId? = some n ↔
      ∃ v, r.fields.get? objectIdName = some v ∧ v.exact.saturated = .number n.toInt) ∧
    (∀ records request, CommitRequest.ofRecords records = .ok request →
      (∀ c ∈ request.changed, ∃ id, c.objectId = some id ∧ ∃ r ∈ records, ∃ v,
        r.fields.get? objectIdName = some v ∧ v.exact.saturated = .number id.toInt) ∧
      (∀ id ∈ request.deleted, ∃ r ∈ records, ∃ v,
        r.fields.get? objectIdName = some v ∧ v.exact.saturated = .number id.toInt)) := by
  refine ⟨Value.exact_normalized, Value.saturated_exact, fun v n => Value.asInt64?_eq_some,
    fun v w hv hw => Value.sameAs_iff_exact hv hw, ?_, fun r n => Record.objectId?_eq_some,
    fun records request h => CommitRequest.identities_exact h⟩
  intro fields events field old new r hold hnew hfinite hfinite'
  exact Record.reported_iff_exact hold hnew ⟨hfinite, hfinite'⟩

theorem Value.exact_edge : (Value.float (.ofInt (2 ^ 63))).exact = .number (2 ^ 63) := by
  have hedge : Double.ofInt (2 ^ 63) = .finite false ⟨1086 <<< 52, by decide⟩ := by decide +kernel
  have hunits : Double.units (1086 <<< 52) = 2 ^ 63 * Double.subunits := by decide +kernel
  have hvalue : (Double.finite false ⟨1086 <<< 52, by decide⟩).toRat = ((2 ^ 63 : Int) : ℚ) :=
    Double.toRat_eq_intCast.mpr ⟨2 ^ 63, hunits, rfl⟩
  have hfinite : (Double.finite false ⟨1086 <<< 52, by decide⟩).isFinite = true := rfl
  rw [hedge, exact, if_pos hfinite, hvalue]
  norm_num

/-- The float 2^63 is normalized to the integer 2^63 - 1, counts as the same value as that integer,
and as an identity addresses the object of that number. -/
theorem edge_taken_for_integer_before :
    let edge : Value := .float (.ofInt (2 ^ 63))
    let r := Record.ofFields (TextMap.ofList [(objectIdName, edge)])
    edge.isFinite = true ∧ edge.exact = .number (2 ^ 63) ∧
      edge.normalized = .int Int64.maxValue ∧ edge.normalized.exact ≠ edge.exact ∧
      edge.asInt64? = some Int64.maxValue ∧ edge.sameAs (.int Int64.maxValue) = true ∧
      r.fields.get? objectIdName = some edge ∧ r.objectId? = some Int64.maxValue := by
  intro edge r
  have hfinite : edge.isFinite = true := by decide +kernel
  have hexact : edge.exact = .number (2 ^ 63) := Value.exact_edge
  have hmax : ((Int64.maxValue.toInt : Int) : ℚ) = 2 ^ 63 - 1 := by
    have hint : Int64.maxValue.toInt = 2 ^ 63 - 1 := rfl
    rw [hint]
    norm_num
  have hsaturated : edge.exact.saturated = .number Int64.maxValue.toInt := by
    rw [hexact, Exact.saturated, if_pos rfl, hmax]
  have hint : edge.asInt64? = some Int64.maxValue := Value.asInt64?_eq_some.mpr hsaturated
  have hget : r.fields.get? objectIdName = some edge := rfl
  refine ⟨hfinite, hexact, ?_, ?_, hint, ?_, hget, Record.objectId?_eq_some.mpr ⟨edge, hget, hsaturated⟩⟩
  · have hform : (Double.ofInt (2 ^ 63)).toInt64? = some Int64.maxValue := by decide +kernel
    change (Value.float (.ofInt (2 ^ 63))).normalized = _
    rw [Value.normalized, hform]
  · rw [Value.exact_normalized, hsaturated, hexact, hmax]
    norm_num
  · rw [Value.sameAs_iff_exact hfinite rfl, hsaturated, Value.exact_int_saturated, Value.exact]

end Inventory
