import Inventory.Proofs.ExactValue

/-! Canonical text as a key. Two finite values have one canonical text only if their normalized forms
are equal, so the text of a string is that of no other value, the text of a list tells its items apart,
and the text of a whole number is that of the values with this integer form. -/

namespace Inventory

/-- Numbers that compare as equal are the same, but for the two zeros, which have an integer form. -/
theorem Double.eq_of_beq {d e : Double} (hform : d.toInt64? = none) (h : (d == e) = true) : d = e := by
  cases d with
  | nan => cases h
  | infinite m =>
    cases e with
    | infinite n =>
      have hsign : m = n := by simpa [BEq.beq, Double.beq] using h
      rw [hsign]
    | _ => cases h
  | finite m r =>
    cases e with
    | finite n s =>
      have hboth : r = s ∧ (m = n ∨ r.val = 0) := by
        simpa [BEq.beq, Double.beq, Bool.and_eq_true, Bool.or_eq_true, beq_iff_eq, decide_eq_true_eq]
          using h
      obtain ⟨rfl, hsign | hzero⟩ := hboth
      · rw [hsign]
      · have hunits : units r.val = 0 := by
          rw [hzero]
          rfl
        simp [toInt64?, hunits] at hform
    | _ => cases h

theorem Double.beq_self {d : Double} (h : d.isFinite = true) : (d == d) = true := by
  cases d with
  | finite m r => simp [BEq.beq, Double.beq]
  | _ => cases h

namespace Value

mutual

theorem eq_of_beq (v w : Value) (hv : v.Normal) (h : beq v w = true) : v = w := by
  cases v with
  | null =>
    cases w with
    | null => rfl
    | _ => cases h
  | bool b =>
    cases w with
    | bool c =>
      rw [beq] at h
      rw [beq_iff_eq.mp h]
    | _ => cases h
  | int m =>
    cases w with
    | int n =>
      rw [beq] at h
      rw [beq_iff_eq.mp h]
    | _ => cases h
  | float d =>
    cases w with
    | float e =>
      rw [beq] at h
      rw [Double.eq_of_beq (hv d .number) h]
    | _ => cases h
  | text s =>
    cases w with
    | text t =>
      rw [beq] at h
      rw [beq_iff_eq.mp h]
    | _ => cases h
  | list items =>
    cases w with
    | list others =>
      rw [beq] at h
      rw [eq_of_beqAll items others (fun v hm d hd => hv d (.element hm hd)) h]
    | _ => cases h

theorem eq_of_beqAll (items others : List Value) (hv : ∀ v ∈ items, v.Normal)
    (h : beqAll items others = true) : items = others := by
  match items, others with
  | [], [] => rfl
  | [], _ :: _ => cases h
  | _ :: _, [] => cases h
  | v :: items, w :: others =>
    rw [beqAll, Bool.and_eq_true] at h
    rw [List.forall_mem_cons] at hv
    rw [eq_of_beq v w hv.1 h.1, eq_of_beqAll items others hv.2 h.2]

end

mutual

theorem beq_self (v : Value) (h : v.isFinite = true) : beq v v = true := by
  cases v with
  | float d =>
    rw [isFinite] at h
    rw [beq, Double.beq_self h]
  | list items =>
    rw [isFinite] at h
    rw [beq, beqAll_self items h]
  | _ => simp [beq]

theorem beqAll_self (items : List Value) (h : allFinite items = true) :
    beqAll items items = true := by
  match items with
  | [] => rfl
  | v :: rest =>
    rw [allFinite, Bool.and_eq_true] at h
    rw [beqAll, beq_self v h.1, beqAll_self rest h.2, Bool.and_self]

end

theorem beq_normalized {v w : Value} (hv : v.isFinite = true) :
    (v.normalized == w.normalized) = true ↔ v.normalized = w.normalized := by
  constructor
  · intro h
    exact eq_of_beq _ _ v.normal_normalized h
  · intro h
    rw [← h]
    exact beq_self _ (isFinite_normalized hv)

theorem canonical_eq_iff {v w : Value} (hv : v.isFinite = true) (hw : w.isFinite = true) :
    v.canonical = w.canonical ↔ v.normalized = w.normalized := by
  rw [← sameAs_iff, sameAs_iff_normalized hv hw]

theorem normalized_eq_text {v : Value} {s : String} : v.normalized = .text s ↔ v = .text s := by
  cases v with
  | float d =>
    rw [normalized]
    split <;> simp
  | _ => simp [normalized]

theorem normalized_eq_list {v : Value} {items : List Value} :
    v.normalized = .list items ↔ ∃ others, v = .list others ∧ normalizedAll others = items := by
  cases v with
  | float d =>
    rw [normalized]
    split <;> simp
  | _ => simp [normalized]

theorem normalized_eq_float {v : Value} {d : Double} (h : d.toInt64? = none) :
    v.normalized = .float d ↔ v = .float d := by
  cases v with
  | float e =>
    rw [normalized]
    cases he : e.toInt64? with
    | none => simp
    | some n =>
      have hne : e ≠ d := by
        rintro rfl
        rw [h] at he
        cases he
      simp [hne]
  | _ => simp [normalized]

theorem normalizedAll_eq_iff {items others : List Value} (hv : ∀ v ∈ items, v.isFinite = true)
    (hw : ∀ w ∈ others, w.isFinite = true) :
    normalizedAll items = normalizedAll others ↔ items.map canonical = others.map canonical := by
  induction items generalizing others with
  | nil => cases others <;> simp [normalizedAll]
  | cons v rest ih =>
    cases others with
    | nil => simp [normalizedAll]
    | cons w more =>
      rw [List.forall_mem_cons] at hv hw
      rw [normalizedAll, normalizedAll, List.map_cons, List.map_cons, List.cons.injEq,
        List.cons.injEq, canonical_eq_iff hv.1 hw.1, ih hv.2 hw.2]

theorem canonical_text_eq_iff {s : String} {w : Value} (hw : w.isFinite = true) :
    (Value.text s).canonical = w.canonical ↔ w = .text s := by
  have hs : (Value.text s).normalized = .text s := by rw [normalized]
  rw [canonical_eq_iff rfl hw, hs, eq_comm, normalized_eq_text]

theorem canonical_list_eq_iff {items : List Value} {w : Value}
    (hv : (Value.list items).isFinite = true) (hw : w.isFinite = true) :
    (Value.list items).canonical = w.canonical ↔
      ∃ others, w = .list others ∧ items.map canonical = others.map canonical := by
  have hitems : (Value.list items).normalized = .list (normalizedAll items) := by rw [normalized]
  rw [canonical_eq_iff hv hw, hitems, eq_comm, normalized_eq_list]
  rw [isFinite, allFinite_iff] at hv
  constructor
  · rintro ⟨others, rfl, heq⟩
    rw [isFinite, allFinite_iff] at hw
    exact ⟨others, rfl, (normalizedAll_eq_iff hv hw).mp heq.symm⟩
  · rintro ⟨others, rfl, heq⟩
    rw [isFinite, allFinite_iff] at hw
    exact ⟨others, rfl, ((normalizedAll_eq_iff hv hw).mpr heq).symm⟩

theorem canonical_int_eq_iff {n : Int64} {w : Value} (hw : w.isFinite = true) :
    (Value.int n).canonical = w.canonical ↔ w.asInt64? = some n := by
  have hn : (Value.int n).normalized = .int n := by rw [normalized]
  rw [canonical_eq_iff rfl hw, hn, asInt64?_eq_some_iff_normalized, eq_comm]

theorem canonical_float_eq_iff {d : Double} {w : Value} (hd : d.isFinite = true)
    (hform : d.toInt64? = none) (hw : w.isFinite = true) :
    (Value.float d).canonical = w.canonical ↔ w = .float d := by
  have hfloat : (Value.float d).normalized = .float d := (normalized_eq_float hform).mpr rfl
  have hfinite : (Value.float d).isFinite = true := by rw [isFinite, hd]
  rw [canonical_eq_iff hfinite hw, hfloat, eq_comm, normalized_eq_float hform]

end Value

/-- Finite values have one canonical text exactly when their normalized forms are equal, and to count as
the same or to compare as equal once normalized is nothing else. So no value takes the text of another
kind: the text of a string is that of this string alone, a list shares its text only with the lists
whose items have the same texts in the same order, the text of an integer is that of the values with
this integer form, and a number without such a form has its text to itself. -/
theorem canonical_text_is_exact_key (v w : Value) (hv : v.isFinite = true) (hw : w.isFinite = true) :
    (v.canonical = w.canonical ↔ v.normalized = w.normalized) ∧
    (v.sameAs w = true ↔ v.normalized = w.normalized) ∧
    ((v.normalized == w.normalized) = true ↔ v.normalized = w.normalized) ∧
    (∀ s, v = .text s → (v.canonical = w.canonical ↔ w = .text s)) ∧
    (∀ items, v = .list items → (v.canonical = w.canonical ↔
      ∃ others, w = .list others ∧ items.map Value.canonical = others.map Value.canonical)) ∧
    (∀ n, v = .int n → (v.canonical = w.canonical ↔ w.asInt64? = some n)) ∧
    (∀ d, v = .float d → d.toInt64? = none → (v.canonical = w.canonical ↔ w = .float d)) := by
  refine ⟨Value.canonical_eq_iff hv hw, Value.sameAs_iff_normalized hv hw, Value.beq_normalized hv,
    ?_, ?_, ?_, ?_⟩
  · rintro s rfl
    exact Value.canonical_text_eq_iff hw
  · rintro items rfl
    exact Value.canonical_list_eq_iff hv hw
  · rintro n rfl
    exact Value.canonical_int_eq_iff hw
  · rintro d rfl hform
    rw [Value.isFinite] at hv
    exact Value.canonical_float_eq_iff hv hform hw

/-- A float in the place of the integer it equals leaves the text alone; brackets and quotes in another
place do not. -/
theorem canonical_text_tells_nesting :
    let one : Value := .float (.ofInt 1)
    let left : Value := .list [.list [one], .int 2]
    left.canonical = (Value.list [.list [.int 1], .int 2]).canonical ∧
      left.canonical ≠ (Value.list [one, .list [.int 2]]).canonical ∧
      (Value.text "1").canonical ≠ one.canonical ∧
      (Value.list [.text "a,b"]).canonical ≠ (Value.list [.text "a", .text "b"]).canonical := by
  intro one left
  have hone : one.isFinite = true := by decide +kernel
  have hleft : left.isFinite = true := by decide +kernel
  have hform : one.normalized = .int 1 := by
    have hint : (Double.ofInt 1).toInt64? = some 1 := by decide +kernel
    simp [one, Value.normalized, hint]
  refine ⟨?_, ?_, ?_, ?_⟩
  · rw [(canonical_text_is_exact_key left _ hleft rfl).1]
    simp [left, Value.normalized, Value.normalizedAll, hform]
  · have hright : (Value.list [one, .list [.int 2]]).isFinite = true := by decide +kernel
    rw [Ne, (canonical_text_is_exact_key left _ hleft hright).1]
    simp [left, Value.normalized, Value.normalizedAll, hform]
  · rw [Ne, (canonical_text_is_exact_key (.text "1") one rfl hone).2.2.2.1 "1" rfl]
    exact nofun
  · rw [Ne, (canonical_text_is_exact_key (.list [.text "a,b"]) _ rfl rfl).2.2.2.2.1 _ rfl]
    rintro ⟨others, hothers, hmap⟩
    rw [← Value.list.inj hothers] at hmap
    simp at hmap

end Inventory
