import Inventory.Proofs.OperandForm

/-! What the text of a filter set tells. It gives the attributes and the condition on each, up to the
ways in which one operand can be built. A query is read into operands of one form, so filters from
queries are told apart by their texts. -/

namespace Inventory

namespace Condition

/-- One value, or filters of one name with operands that are alike. -/
inductive Alike : Condition → Condition → Prop where
  | value (v : Value) : Alike (.value v) (.value v)
  | filter {f g : Filter} : f.operation.name = g.operation.name → f.operand.Alike g.operand →
      Alike (.filter f) (.filter g)

def Finite (c : Condition) : Prop := c.toOperand.Finite

theorem toOperand_injective {c d : Condition} (h : c.toOperand = d.toOperand) : c = d := by
  cases c with
  | value v =>
    cases d with
    | value w => rw [Operand.value.inj h]
    | filter g => cases h
  | filter f =>
    cases d with
    | value w => cases h
    | filter g =>
      obtain ⟨p, x⟩ := f
      obtain ⟨q, y⟩ := g
      obtain ⟨rfl, rfl⟩ := Operand.filter.inj h
      rfl

theorem Alike.toOperand {c d : Condition} (h : c.Alike d) : c.toOperand.Alike d.toOperand := by
  cases h with
  | value v => exact .refl _
  | filter hname hoperand => exact .filter hname hoperand

end Condition

theorem Value.toJson_ne_object (v : Value) (members : List (String × Json)) :
    v.toJson ≠ .object members := by
  cases v with
  | float d =>
    rw [toJson, Json.ofDouble]
    split <;> nofun
  | _ =>
    rw [toJson]
    nofun

theorem Filter.toJson_eq (f : Filter) :
    f.toJson = .object [(f.operation.name, f.operand.toJson)] := by
  rw [toJson, Operand.ofFilter, Operand.toJson]

/-- A filter is never sent as a plain value is. -/
theorem Filter.wire_ne_value (f : Filter) (v : Value) : f.wire ≠ v.wire := by
  intro h
  have htree := Json.compact_injective (Operand.ofFilter f).finite_toJson v.finite_toJson h
  exact v.toJson_ne_object _ (htree.symm.trans f.toJson_eq)

namespace Condition

theorem toJson_value (v : Value) : (Condition.value v).toJson = v.toJson := by
  rw [toJson, toOperand, Operand.toJson]

theorem toJson_filter (f : Filter) :
    (Condition.filter f).toJson = .object [(f.operation.name, f.operand.toJson)] :=
  f.toJson_eq

theorem alike_of_toJson {c d : Condition} (hc : c.Finite) (hd : d.Finite)
    (h : c.toJson = d.toJson) : c.Alike d := by
  cases c with
  | value v =>
    rw [toJson_value] at h
    cases d with
    | value w =>
      rw [toJson_value] at h
      have hv : v.isFinite = true := Operand.finite_value.mp hc
      have hw : w.isFinite = true := Operand.finite_value.mp hd
      rw [Value.toJson_injective hv hw h]
      exact .value w
    | filter g =>
      rw [toJson_filter] at h
      exact absurd h (v.toJson_ne_object _)
  | filter f =>
    rw [toJson_filter] at h
    cases d with
    | value w =>
      rw [toJson_value] at h
      exact absurd h.symm (w.toJson_ne_object _)
    | filter g =>
      have hf : f.operand.Finite := Operand.finite_filter.mp hc
      have hg : g.operand.Finite := Operand.finite_filter.mp hd
      rw [toJson_filter] at h
      obtain ⟨hname, hoperand⟩ := Prod.mk.inj (List.cons.inj (Json.object.inj h)).1
      exact .filter hname ((Operand.toJson_eq_iff hf hg).mp hoperand)

theorem toJson_eq_iff {c d : Condition} (hc : c.Finite) (hd : d.Finite) :
    c.toJson = d.toJson ↔ c.Alike d := by
  constructor
  · exact alike_of_toJson hc hd
  · intro h
    exact h.toOperand.toJson_eq

end Condition

namespace Filters

def Finite (filters : Filters) : Prop := ∀ name c, filters.get? name = some c → c.Finite

theorem toJson_eq_iff {filters others : Filters} (hf : filters.Finite) (ho : others.Finite) :
    filters.toJson = others.toJson ↔ filters.keys = others.keys ∧
      ∀ name c d, filters.get? name = some c → others.get? name = some d → c.Alike d := by
  have htrees : filters.toJson = others.toJson ↔
      ∀ name, (filters.get? name).map Condition.toJson = (others.get? name).map Condition.toJson := by
    rw [toJson, toJson, Json.object.injEq]
    exact TextMap.map_entries_eq_iff
  rw [htrees]
  constructor
  · intro h
    refine ⟨TextMap.keys_eq fun name => ?_, fun name c d hc hd => ?_⟩
    · have hname := congrArg Option.isSome (h name)
      rw [Option.isSome_map, Option.isSome_map] at hname
      rw [← TextMap.contains_iff, ← TextMap.contains_iff, TextMap.contains, TextMap.contains, hname]
    · have hname := h name
      rw [hc, hd] at hname
      exact (Condition.toJson_eq_iff (hf name c hc) (ho name d hd)).mp (Option.some.inj hname)
  · rintro ⟨hkeys, hall⟩
    apply TextMap.map_get?_eq_of_keys hkeys
    intro name c d hc hd
    exact (Condition.toJson_eq_iff (hf name c hc) (ho name d hd)).mpr (hall name c d hc hd)

theorem finite_toJson (filters : Filters) : filters.toJson.Finite := by
  have hmembers : ∀ entries : List (String × Condition),
      Json.MembersFinite (entries.map fun e => (e.1, e.2.toJson)) := by
    intro entries
    induction entries with
    | nil => simp [Json.MembersFinite]
    | cons e rest ih =>
      rw [List.map_cons, Json.MembersFinite]
      exact ⟨e.2.toOperand.finite_toJson, ih⟩
  rw [toJson, Json.Finite]
  exact hmembers filters.entries

theorem wire_eq_iff {filters others : Filters} (hf : filters.Finite) (ho : others.Finite) :
    filters.wire = others.wire ↔ filters.keys = others.keys ∧
      ∀ name c d, filters.get? name = some c → others.get? name = some d → c.Alike d := by
  rw [← toJson_eq_iff hf ho]
  constructor
  · exact Json.compact_injective filters.finite_toJson others.finite_toJson
  · exact congrArg Json.compact

end Filters

namespace QueryText

theorem expanded_literal (word : List Char) :
    (Operand.value (literal word)).expanded = .value (literal word) := by
  rw [Operand.expanded]
  rcases literal_cases word with ⟨b, h⟩ | ⟨n, h⟩ | ⟨d, h⟩ | ⟨s, h⟩ <;> rw [h, Operand.ofValue]

theorem expanded_operandOf {operands : List Operand} (h : operands.map Operand.expanded = operands)
    (op : Operation) : (operandOf op operands).expanded = operandOf op operands := by
  have hlist : (Operand.list operands).expanded = .list operands := by
    rw [Operand.expanded, Operand.allExpanded_eq_map, h]
  rw [operandOf.eq_def]
  split
  · exact hlist
  · split
    · rw [Operand.expanded]
    · exact (List.cons.inj h).1
    · exact hlist

namespace ParseTree

mutual

/-- A condition that is read is built in one way. -/
theorem expanded_condition (t : ParseTree) :
    t.condition.toOperand.expanded = t.condition.toOperand := by
  match t with
  | .quoted inside =>
    rw [condition, Condition.toOperand, Operand.expanded, Operand.ofValue]
  | .word text =>
    rw [condition, Condition.toOperand, expanded_literal]
  | .call name arguments =>
    rw [condition, callFilter, Condition.toOperand, Operand.ofFilter, Operand.expanded,
      Operation.named_lookup, expanded_operandOf (expanded_conditions arguments)]

theorem expanded_conditions (ts : List ParseTree) :
    ((conditions ts).map Condition.toOperand).map Operand.expanded =
      (conditions ts).map Condition.toOperand := by
  match ts with
  | [] => rfl
  | t :: rest =>
    rw [conditions, List.map_cons, List.map_cons, expanded_condition t, expanded_conditions rest]

end

end ParseTree

theorem expanded_of_parse {query : List Char} {filters : Filters} (h : parse query = .ok filters)
    {name : String} {c : Condition} (hc : filters.get? name = some c) :
    c.toOperand.expanded = c.toOperand := by
  obtain ⟨t, raw, -, rfl, -⟩ := exists_tree_of_parse h (TextMap.mem_entries.mpr hc)
  exact t.expanded_condition

theorem eq_of_alike {p q : List Char} {filters others : Filters}
    (hp : parse p = .ok filters) (hq : parse q = .ok others) (hkeys : filters.keys = others.keys)
    (hall : ∀ name c d, filters.get? name = some c → others.get? name = some d → c.Alike d) :
    filters = others := by
  have heq : ∀ name c d, filters.get? name = some c → others.get? name = some d → c = d := by
    intro name c d hc hd
    have hform := (hall name c d hc hd).toOperand.expanded_eq
    rw [expanded_of_parse hp hc, expanded_of_parse hq hd] at hform
    exact Condition.toOperand_injective hform
  apply TextMap.ext_get?
  intro name
  have hname := TextMap.map_get?_eq_of_keys (f := id) hkeys heq name
  rwa [Option.map_id, id, id] at hname

end QueryText

open QueryText

/-- Two filter sets with finite numbers have one text exactly when they name the same attributes with
conditions that are alike. A filter is sent as an object with one entry and a plain value as no object,
so their texts differ, and filters read from queries have one text only if they are equal. -/
theorem wire_determines_filters (filters others : Filters) (hf : filters.Finite)
    (ho : others.Finite) :
    (filters.wire = others.wire ↔ filters.keys = others.keys ∧
      ∀ name c d, filters.get? name = some c → others.get? name = some d → c.Alike d) ∧
    (∀ f : Filter, f.toJson = .object [(f.operation.name, f.operand.toJson)]) ∧
    (∀ (v : Value) members, v.toJson ≠ .object members) ∧
    (∀ (f : Filter) (v : Value), f.wire ≠ v.wire) ∧
    (∀ p q, parse p = .ok filters → parse q = .ok others → filters.wire = others.wire →
      filters = others) := by
  have hwire := Filters.wire_eq_iff hf ho
  refine ⟨hwire, Filter.toJson_eq, Value.toJson_ne_object, Filter.wire_ne_value, ?_⟩
  intro p q hp hq h
  obtain ⟨hkeys, hall⟩ := hwire.mp h
  exact eq_of_alike hp hq hkeys hall

/-- Operands one by one or their values as one list, for an operation or another of its name, but not in
another order. -/
theorem wire_determines_filters_listed :
    let tags : Operation → Operand → Filters := fun op x =>
      TextMap.ofList [("tags", .filter ⟨op, x⟩)]
    let listed : Operand := .list [.value (.int 1), .absent]
    let whole : Operand := .value (.list [.int 1, .null])
    let turned : Operand := .value (.list [.null, .int 1])
    (tags .contains listed).wire = (tags (.other "Contains") whole).wire ∧
      (tags .contains listed).wire ≠ (tags .contains turned).wire := by
  intro tags listed whole turned
  have hget : ∀ op x name c, (tags op x).get? name = some c →
      name = "tags" ∧ c = .filter ⟨op, x⟩ := by
    intro op x name c hc
    have hentries : (tags op x).entries = [("tags", .filter ⟨op, x⟩)] := rfl
    have hmem := TextMap.mem_entries.mpr hc
    rw [hentries, List.mem_singleton] at hmem
    exact Prod.mk.inj hmem
  have hfinite : ∀ op x, x.Finite → (tags op x).Finite := by
    intro op x hx name c hc
    obtain ⟨-, rfl⟩ := hget op x name c hc
    exact Operand.finite_filter.mpr hx
  have hlisted : listed.Finite := Operand.finite_list.mpr
    (List.forall_mem_cons.mpr ⟨Operand.finite_value.mpr rfl, List.forall_mem_singleton.mpr nofun⟩)
  have hwhole : whole.Finite := Operand.finite_value.mpr rfl
  have hturned : turned.Finite := Operand.finite_value.mpr rfl
  have hsame := (wire_determines_filters (tags .contains listed) (tags (.other "Contains") whole)
    (hfinite _ _ hlisted) (hfinite _ _ hwhole)).1
  have hother := (wire_determines_filters (tags .contains listed) (tags .contains turned)
    (hfinite _ _ hlisted) (hfinite _ _ hturned)).1
  constructor
  · refine hsame.mpr ⟨rfl, fun name c d hc hd => ?_⟩
    obtain ⟨-, rfl⟩ := hget _ _ name c hc
    obtain ⟨-, rfl⟩ := hget _ _ name d hd
    exact .filter rfl (Operand.alike_iff.mpr rfl)
  · intro h
    have halike := (hother.mp h).2 "tags" _ _ rfl rfl
    cases halike with
    | filter _ hoperand => cases Operand.alike_iff.mp hoperand

end Inventory
