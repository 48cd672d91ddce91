import Inventory.Proofs.CanonicalText
import Inventory.Proofs.QueryText.SentNumbers

/-! Operands that are sent alike. JSON shows neither how an operation was named nor whether a list was
given as one value or as operands of its own, and shows no operand as null. Every operand has a form
in which nothing is written in a second way, and this form can be read from what is sent. -/

namespace Inventory

/-- The operation with exactly this name. -/
def Operation.named (name : String) : Operation :=
  match registered.find? fun op => op.name == name with
  | some op => op
  | none => other name

namespace Operation

theorem name_named (name : String) : (named name).name = name := by
  rw [named]
  cases h : registered.find? fun op => op.name == name with
  | none => rfl
  | some op =>
    have hname := List.find?_some h
    exact beq_iff_eq.mp hname

theorem named_registered : ∀ op ∈ registered, named op.name = op := by
  decide

theorem named_lookup (name : String) : named (lookup name).name = lookup name := by
  rw [lookup]
  cases h : registered.find? fun op => folded op.name == folded name with
  | some op => exact named_registered op (List.mem_of_find?_eq_some h)
  | none =>
    have hnone : registered.find? (fun op => op.name == name) = none := by
      rw [List.find?_eq_none] at h ⊢
      intro op hop hname
      exact h op hop (beq_iff_eq.mpr (congrArg folded (beq_iff_eq.mp hname)))
    have hother : (other name).name = name := rfl
    simp only [hother, named, hnone]

end Operation

namespace Operand

/-- The least congruence that names operations by their names only, takes no operand for the null
value, and a list of plain values for the value of their list. -/
inductive Alike : Operand → Operand → Prop where
  | refl (x : Operand) : Alike x x
  | symm {x y : Operand} : Alike x y → Alike y x
  | trans {x y z : Operand} : Alike x y → Alike y z → Alike x z
  | absent : Alike .absent (.value .null)
  | values (vs : List Value) : Alike (.list (vs.map .value)) (.value (.list vs))
  | filter {p q : Operation} {x y : Operand} : p.name = q.name → Alike x y →
      Alike (.filter p x) (.filter q y)
  | element {x y : Operand} (front back : List Operand) : Alike x y →
      Alike (.list (front ++ x :: back)) (.list (front ++ y :: back))

theorem Alike.list {xs ys : List Operand} (h : List.Forall₂ Alike xs ys) (front : List Operand) :
    Alike (.list (front ++ xs)) (.list (front ++ ys)) := by
  induction h generalizing front with
  | nil => exact .refl _
  | @cons x y xs ys hxy _ ih =>
    have hmore := ih (front ++ [y])
    rw [List.append_assoc, List.append_assoc] at hmore
    exact (hxy.element front xs).trans hmore

mutual

/-- The value with operands in the place of its items, and none in the place of null. -/
def ofValue : Value → Operand
  | .null => .absent
  | .list items => .list (ofValues items)
  | .bool b => .value (.bool b)
  | .int n => .value (.int n)
  | .float d => .value (.float d)
  | .text s => .value (.text s)

def ofValues : List Value → List Operand
  | [] => []
  | v :: rest => ofValue v :: ofValues rest

end

mutual

def expanded : Operand → Operand
  | .absent => .absent
  | .value v => ofValue v
  | .filter op x => .filter (.named op.name) (expanded x)
  | .list items => .list (allExpanded items)

def allExpanded : List Operand → List Operand
  | [] => []
  | x :: rest => expanded x :: allExpanded rest

end

theorem ofValues_eq_map (vs : List Value) : ofValues vs = vs.map ofValue := by
  induction vs with
  | nil => rfl
  | cons v rest ih => rw [ofValues, ih, List.map_cons]

theorem allExpanded_eq_map (items : List Operand) : allExpanded items = items.map expanded := by
  induction items with
  | nil => rfl
  | cons x rest ih => rw [allExpanded, ih, List.map_cons]

theorem allToJson_eq_map (items : List Operand) : allToJson items = items.map toJson := by
  induction items with
  | nil => rfl
  | cons x rest ih => rw [allToJson, ih, List.map_cons]

theorem allExpanded_values (vs : List Value) : allExpanded (vs.map .value) = ofValues vs := by
  rw [allExpanded_eq_map, ofValues_eq_map, List.map_map]
  apply List.map_congr_left
  intro v _
  rw [Function.comp_apply, expanded]

/-- What is alike has one form. -/
theorem Alike.expanded_eq {x y : Operand} (h : Alike x y) : x.expanded = y.expanded := by
  induction h with
  | refl x => rfl
  | symm _ ih => exact ih.symm
  | trans _ _ ih ih' => exact ih.trans ih'
  | absent => rw [expanded, expanded, ofValue]
  | values vs => rw [expanded, expanded, ofValue, allExpanded_values]
  | filter hname _ ih => rw [expanded, expanded, hname, ih]
  | element front back _ ih => simp [expanded, allExpanded_eq_map, ih]

mutual

theorem alike_ofValue (v : Value) : Alike (.value v) (ofValue v) := by
  match v with
  | .null =>
    rw [ofValue]
    exact Alike.absent.symm
  | .bool _ | .int _ | .float _ | .text _ =>
    rw [ofValue]
    exact .refl _
  | .list items =>
    rw [ofValue]
    exact (Alike.values items).symm.trans (Alike.list (alike_ofValues items) [])

theorem alike_ofValues (vs : List Value) : List.Forall₂ Alike (vs.map .value) (ofValues vs) := by
  match vs with
  | [] => exact .nil
  | v :: rest =>
    rw [List.map_cons, ofValues]
    exact .cons (alike_ofValue v) (alike_ofValues rest)

end

mutual

theorem alike_expanded (x : Operand) : Alike x x.expanded := by
  match x with
  | .absent =>
    rw [expanded]
    exact .refl _
  | .value v =>
    rw [expanded]
    exact alike_ofValue v
  | .filter op x =>
    rw [expanded]
    exact .filter (Operation.name_named op.name).symm (alike_expanded x)
  | .list items =>
    rw [expanded]
    exact Alike.list (alike_allExpanded items) []

theorem alike_allExpanded (items : List Operand) : List.Forall₂ Alike items (allExpanded items) := by
  match items with
  | [] => exact .nil
  | x :: rest =>
    rw [allExpanded]
    exact .cons (alike_expanded x) (alike_allExpanded rest)

end

theorem alike_iff {x y : Operand} : Alike x y ↔ x.expanded = y.expanded := by
  constructor
  · exact Alike.expanded_eq
  · intro h
    have hx := alike_expanded x
    rw [h] at hx
    exact hx.trans (alike_expanded y).symm

end Operand

namespace Json

mutual

/-- The operand that is sent as this tree. -/
def operand : Json → Operand
  | .null => .absent
  | .bool b => .value (.bool b)
  | .integer n => .value (.int (.ofInt n))
  | .float d => .value (.float d)
  | .text s => .value (.text s)
  | .array items => .list (operands items)
  | .object members => filterOperand members

def operands : List Json → List Operand
  | [] => []
  | j :: rest => operand j :: operands rest

def filterOperand : List (String × Json) → Operand
  | [] => .absent
  | (name, j) :: _ => .filter (.named name) (operand j)

end

end Json

namespace Operand

/-- Every number inside has a text. -/
def Finite (x : Operand) : Prop := ∀ d, x.Holds d → d.isFinite = true

theorem finite_value {v : Value} : (Operand.value v).Finite ↔ v.isFinite = true := by
  simp only [Finite, holds_value, Value.isFinite_iff]

theorem finite_filter {op : Operation} {x : Operand} : (Operand.filter op x).Finite ↔ x.Finite := by
  simp only [Finite, holds_filter]

theorem finite_list {items : List Operand} :
    (Operand.list items).Finite ↔ ∀ x ∈ items, x.Finite := by
  simp only [Finite, holds_list]
  constructor
  · intro h x hx d hd
    exact h d ⟨x, hx, hd⟩
  · rintro h d ⟨x, hx, hd⟩
    exact h x hx d hd

mutual

theorem operand_value (v : Value) (h : v.isFinite = true) : v.toJson.operand = ofValue v := by
  match v with
  | .null | .bool _ | .text _ => rw [Value.toJson, Json.operand, ofValue]
  | .int n => rw [Value.toJson, Json.operand, ofValue, Int64.ofInt_toInt]
  | .float d =>
    rw [Value.isFinite] at h
    rw [Value.toJson, Json.ofDouble, if_pos h, Json.operand, ofValue]
  | .list items =>
    rw [Value.isFinite] at h
    rw [Value.toJson, Json.operand, ofValue, operands_values items h]

theorem operands_values (vs : List Value) (h : Value.allFinite vs = true) :
    Json.operands (Value.allToJson vs) = ofValues vs := by
  match vs with
  | [] => rfl
  | v :: rest =>
    rw [Value.allFinite, Bool.and_eq_true] at h
    rw [Value.allToJson, Json.operands, ofValues, operand_value v h.1, operands_values rest h.2]

end

mutual

/-- The form of an operand is read from what is sent. -/
theorem operand_toJson (x : Operand) (h : x.Finite) : x.toJson.operand = x.expanded := by
  match x with
  | .absent => rw [toJson, Json.operand, expanded]
  | .value v => rw [toJson, expanded, operand_value v (finite_value.mp h)]
  | .filter op x =>
    rw [toJson, Json.operand, Json.filterOperand, expanded, operand_toJson x (finite_filter.mp h)]
  | .list items => rw [toJson, Json.operand, expanded, operands_allToJson items (finite_list.mp h)]

theorem operands_allToJson (items : List Operand) (h : ∀ x ∈ items, x.Finite) :
    Json.operands (allToJson items) = allExpanded items := by
  match items with
  | [] => rfl
  | x :: rest =>
    obtain ⟨hx, hrest⟩ := List.forall_mem_cons.mp h
    rw [allToJson, Json.operands, allExpanded, operand_toJson x hx, operands_allToJson rest hrest]

end

theorem Alike.toJson_eq {x y : Operand} (h : Alike x y) : x.toJson = y.toJson := by
  induction h with
  | refl x => rfl
  | symm _ ih => exact ih.symm
  | trans _ _ ih ih' => exact ih.trans ih'
  | absent => rw [toJson, toJson, Value.toJson]
  | values vs =>
    have hvalue : toJson ∘ Operand.value = Value.toJson := by
      funext v
      rw [Function.comp_apply, toJson]
    rw [toJson, toJson, Value.toJson, allToJson_eq_map, Value.allToJson_eq_map, List.map_map, hvalue]
  | filter hname _ ih => rw [toJson, toJson, hname, ih]
  | element front back _ ih => simp [toJson, allToJson_eq_map, ih]

/-- Operands with finite numbers are sent as one tree exactly when they are alike. -/
theorem toJson_eq_iff {x y : Operand} (hx : x.Finite) (hy : y.Finite) :
    x.toJson = y.toJson ↔ Alike x y := by
  constructor
  · intro h
    have hform := congrArg Json.operand h
    rw [operand_toJson x hx, operand_toJson y hy] at hform
    exact alike_iff.mpr hform
  · exact Alike.toJson_eq

mutual

/-- What is sent of an operand can be printed, also where a number in it cannot. -/
theorem finite_toJson (x : Operand) : x.toJson.Finite := by
  match x with
  | .absent => simp [toJson, Json.Finite]
  | .value v =>
    rw [toJson]
    exact v.finite_toJson
  | .filter op x =>
    rw [toJson, Json.Finite, Json.MembersFinite, Json.MembersFinite]
    exact ⟨finite_toJson x, trivial⟩
  | .list items =>
    rw [toJson, Json.Finite]
    exact finite_allToJson items

theorem finite_allToJson (items : List Operand) : Json.ItemsFinite (allToJson items) := by
  match items with
  | [] => simp [allToJson, Json.ItemsFinite]
  | x :: rest =>
    rw [allToJson, Json.ItemsFinite]
    exact ⟨finite_toJson x, finite_allToJson rest⟩

end

end Operand

end Inventory
