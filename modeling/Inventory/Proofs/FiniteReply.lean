import Inventory.Creation
import Inventory.Proofs.QueryReply
import Inventory.Proofs.ValueRoundTrip

/-! The numbers of a reply. A text denotes no others than integers of 64 bits and finite doubles, so
the values that are read out of a reply are finite at any depth. -/

namespace Inventory

theorem exists_of_mapM {α β : Type} {f : α → Option β} {as : List α} {bs : List β}
    (h : as.mapM f = some bs) : ∀ b ∈ bs, ∃ a ∈ as, f a = some b := by
  induction as generalizing bs with
  | nil =>
    obtain rfl := Option.some.inj h
    exact List.forall_mem_nil _
  | cons a rest ih =>
    rw [List.mapM_cons] at h
    obtain ⟨b, hb, h⟩ := Option.bind_eq_some_iff.mp h
    obtain ⟨more, hmore, h⟩ := Option.bind_eq_some_iff.mp h
    obtain rfl := Option.some.inj h
    rw [List.forall_mem_cons]
    refine ⟨⟨a, List.mem_cons_self, hb⟩, fun c hc => ?_⟩
    obtain ⟨a', ha', hread⟩ := ih hmore c hc
    exact ⟨a', List.mem_cons_of_mem a ha', hread⟩

namespace Json

/-- The numbers inside are integers of 64 bits, signed or not, and finite doubles. -/
inductive Denotable : Json → Prop where
  | null : Denotable .null
  | bool (b : Bool) : Denotable (.bool b)
  | integer {n : Int} : -(2 ^ 63) ≤ n → n < 2 ^ 64 → Denotable (.integer n)
  | float {d : Double} : d.isFinite = true → Denotable (.float d)
  | text (s : String) : Denotable (.text s)
  | array {items : List Json} : (∀ j ∈ items, Denotable j) → Denotable (.array items)
  | object {members : List (String × Json)} :
      (∀ e ∈ members, Denotable e.2) → Denotable (.object members)

namespace Written

theorem itemsToJson?_eq_mapM (levels : Nat) (items : List Written) :
    itemsToJson? levels items = items.mapM (toJson? levels) := by
  induction items with
  | nil => rfl
  | cons w rest ih =>
    rw [itemsToJson?, List.mapM_cons, ih]
    cases w.toJson? levels <;> cases rest.mapM (toJson? levels) <;> rfl

theorem membersToJson?_eq_mapM (levels : Nat) (members : List (Option String × Written)) :
    membersToJson? levels members =
      members.mapM fun e => e.1.bind fun key => (e.2.toJson? levels).map (key, ·) := by
  induction members with
  | nil => rfl
  | cons head rest ih =>
    obtain ⟨key, w⟩ := head
    rw [membersToJson?.eq_def, List.mapM_cons, ← ih]
    dsimp only
    cases key <;> cases w.toJson? levels <;> cases membersToJson? levels rest <;> rfl

theorem denotable_of_toJson? : (w : Written) → (levels : Nat) → (j : Json) →
    w.toJson? levels = some j → j.Denotable
  | .null, levels, j, h => by
    rw [toJson?] at h
    exact Option.some.inj h ▸ .null
  | .bool b, levels, j, h => by
    rw [toJson?] at h
    exact Option.some.inj h ▸ .bool b
  | .number n, levels, j, h => by
    rw [toJson?] at h
    rcases Numeral.toJson?_cases h with ⟨i, rfl, hlow, hhigh⟩ | ⟨d, rfl, hd⟩
    · exact .integer hlow hhigh
    · exact .float hd
  | .text content, levels, j, h => by
    rw [toJson?] at h
    obtain ⟨s, -, rfl⟩ := Option.map_eq_some_iff.mp h
    exact .text s
  | .array items, 0, j, h => by
    rw [toJson?] at h
    cases h
  | .array items, levels + 1, j, h => by
    have hitems : ∀ w ∈ items, ∀ j, w.toJson? levels = some j → j.Denotable :=
      fun w _ => denotable_of_toJson? w levels
    rw [toJson?] at h
    obtain ⟨js, hjs, rfl⟩ := Option.map_eq_some_iff.mp h
    rw [itemsToJson?_eq_mapM] at hjs
    refine .array fun j hj => ?_
    obtain ⟨w, hw, hread⟩ := exists_of_mapM hjs j hj
    exact hitems w hw j hread
  | .object members, 0, j, h => by
    rw [toJson?] at h
    cases h
  | .object members, levels + 1, j, h => by
    have hmembers : ∀ key w, (key, w) ∈ members → ∀ j, w.toJson? levels = some j → j.Denotable :=
      fun key w _ => denotable_of_toJson? w levels
    rw [toJson?] at h
    obtain ⟨js, hjs, rfl⟩ := Option.map_eq_some_iff.mp h
    rw [membersToJson?_eq_mapM] at hjs
    refine .object fun e he => ?_
    obtain ⟨⟨key, w⟩, hw, hread⟩ := exists_of_mapM hjs e he
    obtain ⟨name, -, hread⟩ := Option.bind_eq_some_iff.mp hread
    obtain ⟨j, hj, rfl⟩ := Option.map_eq_some_iff.mp hread
    exact hmembers key w hw j hj

end Written

theorem exists_of_sortedMembers {members : List (String × Json)} {e : String × Json}
    (h : e ∈ sortedMembers members) : ∃ e' ∈ members, e.2 = e'.2.sorted := by
  induction members with
  | nil => cases h
  | cons head rest ih =>
    obtain ⟨key, j⟩ := head
    have hlater : e ∈ sortedMembers rest → ∃ e' ∈ (key, j) :: rest, e.2 = e'.2.sorted := by
      intro he
      obtain ⟨e', he', hsorted⟩ := ih he
      exact ⟨e', List.mem_cons_of_mem _ he', hsorted⟩
    rw [sortedMembers] at h
    split at h
    · exact hlater h
    · rcases mem_putEntry h with rfl | he
      · exact ⟨(key, j), List.mem_cons_self, rfl⟩
      · exact hlater he

theorem Denotable.sorted {j : Json} (h : j.Denotable) : j.sorted.Denotable := by
  induction h with
  | null => exact .null
  | bool b => exact .bool b
  | integer hlow hhigh => exact .integer hlow hhigh
  | float hd => exact .float hd
  | text s => exact .text s
  | array _ ih =>
    rw [Json.sorted, sortedItems_eq_map]
    exact .array (List.forall_mem_map.mpr ih)
  | object _ ih =>
    refine .object fun e he => ?_
    obtain ⟨e', he', hsorted⟩ := exists_of_sortedMembers he
    rw [hsorted]
    exact ih e' he'

theorem denotable_of_parseSorted? {s : String} {j : Json} (h : parseSorted? s = some j) :
    j.Denotable := by
  rw [parseSorted?, parse?] at h
  obtain ⟨parsed, hparsed, rfl⟩ := Option.map_eq_some_iff.mp h
  split at hparsed
  · exact (Written.denotable_of_toJson? _ _ _ hparsed).sorted
  · cases hparsed

end Json

theorem Value.allOfJson?_eq_mapM (items : List Json) : allOfJson? items = items.mapM ofJson? := by
  induction items with
  | nil => rfl
  | cons j rest ih =>
    rw [allOfJson?, List.mapM_cons, ih]
    cases ofJson? j <;> cases rest.mapM ofJson? <;> rfl

theorem Json.Denotable.isFinite {j : Json} (h : j.Denotable) {v : Value}
    (hv : Value.ofJson? j = some v) : v.isFinite = true := by
  induction h generalizing v with
  | null => exact Option.some.inj hv ▸ rfl
  | bool b => exact Option.some.inj hv ▸ rfl
  | text s => exact Option.some.inj hv ▸ rfl
  | integer hlow hhigh =>
    obtain ⟨w, hw, hfinite, -⟩ := Value.ofJson?_integer hlow hhigh
    exact Option.some.inj (hw.symm.trans hv) ▸ hfinite
  | float hd => exact Option.some.inj hv ▸ hd
  | array _ ih =>
    rw [Value.ofJson?] at hv
    obtain ⟨vs, hvs, rfl⟩ := Option.map_eq_some_iff.mp hv
    rw [Value.allOfJson?_eq_mapM] at hvs
    rw [Value.isFinite, Value.allFinite_iff]
    intro w hw
    obtain ⟨j, hj, hread⟩ := exists_of_mapM hvs w hw
    exact ih j hj hread
  | object => cases hv

namespace Fields

def Finite (fields : Fields) : Prop := ∀ field v, fields.get? field = some v → v.isFinite = true

theorem finite_empty : Finite ∅ := nofun

theorem Finite.insert {fields : Fields} (h : fields.Finite) {v : Value} (hv : v.isFinite = true)
    (field : String) : Finite (fields.insert field v) := by
  intro k w hw
  rw [TextMap.get?_insert] at hw
  split at hw
  · exact Option.some.inj hw ▸ hv
  · exact h k w hw

theorem Finite.overlay {fields others : Fields} (h : fields.Finite) (hothers : others.Finite) :
    Finite (fields.overlay others) := by
  intro k w hw
  rw [TextMap.get?_overlay, Option.or_eq_some_iff] at hw
  rcases hw with hw | ⟨-, hw⟩
  · exact hothers k w hw
  · exact h k w hw

theorem finite_of_readMembers {members : List (String × Json)} {acc row : Fields}
    (hmembers : ∀ e ∈ members, e.2.Denotable) (hacc : acc.Finite)
    (h : readMembers members acc = .ok row) : row.Finite := by
  induction members generalizing acc with
  | nil =>
    rw [readMembers] at h
    exact Except.ok.inj h ▸ hacc
  | cons head rest ih =>
    obtain ⟨key, j⟩ := head
    obtain ⟨hj, hrest⟩ := List.forall_mem_cons.mp hmembers
    rw [readMembers] at h
    split at h
    · rename_i v hv
      exact ih hrest (hacc.insert (hj.isFinite (Value.ofJson_eq_ok.mp hv)) key) h
    · cases h

theorem finite_of_ofJson {j : Json} {row : Fields} (hj : j.Denotable) (h : ofJson j = .ok row) :
    row.Finite := by
  cases hj with
  | object hmembers => exact finite_of_readMembers hmembers finite_empty h
  | _ => cases h

theorem finite_of_allOfJson {items : List Json} {rows : List Fields}
    (hitems : ∀ j ∈ items, j.Denotable) (h : allOfJson items = .ok rows) :
    ∀ row ∈ rows, row.Finite := by
  induction items generalizing rows with
  | nil =>
    rw [allOfJson] at h
    exact Except.ok.inj h ▸ List.forall_mem_nil _
  | cons j rest ih =>
    obtain ⟨hj, hrest⟩ := List.forall_mem_cons.mp hitems
    rw [allOfJson] at h
    split at h
    · rename_i row hrow
      obtain ⟨more, hmore, rfl⟩ := Json.map_eq_ok.mp h
      exact List.forall_mem_cons.mpr ⟨finite_of_ofJson hj hrow, ih hrest hmore⟩
    · cases h

theorem finite_of_listOfJson {j : Json} {rows : List Fields} (hj : j.Denotable)
    (h : listOfJson j = .ok rows) : ∀ row ∈ rows, row.Finite := by
  cases hj with
  | array hitems => exact finite_of_allOfJson hitems h
  | _ => cases h

end Fields

namespace Json

variable {σ : Type} {fields : List (Field σ)} {P : σ → Prop}

def Field.Keeps (P : σ → Prop) (f : Field σ) : Prop :=
  ∀ acc j next, j.Denotable → P acc → f.read acc j = .ok next → P next

theorem readMembers_induction (hfields : ∀ f ∈ fields, f.Keeps P) {members : List (String × Json)}
    {acc r : σ} (hmembers : ∀ e ∈ members, e.2.Denotable) (hacc : P acc)
    (h : readMembers fields members acc = .ok r) : P r := by
  induction members generalizing acc with
  | nil =>
    rw [readMembers] at h
    exact Except.ok.inj h ▸ hacc
  | cons head rest ih =>
    obtain ⟨key, j⟩ := head
    obtain ⟨hj, hrest⟩ := List.forall_mem_cons.mp hmembers
    rw [readMembers] at h
    split at h
    · rename_i field hfield
      split at h
      · rename_i next hread
        exact ih hrest (hfields field (List.mem_of_find?_eq_some hfield) acc j next hj hacc hread) h
      · cases h
    · exact ih hrest hacc h

theorem readItems_induction {record : String} {count index : Nat}
    (hfields : ∀ f ∈ fields, f.Keeps P) {items : List Json} {acc r : σ}
    (hitems : ∀ j ∈ items, j.Denotable) (hacc : P acc)
    (h : readItems record count index fields items acc = .ok r) : P r := by
  induction fields generalizing index items acc with
  | nil =>
    rw [readItems] at h
    exact Except.ok.inj h ▸ hacc
  | cons field rest ih =>
    obtain ⟨hfield, hrest⟩ := List.forall_mem_cons.mp hfields
    cases items with
    | nil =>
      rw [readItems] at h
      split at h
      · cases h
      · exact ih hrest (List.forall_mem_nil _) hacc h
    | cons j items =>
      obtain ⟨hj, hlater⟩ := List.forall_mem_cons.mp hitems
      rw [readItems] at h
      split at h
      · rename_i next hread
        exact ih hrest hlater (hfield acc j next hj hacc hread) h
      · cases h

/-- What holds of the blank record and is kept by each field holds of the record that is read. -/
theorem toRecord_induction {record : String} {blank r : σ} {j : Json}
    (hfields : ∀ f ∈ fields, f.Keeps P) (hblank : P blank) (hj : j.Denotable)
    (h : j.toRecord record fields blank = .ok r) : P r := by
  cases hj with
  | object hmembers =>
    rw [toRecord] at h
    split at h
    · rename_i acc hread
      split at h
      · cases h
      · exact Except.ok.inj h ▸ readMembers_induction hfields hmembers hblank hread
    · cases h
  | array hitems =>
    rw [toRecord] at h
    split at h
    · rename_i acc hread
      split at h
      · cases h
      · exact Except.ok.inj h ▸ readItems_induction hfields hitems hblank hread
    · cases h
  | _ => cases h

end Json

theorem QueryReply.finite_of_ofJson {j : Json} {r : QueryReply} (hj : j.Denotable)
    (h : ofJson j = .ok r) : ∀ row ∈ r.result, row.Finite := by
  have hkeeps : ∀ f ∈ jsonFields, f.Keeps fun r : QueryReply => ∀ row ∈ r.result, row.Finite := by
    simp only [jsonFields, List.forall_mem_cons]
    refine ⟨?_, ?_, ?_, List.forall_mem_nil _⟩
    · intro acc j next _ hacc hread
      obtain ⟨s, -, rfl⟩ := Json.map_eq_ok.mp hread
      exact hacc
    · intro acc j next _ hacc hread
      obtain ⟨s, -, rfl⟩ := Json.map_eq_ok.mp hread
      exact hacc
    · intro acc j next hj _ hread
      obtain ⟨rows, hrows, rfl⟩ := Json.map_eq_ok.mp hread
      exact Fields.finite_of_listOfJson hj hrows
  exact Json.toRecord_induction hkeeps (List.forall_mem_nil _) hj h

theorem newRecord_eq_ok {j : Json} {r : Record} : newRecord j = .ok r ↔
    ∃ fields, j.toRecord "NewObjectResponse" newObjectFields ∅ = .ok fields ∧
      r = .ofFields (fields.insert objectIdName .null) := by
  rw [newRecord]
  cases j.toRecord "NewObjectResponse" newObjectFields ∅ with
  | error e => simp
  | ok fields => simp [eq_comm]

namespace Record

/-- A record as it comes out of the reply to a query or to the request for a new object. -/
inductive DecodedFrom (reply : Json) : Record → Prop where
  | queried {set : RecordSet} {r : Record} :
      QueryReply.records reply = .ok set → r ∈ set.records → DecodedFrom reply r
  | fresh {r : Record} : newRecord reply = .ok r → DecodedFrom reply r

theorem DecodedFrom.exists_fields {reply : Json} {r : Record} (h : DecodedFrom reply r)
    (hreply : reply.Denotable) : ∃ fields : Fields, fields.Finite ∧ r = ofFields fields := by
  cases h with
  | queried hset hr =>
    obtain ⟨answer, hanswer, -, rfl⟩ := QueryReply.records_eq_ok.mp hset
    obtain ⟨fields, hfields, rfl⟩ := List.mem_map.mp hr
    exact ⟨fields, QueryReply.finite_of_ofJson hreply hanswer fields hfields, rfl⟩
  | fresh hr =>
    obtain ⟨fields, hread, rfl⟩ := newRecord_eq_ok.mp hr
    have hkeeps : ∀ f ∈ newObjectFields, f.Keeps Fields.Finite :=
      List.forall_mem_singleton.mpr fun _ _ _ hj _ h => Fields.finite_of_ofJson hj h
    have hfinite := Json.toRecord_induction hkeeps Fields.finite_empty hreply hread
    exact ⟨_, hfinite.insert rfl objectIdName, rfl⟩

end Record

end Inventory
