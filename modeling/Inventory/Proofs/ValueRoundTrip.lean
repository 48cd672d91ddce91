import Inventory.Proofs.DoubleRange
import Inventory.Proofs.JsonText.Denoted
import Inventory.Proofs.ValueWire

/-! Values written as text and read again. The text of a value whose numbers are read back gives the
value, and a text gives a value exactly when it spells a legible tree without objects. -/

namespace Inventory

namespace Json.Written

mutual

/-- No object stands in it, at any depth. -/
def ObjectFree : Written → Prop
  | .array items => ItemsObjectFree items
  | .object _ => False
  | .null => True
  | .bool _ => True
  | .number _ => True
  | .text _ => True

def ItemsObjectFree : List Written → Prop
  | [] => True
  | w :: rest => ObjectFree w ∧ ItemsObjectFree rest

end

end Json.Written

namespace Value

mutual

/-- How deep lists nest. -/
def nesting : Value → Nat
  | .list items => allNesting items + 1
  | .null => 0
  | .bool _ => 0
  | .int _ => 0
  | .float _ => 0
  | .text _ => 0

def allNesting : List Value → Nat
  | [] => 0
  | v :: rest => max (nesting v) (allNesting rest)

end

/-- The value that a text of JSON gives. -/
def decode? (s : String) : Option Value := (Json.parseSorted? s).bind ofJson?

mutual

theorem nesting_toJson (v : Value) : v.toJson.nesting = v.nesting := by
  match v with
  | .null | .bool _ | .int _ | .text _ => rw [toJson, Json.nesting, nesting]
  | .float d =>
    rw [toJson, Json.ofDouble, nesting]
    split <;> rw [Json.nesting]
  | .list items => rw [toJson, Json.nesting, nesting, itemsNesting_allToJson items]

theorem itemsNesting_allToJson (items : List Value) :
    Json.itemsNesting (allToJson items) = allNesting items := by
  match items with
  | [] => rw [allToJson, Json.itemsNesting, allNesting]
  | v :: rest =>
    rw [allToJson, Json.itemsNesting, allNesting, nesting_toJson v, itemsNesting_allToJson rest]

end

mutual

theorem readable_toJson (v : Value) (hfinite : v.isFinite = true)
    (h : ∀ d, v.Holds d → d.ReadsBack) : v.toJson.Readable := by
  match v with
  | .null | .bool _ | .text _ => simp [toJson, Json.Readable]
  | .int n =>
    have hlow : Int64.minValue.toInt ≤ n.toInt := n.minValue_le_toInt
    have hhigh : n.toInt ≤ Int64.maxValue.toInt := n.toInt_le
    have hmin : Int64.minValue.toInt = -(2 ^ 63) := rfl
    have hmax : Int64.maxValue.toInt = 2 ^ 63 - 1 := rfl
    rw [toJson, Json.Readable]
    omega
  | .float d =>
    rw [isFinite] at hfinite
    rw [toJson, Json.ofDouble, if_pos hfinite, Json.Readable]
    exact ⟨hfinite, h d .number⟩
  | .list items =>
    rw [isFinite] at hfinite
    rw [toJson, Json.Readable]
    exact readable_allToJson items hfinite fun v hv d hd => h d (.element hv hd)

theorem readable_allToJson (items : List Value) (hfinite : allFinite items = true)
    (h : ∀ v ∈ items, ∀ d, v.Holds d → d.ReadsBack) : Json.ItemsReadable (allToJson items) := by
  match items with
  | [] => simp [allToJson, Json.ItemsReadable]
  | v :: rest =>
    rw [allFinite, Bool.and_eq_true] at hfinite
    rw [allToJson, Json.ItemsReadable]
    exact ⟨readable_toJson v hfinite.1 (h v List.mem_cons_self),
      readable_allToJson rest hfinite.2 fun w hw => h w (List.mem_cons_of_mem v hw)⟩

end

/-- Decoding undoes encoding. -/
theorem decode?_wire {v : Value} (hfinite : v.isFinite = true) (hnesting : v.nesting ≤ Json.maxNesting)
    (h : ∀ d, v.Holds d → d.ReadsBack) : decode? v.wire = some v := by
  have hparse := Json.parse?_compact (readable_toJson v hfinite h)
    (Nat.le_trans (Nat.le_of_eq v.nesting_toJson) hnesting)
  rw [decode?, Json.parseSorted?, wire, hparse, Option.map_some, Option.bind_some, sorted_toJson,
    ofJson?_toJson, (received_eq_self v).mpr hfinite]

mutual

theorem nesting_normalized (v : Value) : v.normalized.nesting = v.nesting := by
  match v with
  | .null | .bool _ | .int _ | .text _ => rw [normalized]
  | .float d =>
    rw [normalized]
    split <;> simp only [nesting]
  | .list items => rw [normalized, nesting, nesting, allNesting_normalizedAll items]

theorem allNesting_normalizedAll (items : List Value) :
    allNesting (normalizedAll items) = allNesting items := by
  match items with
  | [] => rw [normalizedAll]
  | v :: rest =>
    rw [normalizedAll, allNesting, allNesting, nesting_normalized v, allNesting_normalizedAll rest]

end

theorem decode?_canonical {v : Value} (hfinite : v.isFinite = true)
    (hnesting : v.nesting ≤ Json.maxNesting) (h : ∀ d, v.Holds d → d.ReadsBack) :
    decode? v.canonical = some v.normalized :=
  decode?_wire (isFinite_normalized hfinite) (v.nesting_normalized ▸ hnesting)
    fun d hd => h d (holds_of_holds_normalized v hd)

/-- An integer of 64 bits, signed or not, is read as a finite value. -/
theorem ofJson?_integer {n : Int} (hlow : -(2 ^ 63) ≤ n) (hhigh : n < 2 ^ 64) :
    ∃ v, ofJson? (.integer n) = some v ∧ v.isFinite = true ∧ v.nesting = 0 := by
  rw [ofJson?]
  split
  · exact ⟨_, rfl, by rw [isFinite], by rw [nesting]⟩
  · refine ⟨_, rfl, ?_, by rw [nesting]⟩
    rw [isFinite]
    exact Double.isFinite_ofInt_of_le (by omega)

mutual

/-- What a tree as written denotes is a value unless it holds an object, and then a finite one. -/
theorem value_of_toJson? (w : Json.Written) {levels : Nat} {j : Json}
    (h : w.toJson? levels = some j) :
    (w.ObjectFree → ∃ v, ofJson? j.sorted = some v ∧ v.isFinite = true ∧ v.nesting ≤ levels) ∧
      (¬w.ObjectFree → ofJson? j.sorted = none) := by
  match w with
  | .null =>
    rw [Json.Written.toJson?] at h
    obtain rfl := Option.some.inj h
    rw [Json.Written.ObjectFree]
    exact ⟨fun _ => ⟨.null, rfl, rfl, Nat.zero_le _⟩, fun hno => absurd trivial hno⟩
  | .bool b =>
    rw [Json.Written.toJson?] at h
    obtain rfl := Option.some.inj h
    rw [Json.Written.ObjectFree]
    exact ⟨fun _ => ⟨.bool b, rfl, rfl, Nat.zero_le _⟩, fun hno => absurd trivial hno⟩
  | .number n =>
    rw [Json.Written.toJson?] at h
    rw [Json.Written.ObjectFree]
    refine ⟨fun _ => ?_, fun hno => absurd trivial hno⟩
    rcases Json.Numeral.toJson?_cases h with ⟨i, rfl, hlow, hhigh⟩ | ⟨d, rfl, hd⟩
    · obtain ⟨v, hv, hfinite, hnesting⟩ := ofJson?_integer hlow hhigh
      exact ⟨v, hv, hfinite, hnesting ▸ Nat.zero_le _⟩
    · exact ⟨.float d, rfl, hd, Nat.zero_le _⟩
  | .text content =>
    rw [Json.Written.toJson?] at h
    obtain ⟨s, rfl, rfl⟩ := Option.map_eq_some_iff.mp h
    rw [Json.Written.ObjectFree]
    exact ⟨fun _ => ⟨.text s, rfl, rfl, Nat.zero_le _⟩, fun hno => absurd trivial hno⟩
  | .array items =>
    cases levels with
    | zero =>
      rw [Json.Written.toJson?] at h
      cases h
    | succ levels =>
      rw [Json.Written.toJson?] at h
      obtain ⟨js, hjs, rfl⟩ := Option.map_eq_some_iff.mp h
      obtain ⟨hfree, hnot⟩ := values_of_itemsToJson? items hjs
      rw [Json.Written.ObjectFree, Json.sorted, ofJson?]
      constructor
      · intro hitems
        obtain ⟨vs, hvs, hfinite, hnesting⟩ := hfree hitems
        exact ⟨.list vs, by rw [hvs, Option.map_some], hfinite, Nat.succ_le_succ hnesting⟩
      · intro hitems
        rw [hnot hitems, Option.map_none]
  | .object members =>
    cases levels with
    | zero =>
      rw [Json.Written.toJson?] at h
      cases h
    | succ levels =>
      rw [Json.Written.toJson?] at h
      obtain ⟨js, hjs, rfl⟩ := Option.map_eq_some_iff.mp h
      rw [Json.Written.ObjectFree]
      exact ⟨False.elim, fun _ => rfl⟩

theorem values_of_itemsToJson? (items : List Json.Written) {levels : Nat} {js : List Json}
    (h : Json.Written.itemsToJson? levels items = some js) :
    (Json.Written.ItemsObjectFree items → ∃ vs, allOfJson? (Json.sortedItems js) = some vs ∧
        allFinite vs = true ∧ allNesting vs ≤ levels) ∧
      (¬Json.Written.ItemsObjectFree items → allOfJson? (Json.sortedItems js) = none) := by
  match items with
  | [] =>
    rw [Json.Written.itemsToJson?] at h
    obtain rfl := Option.some.inj h
    rw [Json.Written.ItemsObjectFree]
    exact ⟨fun _ => ⟨[], rfl, rfl, Nat.zero_le _⟩, fun hno => absurd trivial hno⟩
  | w :: rest =>
    rw [Json.Written.itemsToJson?] at h
    split at h
    · rename_i j more hj hmore
      obtain rfl := Option.some.inj h
      obtain ⟨hfree, hnot⟩ := value_of_toJson? w hj
      obtain ⟨hrestFree, hrestNot⟩ := values_of_itemsToJson? rest hmore
      rw [Json.Written.ItemsObjectFree, Json.sortedItems, allOfJson?]
      constructor
      · rintro ⟨hw, hrest⟩
        obtain ⟨v, hv, hfinite, hnesting⟩ := hfree hw
        obtain ⟨vs, hvs, hrestFinite, hrestNesting⟩ := hrestFree hrest
        refine ⟨v :: vs, by rw [hv, hvs], ?_, ?_⟩
        · rw [allFinite, hfinite, hrestFinite, Bool.and_self]
        · rw [allNesting]
          exact Nat.max_le.mpr ⟨hnesting, hrestNesting⟩
      · intro hboth
        by_cases hw : w.ObjectFree
        · rw [hrestNot fun hrest => hboth ⟨hw, hrest⟩]
          cases ofJson? j.sorted <;> rfl
        · rw [hnot hw]
    · cases h

end

theorem decode?_eq_some {s : String} {v : Value} : decode? s = some v ↔ ∃ w j,
    Json.written? s = some w ∧ w.toJson? Json.maxNesting = some j ∧ ofJson? j.sorted = some v := by
  rw [decode?, Json.parseSorted?, Json.parse?]
  cases Json.written? s with
  | none => simp
  | some w => simp [Option.bind_eq_some_iff]

theorem decode?_isSome {s : String} : (∃ v, decode? s = some v) ↔ ∃ w : Json.Written,
    Json.Padded w.Spelled s.toList ∧ w.nesting ≤ Json.maxNesting ∧ w.Legible ∧ w.ObjectFree := by
  constructor
  · rintro ⟨v, hv⟩
    obtain ⟨w, j, hw, hj, hvalue⟩ := decode?_eq_some.mp hv
    have hlegible := (w.toJson?_isSome Json.maxNesting).mp (Option.isSome_iff_exists.mpr ⟨j, hj⟩)
    refine ⟨w, Json.written?_eq_some.mp hw, hlegible.1, hlegible.2, ?_⟩
    by_contra hobject
    have hnone := (value_of_toJson? w hj).2 hobject
    rw [hvalue] at hnone
    cases hnone
  · rintro ⟨w, hw, hnesting, hlegible, hfree⟩
    obtain ⟨j, hj⟩ := Option.isSome_iff_exists.mp
      ((w.toJson?_isSome Json.maxNesting).mpr ⟨hnesting, hlegible⟩)
    obtain ⟨v, hv, -, -⟩ := (value_of_toJson? w hj).1 hfree
    exact ⟨v, decode?_eq_some.mpr ⟨w, j, Json.written?_eq_some.mpr hw, hj, hv⟩⟩

theorem decode?_finite {s : String} {v : Value} (h : decode? s = some v) :
    v.isFinite = true ∧ v.nesting ≤ Json.maxNesting := by
  obtain ⟨w, j, -, hj, hvalue⟩ := decode?_eq_some.mp h
  obtain ⟨hfree, hnot⟩ := value_of_toJson? w hj
  by_cases hobject : w.ObjectFree
  · obtain ⟨v', hv', hfinite, hnesting⟩ := hfree hobject
    rw [hvalue] at hv'
    obtain rfl := Option.some.inj hv'
    exact ⟨hfinite, hnesting⟩
  · rw [hnot hobject] at hvalue
    cases hvalue

end Value

/-- The text of a finite value gives the value, and its canonical text the normalized value. The texts
that give a value are those of legible trees without objects, and what they give is written as a text
that gives it again. Of the reader this asks that it takes the literal of each double inside to be
that double. -/
theorem value_text_round_trip :
    (∀ v : Value, v.isFinite = true → v.nesting ≤ 127 → (∀ d, v.Holds d → d.ReadsBack) →
      Value.decode? v.wire = some v ∧ Value.decode? v.canonical = some v.normalized) ∧
    (∀ s, (∃ v, Value.decode? s = some v) ↔ ∃ w : Json.Written,
      Json.Padded w.Spelled s.toList ∧ w.nesting ≤ 127 ∧ w.Legible ∧ w.ObjectFree) ∧
    (∀ s v, Value.decode? s = some v → (∀ d, v.Holds d → d.ReadsBack) →
      Value.decode? v.wire = some v) := by
  refine ⟨fun v hfinite hnesting h => ?_, fun s => Value.decode?_isSome, fun s v hv h => ?_⟩
  · exact ⟨Value.decode?_wire hfinite hnesting h, Value.decode?_canonical hfinite hnesting h⟩
  · obtain ⟨hfinite, hnesting⟩ := Value.decode?_finite hv
    exact Value.decode?_wire hfinite hnesting h

theorem Double.readsBack_of_literal {d : Double} {s : String} {n : Json.Numeral}
    (hwire : d.wire? = some s) (hread : Json.Numeral.read? s.toList = some n)
    (hdouble : n.toDouble? = some d) : d.ReadsBack := by
  intro s' n' hwire' hread'
  rw [hwire] at hwire'
  obtain rfl := Option.some.inj hwire'
  rw [hread] at hread'
  obtain rfl := Option.some.inj hread'
  exact hdouble

theorem Double.readsBack_one : (Double.ofInt 1).ReadsBack := by
  have hwire : (Double.ofInt 1).wire? = some "1.0" := by decide +kernel
  have hdouble : Json.Numeral.toDouble? ⟨false, ['1'], ['0'], none⟩ = some (Double.ofInt 1) := by
    simp only [Json.Numeral.toDouble?]
    rw [Json.Numeral.scale?]
    decide +kernel
  exact Double.readsBack_of_literal hwire rfl hdouble

/-- A float beside the integer it equals and a text of escapes. -/
def Value.mixed (d : Double) : Value :=
  .list [.int 1, .float d, .text "\"\\\n", .list [.null, .bool true]]

theorem Value.eq_of_holds_mixed {d e : Double} (h : (Value.mixed e).Holds d) : d = e := by
  cases h with
  | element hv hd =>
    simp only [List.mem_cons, List.not_mem_nil, or_false] at hv
    rcases hv with rfl | rfl | rfl | rfl
    · cases hd
    · cases hd
      rfl
    · cases hd
    · cases hd with
      | element hv hd =>
        simp only [List.mem_cons, List.not_mem_nil, or_false] at hv
        rcases hv with rfl | rfl <;> cases hd

/-- The float 1.0 stays a float, and the canonical text gives the integer for it. -/
theorem value_text_round_trip_mixed :
    Value.decode? (Value.mixed (.ofInt 1)).wire = some (Value.mixed (.ofInt 1)) ∧
      Value.decode? (Value.mixed (.ofInt 1)).canonical = some (Value.mixed (.ofInt 1)).normalized := by
  have hfinite : (Value.mixed (.ofInt 1)).isFinite = true := by decide +kernel
  have hnesting : (Value.mixed (.ofInt 1)).nesting ≤ 127 := by decide +kernel
  exact value_text_round_trip.1 _ hfinite hnesting fun d hd =>
    Value.eq_of_holds_mixed hd ▸ Double.readsBack_one

end Inventory
