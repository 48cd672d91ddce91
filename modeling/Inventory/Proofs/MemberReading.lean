import Inventory.Json.Decode
import Inventory.Proofs.TextMap

/-! Records read out of objects. No two members of an object have one key, so it does not matter in
which order they stand: a record is read as if its fields were looked up one after the other. -/

namespace Inventory.Json

/-- A part that is found is read; one that is absent stays as it was. -/
def ReadsPart {α : Type} (read : Json → Except Mismatch α) (found : Option Json)
    (before after : α) : Prop :=
  match found with
  | some j => read j = .ok after
  | none => after = before

variable {σ α β : Type}

theorem map_eq_ok {e : Except Mismatch α} {f : α → β} {b : β} :
    e.map f = .ok b ↔ ∃ a, e = .ok a ∧ b = f a := by
  cases e <;> simp [Except.map, eq_comm]

theorem readsPart_map {read : Json → Except Mismatch α} {put : α → β} {found : Option Json}
    {before : α} {after : β} :
    ReadsPart (fun j => (read j).map put) found (put before) after ↔
      ∃ a, ReadsPart read found before a ∧ after = put a := by
  cases found with
  | some j => exact map_eq_ok
  | none => simp [ReadsPart]

/-- The fields take what stands under their names, one after the other. -/
def Gathers (members : List (String × Json)) : List (Field σ) → σ → σ → Prop
  | [], acc, r => r = acc
  | field :: rest, acc, r => ∃ mid,
    ReadsPart (field.read acc) (members.lookup field.name) acc mid ∧ Gathers members rest mid r

/-- It does not matter which of the two fields is read first. -/
def Field.Commutes (f g : Field σ) : Prop :=
  ∀ acc j k r, (∃ mid, f.read acc j = .ok mid ∧ g.read mid k = .ok r) ↔
    ∃ mid, g.read acc k = .ok mid ∧ f.read mid j = .ok r

theorem Field.commutes_of_put {f g : Field σ} {read : Json → Except Mismatch α}
    {read' : Json → Except Mismatch β} {put : σ → α → σ} {put' : σ → β → σ}
    (hf : ∀ acc j, f.read acc j = (read j).map (put acc))
    (hg : ∀ acc j, g.read acc j = (read' j).map (put' acc))
    (h : ∀ acc a b, put' (put acc a) b = put (put' acc b) a) : f.Commutes g := by
  intro acc j k r
  simp only [hf, hg, map_eq_ok]
  constructor
  · rintro ⟨_, ⟨a, ha, rfl⟩, b, hb, rfl⟩
    exact ⟨_, ⟨b, hb, rfl⟩, a, ha, h acc a b⟩
  · rintro ⟨_, ⟨b, hb, rfl⟩, a, ha, rfl⟩
    exact ⟨_, ⟨a, ha, rfl⟩, b, hb, (h acc a b).symm⟩

theorem gathers_append {members : List (String × Json)} {front back : List (Field σ)} {acc r : σ} :
    Gathers members (front ++ back) acc r ↔
      ∃ mid, Gathers members front acc mid ∧ Gathers members back mid r := by
  induction front generalizing acc with
  | nil => simp [Gathers]
  | cons field front ih =>
    simp only [List.cons_append, Gathers, ih]
    constructor
    · rintro ⟨m, hm, n, hn, hr⟩
      exact ⟨n, ⟨m, hm, hn⟩, hr⟩
    · rintro ⟨n, ⟨m, hm, hn⟩, hr⟩
      exact ⟨m, hm, n, hn, hr⟩

theorem gathers_nil {fields : List (Field σ)} {acc r : σ} : Gathers [] fields acc r ↔ r = acc := by
  induction fields generalizing acc with
  | nil => exact Iff.rfl
  | cons f rest ih => simp [Gathers, ReadsPart, ih]

theorem gathers_cons_of_not_mem {members : List (String × Json)} {key : String} (j : Json)
    {fields : List (Field σ)} (h : key ∉ fields.map Field.name) {acc r : σ} :
    Gathers ((key, j) :: members) fields acc r ↔ Gathers members fields acc r := by
  induction fields generalizing acc with
  | nil => rfl
  | cons field rest ih =>
    rw [List.map_cons, List.mem_cons, not_or] at h
    simp only [Gathers, lookup_cons_eq, if_neg (Ne.symm h.1), ih h.2]

theorem gathers_comm {members : List (String × Json)} {field : Field σ} {fields : List (Field σ)}
    (h : ∀ f ∈ fields, f.Commutes field) {j : Json} {acc r : σ} :
    (∃ mid, Gathers members fields acc mid ∧ field.read mid j = .ok r) ↔
      ∃ mid, field.read acc j = .ok mid ∧ Gathers members fields mid r := by
  induction fields generalizing acc with
  | nil => simp [Gathers, eq_comm]
  | cons f rest ih =>
    obtain ⟨hf, hrest⟩ := List.forall_mem_cons.mp h
    have hstep : (∃ mid, Gathers members (f :: rest) acc mid ∧ field.read mid j = .ok r) ↔
        ∃ n, (∃ m, ReadsPart (f.read acc) (members.lookup f.name) acc m ∧
          field.read m j = .ok n) ∧ Gathers members rest n r := by
      simp only [Gathers]
      constructor
      · rintro ⟨mid, ⟨m, hm, hg⟩, hr⟩
        obtain ⟨n, hn, hg⟩ := (ih hrest).mp ⟨mid, hg, hr⟩
        exact ⟨n, ⟨m, hm, hn⟩, hg⟩
      · rintro ⟨n, ⟨m, hm, hn⟩, hg⟩
        obtain ⟨mid, hg, hr⟩ := (ih hrest).mpr ⟨n, hn, hg⟩
        exact ⟨mid, ⟨m, hm, hg⟩, hr⟩
    rw [hstep]
    cases hl : members.lookup f.name with
    | none => simp [ReadsPart, Gathers, hl]
    | some k =>
      simp only [ReadsPart, Gathers, hl]
      constructor
      · rintro ⟨n, hn, hg⟩
        obtain ⟨m, hm, hn⟩ := (hf acc k j n).mp hn
        exact ⟨m, hm, n, hn, hg⟩
      · rintro ⟨m, hm, n, hn, hg⟩
        exact ⟨n, (hf acc k j n).mpr ⟨m, hm, hn⟩, hg⟩

variable {fields : List (Field σ)} {members : List (String × Json)} {acc r : σ}

theorem readMembers_cons_of_find {key : String} {field : Field σ} {j : Json}
    (h : fields.find? (·.name == key) = some field) :
    readMembers fields ((key, j) :: members) acc = .ok r ↔
      ∃ mid, field.read acc j = .ok mid ∧ readMembers fields members mid = .ok r := by
  rw [readMembers, h]
  dsimp only
  cases field.read acc j <;> simp

theorem readMembers_eq_ok_iff_gathers (hnames : (fields.map Field.name).Nodup)
    (hcommutes : fields.Pairwise Field.Commutes) (hkeys : (members.map (·.1)).Nodup) :
    readMembers fields members acc = .ok r ↔ Gathers members fields acc r := by
  induction members generalizing acc with
  | nil => simp [readMembers, gathers_nil, eq_comm]
  | cons head rest ih =>
    obtain ⟨key, j⟩ := head
    obtain ⟨hnot, hrest⟩ := List.nodup_cons.mp hkeys
    cases hfind : fields.find? (·.name == key) with
    | none =>
      have hkey : key ∉ fields.map Field.name := by
        intro hm
        obtain ⟨field, hf, rfl⟩ := List.mem_map.mp hm
        simpa using List.find?_eq_none.mp hfind field hf
      rw [readMembers, hfind, gathers_cons_of_not_mem j hkey]
      exact ih hrest
    | some field =>
      obtain ⟨hname, front, back, rfl, -⟩ := List.find?_eq_some_iff_append.mp hfind
      obtain rfl : field.name = key := by simpa using hname
      have hfront : field.name ∉ front.map Field.name := by
        rw [List.map_append, List.map_cons] at hnames
        exact fun hm => List.disjoint_of_nodup_append hnames hm List.mem_cons_self
      have hback : field.name ∉ back.map Field.name := by
        rw [List.map_append, List.map_cons] at hnames
        exact (List.nodup_cons.mp hnames.of_append_right).1
      have hbefore : ∀ f ∈ front, f.Commutes field := fun f hf =>
        (List.pairwise_append.mp hcommutes).2.2 f hf field List.mem_cons_self
      have habsent : rest.lookup field.name = none := lookup_eq_none_of_not_mem hnot
      simp only [readMembers_cons_of_find hfind, ih hrest, gathers_append, Gathers,
        gathers_cons_of_not_mem j hfront, gathers_cons_of_not_mem j hback, lookup_cons_eq, if_true,
        habsent, ReadsPart]
      constructor
      · rintro ⟨mid, hmid, m, hm, n, rfl, hr⟩
        obtain ⟨k, hk, hn⟩ := (gathers_comm hbefore).mpr ⟨mid, hmid, hm⟩
        exact ⟨k, hk, n, hn, hr⟩
      · rintro ⟨k, hk, n, hn, hr⟩
        obtain ⟨mid, hmid, hm⟩ := (gathers_comm hbefore).mp ⟨k, hk, hn⟩
        exact ⟨mid, hmid, n, hm, n, rfl, hr⟩

/-- A record is read from an object that has the fields it cannot do without. -/
theorem toRecord_object_eq_ok {record : String} {blank : σ} :
    toRecord record fields blank (.object members) = .ok r ↔
      readMembers fields members blank = .ok r ∧
        ∀ field ∈ fields, field.required = true → members.lookup field.name ≠ none := by
  rw [toRecord]
  cases readMembers fields members blank with
  | error e => simp
  | ok acc =>
    dsimp only
    cases hfind : fields.find? fun f => f.required && !members.any (·.1 == f.name) with
    | some field =>
      have hmissing := List.find?_some hfind
      have hmem := List.mem_of_find?_eq_some hfind
      simp only [any_key_eq, Bool.and_eq_true, Bool.not_eq_true', Option.isSome_eq_false_iff,
        Option.isNone_iff_eq_none] at hmissing
      simp only [reduceCtorEq, false_iff, not_and, not_forall]
      exact fun _ => ⟨field, hmem, hmissing.1, fun hne => hne hmissing.2⟩
    | none =>
      have hall := List.find?_eq_none.mp hfind
      simp only [any_key_eq, Bool.and_eq_true, Bool.not_eq_true', Option.isSome_eq_false_iff,
        Option.isNone_iff_eq_none, not_and] at hall
      simp only [Except.ok.injEq]
      exact ⟨fun h => ⟨h, hall⟩, fun h => h.1⟩

/-- A field that cannot be done without is missed only after all that is there was read. -/
theorem toRecord_object_of_missing {record name : String} {blank : σ}
    (hread : readMembers fields members blank = .ok r)
    (hfind : (fields.find? fun f => f.required && !members.any (·.1 == f.name)).map Field.name =
      some name) :
    toRecord record fields blank (.object members) = .error (.missing name) := by
  obtain ⟨field, hfield, rfl⟩ := Option.map_eq_some_iff.mp hfind
  rw [toRecord, hread]
  simp only [hfield]

end Inventory.Json
