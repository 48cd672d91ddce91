import Inventory.Proofs.CommitRequest
import Mathlib.Data.List.Basic

/-! How a list of records becomes a commit request. Every record adds one entry to the list of its
state or nothing at all, and the records that name no object are reported together, each under its
place in the list. -/

namespace Inventory

/-- Says what stands where an integer identity was wanted. -/
def Record.identityError (r : Record) : Error :=
  .invalidValue objectIdName
    (((r.fields.get? objectIdName).map Value.canonical).getD "" ++ " is not an integer identity")

theorem Record.identityFailure?_eq_some {r : Record} {index : Nat} {m : MemberError Error} :
    identityFailure? (r, index) = some m ↔
      r.Unidentified ∧ m = ⟨index, none, r.identityError⟩ := by
  by_cases h : r.Unidentified
  · have hf : (r.state = .changed ∨ r.state = .deleted) ∧ r.objectId? = none := h
    simp only [identityFailure?, if_pos hf, h, true_and, Option.some.injEq]
    exact eq_comm
  · have hf : identityFailure? (r, index) = none := identityFailure?_eq_none.mpr h
    simp [hf, h]

/-- The failure of the same member in a list with `n` records before it. -/
def MemberError.shift {ε : Type} (n : Nat) (m : MemberError ε) : MemberError ε :=
  { m with index := n + m.index }

namespace CommitRequest

/-- What a list of records asks for: each record adds its entry to those of the records after it. -/
inductive Sorts : List Record → CommitRequest → Prop where
  | nil : Sorts [] ⟨[], [], []⟩
  | created {r : Record} {records : List Record} {request : CommitRequest} :
      r.state = .created → Sorts records request →
      Sorts (r :: records) { request with created := r.fields :: request.created }
  | changed {r : Record} {records : List Record} {request : CommitRequest} {id : Int64} :
      r.state = .changed → r.objectId? = some id → Sorts records request →
      Sorts (r :: records) { request with changed := r.changes :: request.changed }
  | deleted {r : Record} {records : List Record} {request : CommitRequest} {id : Int64} :
      r.state = .deleted → r.objectId? = some id → Sorts records request →
      Sorts (r :: records) { request with deleted := id :: request.deleted }
  | consistent {r : Record} {records : List Record} {request : CommitRequest} :
      r.state = .consistent → Sorts records request → Sorts (r :: records) request

def append (p q : CommitRequest) : CommitRequest :=
  ⟨p.created ++ q.created, p.changed ++ q.changed, p.deleted ++ q.deleted⟩

instance : Append CommitRequest := ⟨append⟩

def size (request : CommitRequest) : Nat :=
  request.created.length + request.changed.length + request.deleted.length

def failures (records : List Record) : List (MemberError Error) :=
  match ofRecords records with
  | .error (.batch members) => members
  | _ => []

/-- The members name just the records without a usable identity, in the order of the list. -/
structure Names (records : List Record) (members : List (MemberError Error)) : Prop where
  ascending : members.Pairwise fun m n => m.index < n.index
  mem_iff : ∀ m, m ∈ members ↔ ∃ r index,
    records[index]? = some r ∧ r.Unidentified ∧ m = ⟨index, none, r.identityError⟩

theorem sortedByState_cons (r : Record) (records : List Record) :
    sortedByState (r :: records) =
      match r.state with
      | .created => { sortedByState records with
          created := r.fields :: (sortedByState records).created }
      | .changed => { sortedByState records with
          changed := r.changes :: (sortedByState records).changed }
      | .deleted => { sortedByState records with
          deleted := r.objectId?.toList ++ (sortedByState records).deleted }
      | .consistent => sortedByState records := by
  cases hs : r.state with
  | created => simp [sortedByState, hs]
  | changed => simp [sortedByState, hs]
  | deleted => cases hid : r.objectId? <;> simp [sortedByState, hs, hid]
  | consistent => simp [sortedByState, hs]

theorem sorts_sortedByState {records : List Record} (h : ∀ r ∈ records, ¬r.Unidentified) :
    Sorts records (sortedByState records) := by
  induction records with
  | nil => exact .nil
  | cons r rest ih =>
    obtain ⟨hr, hrest⟩ := List.forall_mem_cons.mp h
    have hh := ih hrest
    have hid : r.state = .changed ∨ r.state = .deleted → ∃ id, r.objectId? = some id := by
      intro hs
      exact Option.ne_none_iff_exists'.mp fun hnone => hr ⟨hs, hnone⟩
    rw [sortedByState_cons]
    cases hs : r.state with
    | created => exact .created hs hh
    | changed =>
      obtain ⟨id, hid⟩ := hid (.inl hs)
      exact .changed hs hid hh
    | deleted =>
      obtain ⟨id, hid⟩ := hid (.inr hs)
      rw [hid]
      exact .deleted hs hid hh
    | consistent => exact .consistent hs hh

theorem Sorts.eq_sortedByState {records : List Record} {request : CommitRequest}
    (h : Sorts records request) :
    (∀ r ∈ records, ¬r.Unidentified) ∧ request = sortedByState records := by
  induction h with
  | nil => exact ⟨List.forall_mem_nil _, rfl⟩
  | created hs _ ih =>
    obtain ⟨hrest, rfl⟩ := ih
    refine ⟨List.forall_mem_cons.mpr ⟨fun hu => ?_, hrest⟩, by rw [sortedByState_cons, hs]⟩
    simp [Record.Unidentified, hs] at hu
  | changed hs hid _ ih =>
    obtain ⟨hrest, rfl⟩ := ih
    refine ⟨List.forall_mem_cons.mpr ⟨fun hu => ?_, hrest⟩, by rw [sortedByState_cons, hs]⟩
    simp [Record.Unidentified, hid] at hu
  | deleted hs hid _ ih =>
    obtain ⟨hrest, rfl⟩ := ih
    refine ⟨List.forall_mem_cons.mpr ⟨fun hu => ?_, hrest⟩, by rw [sortedByState_cons, hs, hid]; rfl⟩
    simp [Record.Unidentified, hid] at hu
  | consistent hs _ ih =>
    obtain ⟨hrest, rfl⟩ := ih
    refine ⟨List.forall_mem_cons.mpr ⟨fun hu => ?_, hrest⟩, by rw [sortedByState_cons, hs]⟩
    simp [Record.Unidentified, hs] at hu

theorem ofRecords_eq_ok_iff_sorts {records : List Record} {request : CommitRequest} :
    ofRecords records = .ok request ↔ Sorts records request := by
  rw [ofRecords_eq_ok]
  constructor
  · rintro ⟨h, rfl⟩
    exact sorts_sortedByState h
  · exact Sorts.eq_sortedByState

theorem Sorts.size_eq {records : List Record} {request : CommitRequest} (h : Sorts records request) :
    request.size = records.countP fun r => r.state ≠ .consistent := by
  induction h with
  | nil => rfl
  | created hs _ ih =>
    rw [List.countP_cons_of_pos (by simp [hs]), ← ih]
    simp only [size, List.length_cons]
    omega
  | changed hs _ _ ih =>
    rw [List.countP_cons_of_pos (by simp [hs]), ← ih]
    simp only [size, List.length_cons]
    omega
  | deleted hs _ _ ih =>
    rw [List.countP_cons_of_pos (by simp [hs]), ← ih]
    rfl
  | consistent hs _ ih => rw [List.countP_cons_of_neg (by simp [hs]), ih]

theorem sortedByState_append (records more : List Record) :
    sortedByState (records ++ more) = sortedByState records ++ sortedByState more := by
  simp only [sortedByState, List.filter_append, List.map_append, List.filterMap_append]
  rfl

theorem ofRecords_append_eq_ok {records more : List Record} {request : CommitRequest} :
    ofRecords (records ++ more) = .ok request ↔
      ∃ p q, ofRecords records = .ok p ∧ ofRecords more = .ok q ∧ request = p ++ q := by
  simp only [ofRecords_eq_ok, List.forall_mem_append, sortedByState_append]
  constructor
  · rintro ⟨⟨hrecords, hmore⟩, rfl⟩
    exact ⟨_, _, ⟨hrecords, rfl⟩, ⟨hmore, rfl⟩, rfl⟩
  · rintro ⟨_, _, ⟨hrecords, rfl⟩, ⟨hmore, rfl⟩, rfl⟩
    exact ⟨⟨hrecords, hmore⟩, rfl⟩

theorem failures_eq (records : List Record) :
    failures records = records.zipIdx.filterMap Record.identityFailure? := by
  rw [failures, ofRecords]
  cases hm : records.zipIdx.filterMap Record.identityFailure? with
  | nil => rfl
  | cons m members => rfl

theorem ofRecords_eq_error {records : List Record} {e : Error} :
    ofRecords records = .error e ↔ failures records ≠ [] ∧ e = .batch (failures records) := by
  rw [failures_eq, ofRecords]
  cases records.zipIdx.filterMap Record.identityFailure? with
  | nil => simp
  | cons m members => simp [eq_comm]

theorem failures_names (records : List Record) : Names records (failures records) := by
  rw [failures_eq]
  refine ⟨?_, fun m => ?_⟩
  · have hindexes : records.zipIdx.Pairwise fun a b => a.2 < b.2 := by
      rw [← List.pairwise_map (f := Prod.snd), List.zipIdx_map_snd]
      exact List.pairwise_lt_range'
    refine hindexes.filterMap _ ?_
    rintro ⟨r, i⟩ ⟨s, j⟩ hij m hm n hn
    obtain ⟨-, rfl⟩ := Record.identityFailure?_eq_some.mp hm
    obtain ⟨-, rfl⟩ := Record.identityFailure?_eq_some.mp hn
    exact hij
  · simp only [List.mem_filterMap, Prod.exists, List.mk_mem_zipIdx_iff_getElem?,
      Record.identityFailure?_eq_some]

theorem Names.unique {records : List Record} {members others : List (MemberError Error)}
    (h : Names records members) (h' : Names records others) : members = others := by
  have hnodup : ∀ {l : List (MemberError Error)},
      l.Pairwise (fun m n => m.index < n.index) → l.Nodup := by
    intro l hl
    refine hl.imp ?_
    rintro m _ hlt rfl
    exact Nat.lt_irrefl _ hlt
  have hperm : members.Perm others := by
    refine (List.perm_ext_iff_of_nodup (hnodup h.ascending) (hnodup h'.ascending)).mpr fun m => ?_
    rw [h.mem_iff, h'.mem_iff]
  refine hperm.eq_of_pairwise ?_ h.ascending h'.ascending
  intro m n _ _ hmn hnm
  exact absurd (Nat.lt_trans hmn hnm) (Nat.lt_irrefl _)

theorem failures_ne_nil {records : List Record} :
    failures records ≠ [] ↔ ∃ r ∈ records, r.Unidentified := by
  rw [failures_eq, Ne, ← List.isEmpty_iff, failures_isEmpty]
  simp

theorem failures_append (records more : List Record) :
    failures (records ++ more) =
      failures records ++ (failures more).map (MemberError.shift records.length) := by
  have hshift : ∀ member : Record × Nat,
      Record.identityFailure? (member.1, records.length + member.2) =
        (Record.identityFailure? member).map (MemberError.shift records.length) := by
    rintro ⟨r, index⟩
    by_cases h : r.Unidentified
    · rw [Record.identityFailure?_eq_some.mpr ⟨h, rfl⟩, Record.identityFailure?_eq_some.mpr ⟨h, rfl⟩]
      rfl
    · rw [Record.identityFailure?_eq_none.mpr h, Record.identityFailure?_eq_none.mpr h]
      rfl
  have hmore : more.zipIdx records.length =
      more.zipIdx.map fun member => (member.1, records.length + member.2) := List.zipIdx_eq_map_add
  rw [failures_eq, failures_eq, failures_eq, List.zipIdx_append, List.filterMap_append,
    Nat.zero_add, hmore, List.filterMap_map, List.map_filterMap]
  congr 1
  exact List.filterMap_congr fun member _ => hshift member

theorem ofRecords_eq_error_iff_names {records : List Record} {e : Error} :
    ofRecords records = .error e ↔
      ∃ members, members ≠ [] ∧ Names records members ∧ e = .batch members := by
  rw [ofRecords_eq_error]
  constructor
  · rintro ⟨hne, rfl⟩
    exact ⟨_, hne, failures_names records, rfl⟩
  · rintro ⟨members, hne, hnames, rfl⟩
    obtain rfl := hnames.unique (failures_names records)
    exact ⟨hne, rfl⟩

theorem exists_ofRecords_eq_error {records : List Record} :
    (∃ e, ofRecords records = .error e) ↔ ∃ r ∈ records, r.Unidentified := by
  rw [← failures_ne_nil]
  constructor
  · rintro ⟨e, he⟩
    exact (ofRecords_eq_error.mp he).1
  · intro hne
    exact ⟨_, ofRecords_eq_error.mpr ⟨hne, rfl⟩⟩

/-- A list of records is sorted into a request with one entry for each record that has something to
send, or is refused with the names of the records that lack a usable identity. The request of two
lists put together is made of their requests, and the failures are made of their failures. -/
theorem ofRecords_partitions (records : List Record) :
    (∀ request, ofRecords records = .ok request ↔ Sorts records request) ∧
    (∀ request, Sorts records request →
      request.size = records.countP fun r => r.state ≠ .consistent) ∧
    ((∃ e, ofRecords records = .error e) ↔ ∃ r ∈ records, r.Unidentified) ∧
    (∀ e, ofRecords records = .error e ↔
      ∃ members, members ≠ [] ∧ Names records members ∧ e = .batch members) ∧
    (∀ more request, ofRecords (records ++ more) = .ok request ↔
      ∃ p q, ofRecords records = .ok p ∧ ofRecords more = .ok q ∧ request = p ++ q) ∧
    (∀ more, failures (records ++ more) =
      failures records ++ (failures more).map (MemberError.shift records.length)) :=
  ⟨fun _ => ofRecords_eq_ok_iff_sorts, fun _ h => h.size_eq, exists_ofRecords_eq_error,
    fun _ => ofRecords_eq_error_iff_names, fun _ _ => ofRecords_append_eq_ok,
    failures_append records⟩

end CommitRequest

end Inventory
