import Inventory.Commit
import Inventory.Proofs.MemberReading

/-! What a commit reply says. Its parts stand under their names in an object, or in their order in
an array; a commit id that is left out is zero. -/

namespace Inventory

/-- What the parts of a commit reply say, a part being absent or a tree. -/
def CommitReply.OfParts (status commitId message : Option Json) (r : CommitReply) : Prop :=
  status = some (.text r.status) ∧
  ((commitId = none ∧ r.commitId = 0) ∨ commitId = some (.integer r.commitId.toInt)) ∧
  (((message = none ∨ message = some .null) ∧ r.message = none) ∨
    ∃ s, message = some (.text s) ∧ r.message = some s)

def CommitReply.Spells (j : Json) (r : CommitReply) : Prop :=
  match j with
  | .object members =>
    OfParts (members.lookup "status") (members.lookup "commit_id") (members.lookup "message") r
  | .array items => items.length ≤ 3 ∧ OfParts items[0]? items[1]? items[2]? r
  | _ => False

/-- No member of an object hides another one; replies come as trees of this kind. -/
def Json.KeysApart : Json → Prop
  | .object members => (members.map (·.1)).Nodup
  | _ => True

namespace Json

theorem toText_eq_ok {j : Json} {s : String} : j.toText = .ok s ↔ j = .text s := by
  cases j <;> simp [toText]

theorem toText?_eq_ok {j : Json} {s : Option String} :
    j.toText? = .ok s ↔ (j = .null ∧ s = none) ∨ ∃ t, j = .text t ∧ s = some t := by
  cases j <;> simp [toText?, toText, Except.map, eq_comm]

theorem toInt64_eq_ok {j : Json} {n : Int64} : j.toInt64 = .ok n ↔ j = .integer n.toInt := by
  cases j with
  | integer k =>
    by_cases hk : Int64.minValue.toInt ≤ k ∧ k ≤ Int64.maxValue.toInt
    · have hround : (Int64.ofInt k).toInt = k :=
        Int64.toInt_ofInt_of_le hk.1 (Int.lt_add_one_of_le hk.2)
      rw [toInt64, if_pos hk]
      constructor
      · intro h
        cases h
        rw [hround]
      · intro h
        cases h
        rw [Int64.ofInt_toInt]
    · rw [toInt64, if_neg hk]
      constructor
      · intro h
        cases h
      · intro h
        cases h
        exact absurd ⟨n.minValue_le_toInt, n.toInt_le⟩ hk
  | _ => simp [toInt64]

end Json

namespace CommitReply

theorem jsonFields_commute : jsonFields.Pairwise Json.Field.Commutes := by
  simp only [jsonFields, List.pairwise_cons, List.forall_mem_cons, List.not_mem_nil, false_implies,
    implies_true, and_true, List.Pairwise.nil]
  refine ⟨⟨?_, ?_⟩, ?_⟩ <;>
    exact Json.Field.commutes_of_put (fun _ _ => rfl) (fun _ _ => rfl) fun _ _ _ => rfl

theorem readMembers_eq_ok {members : List (String × Json)} {acc r : CommitReply}
    (hnd : (members.map (·.1)).Nodup) :
    Json.readMembers jsonFields members acc = .ok r ↔
      Json.ReadsPart Json.toText (members.lookup "status") acc.status r.status ∧
      Json.ReadsPart Json.toInt64 (members.lookup "commit_id") acc.commitId r.commitId ∧
      Json.ReadsPart Json.toText? (members.lookup "message") acc.message r.message := by
  have hstatus : ∀ acc mid : CommitReply, ∀ found,
      Json.ReadsPart (fun j => j.toText.map fun s => { acc with status := s }) found acc mid ↔
        ∃ s, Json.ReadsPart Json.toText found acc.status s ∧ mid = { acc with status := s } :=
    fun _ _ _ => Json.readsPart_map
  have hid : ∀ acc mid : CommitReply, ∀ found,
      Json.ReadsPart (fun j => j.toInt64.map fun n => { acc with commitId := n }) found acc mid ↔
        ∃ n, Json.ReadsPart Json.toInt64 found acc.commitId n ∧ mid = { acc with commitId := n } :=
    fun _ _ _ => Json.readsPart_map
  have hmessage : ∀ acc mid : CommitReply, ∀ found,
      Json.ReadsPart (fun j => j.toText?.map fun s => { acc with message := s }) found acc mid ↔
        ∃ s, Json.ReadsPart Json.toText? found acc.message s ∧ mid = { acc with message := s } :=
    fun _ _ _ => Json.readsPart_map
  rw [Json.readMembers_eq_ok_iff_gathers (by decide) jsonFields_commute hnd]
  simp only [jsonFields, Json.Gathers, hstatus, hid, hmessage]
  constructor
  · rintro ⟨_, ⟨s, hs, rfl⟩, _, ⟨n, hn, rfl⟩, _, ⟨m, hm, rfl⟩, rfl⟩
    exact ⟨hs, hn, hm⟩
  · rintro ⟨hs, hn, hm⟩
    exact ⟨_, ⟨_, hs, rfl⟩, _, ⟨_, hn, rfl⟩, _, ⟨_, hm, rfl⟩, rfl⟩

theorem ofParts_iff {status commitId message : Option Json} {r : CommitReply} :
    OfParts status commitId message r ↔
      status ≠ none ∧ Json.ReadsPart Json.toText status "" r.status ∧
      Json.ReadsPart Json.toInt64 commitId 0 r.commitId ∧
      Json.ReadsPart Json.toText? message none r.message := by
  have hstatus : status = some (.text r.status) ↔
      status ≠ none ∧ Json.ReadsPart Json.toText status "" r.status := by
    cases status <;> simp [Json.ReadsPart, Json.toText_eq_ok]
  have hid : ((commitId = none ∧ r.commitId = 0) ∨
      commitId = some (.integer r.commitId.toInt)) ↔
      Json.ReadsPart Json.toInt64 commitId 0 r.commitId := by
    cases commitId <;> simp [Json.ReadsPart, Json.toInt64_eq_ok]
  have hmessage : (((message = none ∨ message = some .null) ∧ r.message = none) ∨
      ∃ s, message = some (.text s) ∧ r.message = some s) ↔
      Json.ReadsPart Json.toText? message none r.message := by
    cases message <;> simp [Json.ReadsPart, Json.toText?_eq_ok]
  rw [OfParts, hstatus, hid, hmessage, and_assoc]

theorem ofJson_object {members : List (String × Json)} {r : CommitReply}
    (hnd : (members.map (·.1)).Nodup) : ofJson (.object members) = .ok r ↔
      OfParts (members.lookup "status") (members.lookup "commit_id") (members.lookup "message") r := by
  rw [ofParts_iff, ofJson, Json.toRecord_object_eq_ok, readMembers_eq_ok hnd, and_comm]
  simp [jsonFields]

theorem ofJson_array {items : List Json} {r : CommitReply} : ofJson (.array items) = .ok r ↔
    items.length ≤ 3 ∧ OfParts items[0]? items[1]? items[2]? r := by
  rw [ofParts_iff, ofJson, Json.toRecord]
  obtain ⟨status, commitId, message⟩ := r
  cases items with
  | nil => simp [jsonFields, Json.readItems]
  | cons j rest =>
    cases hj : j.toText with
    | error e => simp [jsonFields, Json.readItems, hj, Except.map, Json.ReadsPart]
    | ok s =>
      cases rest with
      | nil => simp [jsonFields, Json.readItems, hj, Except.map, Json.ReadsPart, eq_comm]
      | cons k rest =>
        cases hk : k.toInt64 with
        | error e => simp [jsonFields, Json.readItems, hj, hk, Except.map, Json.ReadsPart]
        | ok n =>
          cases rest with
          | nil => simp [jsonFields, Json.readItems, hj, hk, Except.map, Json.ReadsPart, eq_comm]
          | cons l rest =>
            cases hl : l.toText? with
            | error e => simp [jsonFields, Json.readItems, hj, hk, hl, Except.map, Json.ReadsPart]
            | ok m =>
              cases rest with
              | nil => simp [jsonFields, Json.readItems, hj, hk, hl, Except.map, Json.ReadsPart]
              | cons _ _ => simp [jsonFields, Json.readItems, hj, hk, hl, Except.map]

theorem ofJson_eq_ok {j : Json} {r : CommitReply} (h : j.KeysApart) :
    ofJson j = .ok r ↔ Spells j r := by
  cases j with
  | object members => exact ofJson_object h
  | array items => exact ofJson_array
  | _ => simp [ofJson, Json.toRecord, Spells]

theorem accepted_eq_ok {j : Json} {id : Int64} :
    accepted j = .ok id ↔ ∃ r, ofJson j = .ok r ∧ r.status = "success" ∧ r.commitId = id := by
  rw [accepted]
  cases ofJson j with
  | error e => simp
  | ok r => by_cases hs : r.status = "success" <;> simp [hs]

end CommitReply

end Inventory
