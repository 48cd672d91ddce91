/-! Finite maps from texts, kept as entries in strictly ascending order of the key, so that two
maps with the same entries are equal. Texts are ordered by code point, which is also the order of
their UTF-8 bytes. -/

namespace Inventory

def Ascending {α : Type} (entries : List (String × α)) : Prop :=
  entries.Pairwise (fun a b => a.1 < b.1)

/-- Puts an entry at its place, over any entry of the same key. -/
def putEntry {α : Type} (key : String) (value : α) : List (String × α) → List (String × α)
  | [] => [(key, value)]
  | (k, v) :: rest =>
    if key < k then (key, value) :: (k, v) :: rest
    else if key = k then (key, value) :: rest
    else (k, v) :: putEntry key value rest

theorem mem_putEntry {α : Type} {key : String} {value : α} {e : String × α}
    {entries : List (String × α)} (h : e ∈ putEntry key value entries) :
    e = (key, value) ∨ e ∈ entries := by
  induction entries with
  | nil => simpa [putEntry] using h
  | cons head rest ih =>
    obtain ⟨k, v⟩ := head
    rw [putEntry] at h
    split at h
    · simpa using h
    · split at h
      · simp only [List.mem_cons] at h ⊢
        exact h.imp_right Or.inr
      · simp only [List.mem_cons] at h ⊢
        rcases h with h | h
        · exact Or.inr (Or.inl h)
        · exact (ih h).imp_right Or.inr

theorem ascending_putEntry {α : Type} (key : String) (value : α) {entries : List (String × α)}
    (h : Ascending entries) : Ascending (putEntry key value entries) := by
  induction entries with
  | nil => simp [putEntry, Ascending]
  | cons head rest ih =>
    obtain ⟨k, v⟩ := head
    have hd := (List.pairwise_cons.mp h).1
    have ht := (List.pairwise_cons.mp h).2
    rw [putEntry]
    split
    · rename_i hlt
      refine List.pairwise_cons.mpr ⟨?_, h⟩
      intro e he
      rcases List.mem_cons.mp he with rfl | he
      · exact hlt
      · exact String.lt_trans hlt (hd e he)
    · split
      · rename_i heq
        exact List.pairwise_cons.mpr ⟨fun e he => heq ▸ hd e he, ht⟩
      · rename_i hnlt hne
        refine List.pairwise_cons.mpr ⟨?_, ih ht⟩
        intro e he
        rcases mem_putEntry he with rfl | he
        · have hle : k ≤ key := String.not_lt.mp hnlt
          exact Decidable.byContradiction fun hn =>
            hne (String.le_antisymm (String.not_lt.mp hn) hle)
        · exact hd e he

structure TextMap (α : Type) where
  entries : List (String × α)
  ascending : Ascending entries

namespace TextMap

variable {α β : Type}

theorem ext {m n : TextMap α} (h : m.entries = n.entries) : m = n := by
  cases m; cases n; cases h; rfl

def empty : TextMap α := ⟨[], List.Pairwise.nil⟩

instance : EmptyCollection (TextMap α) := ⟨empty⟩

instance : Inhabited (TextMap α) := ⟨∅⟩

def insert (m : TextMap α) (key : String) (value : α) : TextMap α :=
  ⟨putEntry key value m.entries, ascending_putEntry key value m.ascending⟩

def get? (m : TextMap α) (key : String) : Option α := m.entries.lookup key

def contains (m : TextMap α) (key : String) : Bool := (m.get? key).isSome

def keys (m : TextMap α) : List String := m.entries.map (·.1)

def values (m : TextMap α) : List α := m.entries.map (·.2)

def size (m : TextMap α) : Nat := m.entries.length

def isEmpty (m : TextMap α) : Bool := m.entries.isEmpty

/-- Of several entries with one key the last stays. -/
def ofList (entries : List (String × α)) : TextMap α :=
  entries.foldl (fun m e => m.insert e.1 e.2) ∅

/-- The entries of both maps; where both have a key, the second decides. -/
def overlay (m n : TextMap α) : TextMap α :=
  n.entries.foldl (fun m e => m.insert e.1 e.2) m

def filterMap (f : String → α → Option β) (m : TextMap α) : TextMap β where
  entries := m.entries.filterMap fun e => (f e.1 e.2).map (e.1, ·)
  ascending := by
    refine List.Pairwise.filterMap _ ?_ m.ascending
    intro a b hab a' ha' b' hb'
    obtain ⟨_, _, rfl⟩ := Option.map_eq_some_iff.mp ha'
    obtain ⟨_, _, rfl⟩ := Option.map_eq_some_iff.mp hb'
    exact hab

/-- Same keys with pairwise agreeing values. -/
def agrees (same : α → α → Bool) (m n : TextMap α) : Bool :=
  m.size == n.size && (m.entries.zip n.entries).all fun (a, b) => a.1 == b.1 && same a.2 b.2

end TextMap

end Inventory
