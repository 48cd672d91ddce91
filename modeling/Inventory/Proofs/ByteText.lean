import Inventory.Text.Bytes

/-! The text that bytes encode. A text is read back from its own bytes and from no others; where bytes
are no text, what is put in place of them stands for each byte at which no character begins. -/

namespace Inventory.Text

theorem toList_loop (bytes : ByteArray) (i : Nat) (before : Bytes) :
    ByteArray.toList.loop bytes i before = before.reverse ++ bytes.data.toList.drop i := by
  induction i, before using ByteArray.toList.loop.induct bytes with
  | case1 i before hi ih =>
    have hlength : i < bytes.data.toList.length := by rwa [Array.length_toList]
    have hbyte : bytes.get! i = bytes.data.toList[i] := by
      rw [Array.getElem_toList]
      exact getElem!_pos bytes.data i hi
    rw [ByteArray.toList.loop.eq_1, if_pos hi, ih, List.drop_eq_getElem_cons hlength, hbyte,
      List.reverse_cons, List.append_assoc, List.singleton_append]
  | case2 i before hi =>
    have hend : bytes.data.toList.length ≤ i := by
      rw [Array.length_toList]
      exact Nat.not_lt.mp hi
    rw [ByteArray.toList.loop.eq_1, if_neg hi, List.drop_eq_nil_of_le hend, List.append_nil]

theorem toBytes_eq_data (s : String) : toBytes s = s.toByteArray.data.toList :=
  toList_loop s.toByteArray 0 []

theorem toBytes_eq (s : String) : toBytes s = s.toList.flatMap String.utf8EncodeChar := by
  rw [toBytes_eq_data, ← String.utf8Encode_toList]
  exact List.toList_data_toByteArray

theorem toByteArray_toBytes (s : String) : (toBytes s).toByteArray = s.toByteArray := by
  rw [toBytes_eq]
  exact String.utf8Encode_toList

theorem ofBytes?_eq_some_iff {bytes : Bytes} {s : String} :
    ofBytes? bytes = some s ↔ toBytes s = bytes := by
  rw [ofBytes?, String.fromUTF8?]
  constructor
  · intro h
    split at h
    · rename_i hvalid
      obtain rfl := Option.some.inj h
      rw [toBytes_eq_data]
      exact List.toList_data_toByteArray
    · cases h
  · rintro rfl
    rw [toByteArray_toBytes, dif_pos s.isValidUTF8]
    rfl

theorem ofBytes?_toBytes (s : String) : ofBytes? (toBytes s) = some s :=
  ofBytes?_eq_some_iff.mpr rfl

theorem leading?_eq_some_iff {bytes : Bytes} {c : Char} :
    leading? bytes = some c ↔ ∃ rest, bytes = String.utf8EncodeChar c ++ rest := by
  constructor
  · intro h
    have hsplit := congrArg (fun b => b.data.toList) (ByteArray.eq_of_utf8DecodeChar?_eq_some h)
    simp only [List.toList_data_toByteArray, ByteArray.data_append, Array.toList_append] at hsplit
    rw [← List.take_append_drop 4 bytes, hsplit, List.append_assoc]
    exact ⟨_, rfl⟩
  · rintro ⟨rest, rfl⟩
    have hfour : (String.utf8EncodeChar c).length ≤ 4 := by
      rw [String.length_utf8EncodeChar]
      exact c.utf8Size_le_four
    rw [leading?, List.take_append, List.take_of_length_le hfour, List.toByteArray_append]
    exact ByteArray.utf8DecodeChar?_utf8EncodeChar_append

/-- The text stands for the bytes, with `part` in place of each byte at which no character begins. -/
inductive Filled (part : List Char) : Bytes → List Char → Prop where
  | nil : Filled part [] []
  | char {c : Char} {rest : Bytes} {s : List Char} : Filled part rest s →
      Filled part (String.utf8EncodeChar c ++ rest) (c :: s)
  | stray {b : UInt8} {rest : Bytes} {s : List Char} :
      (∀ c more, b :: rest ≠ String.utf8EncodeChar c ++ more) → Filled part rest s →
      Filled part (b :: rest) (part ++ s)

theorem filledFrom_append (part : List Char) (front rest : Bytes) :
    filledFrom part front.length (front ++ rest) = filled part rest := by
  induction front with
  | nil => rfl
  | cons b front ih => exact ih

theorem filled_char (part : List Char) (c : Char) (rest : Bytes) :
    filled part (String.utf8EncodeChar c ++ rest) = c :: filled part rest := by
  have hlength := String.length_utf8EncodeChar c
  have hleading : leading? (String.utf8EncodeChar c ++ rest) = some c :=
    leading?_eq_some_iff.mpr ⟨rest, rfl⟩
  cases hc : String.utf8EncodeChar c with
  | nil =>
    rw [hc] at hlength
    exact absurd hlength.symm (Nat.ne_of_gt c.utf8Size_pos)
  | cons b more =>
    rw [hc, List.cons_append] at hleading
    have hmore : c.utf8Size - 1 = more.length := by
      rw [← hlength, hc]
      rfl
    rw [List.cons_append, filled, filledFrom, hleading]
    dsimp only
    rw [hmore, filledFrom_append]

theorem filled_stray (part : List Char) {b : UInt8} {rest : Bytes}
    (h : ∀ c more, b :: rest ≠ String.utf8EncodeChar c ++ more) :
    filled part (b :: rest) = part ++ filled part rest := by
  have hnone : leading? (b :: rest) = none := by
    rw [Option.eq_none_iff_forall_ne_some]
    intro c hc
    obtain ⟨more, hmore⟩ := leading?_eq_some_iff.mp hc
    exact h c more hmore
  rw [filled, filledFrom, hnone]
  rfl

theorem Filled.filled_eq {part : List Char} {bytes : Bytes} {s : List Char}
    (h : Filled part bytes s) : filled part bytes = s := by
  induction h with
  | nil => rfl
  | char _ ih => rw [filled_char, ih]
  | stray hno _ ih => rw [filled_stray part hno, ih]

theorem Filled.of_filled (part : List Char) (bytes : Bytes) :
    Filled part bytes (filled part bytes) := by
  -- on the length, since a character takes several bytes at once
  induction hlength : bytes.length using Nat.strongRecOn generalizing bytes with
  | ind n ih =>
    subst hlength
    cases bytes with
    | nil => exact .nil
    | cons b rest =>
      cases hleading : leading? (b :: rest) with
      | none =>
        have hno : ∀ c more, b :: rest ≠ String.utf8EncodeChar c ++ more := by
          intro c more hmore
          rw [leading?_eq_some_iff.mpr ⟨more, hmore⟩] at hleading
          cases hleading
        rw [filled_stray part hno]
        exact .stray hno (ih rest.length (Nat.lt_succ_self _) rest rfl)
      | some c =>
        obtain ⟨more, hmore⟩ := leading?_eq_some_iff.mp hleading
        have hshorter : more.length < (b :: rest).length := by
          rw [hmore, List.length_append, String.length_utf8EncodeChar]
          exact Nat.lt_add_of_pos_left c.utf8Size_pos
        rw [hmore, filled_char]
        exact .char (ih more.length hshorter more rfl)

theorem filled_iff {part : List Char} {bytes : Bytes} {s : List Char} :
    Filled part bytes s ↔ filled part bytes = s :=
  ⟨Filled.filled_eq, fun h => h ▸ .of_filled part bytes⟩

end Inventory.Text
