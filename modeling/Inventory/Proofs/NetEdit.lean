import Mathlib.Data.Set.List
import Inventory.Proofs.CanonicalKey
import Inventory.Proofs.SetDifference
import Inventory.Workspace.Step

/-! Edits of an attribute with many texts. Whatever the edits do in between, each text is in or out as the
last edit that speaks of it says, the texts that were never removed stay in front in their order, and the
commit sends what the first and the last list differ in as sets. -/

namespace Inventory

namespace MultiValue

/-- Whether the edit puts the text in or takes it out, if it does either. -/
def Edit.says? (text : String) : Edit → Option Bool
  | .insertAll texts => if text ∈ texts then some true else none
  | .erase other => if text = other then some false else none
  | .clear => some false

def lastSaid? (edits : List Edit) (text : String) : Option Bool :=
  (edits.filterMap (Edit.says? text)).getLast?

def neverRemoved (edits : List Edit) (text : String) : Bool :=
  edits.all fun e => e.says? text != some false

def editAll (m : MultiValue) (edits : List Edit) : MultiValue := edits.foldl apply m

/-- The texts that the edits never remove come first and in their order, and after them what the edits
add, each text once. -/
def KeepsAndAdds (edits : List Edit) (before after : List String) : Prop :=
  ∃ added, after = before.filter (neverRemoved edits) ++ added ∧ added.Nodup ∧
    ∀ s ∈ added, s ∉ before.filter (neverRemoved edits) ∧ ∃ e ∈ edits, e.says? s = some true

theorem lastSaid?_cons (e : Edit) (rest : List Edit) (text : String) :
    lastSaid? (e :: rest) text = (lastSaid? rest text).or (e.says? text) := by
  rw [lastSaid?, lastSaid?, List.filterMap_cons]
  cases e.says? text with
  | none => rw [Option.or_none]
  | some b =>
    simp only [List.getLast?_cons]
    cases (rest.filterMap (Edit.says? text)).getLast? <;> rfl

theorem neverRemoved_append (edits more : List Edit) (text : String) :
    neverRemoved (edits ++ more) text = (neverRemoved edits text && neverRemoved more text) :=
  List.all_append

theorem items_insertAll (m : MultiValue) (texts : List String) : ∃ added,
    (m.insertAll texts).items = m.items ++ added ∧ added.Nodup ∧
      ∀ s, s ∈ added ↔ s ∈ texts ∧ s ∉ m.items := by
  induction texts generalizing m with
  | nil => exact ⟨[], by simp [insertAll], List.nodup_nil, by simp⟩
  | cons t rest ih =>
    obtain ⟨added, hitems, hnodup, hmem⟩ := ih (m.insert t)
    have hstep : m.insertAll (t :: rest) = (m.insert t).insertAll rest := rfl
    by_cases ht : t ∈ m.items
    · have hsame : m.insert t = m := by simp [insert, contains, ht]
      rw [hsame] at hitems hmem hstep
      refine ⟨added, by rw [hstep, hitems], hnodup, fun s => ?_⟩
      rw [hmem, List.mem_cons]
      constructor
      · exact fun ⟨hs, hno⟩ => ⟨.inr hs, hno⟩
      · rintro ⟨rfl | hs, hno⟩
        · exact absurd ht hno
        · exact ⟨hs, hno⟩
    · have hgrown : (m.insert t).items = m.items ++ [t] := by simp [insert, contains, ht]
      rw [hgrown] at hitems hmem
      refine ⟨t :: added, by rw [hstep, hitems]; simp, ?_, fun s => ?_⟩
      · refine List.nodup_cons.mpr ⟨fun hin => ?_, hnodup⟩
        have hno := (hmem t).mp hin
        simp at hno
      · rw [List.mem_cons, List.mem_cons, hmem, List.mem_append, List.mem_singleton]
        by_cases hs : s = t
        · simp [hs, ht]
        · simp [hs]

theorem mem_apply (m : MultiValue) (e : Edit) (s : String) : s ∈ (m.apply e).items ↔
    e.says? s = some true ∨ e.says? s = none ∧ s ∈ m.items := by
  cases e with
  | insertAll texts =>
    obtain ⟨added, hitems, -, hmem⟩ := m.items_insertAll texts
    rw [apply, hitems, List.mem_append, hmem]
    by_cases hs : s ∈ texts <;> by_cases hm : s ∈ m.items <;> simp [Edit.says?, hs, hm]
  | erase other => by_cases hs : s = other <;> simp [apply, erase, Edit.says?, hs]
  | clear => simp [apply, clear, Edit.says?, EmptyCollection.emptyCollection, empty]

/-- The last edit that speaks of a text decides; what no edit speaks of stays as it was. -/
theorem mem_editAll (m : MultiValue) (edits : List Edit) (s : String) :
    s ∈ (m.editAll edits).items ↔
      lastSaid? edits s = some true ∨ lastSaid? edits s = none ∧ s ∈ m.items := by
  induction edits generalizing m with
  | nil => simp [editAll, lastSaid?]
  | cons e rest ih =>
    have hstep : m.editAll (e :: rest) = (m.apply e).editAll rest := rfl
    rw [hstep, ih, mem_apply, lastSaid?_cons]
    cases lastSaid? rest s with
    | none => simp
    | some b => simp

theorem keepsAndAdds_apply (m : MultiValue) (e : Edit) :
    KeepsAndAdds [e] m.items (m.apply e).items := by
  have hkept : ∀ s, neverRemoved [e] s = (e.says? s != some false) := fun s => Bool.and_true _
  have hfilter : m.items.filter (neverRemoved [e]) =
      m.items.filter fun s => e.says? s != some false := List.filter_congr fun s _ => hkept s
  rw [KeepsAndAdds, hfilter]
  cases e with
  | insertAll texts =>
    obtain ⟨added, hitems, hnodup, hmem⟩ := m.items_insertAll texts
    have hall : m.items.filter (fun s => Edit.says? s (.insertAll texts) != some false) = m.items := by
      refine List.filter_eq_self.mpr fun s _ => ?_
      rw [Edit.says?]
      split <;> rfl
    rw [hall]
    refine ⟨added, hitems, hnodup, fun s hs => ?_⟩
    obtain ⟨htext, hno⟩ := (hmem s).mp hs
    exact ⟨hno, _, List.mem_singleton_self _, if_pos htext⟩
  | erase other =>
    refine ⟨[], ?_, List.nodup_nil, List.forall_mem_nil _⟩
    rw [List.append_nil, apply, erase]
    refine List.filter_congr fun s _ => ?_
    by_cases hs : s = other
    · simp [Edit.says?, hs]
    · rw [bne_iff_ne.mpr hs, Edit.says?, if_neg hs]
      rfl
  | clear =>
    refine ⟨[], ?_, List.nodup_nil, List.forall_mem_nil _⟩
    simp [Edit.says?, apply, clear, EmptyCollection.emptyCollection, empty]

theorem KeepsAndAdds.trans {edits more : List Edit} {before mid after : List String}
    (h : KeepsAndAdds edits before mid) (h' : KeepsAndAdds more mid after) :
    KeepsAndAdds (edits ++ more) before after := by
  obtain ⟨early, rfl, hearly, hfresh⟩ := h
  obtain ⟨late, rfl, hlate, hnew⟩ := h'
  have hkept : (before.filter (neverRemoved edits)).filter (neverRemoved more) =
      before.filter (neverRemoved (edits ++ more)) := by
    rw [List.filter_filter]
    exact List.filter_congr fun s _ => by rw [neverRemoved_append, Bool.and_comm]
  rw [List.filter_append, hkept] at hnew ⊢
  -- Of what the first edits added, the later ones leave a part, and add what is not there.
  refine ⟨early.filter (neverRemoved more) ++ late, List.append_assoc _ _ _, ?_, ?_⟩
  · refine List.nodup_append.mpr ⟨hearly.filter _, hlate, ?_⟩
    rintro s hs t ht rfl
    exact (hnew s ht).1 (List.mem_append_right _ hs)
  · refine List.forall_mem_append.mpr ⟨fun s hs => ?_, fun s hs => ?_⟩
    · obtain ⟨hno, e, he, hsaid⟩ := hfresh s (List.mem_of_mem_filter hs)
      refine ⟨fun hin => hno ?_, e, List.mem_append_left _ he, hsaid⟩
      rw [← hkept] at hin
      exact List.mem_of_mem_filter hin
    · obtain ⟨hno, e, he, hsaid⟩ := hnew s hs
      exact ⟨fun hin => hno (List.mem_append_left _ hin), e, List.mem_append_right _ he, hsaid⟩

theorem keepsAndAdds_editAll (m : MultiValue) (edits : List Edit) :
    KeepsAndAdds edits m.items (m.editAll edits).items := by
  induction edits generalizing m with
  | nil =>
    have hall : m.items.filter (neverRemoved []) = m.items := List.filter_eq_self.mpr fun _ _ => rfl
    exact ⟨[], by rw [hall, List.append_nil]; rfl, List.nodup_nil, List.forall_mem_nil _⟩
  | cons e rest ih => exact (m.keepsAndAdds_apply e).trans (ih (m.apply e))

theorem KeepsAndAdds.nodup {edits : List Edit} {before after : List String}
    (h : KeepsAndAdds edits before after) (hbefore : before.Nodup) : after.Nodup := by
  obtain ⟨added, rfl, hadded, hfresh⟩ := h
  refine List.nodup_append.mpr ⟨hbefore.filter _, hadded, ?_⟩
  rintro s hs t ht rfl
  exact (hfresh s ht).1 hs

theorem editAll_append (m : MultiValue) (edits more : List Edit) :
    m.editAll (edits ++ more) = (m.editAll edits).editAll more := List.foldl_append

/-- The texts of the one list that the other lacks, each once and in the order of their canonical
forms. -/
structure OnlyIn (texts others only : List String) : Prop where
  ascending : (only.map fun s => (Value.text s).canonical).Pairwise (· < ·)
  mem_iff : ∀ s, s ∈ only ↔ s ∈ texts ∧ s ∉ others

theorem canonical_text_injective : Function.Injective fun s => (Value.text s).canonical := by
  intro s t h
  exact (Value.text.inj ((Value.canonical_text_eq_iff rfl).mp h)).symm

theorem canonical_mem_forms {texts : List String} {s : String} :
    (Value.text s).canonical ∈ forms (texts.map .text) ↔ s ∈ texts := by
  rw [mem_forms_map, List.map_map]
  exact List.mem_map_of_injective canonical_text_injective

theorem isFinite_toValue (m : MultiValue) : m.toValue.isFinite = true := by
  rw [toValue, Value.isFinite, Value.allFinite_iff]
  exact List.forall_mem_map.mpr fun _ _ => rfl

theorem sameAs_toValue {m n : MultiValue} :
    m.toValue.sameAs n.toValue = true ↔ m.items = n.items := by
  rw [Value.sameAs_iff, toValue,
    Value.canonical_list_eq_iff m.isFinite_toValue n.isFinite_toValue]
  constructor
  · rintro ⟨others, hothers, hmap⟩
    obtain rfl := Value.list.inj hothers
    rw [List.map_map, List.map_map] at hmap
    exact List.map_injective_iff.mpr canonical_text_injective hmap
  · intro h
    exact ⟨_, rfl, by rw [h]⟩

theorem ofValue_toValue (m : MultiValue) : ofValue m.toValue = m := by
  have htexts : Value.asText? ∘ Value.text = some := rfl
  rw [toValue, ofValue, List.filterMap_map, htexts, List.filterMap_some]

theorem exists_onlyIn {m n : MultiValue} {values : List Value}
    (h : Gained (n.items.map .text) (m.items.map .text) values) :
    ∃ only : List String, values = only.map .text ∧ OnlyIn m.items n.items only := by
  obtain ⟨only, rfl⟩ : values ∈ Set.range (List.map Value.text) := by
    rw [Set.range_list_map]
    intro v hv
    obtain ⟨s, -, hs⟩ := List.mem_map.mp (h.mem_new hv)
    exact ⟨s, hs⟩
  refine ⟨only, rfl, ?_, fun s => ?_⟩
  · have hascending := h.ascending
    rwa [List.map_map] at hascending
  · rw [← canonical_mem_forms, h.forms_eq, Set.mem_sdiff, canonical_mem_forms, canonical_mem_forms]

end MultiValue

namespace Record

theorem editMulti_eq {r : Record} {field : String} {m : MultiValue}
    (hfield : r.fields.get? field = some m.toValue) (edits : List MultiValue.Edit) :
    r.editMulti field edits = .ok (m.editAll edits, { r with
      fields := r.fields.insert field (m.editAll edits).toValue
      prior := if r.prior.contains field then r.prior else r.prior.insert field m.toValue }) := by
  have hmulti : r.getMulti field = m := by
    simp only [getMulti, hfield]
    exact m.ofValue_toValue
  rw [editMulti, hmulti]
  simp only [← MultiValue.editAll.eq_def]
  rw [set_of_finite hfield (MultiValue.isFinite_toValue _)]
  rfl

theorem changes_get?_of_prior {r : Record} {field : String} {old new : Value}
    (hprior : r.prior.get? field = some old) (hfield : r.fields.get? field = some new) :
    r.changes.get? field = if old.sameAs new then none else some (.between old new) := by
  rw [changes, ChangeSet.get?, TextMap.get?_filterMap, hprior, Option.bind_some, change?, hfield]
  rfl

theorem changes_get?_stored (r : Record) (field : String) (m n : MultiValue) :
    (changes ⟨r.fields.insert field n.toValue, r.prior.insert field m.toValue, r.deleted⟩).get? field =
      if n.items = m.items then none else some (.between m.toValue n.toValue) := by
  have hprior : (r.prior.insert field m.toValue).get? field = some m.toValue := by
    rw [TextMap.get?_insert, if_pos rfl]
  have hfield : (r.fields.insert field n.toValue).get? field = some n.toValue := by
    rw [TextMap.get?_insert, if_pos rfl]
  rw [changes_get?_of_prior hprior hfield]
  simp only [MultiValue.sameAs_toValue, eq_comm (a := m.items)]

theorem changes_get?_congr {r r' : Record} {field : String}
    (hprior : r'.prior.get? field = r.prior.get? field)
    (hfields : r'.fields.get? field = r.fields.get? field) :
    r'.changes.get? field = r.changes.get? field := by
  have hchange : r'.change? field = r.change? field := by
    funext old
    rw [change?, change?, hfields]
  rw [changes, changes, ChangeSet.get?, ChangeSet.get?, TextMap.get?_filterMap,
    TextMap.get?_filterMap, hprior, hchange]

end Record

open MultiValue in
/-- Editing an attribute with many texts and storing it back. A text is in the result as the last edit
that speaks of it says, or as before if none does. At every point of the edits, the texts that are
never removed from then on stay in their order, and what is added from then on comes after them. The
commit sends nothing for the attribute exactly if the list is the old one, otherwise the texts that only
the new list has and those that only the old one had; what it sends for other attributes is not
touched. -/
theorem edits_send_net_change (r : Record) (field : String) (initial : List String)
    (hfield : r.fields.get? field = some (.list (initial.map .text)))
    (huntouched : r.prior.get? field = none) (edits : List MultiValue.Edit) :
    ∃ result r', r.editMulti field edits = .ok (result, r') ∧
      r'.fields.get? field = some (.list (result.items.map .text)) ∧
      (∀ s, s ∈ result.items ↔
        lastSaid? edits s = some true ∨ lastSaid? edits s = none ∧ s ∈ initial) ∧
      (∀ before after, edits = before ++ after →
        KeepsAndAdds after (editAll ⟨initial⟩ before).items result.items) ∧
      (initial.Nodup → result.items.Nodup) ∧
      (r'.changes.get? field = none ↔ result.items = initial) ∧
      (result.items ≠ initial → ∃ add remove : List String,
        r'.changes.get? field = some (.multi (add.map .text) (remove.map .text)) ∧
        OnlyIn result.items initial add ∧ OnlyIn initial result.items remove) ∧
      ∀ other, other ≠ field → r'.changes.get? other = r.changes.get? other := by
  have hrun := Record.editMulti_eq (m := ⟨initial⟩) hfield edits
  have hcontains : r.prior.contains field = false := by rw [TextMap.contains, huntouched]; rfl
  rw [hcontains, if_neg Bool.false_ne_true] at hrun
  generalize hresult : editAll ⟨initial⟩ edits = result at hrun
  have hchange := r.changes_get?_stored field ⟨initial⟩ result
  refine ⟨result, _, hrun, ?_, fun s => ?_, ?_, ?_, ?_, ?_, fun other hother => ?_⟩
  · rw [TextMap.get?_insert, if_pos rfl]
    rfl
  · rw [← hresult]
    exact mem_editAll ⟨initial⟩ edits s
  · rintro before after rfl
    rw [← hresult, editAll_append]
    exact keepsAndAdds_editAll _ after
  · rw [← hresult]
    exact (keepsAndAdds_editAll ⟨initial⟩ edits).nodup
  · rw [hchange]
    split
    · exact iff_of_true rfl ‹_›
    · exact iff_of_false (Option.some_ne_none _) ‹_›
  · intro hne
    obtain ⟨add, hadd, hadded⟩ := exists_onlyIn (m := result) (n := ⟨initial⟩) (gained_iff.mpr rfl)
    obtain ⟨remove, hremove, hremoved⟩ :=
      exists_onlyIn (m := ⟨initial⟩) (n := result) (gained_iff.mpr rfl)
    refine ⟨add, remove, ?_, hadded, hremoved⟩
    rw [hchange, if_neg hne, ← hadd, ← hremove]
    rfl
  · refine Record.changes_get?_congr ?_ ?_
    · rw [TextMap.get?_insert, if_neg hother]
    · rw [TextMap.get?_insert, if_neg hother]

/-- The text that is taken out and put in again is not sent, the other two are. -/
theorem edits_send_one_added_one_removed :
    ∃ r', ∃ add remove : List String, (Record.ofFields (TextMap.insert ∅ "tags"
        (.list [.text "web", .text "old", .text "web"]))).editMulti "tags"
          [.erase "web", .insertAll ["web", "api"], .erase "old"] = .ok (⟨["web", "api"]⟩, r') ∧
      r'.changes.get? "tags" = some (.multi (add.map .text) (remove.map .text)) ∧
      (∀ s, s ∈ add ↔ s = "api") ∧ ∀ s, s ∈ remove ↔ s = "old" := by
  obtain ⟨result, r', hrun, -, -, -, -, -, hsent, -⟩ := edits_send_net_change
    (Record.ofFields (TextMap.insert ∅ "tags" (.list [.text "web", .text "old", .text "web"])))
    "tags" ["web", "old", "web"] rfl rfl [.erase "web", .insertAll ["web", "api"], .erase "old"]
  obtain rfl : (⟨["web", "api"]⟩ : MultiValue) = result := congrArg Prod.fst (Except.ok.inj hrun)
  obtain ⟨add, remove, hchange, hadd, hremove⟩ := hsent (by decide)
  refine ⟨r', add, remove, hrun, hchange, fun s => ?_, fun s => ?_⟩
  · rw [hadd.mem_iff]
    simp only [List.mem_cons, List.not_mem_nil, or_false]
    grind
  · rw [hremove.mem_iff]
    simp only [List.mem_cons, List.not_mem_nil, or_false]
    grind

end Inventory
