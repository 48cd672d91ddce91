import Inventory.Proofs.Delta

/-! What one list gains over another, element by element. Of the elements with one canonical form the
last stands for the form, so the order and the number of elements matter only where elements of one
form differ. -/

namespace Inventory

def LastOfForm (items : List Value) (v : Value) : Prop :=
  ∃ front back, items = front ++ v :: back ∧ v.canonical ∉ forms back

/-- The elements stand for the forms of `new` that `old` lacks, each form once and in ascending order. -/
structure Gained (old new items : List Value) : Prop where
  ascending : (items.map Value.canonical).Pairwise (· < ·)
  forms_eq : forms items = forms new \ forms old
  last : ∀ v ∈ items, LastOfForm new v

theorem mem_forms_map {items : List Value} {t : String} :
    t ∈ forms items ↔ t ∈ items.map Value.canonical := by
  rw [mem_forms, List.mem_map]

theorem forms_eq_empty {items : List Value} : forms items = ∅ ↔ items = [] := by
  simp [Set.ext_iff, mem_forms_map, List.eq_nil_iff_forall_not_mem]

theorem forms_congr {items others : List Value} (h : ∀ v, v ∈ items ↔ v ∈ others) :
    forms items = forms others := by
  ext t
  simp [mem_forms, h]

theorem LastOfForm.mem {items : List Value} {v : Value} (h : LastOfForm items v) : v ∈ items := by
  obtain ⟨front, back, rfl, -⟩ := h
  simp

theorem get?_byCanonical {items : List Value} {t : String} {v : Value} :
    (byCanonical items).get? t = some v ↔ LastOfForm items v ∧ v.canonical = t := by
  rw [byCanonical, TextMap.get?_ofList, List.lookup_eq_some_iff]
  constructor
  · rintro ⟨after, before, hsplit, hno⟩
    have hmap := congrArg List.reverse hsplit
    rw [List.reverse_reverse, List.reverse_append, List.reverse_cons, List.append_assoc,
      List.singleton_append] at hmap
    obtain ⟨front, rest, rfl, -, hrest⟩ := List.map_eq_append_iff.mp hmap
    obtain ⟨w, back, rfl, hw, hback⟩ := List.map_eq_cons_iff.mp hrest
    obtain ⟨rfl, rfl⟩ := Prod.mk.inj hw
    refine ⟨⟨front, back, rfl, ?_⟩, rfl⟩
    rintro ⟨u, hu, heq⟩
    have hmem : (u.canonical, u) ∈ after := by
      rw [← List.mem_reverse, ← hback]
      exact List.mem_map_of_mem hu
    have hne := hno _ hmem
    simp [heq] at hne
  · rintro ⟨⟨front, back, rfl, hno⟩, rfl⟩
    refine ⟨(back.map fun v => (v.canonical, v)).reverse,
      (front.map fun v => (v.canonical, v)).reverse, by simp, ?_⟩
    intro e he
    obtain ⟨u, hu, rfl⟩ := List.mem_map.mp (List.mem_reverse.mp he)
    have hne : v.canonical ≠ u.canonical := fun heq => hno ⟨u, hu, heq.symm⟩
    simp [hne]

theorem LastOfForm.eq_of_canonical {items : List Value} {v w : Value} (hv : LastOfForm items v)
    (hw : LastOfForm items w) (h : v.canonical = w.canonical) : v = w := by
  have hget := get?_byCanonical.mpr ⟨hv, h⟩
  rw [get?_byCanonical.mpr ⟨hw, rfl⟩] at hget
  exact (Option.some.inj hget).symm

theorem gained_missingFrom (old new : List Value) :
    Gained old new (missingFrom (byCanonical new) (byCanonical old)) := by
  have hentry : ∀ e ∈ (byCanonical new).entries, LastOfForm new e.2 ∧ e.2.canonical = e.1 :=
    fun e he => get?_byCanonical.mp (TextMap.mem_entries.mp he)
  have hkeys : ∀ l : List (String × Value), l ⊆ (byCanonical new).entries →
      (l.map (·.2)).map Value.canonical = l.map (·.1) := by
    intro l hl
    rw [List.map_map]
    exact List.map_congr_left fun e he => (hentry e (hl he)).2
  refine ⟨?_, forms_missingFrom new old, ?_⟩
  · rw [missingFrom, hkeys _ (List.filter_subset_self _), List.pairwise_map]
    exact (byCanonical new).ascending.filter _
  · intro v hv
    obtain ⟨e, he, rfl⟩ := List.mem_map.mp hv
    exact (hentry e (List.mem_of_mem_filter he)).1

/-- Lists in ascending order of the form that have the same forms show them in the same order. -/
theorem map_canonical_eq {items others : List Value}
    (hi : (items.map Value.canonical).Pairwise (· < ·))
    (ho : (others.map Value.canonical).Pairwise (· < ·)) (h : forms items = forms others) :
    items.map Value.canonical = others.map Value.canonical := by
  have hnodup : ∀ l : List String, l.Pairwise (· < ·) → l.Nodup := by
    intro l hl
    apply hl.imp
    rintro a _ hlt rfl
    exact String.lt_irrefl a hlt
  have hperm : (items.map Value.canonical).Perm (others.map Value.canonical) := by
    apply (List.perm_ext_iff_of_nodup (hnodup _ hi) (hnodup _ ho)).mpr
    intro t
    rw [← mem_forms_map, ← mem_forms_map, h]
  apply hperm.eq_of_pairwise _ hi ho
  intro a b _ _ hab hba
  exact absurd (String.lt_trans hab hba) (String.lt_irrefl a)

theorem forall₂_of_map_canonical {same : Value → Value → Prop} {items others : List Value}
    (h : items.map Value.canonical = others.map Value.canonical)
    (hsame : ∀ v ∈ items, ∀ w ∈ others, v.canonical = w.canonical → same v w) :
    List.Forall₂ same items others := by
  induction items generalizing others with
  | nil => simp_all
  | cons v items ih =>
    cases others with
    | nil => simp at h
    | cons w others =>
      obtain ⟨hvw, hrest⟩ := List.cons.inj h
      have htail : List.Forall₂ same items others := by
        apply ih hrest
        intro a ha b hb
        exact hsame a (List.mem_cons_of_mem v ha) b (List.mem_cons_of_mem w hb)
      exact .cons (hsame v List.mem_cons_self w List.mem_cons_self hvw) htail

namespace Gained

variable {old old' new new' items items' : List Value}

theorem mem_new (h : Gained old new items) {v : Value} (hv : v ∈ items) : v ∈ new :=
  (h.last v hv).mem

theorem map_eq (h : Gained old new items) (h' : Gained old' new' items')
    (hold : forms old = forms old') (hnew : forms new = forms new') :
    items.map Value.canonical = items'.map Value.canonical := by
  apply map_canonical_eq h.ascending h'.ascending
  rw [h.forms_eq, h'.forms_eq, hold, hnew]

theorem unique (h : Gained old new items) (h' : Gained old new items') : items = items' := by
  have hall : List.Forall₂ Eq items items' := by
    apply forall₂_of_map_canonical (h.map_eq h' rfl rfl)
    intro v hv w hw heq
    exact (h.last v hv).eq_of_canonical (h'.last w hw) heq
  rwa [List.forall₂_eq_eq_eq] at hall

/-- Where elements of one form are alike, so is what is gained, however they are ordered and
repeated. -/
theorem alike (h : Gained old new items) (h' : Gained old' new' items')
    (hold : ∀ v, v ∈ old ↔ v ∈ old') (hnew : ∀ v, v ∈ new ↔ v ∈ new')
    {same : Value → Value → Prop}
    (hsame : ∀ v ∈ new, ∀ w ∈ new, v.canonical = w.canonical → same v w) :
    List.Forall₂ same items items' := by
  apply forall₂_of_map_canonical (h.map_eq h' (forms_congr hold) (forms_congr hnew))
  intro v hv w hw heq
  exact hsame v (h.mem_new hv) w ((hnew w).mpr (h'.mem_new hw)) heq

end Gained

theorem gained_iff {old new items : List Value} :
    Gained old new items ↔ items = (sliceDiff old new).1 := by
  have hgained := gained_missingFrom old new
  constructor
  · intro h
    exact h.unique hgained
  · rintro rfl
    exact hgained

theorem sliceDiff_swap (old new : List Value) : sliceDiff new old = (sliceDiff old new).swap := rfl

theorem sliceDiff_eq_nil {old new : List Value} :
    (sliceDiff old new).1 = [] ∧ (sliceDiff old new).2 = [] ↔ forms old = forms new := by
  rw [← forms_eq_empty, ← forms_eq_empty, forms_gained, forms_lost, Set.sdiff_eq_empty,
    Set.sdiff_eq_empty]
  constructor
  · rintro ⟨hnew, hold⟩
    exact Set.Subset.antisymm hold hnew
  · intro h
    simp [h]

theorem disjoint_gained_lost (old new : List Value) :
    Disjoint (forms (sliceDiff old new).1) (forms (sliceDiff old new).2) := by
  rw [forms_gained, forms_lost, Set.disjoint_left]
  rintro t ⟨-, hold⟩ ⟨hmem, -⟩
  exact hold hmem

/-- Two lists compared as the sets of the canonical forms of their elements. What is gained and what
is lost are the two differences of these sets, each in the one list that `Gained` admits. They share
no form, lead from the one set to the other, change places with the lists, and are empty only between
lists of the same forms. In lists with the same elements, in any order and number, the forms gained
and lost are the same, and so are the elements, in any sense in which elements of one form are. -/
theorem slice_diff_is_set_difference (old new : List Value) :
    let add := (sliceDiff old new).1
    let remove := (sliceDiff old new).2
    (∀ items, Gained old new items ↔ items = add) ∧
    (∀ items, Gained new old items ↔ items = remove) ∧
    Disjoint (forms add) (forms remove) ∧
    forms old \ forms remove ∪ forms add = forms new ∧
    sliceDiff new old = (remove, add) ∧
    (add = [] ∧ remove = [] ↔ forms old = forms new) ∧
    ∀ old' new', (∀ v, v ∈ old ↔ v ∈ old') → (∀ v, v ∈ new ↔ v ∈ new') →
      add.map Value.canonical = (sliceDiff old' new').1.map Value.canonical ∧
      remove.map Value.canonical = (sliceDiff old' new').2.map Value.canonical ∧
      ∀ same : Value → Value → Prop,
        ((∀ v ∈ new, ∀ w ∈ new, v.canonical = w.canonical → same v w) →
          List.Forall₂ same add (sliceDiff old' new').1) ∧
        ((∀ v ∈ old, ∀ w ∈ old, v.canonical = w.canonical → same v w) →
          List.Forall₂ same remove (sliceDiff old' new').2) := by
  intro add remove
  refine ⟨fun _ => gained_iff, fun _ => gained_iff, disjoint_gained_lost old new,
    forms_lost_gained old new, sliceDiff_swap old new, sliceDiff_eq_nil, ?_⟩
  intro old' new' hold hnew
  have hadd : Gained old new add := gained_iff.mpr rfl
  have hremove : Gained new old remove := gained_iff.mpr rfl
  have hadd' : Gained old' new' (sliceDiff old' new').1 := gained_iff.mpr rfl
  have hremove' : Gained new' old' (sliceDiff old' new').2 := gained_iff.mpr rfl
  refine ⟨hadd.map_eq hadd' (forms_congr hold) (forms_congr hnew),
    hremove.map_eq hremove' (forms_congr hnew) (forms_congr hold), fun same => ⟨?_, ?_⟩⟩
  · exact hadd.alike hadd' hold hnew
  · exact hremove.alike hremove' hnew hold

end Inventory
