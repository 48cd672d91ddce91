import Inventory.Proofs.QueryText.Calls

/-! Expressions read on their own texts, and read from the marks of the whole query. -/

namespace Inventory.QueryText

theorem mapM_congr_forall₂ {α β γ ε : Type} {r : α → β → Prop} {f : α → Except ε γ}
    {g : β → Except ε γ} {xs : List α} {ys : List β} (h : List.Forall₂ r xs ys)
    (hfg : ∀ x ∈ xs, ∀ y, r x y → f x = g y) : xs.mapM f = ys.mapM g := by
  induction h with
  | nil => rfl
  | @cons x y xs ys hxy _ ih =>
    rw [List.mapM_cons, List.mapM_cons, hfg x List.mem_cons_self y hxy,
      ih fun x hx => hfg x (List.mem_cons_of_mem _ hx)]

theorem operandsFrom_eq (limit offset : Nat) (pieces : List Piece)
    (bound : ∀ p ∈ pieces, p.text.length ≤ limit) :
    operandsFrom limit offset pieces bound =
      (pieces.mapM fun p => expression p.text (offset + p.start)).map
        (List.map Condition.toOperand) := by
  induction pieces with
  | nil =>
    rw [operandsFrom]
    rfl
  | cons p rest ih =>
    rw [operandsFrom, List.mapM_cons, ih]
    cases expression p.text (offset + p.start) with
    | error e => rfl
    | ok c =>
      cases rest.mapM fun p => expression p.text (offset + p.start) with
      | error e => rfl
      | ok cs => rfl

def callFilter (name : List Char) (conditions : List Condition) : Condition :=
  let op := Operation.lookup (String.ofList name)
  .filter ⟨op, operandOf op (conditions.map Condition.toOperand)⟩

theorem expression_eq (raw : List Char) (offset : Nat) :
    expression raw offset =
      match unquote? (Text.trim raw) with
      | some inside => .ok (.value (.text (String.ofList inside)))
      | none =>
        let start := offset + Text.byteLength (raw.takeWhile Text.isBlank)
        match call? (Text.trim raw) start with
        | .error e => .error e
        | .ok none => .ok (.value (literal (Text.trim raw)))
        | .ok (some call) =>
          match arguments call.arguments (start + call.start) with
          | .error e => .error e
          | .ok pieces =>
            (pieces.mapM fun p => expression p.text (start + call.start + p.start)).map
              (callFilter call.name) := by
  rw [expression]
  cases unquote? (Text.trim raw) with
  | some inside => rfl
  | none =>
    simp only
    split
    · rename_i hcall
      rw [hcall]
    · rename_i hcall
      rw [hcall]
    · rename_i call hcall
      rw [hcall]
      simp only
      split
      · rename_i harguments
        rw [harguments]
      · rename_i pieces harguments
        rw [operandsFrom_eq, harguments]
        simp only
        cases pieces.mapM fun p => expression p.text
          (offset + Text.byteLength (raw.takeWhile Text.isBlank) + call.start + p.start) with
        | error e => rfl
        | ok conditions => rfl

theorem Reference.condition_eq (gs : List Glyph) :
    condition gs =
      match quotation? (trim gs) with
      | some inside => .ok (.value (.text (String.ofList inside)))
      | none =>
        match call? (trim gs) with
        | .error e => .error e
        | .ok none => .ok (.value (literal ((trim gs).map Glyph.char)))
        | .ok (some call) => (call.arguments.mapM condition).map (callFilter call.name) := by
  rw [condition]
  cases quotation? (trim gs) with
  | some inside => rfl
  | none =>
    simp only
    split
    · rename_i hcall
      rw [hcall]
    · rename_i hcall
      rw [hcall]
    · rename_i call hcall
      rw [hcall]
      have hattach : (call.arguments.attach.mapM fun part => condition part.1) =
          call.arguments.mapM condition := by
        rw [List.mapM_subtype fun part _ => rfl, List.unattach_attach]
      rw [hattach]
      rfl

theorem quotation?_eq (gs : List Glyph) :
    Reference.quotation? gs = unquote? (gs.map Glyph.char) := by
  cases gs with
  | nil => rfl
  | cons g rest =>
    cases hlast : rest.getLast? with
    | none =>
      rw [List.getLast?_eq_none_iff] at hlast
      subst hlast
      simp [Reference.quotation?, unquote?]
    | some last =>
      have hrest : rest ≠ [] := by
        rintro rfl
        cases hlast
      have hall : (g :: rest).getLast? = some last := by
        rw [List.getLast?_cons, hlast]
        rfl
      have hlength : 2 ≤ (g :: rest).length :=
        Nat.succ_le_succ (List.length_pos_iff.mpr hrest)
      have hiff : (2 ≤ (g :: rest).length ∧ Scan.isQuote g.char = true ∧ last.char = g.char) ↔
          (g.char = '"' ∨ g.char = '\'') ∧ some last.char = some g.char := by
        simp only [hlength, Scan.isQuote, Bool.or_eq_true, beq_iff_eq, true_and, Option.some.injEq]
      rw [Reference.quotation?, List.map_cons, unquote?, List.getLast?_map, hlast, hall,
        List.map_dropLast]
      exact if_congr hiff rfl rfl

theorem expression_eq_condition {k : Cursor} {raw : List Char} (h : k.Balanced raw) :
    expression raw k.position = Reference.condition (k.glyphs raw) := by
  -- By induction on the length: the arguments of a call are shorter than the call.
  induction hn : raw.length using Nat.strong_induction_on generalizing k raw with
  | _ n ih =>
    subst hn
    obtain ⟨-, htrim⟩ := h.trim
    rw [expression_eq, Reference.condition_eq, Cursor.trim_glyphs, quotation?_eq,
      Cursor.glyphs_chars]
    cases unquote? (Text.trim raw) with
    | some inside => rfl
    | none =>
      have hstart : k.position + Text.byteLength (raw.takeWhile Text.isBlank) =
          (k.trimmed raw).position := (Cursor.position_after _ _).symm
      have hagree := call?_agree htrim
      simp only [hstart]
      generalize hcall : call? (Text.trim raw) (k.trimmed raw).position = call at *
      generalize Reference.call? ((k.trimmed raw).glyphs (Text.trim raw)) = call' at *
      have hshorter := trim_length raw
      generalize Text.trim raw = t at *
      cases hagree with
      | error _ _ _ _ _ _ _ => rfl
      | word => rfl
      | call name inside hbody =>
        obtain ⟨pieces, hpieces, hparts⟩ := arguments_agree hbody rfl name
        simp only [← Cursor.opened_position, hpieces]
        congr 1
        refine mapM_congr_forall₂ hparts fun p hp gs hreads => ?_
        obtain ⟨k', hreads, -⟩ := hreads
        have hshort : p.text.length < raw.length :=
          calc p.text.length ≤ inside.length := arguments_length hpieces p hp
            _ < _ := call?_length hcall
            _ ≤ raw.length := hshorter
        rw [← hreads.position, hreads.glyphs]
        exact ih p.text.length hshort hreads.balanced rfl

end Inventory.QueryText
