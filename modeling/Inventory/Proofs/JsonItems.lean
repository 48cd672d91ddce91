import Inventory.Json.Printer
import Inventory.Proofs.NumberText

/-! Where an item ends in the text of an array. Outside texts a comma ends it unless a bracket is
still open, and so does the bracket that closes the array. Rendered trees leave the brackets
balanced and the texts closed, so the text of an array shows the texts of its items. -/

namespace Inventory.Json

/-- Whether a text literal is open, and whether the next character in it is escaped. -/
inductive Mode where
  | plain
  | text
  | escape
deriving DecidableEq

/-- Reads on within an item under `depth` open brackets; none where the item ends. -/
def itemStep : Nat × Mode → Char → Option (Nat × Mode)
  | (depth, .plain), c =>
    if c = '"' then some (depth, .text)
    else if c = '[' ∨ c = '\x7b' then some (depth + 1, .plain)
    else if c = ']' ∨ c = '\x7d' then
      match depth with
      | 0 => none
      | depth + 1 => some (depth, .plain)
    else if c = ',' ∧ depth = 0 then none
    else some (depth, .plain)
  | (depth, .text), c =>
    if c = '"' then some (depth, .plain)
    else if c = '\\' then some (depth, .escape)
    else some (depth, .text)
  | (depth, .escape), _ => some (depth, .text)

def itemRun (p : Nat × Mode) : List Char → Option (Nat × Mode)
  | [] => some p
  | c :: rest =>
    match itemStep p c with
    | some q => itemRun q rest
    | none => none

/-- The characters up to the end of the item. -/
def itemFront (p : Nat × Mode) : List Char → List Char
  | [] => []
  | c :: rest =>
    match itemStep p c with
    | some q => c :: itemFront q rest
    | none => []

theorem itemRun_append {p q : Nat × Mode} {s : List Char} (h : itemRun p s = some q)
    (t : List Char) : itemRun p (s ++ t) = itemRun q t := by
  induction s generalizing p with
  | nil =>
    cases h
    rfl
  | cons c rest ih =>
    cases hs : itemStep p c with
    | none => simp [itemRun, hs] at h
    | some p' =>
      simp only [itemRun, hs] at h
      simpa only [List.cons_append, itemRun, hs] using ih h

theorem itemFront_append {p q : Nat × Mode} {s : List Char} (h : itemRun p s = some q)
    (t : List Char) : itemFront p (s ++ t) = s ++ itemFront q t := by
  induction s generalizing p with
  | nil =>
    cases h
    rfl
  | cons c rest ih =>
    cases hs : itemStep p c with
    | none => simp [itemRun, hs] at h
    | some p' =>
      simp only [itemRun, hs] at h
      simp only [List.cons_append, itemFront, hs, ih h]

theorem itemStep_number {c : Char} (h : Scan.isNumberChar c = true) (depth : Nat) :
    itemStep (depth, .plain) c = some (depth, .plain) := by
  have hne : ∀ d ∈ ['"', '[', '\x7b', ']', '\x7d', ','], c ≠ d := by
    intro d hd he
    subst he
    revert h
    simp only [List.mem_cons, List.not_mem_nil, or_false] at hd
    rcases hd with rfl | rfl | rfl | rfl | rfl | rfl <;> decide
  simp only [List.mem_cons, List.not_mem_nil, or_false, forall_eq_or_imp, forall_eq] at hne
  obtain ⟨h1, h2, h3, h4, h5, h6⟩ := hne
  simp [itemStep, h1, h2, h3, h4, h5, h6]

theorem itemRun_number {s : List Char} (h : ∀ c ∈ s, Scan.isNumberChar c = true) (depth : Nat) :
    itemRun (depth, .plain) s = some (depth, .plain) := by
  induction s with
  | nil => rfl
  | cons c rest ih =>
    rw [itemRun, itemStep_number (h c List.mem_cons_self)]
    exact ih fun d hd => h d (List.mem_cons_of_mem c hd)

theorem itemRun_cons {p q : Nat × Mode} {c : Char} (h : itemStep p c = some q) (s : List Char) :
    itemRun p (c :: s) = itemRun q s := by
  rw [itemRun, h]

theorem itemRun_plainText {s : List Char} (h : ∀ c ∈ s, c ≠ '"' ∧ c ≠ '\\') (depth : Nat) :
    itemRun (depth, .text) s = some (depth, .text) := by
  induction s with
  | nil => rfl
  | cons c rest ih =>
    obtain ⟨hquote, hslash⟩ := h c List.mem_cons_self
    rw [itemRun, itemStep, if_neg hquote, if_neg hslash]
    exact ih fun d hd => h d (List.mem_cons_of_mem c hd)

theorem hexDigits_plain : ∀ n < 0x20, ∀ c ∈ hexDigits 4 n, c ≠ '"' ∧ c ≠ '\\' := by
  have hall : ((List.range 0x20).all fun n =>
      (hexDigits 4 n).all fun c => c != '"' && c != '\\') = true := by decide
  intro n hn c hc
  have hchar := List.all_eq_true.mp (List.all_eq_true.mp hall n (List.mem_range.mpr hn)) c hc
  rw [Bool.and_eq_true, bne_iff_ne, bne_iff_ne] at hchar
  exact hchar

theorem itemRun_escapedChar (c : Char) (depth : Nat) :
    itemRun (depth, .text) (escapedChar c) = some (depth, .text) := by
  unfold escapedChar
  split <;> try rfl
  rename_i hquote hslash _ _ _ _ _
  split
  · rename_i hc
    exact itemRun_plainText (hexDigits_plain c.toNat hc) depth
  · rw [itemRun, itemStep, if_neg hquote, if_neg hslash]
    rfl

theorem itemRun_renderText (s : String) (depth : Nat) :
    itemRun (depth, .plain) (renderText s) = some (depth, .plain) := by
  have hbody : ∀ l : List Char,
      itemRun (depth, .text) (l.flatMap escapedChar ++ ['"']) = some (depth, .plain) := by
    intro l
    induction l with
    | nil => rfl
    | cons c rest ih =>
      rw [List.flatMap_cons, List.append_assoc, itemRun_append (itemRun_escapedChar c depth), ih]
  exact hbody s.toList

mutual

theorem itemRun_render (j : Json) (depth : Nat) :
    itemRun (depth, .plain) (render j) = some (depth, .plain) := by
  match j with
  | .null => rfl
  | .bool true => rfl
  | .bool false => rfl
  | .integer n => exact itemRun_number (numberWord_int n).2 depth
  | .float d =>
    rw [render]
    cases hw : d.wire? with
    | none => rfl
    | some s => exact itemRun_number (Double.numberWord_wire hw).2 depth
  | .text s => exact itemRun_renderText s depth
  | .array [] => rfl
  | .array (j :: rest) =>
    rw [render, itemRun_cons (q := (depth + 1, .plain)) rfl,
      itemRun_append (itemRun_render j (depth + 1)), itemRun_renderItems rest depth]
  | .object [] => rfl
  | .object ((key, j) :: rest) =>
    rw [render, itemRun_cons (q := (depth + 1, .plain)) rfl,
      itemRun_append (itemRun_renderText key (depth + 1)),
      itemRun_cons (q := (depth + 1, .plain)) rfl,
      itemRun_append (itemRun_render j (depth + 1)), itemRun_renderMembers rest depth]

theorem itemRun_renderItems (items : List Json) (depth : Nat) :
    itemRun (depth + 1, .plain) (renderItems items) = some (depth, .plain) := by
  match items with
  | [] => rfl
  | j :: rest =>
    rw [renderItems, itemRun_cons (q := (depth + 1, .plain)) rfl,
      itemRun_append (itemRun_render j (depth + 1)), itemRun_renderItems rest depth]

theorem itemRun_renderMembers (members : List (String × Json)) (depth : Nat) :
    itemRun (depth + 1, .plain) (renderMembers members) = some (depth, .plain) := by
  match members with
  | [] => rfl
  | (key, j) :: rest =>
    rw [renderMembers, itemRun_cons (q := (depth + 1, .plain)) rfl,
      itemRun_append (itemRun_renderText key (depth + 1)),
      itemRun_cons (q := (depth + 1, .plain)) rfl,
      itemRun_append (itemRun_render j (depth + 1)), itemRun_renderMembers rest depth]

end

theorem render_ne_nil (j : Json) : render j ≠ [] := by
  match j with
  | .null | .bool true | .bool false | .text _ | .array [] | .array (_ :: _) | .object []
  | .object (_ :: _) => simp [render, renderText]
  | .integer n => exact (numberWord_int n).1
  | .float d =>
    rw [render]
    cases hw : d.wire? with
    | none => decide
    | some s => exact (Double.numberWord_wire hw).1

theorem itemFront_renderItems (items : List Json) :
    itemFront (0, .plain) (renderItems items) = [] := by
  cases items <;> rfl

theorem itemFront_render (j : Json) (items : List Json) :
    itemFront (0, .plain) (render j ++ renderItems items) = render j := by
  rw [itemFront_append (itemRun_render j 0), itemFront_renderItems, List.append_nil]

theorem renderItems_inj {items items' : List Json} (h : renderItems items = renderItems items') :
    items.map render = items'.map render := by
  induction items generalizing items' with
  | nil =>
    cases items' with
    | nil => rfl
    | cons j rest => simp [renderItems] at h
  | cons j rest ih =>
    cases items' with
    | nil => simp [renderItems] at h
    | cons j' rest' =>
      have htail : render j ++ renderItems rest = render j' ++ renderItems rest' := by
        simpa [renderItems] using h
      have hj : render j = render j' := by
        rw [← itemFront_render j rest, htail, itemFront_render]
      rw [hj] at htail
      rw [List.map_cons, List.map_cons, hj, ih (List.append_cancel_left htail)]

theorem render_array_inj {items items' : List Json}
    (h : render (.array items) = render (.array items')) :
    items.map render = items'.map render := by
  have hopen : ∀ (j : Json) (rest : List Json), [']'] ≠ render j ++ renderItems rest := by
    intro j rest he
    have hf := itemFront_render j rest
    rw [← he] at hf
    exact render_ne_nil j hf.symm
  match items, items' with
  | [], [] => rfl
  | [], j :: rest =>
    rw [render, render] at h
    exact absurd (List.cons.inj h).2 (hopen j rest)
  | j :: rest, [] =>
    rw [render, render] at h
    exact absurd (List.cons.inj h).2.symm (hopen j rest)
  | j :: rest, j' :: rest' =>
    rw [render, render] at h
    apply renderItems_inj
    rw [renderItems, renderItems, (List.cons.inj h).2]

end Inventory.Json
