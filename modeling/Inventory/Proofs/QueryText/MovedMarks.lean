import Inventory.Proofs.QueryText.Expressions

/-! Marks that stand elsewhere. What is read from marks depends on their positions only where it fails,
and the position of the error moves with the marks. -/

namespace Inventory.QueryText

def Glyph.shift (n : Nat) (g : Glyph) : Glyph := { g with position := n + g.position }

def SyntaxError.shift (n : Nat) (e : SyntaxError) : SyntaxError :=
  { e with position := n + e.position }

def moved (n : Nat) (gs : List Glyph) : List Glyph := gs.map (Glyph.shift n)

theorem moved_chars (n : Nat) (gs : List Glyph) :
    (moved n gs).map Glyph.char = gs.map Glyph.char := by
  rw [moved, List.map_map]
  rfl

theorem splitOnP_map {α β : Type} (f : α → β) (p : β → Bool) (xs : List α) :
    (xs.map f).splitOnP p = (xs.splitOnP (p ∘ f)).map (List.map f) := by
  induction xs with
  | nil => simp
  | cons x rest ih =>
    rw [List.map_cons, List.splitOnP_cons_eq_if_modifyHead, List.splitOnP_cons_eq_if_modifyHead, ih]
    by_cases hx : p (f x) = true
    · simp [hx]
    · cases rest.splitOnP (p ∘ f) <;> simp [hx]

theorem splitOnP_moved (n : Nat) (gs : List Glyph) (wanted : Char → Bool) (depth : Nat) :
    (moved n gs).splitOnP (Glyph.separates wanted depth) =
      (gs.splitOnP (Glyph.separates wanted depth)).map (moved n) := by
  have hsep : Glyph.separates wanted depth ∘ Glyph.shift n = Glyph.separates wanted depth := rfl
  rw [moved, splitOnP_map, hsep]
  rfl

theorem takeWhile_moved (n : Nat) (gs : List Glyph) (p : Char → Bool) :
    (moved n gs).takeWhile (fun g => p g.char) = moved n (gs.takeWhile fun g => p g.char) := by
  rw [moved, List.takeWhile_map]
  rfl

theorem dropWhile_moved (n : Nat) (gs : List Glyph) (p : Char → Bool) :
    (moved n gs).dropWhile (fun g => p g.char) = moved n (gs.dropWhile fun g => p g.char) := by
  rw [moved, List.dropWhile_map]
  rfl

theorem mapM_mapError {α β ε ε' : Type} {f : α → Except ε' β} {g : α → Except ε β} {s : ε → ε'}
    {xs : List α} (h : ∀ x ∈ xs, f x = (g x).mapError s) :
    xs.mapM f = (xs.mapM g).mapError s := by
  induction xs with
  | nil => rfl
  | cons x rest ih =>
    have hx := h x List.mem_cons_self
    have hrest := ih fun y hy => h y (List.mem_cons_of_mem x hy)
    rw [List.mapM_cons, List.mapM_cons, hx, hrest]
    cases g x with
    | error e => rfl
    | ok y => cases rest.mapM g <;> rfl

namespace Reference

theorem trim_moved (n : Nat) (gs : List Glyph) : trim (moved n gs) = moved n (trim gs) := by
  have hblank : Glyph.isBlank ∘ Glyph.shift n = Glyph.isBlank := rfl
  simp only [trim, moved, List.dropWhile_map, ← List.map_reverse, hblank]

theorem quotation?_moved (n : Nat) (gs : List Glyph) :
    quotation? (moved n gs) = quotation? gs := by
  rw [quotation?_eq, quotation?_eq, moved_chars]

def Call.moved (n : Nat) (call : Call) : Call :=
  { call with inside := QueryText.moved n call.inside }

theorem splitAtClosing?_moved (n depth : Nat) (gs : List Glyph) :
    splitAtClosing? depth (moved n gs) =
      (splitAtClosing? depth gs).map fun parts => (moved n parts.1, moved n parts.2) := by
  induction gs with
  | nil => rfl
  | cons g rest ih =>
    have hcons : moved n (g :: rest) = g.shift n :: moved n rest := rfl
    have hcloses : (g.shift n).closes depth = g.closes depth := rfl
    rw [hcons, splitAtClosing?_cons, splitAtClosing?_cons, ih, hcloses]
    by_cases hg : g.closes depth = true
    · simp [hg, moved]
    · cases splitAtClosing? depth rest <;> simp [hg, moved]

theorem call?_moved (n : Nat) (gs : List Glyph) :
    call? (moved n gs) =
      ((call? gs).map (Option.map (Call.moved n))).mapError (SyntaxError.shift n) := by
  have hname := takeWhile_moved n gs (· != '(')
  have hrest := dropWhile_moved n gs (· != '(')
  simp only [call?, hname, hrest, moved_chars]
  cases gs.dropWhile fun g => g.char != '(' with
  | nil => rfl
  | cons opening body =>
    have hcons : moved n (opening :: body) = opening.shift n :: moved n body := rfl
    have hdepth : (opening.shift n).depth = opening.depth := rfl
    simp only [hcons, hdepth, splitAtClosing?_moved]
    by_cases hid : isIdentifier ((gs.takeWhile fun g => g.char != '(').map Glyph.char) = true
    · rw [if_pos hid, if_pos hid]
      cases splitAtClosing? (opening.depth + 1) body with
      | none => rfl
      | some parts =>
        obtain ⟨inside, rest⟩ := parts
        cases rest <;> rfl
    · rw [if_neg hid, if_neg hid]
      rfl

theorem arguments_moved (n : Nat) (call : Call) :
    (call.moved n).arguments = call.arguments.map (moved n) := by
  have hsplit := splitOnP_moved n call.inside (· == ',') call.depth
  have hempty : (trim (moved n call.inside)).isEmpty = (trim call.inside).isEmpty := by
    rw [trim_moved, moved, List.isEmpty_map]
  rw [Call.arguments, Call.arguments, Call.moved]
  simp only [hsplit, hempty]
  by_cases h : (trim call.inside).isEmpty = true
  · simp [h]
  · simp [h]

theorem condition_moved (n : Nat) (gs : List Glyph) :
    condition (moved n gs) = (condition gs).mapError (SyntaxError.shift n) := by
  -- By induction on the length: the arguments of a call are shorter than the call.
  induction hn : gs.length using Nat.strong_induction_on generalizing gs with
  | _ m ih =>
    subst hn
    rw [condition_eq, condition_eq, trim_moved, quotation?_moved, call?_moved]
    cases quotation? (trim gs) with
    | some inside => rfl
    | none =>
      cases hcall : call? (trim gs) with
      | error e => rfl
      | ok found =>
        cases found with
        | none => simp only [Except.map, Except.mapError, Option.map_none, moved_chars]
        | some call =>
          have hshort : ∀ part ∈ call.arguments, part.length < gs.length := by
            intro part hpart
            calc part.length ≤ call.inside.length := arguments_length hpart
              _ < (trim gs).length := call?_length hcall
              _ ≤ gs.length := trim_length gs
          have harguments : (call.moved n).arguments.mapM condition =
              (call.arguments.mapM condition).mapError (SyntaxError.shift n) := by
            rw [arguments_moved, List.mapM_map]
            apply mapM_mapError
            intro part hpart
            exact ih part.length (hshort part hpart) part rfl
          have hname : (call.moved n).name = call.name := rfl
          simp only [Except.map, Except.mapError, Option.map_some, harguments, hname]
          cases call.arguments.mapM condition <;> rfl

theorem term_moved (n : Nat) {gs : List Glyph} (h : gs ≠ []) :
    term (moved n gs) = (term gs).mapError (SyntaxError.shift n) := by
  have hfield := takeWhile_moved n gs (· != '=')
  have hrest := dropWhile_moved n gs (· != '=')
  have hstart : ((moved n gs).head?.map Glyph.position).getD 0 =
      n + (gs.head?.map Glyph.position).getD 0 := by
    cases gs with
    | nil => exact absurd rfl h
    | cons g rest => rfl
  simp only [term, hfield, hrest, hstart, moved_chars]
  cases gs.dropWhile fun g => g.char != '=' with
  | nil => rfl
  | cons equals raw =>
    have hcons : moved n (equals :: raw) = equals.shift n :: moved n raw := rfl
    simp only [hcons, condition_moved]
    split
    · rfl
    · split
      · rfl
      · cases condition raw <;> rfl

theorem terms_moved (n : Nat) (gs : List Glyph) :
    terms (moved n gs) = (terms gs).map (moved n) := by
  have hempty : (fun part : List Glyph => !part.isEmpty) ∘ moved n = fun part => !part.isEmpty := by
    funext part
    simp [moved]
  rw [terms, terms, splitOnP_moved, List.filter_map, hempty]

end Reference

end Inventory.QueryText
