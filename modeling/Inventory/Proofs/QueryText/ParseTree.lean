import Inventory.Proofs.QueryText.Agreement
import Inventory.Proofs.QueryText.Written
import Inventory.Proofs.TextMap

/-! The trees of expressions that a query is read as. Every condition that is read is the condition
of a tree that the query spells, character by character, at the place of its term. -/

namespace Inventory.QueryText

/-- An expression as it was read. -/
inductive ParseTree where
  | quoted (inside : List Char)
  | word (text : List Char)
  | call (name : List Char) (arguments : List ParseTree)

namespace ParseTree

mutual

def condition : ParseTree → Condition
  | .quoted inside => .value (.text (String.ofList inside))
  | .word text => .value (literal text)
  | .call name arguments => callFilter name (conditions arguments)

def conditions : List ParseTree → List Condition
  | [] => []
  | t :: rest => condition t :: conditions rest

end

mutual

/-- The text is this expression with blanks around it. -/
def Spells : ParseTree → List Char → Prop
  | .quoted inside, raw => ∃ before after q, Scan.isQuote q = true ∧
      raw = padded before (q :: (inside ++ [q])) after
  | .word text, raw => ∃ before after, raw = padded before text after
  | .call name arguments, raw => ∃ before after inside, isIdentifier name = true ∧
      ArgumentsSpell arguments inside ∧ raw = padded before (name ++ '(' :: (inside ++ [')'])) after

/-- What stands between the parentheses of a call. -/
def ArgumentsSpell : List ParseTree → List Char → Prop
  | [], inside => ∀ c ∈ inside, Text.isBlank c = true
  | t :: rest, inside => ∃ front back, Spells t front ∧ MoreSpell rest back ∧ inside = front ++ back

def MoreSpell : List ParseTree → List Char → Prop
  | [], s => s = []
  | t :: rest, s => ∃ front back, Spells t front ∧ MoreSpell rest back ∧ s = ',' :: (front ++ back)

end

mutual

/-- The plain words of the tree, from left to right. -/
def words : ParseTree → List (List Char)
  | .quoted _ => []
  | .word text => [text]
  | .call _ arguments => wordsOfAll arguments

def wordsOfAll : List ParseTree → List (List Char)
  | [] => []
  | t :: rest => words t ++ wordsOfAll rest

end

mutual

/-- How many calls are written without arguments, for operations that do not always take a list. -/
def bareCalls : ParseTree → Nat
  | .quoted _ => 0
  | .word _ => 0
  | .call name [] => if (Operation.lookup (String.ofList name)).isVariadic then 0 else 1
  | .call _ (t :: rest) => bareCalls t + bareCallsOfAll rest

def bareCallsOfAll : List ParseTree → Nat
  | [] => 0
  | t :: rest => bareCalls t + bareCallsOfAll rest

end

end ParseTree

theorem mapM_eq_ok {α β ε : Type} {f : α → Except ε β} {xs : List α} {ys : List β} :
    xs.mapM f = .ok ys ↔ List.Forall₂ (fun x y => f x = .ok y) xs ys := by
  constructor
  · intro h
    induction xs generalizing ys with
    | nil =>
      cases h
      exact .nil
    | cons x xs ih =>
      rw [List.mapM_cons] at h
      cases hx : f x with
      | error e =>
        rw [hx] at h
        cases h
      | ok y =>
        rw [hx] at h
        cases hxs : xs.mapM f with
        | error e =>
          rw [hxs] at h
          cases h
        | ok rest =>
          rw [hxs] at h
          cases h
          exact .cons hx (ih hxs)
  · intro h
    induction h with
    | nil => rfl
    | cons hx _ ih =>
      rw [List.mapM_cons, hx, ih]
      rfl

theorem exists_of_mem_mapM {α β ε : Type} {f : α → Except ε β} {xs : List α} {ys : List β}
    (h : xs.mapM f = .ok ys) {y : β} (hy : y ∈ ys) : ∃ x ∈ xs, f x = .ok y := by
  have hall := mapM_eq_ok.mp h
  clear h
  induction hall with
  | nil => cases hy
  | @cons x _ xs _ hx _ ih =>
    rcases List.mem_cons.mp hy with rfl | hy
    · exact ⟨x, List.mem_cons_self, hx⟩
    · obtain ⟨x', hx', hf⟩ := ih hy
      exact ⟨x', List.mem_cons_of_mem _ hx', hf⟩

theorem exists_padded (s : List Char) : ∃ before after, s = padded before (Text.trim s) after := by
  obtain ⟨trail, hs, htrail⟩ := trim_spec s
  exact ⟨⟨_, fun c hc => List.mem_takeWhile_imp hc⟩, ⟨trail, htrail⟩, hs⟩

theorem unquote?_eq_some {s inside : List Char} (h : unquote? s = some inside) :
    ∃ q, Scan.isQuote q = true ∧ s = q :: (inside ++ [q]) := by
  rw [unquote?.eq_def] at h
  split at h
  · cases h
  · rename_i q rest
    split at h
    · rename_i hq
      obtain rfl := Option.some.inj h
      refine ⟨q, ?_, ?_⟩
      · rw [Scan.isQuote, Bool.or_eq_true, beq_iff_eq, beq_iff_eq]
        exact hq.1
      · rw [List.dropLast_append_getLast? q hq.2]
    · cases h

namespace Reference

theorem trim_chars (gs : List Glyph) :
    (trim gs).map Glyph.char = Text.trim (gs.map Glyph.char) := by
  have hblank : Glyph.isBlank = Text.isBlank ∘ Glyph.char := rfl
  rw [trim, Text.trim, Text.trimStart, Text.trimEnd, hblank, List.dropWhile_map, ← List.map_reverse,
    List.dropWhile_map, ← List.map_reverse]

theorem call?_eq_some {gs : List Glyph} {call : Call} (h : call? gs = .ok (some call)) :
    isIdentifier call.name = true ∧
      gs.map Glyph.char = call.name ++ '(' :: (call.inside.map Glyph.char ++ [')']) := by
  have hsplit : (gs.takeWhile fun g => g.char != '(') ++ (gs.dropWhile fun g => g.char != '(') = gs :=
    List.takeWhile_append_dropWhile
  have hhead := List.head?_dropWhile_not (fun g => g.char != '(') gs
  simp only [call?] at h
  split at h
  · cases h
  · rename_i opening body hbody
    rw [hbody] at hsplit hhead
    have hopening : opening.char = '(' := by simpa using hhead
    split at h
    · rename_i hname
      split at h
      · cases h
      · rename_i inside hinside
        cases h
        obtain ⟨g, hgs, hcloses, -⟩ := splitAtClosing?_eq_some hinside
        have hclosing : g.char = ')' := by
          simp only [Glyph.closes, Glyph.isClosing, Bool.and_eq_true, beq_iff_eq] at hcloses
          exact hcloses.1.2
        have hchars := congrArg (List.map Glyph.char) hsplit
        rw [hgs, List.map_append, List.map_cons, List.map_append, List.map_singleton, hopening,
          hclosing] at hchars
        exact ⟨hname, hchars.symm⟩
      · cases h
    · cases h

/-- A text is its parts with the separators between them. -/
theorem splitOnP_chars {separates : Glyph → Bool} {c : Char}
    (hc : ∀ g, separates g = true → g.char = c) (gs : List Glyph) :
    ∃ first more, gs.splitOnP separates = first :: more ∧
      gs.map Glyph.char =
        first.map Glyph.char ++ more.flatMap fun part => c :: part.map Glyph.char := by
  induction gs with
  | nil => exact ⟨[], [], List.splitOnP_nil, rfl⟩
  | cons g rest ih =>
    obtain ⟨first, more, hparts, hchars⟩ := ih
    rw [List.splitOnP_cons_eq_if_modifyHead, hparts]
    by_cases hg : separates g = true
    · refine ⟨[], first :: more, if_pos hg, ?_⟩
      simp [hc g hg, hchars]
    · refine ⟨g :: first, more, if_neg hg, ?_⟩
      simp [hchars]

theorem trim_eq_nil {s : List Char} (h : Text.trim s = []) : ∀ c ∈ s, Text.isBlank c = true := by
  obtain ⟨before, after, hs⟩ := exists_padded s
  rw [h, padded, List.nil_append] at hs
  rw [hs]
  exact List.forall_mem_append.mpr ⟨before.blank, after.blank⟩

/-- What stands between the parentheses is written by what its parts are written by. -/
theorem arguments_chars (call : Call) :
    (call.arguments = [] ∧ ∀ c ∈ call.inside.map Glyph.char, Text.isBlank c = true) ∨
      ∃ first more, call.arguments = first :: more ∧ call.inside.map Glyph.char =
        first.map Glyph.char ++ more.flatMap fun part => ',' :: part.map Glyph.char := by
  rw [Call.arguments]
  split
  · rename_i hblank
    have htrim : Text.trim (call.inside.map Glyph.char) = [] := by
      rw [← trim_chars, List.isEmpty_iff.mp hblank, List.map_nil]
    exact .inl ⟨rfl, trim_eq_nil htrim⟩
  · refine .inr (splitOnP_chars (fun g hg => ?_) call.inside)
    rw [Glyph.separates, Bool.and_eq_true] at hg
    exact eq_of_beq hg.2

end Reference

namespace ParseTree

/-- The tree is written by the marked text and means the condition. -/
def Reads (gs : List Glyph) (c : Condition) (t : ParseTree) : Prop :=
  t.Spells (gs.map Glyph.char) ∧ t.condition = c

theorem exists_more {parts : List (List Glyph)} {cs : List Condition}
    (h : List.Forall₂ (fun part c => Reference.condition part = .ok c) parts cs)
    (hread : ∀ part ∈ parts, ∀ c, Reference.condition part = .ok c → ∃ t, Reads part c t) :
    ∃ ts, MoreSpell ts (parts.flatMap fun part => ',' :: part.map Glyph.char) ∧
      conditions ts = cs := by
  induction h with
  | nil => exact ⟨[], rfl, rfl⟩
  | @cons part c parts cs hpart _ ih =>
    obtain ⟨hhead, htail⟩ := List.forall_mem_cons.mp hread
    obtain ⟨t, hspells, rfl⟩ := hhead c hpart
    obtain ⟨ts, hmore, rfl⟩ := ih htail
    exact ⟨t :: ts, ⟨_, _, hspells, hmore, List.flatMap_cons⟩, rfl⟩

theorem exists_arguments {call : Reference.Call} {cs : List Condition}
    (h : call.arguments.mapM Reference.condition = .ok cs)
    (hread : ∀ part ∈ call.arguments, ∀ c, Reference.condition part = .ok c →
      ∃ t, Reads part c t) :
    ∃ ts, ArgumentsSpell ts (call.inside.map Glyph.char) ∧ conditions ts = cs := by
  have hparts := mapM_eq_ok.mp h
  rcases Reference.arguments_chars call with ⟨hnone, hblank⟩ | ⟨first, more, hsome, hinside⟩
  · rw [hnone] at hparts
    cases hparts
    exact ⟨[], hblank, rfl⟩
  · rw [hsome] at hparts hread
    obtain ⟨hhead, htail⟩ := List.forall_mem_cons.mp hread
    cases hparts with
    | @cons _ c _ cs hfirst hmore =>
      obtain ⟨t, hspells, rfl⟩ := hhead c hfirst
      obtain ⟨ts, hrest, rfl⟩ := exists_more hmore htail
      exact ⟨t :: ts, ⟨_, _, hspells, hrest, hinside⟩, rfl⟩

/-- Every condition that is read is that of a tree that the text spells. -/
theorem exists_of_condition {gs : List Glyph} {c : Condition}
    (h : Reference.condition gs = .ok c) : ∃ t, Reads gs c t := by
  -- By induction on the length: the arguments of a call are shorter than the call.
  induction hn : gs.length using Nat.strong_induction_on generalizing gs c with
  | _ n ih =>
    subst hn
    obtain ⟨before, after, hpadded⟩ := exists_padded (gs.map Glyph.char)
    rw [← Reference.trim_chars] at hpadded
    rw [Reference.condition_eq] at h
    split at h
    · rename_i inside hquotation
      rw [quotation?_eq] at hquotation
      obtain ⟨q, hq, hinside⟩ := unquote?_eq_some hquotation
      cases h
      exact ⟨.quoted inside, ⟨before, after, q, hq, hinside ▸ hpadded⟩, rfl⟩
    · split at h
      · cases h
      · cases h
        exact ⟨.word _, ⟨before, after, hpadded⟩, rfl⟩
      · rename_i call hcall
        obtain ⟨hname, hchars⟩ := Reference.call?_eq_some hcall
        have hshort : call.inside.length < gs.length :=
          Nat.lt_of_lt_of_le (Reference.call?_length hcall) (Reference.trim_length gs)
        cases hcs : call.arguments.mapM Reference.condition with
        | error e =>
          rw [hcs] at h
          cases h
        | ok cs =>
          rw [hcs] at h
          cases h
          obtain ⟨ts, hspells, rfl⟩ := exists_arguments hcs fun part hpart c hc =>
            ih part.length (Nat.lt_of_le_of_lt (Reference.arguments_length hpart) hshort) hc rfl
          rw [hchars] at hpadded
          exact ⟨.call call.name ts, ⟨before, after, _, hname, hspells, hpadded⟩, rfl⟩

end ParseTree

namespace Reference

theorem infix_of_mem_splitOnP {separates : Glyph → Bool} {gs part : List Glyph}
    (h : part ∈ gs.splitOnP separates) : part <:+: gs := by
  -- The first part is a prefix, which the next character before it extends.
  have hboth : ∀ first more, gs.splitOnP separates = first :: more →
      first <+: gs ∧ ∀ p ∈ more, p <:+: gs := by
    clear h
    induction gs with
    | nil =>
      intro first more heq
      rw [List.splitOnP_nil] at heq
      cases heq
      exact ⟨List.prefix_refl [], List.forall_mem_nil _⟩
    | cons g rest ih =>
      intro first more heq
      obtain ⟨front, back, hparts⟩ := List.exists_cons_of_ne_nil (List.splitOnP_ne_nil separates rest)
      obtain ⟨hfront, hback⟩ := ih front back hparts
      rw [List.splitOnP_cons_eq_if_modifyHead, hparts] at heq
      split at heq
      · cases heq
        refine ⟨List.nil_prefix, List.forall_mem_cons.mpr ⟨?_, fun p hp => ?_⟩⟩
        · exact hfront.isInfix.trans (List.suffix_cons g rest).isInfix
        · exact (hback p hp).trans (List.suffix_cons g rest).isInfix
      · cases heq
        exact ⟨List.cons_prefix_cons.mpr ⟨rfl, hfront⟩,
          fun p hp => (hback p hp).trans (List.suffix_cons g rest).isInfix⟩
  obtain ⟨first, more, hparts⟩ := List.exists_cons_of_ne_nil (List.splitOnP_ne_nil separates gs)
  obtain ⟨hfirst, hmore⟩ := hboth first more hparts
  rw [hparts] at h
  rcases List.mem_cons.mp h with rfl | h
  · exact hfirst.isInfix
  · exact hmore part h

theorem term_eq_ok {gs : List Glyph} {name : String} {c : Condition}
    (h : term gs = .ok (name, c)) : ∃ t raw, ParseTree.Spells t raw ∧ t.condition = c ∧
      gs.map Glyph.char = name.toList ++ '=' :: raw := by
  have hsplit : (gs.takeWhile fun g => g.char != '=') ++ (gs.dropWhile fun g => g.char != '=') = gs :=
    List.takeWhile_append_dropWhile
  have hhead := List.head?_dropWhile_not (fun g => g.char != '=') gs
  simp only [term] at h
  split at h
  · cases h
  · rename_i equals raw hraw
    rw [hraw] at hsplit hhead
    have hequals : equals.char = '=' := by simpa using hhead
    have hchars := congrArg (List.map Glyph.char) hsplit
    rw [List.map_append, List.map_cons, hequals] at hchars
    split at h
    · cases h
    · split at h
      · cases h
      · cases hc : condition raw with
        | error e =>
          rw [hc] at h
          cases h
        | ok c' =>
          rw [hc] at h
          cases h
          obtain ⟨t, hspells, ht⟩ := ParseTree.exists_of_condition hc
          refine ⟨t, _, hspells, ht, ?_⟩
          rw [String.toList_ofList, hchars]

end Reference

/-- Every condition of the filters is that of a tree which the query spells after the attribute. -/
theorem exists_tree_of_parse {query : List Char} {filters : Filters}
    (h : parse query = .ok filters) {name : String} {c : Condition}
    (hc : (name, c) ∈ filters.entries) : ∃ t raw, ParseTree.Spells t raw ∧ t.condition = c ∧
      name.toList ++ '=' :: raw <:+: query := by
  rw [parse_eq_reference, Reference.parse] at h
  split at h
  · cases h
  · rename_i gs hscan
    obtain ⟨rfl, -⟩ := scan_eq_ok.mp hscan
    cases hterms : (Reference.terms (Cursor.start.glyphs query)).mapM Reference.term with
    | error e =>
      rw [hterms] at h
      cases h
    | ok es =>
      rw [hterms] at h
      cases h
      rw [TextMap.mem_entries, TextMap.get?_ofList] at hc
      have hmem := List.mem_reverse.mp (mem_of_lookup_eq_some hc)
      obtain ⟨part, hpart, hread⟩ := exists_of_mem_mapM hterms hmem
      obtain ⟨t, raw, hspells, ht, hchars⟩ := Reference.term_eq_ok hread
      have hinfix := Reference.infix_of_mem_splitOnP (List.mem_filter.mp hpart).1
      refine ⟨t, raw, hspells, ht, ?_⟩
      rw [← hchars, ← Cursor.glyphs_chars Cursor.start query]
      exact hinfix.map Glyph.char

end Inventory.QueryText
