import Inventory.Query
import Inventory.Proofs.QueryText.Agreement
import Inventory.Proofs.QueryText.FaultPositions

/-! Where a query that is rejected is at fault. The scan of the whole query reports every delimiter out
of place; once it is through, what is wrong is a term without an attribute, or a call with text after it.
The scans that begin again inside the query then always come to their end. -/

namespace Inventory.QueryText

theorem cutFrom_pairwise (separates : Marked → Bool) (position : Nat) (marked : List Marked) :
    (∀ p ∈ (cutFrom separates position marked).2,
      position + Text.byteLength (cutFrom separates position marked).1 < p.start) ∧
    (cutFrom separates position marked).2.Pairwise
      fun p q => p.start + Text.byteLength p.text < q.start := by
  induction marked generalizing position with
  | nil => exact ⟨List.forall_mem_nil _, .nil⟩
  | cons m rest ih =>
    obtain ⟨hlater, hordered⟩ := ih (position + m.char.utf8Size)
    have hsize := m.char.utf8Size_pos
    simp only [cutFrom]
    split
    · refine ⟨List.forall_mem_cons.mpr ⟨?_, fun p hp => ?_⟩, .cons hlater hordered⟩
      · simp only [Text.byteLength]
        omega
      · have hp := hlater p hp
        simp only [Text.byteLength]
        omega
    · refine ⟨fun p hp => ?_, hordered⟩
      have hp := hlater p hp
      simp only [Text.byteLength]
      omega

theorem cut_pairwise (separates : Marked → Bool) (marked : List Marked) :
    (cut separates marked).Pairwise fun p q => p.start + Text.byteLength p.text < q.start := by
  obtain ⟨hlater, hordered⟩ := cutFrom_pairwise separates 0 marked
  exact .cons hlater hordered

theorem mapM_eq_error {α β ε : Type} {f : α → Except ε β} {xs : List α} {e : ε}
    (h : xs.mapM f = .error e) : ∃ earlier x later, xs = earlier ++ x :: later ∧
      (∀ y ∈ earlier, ∃ r, f y = .ok r) ∧ f x = .error e := by
  induction xs with
  | nil => cases h
  | cons x xs ih =>
    rw [List.mapM_cons] at h
    cases hx : f x with
    | error e' =>
      rw [hx] at h
      cases h
      exact ⟨[], x, xs, rfl, List.forall_mem_nil _, hx⟩
    | ok r =>
      have hrest : xs.mapM f = .error e := by
        rw [hx] at h
        cases hxs : xs.mapM f with
        | error e' =>
          rw [hxs] at h
          cases h
          rfl
        | ok rs =>
          rw [hxs] at h
          cases h
      obtain ⟨earlier, y, later, rfl, hearlier, hy⟩ := ih hrest
      exact ⟨x :: earlier, y, later, rfl, List.forall_mem_cons.mpr ⟨⟨r, hx⟩, hearlier⟩, hy⟩

theorem exists_of_forall₂ {α β : Type} {r : α → β → Prop} {xs : List α} {ys : List β}
    (h : List.Forall₂ r xs ys) : ∀ x ∈ xs, ∃ y, r x y := by
  induction h with
  | nil => exact List.forall_mem_nil _
  | cons hxy _ ih => exact List.forall_mem_cons.mpr ⟨⟨_, hxy⟩, ih⟩

theorem Cursor.Reaches.trans {k k' k'' : Cursor} {s t u : List Char} (h : k.Reaches s k' t)
    (h' : k'.Reaches t k'' u) : k.Reaches s k'' u := by
  obtain ⟨front, back, rfl, rfl⟩ := h
  obtain ⟨front', back', rfl, rfl⟩ := h'
  refine ⟨front ++ front', back' ++ back, ?_, ?_⟩
  · simp only [List.append_assoc]
  · rw [after_append]

/-- A call with more text after it stands in the text that is read from `k` on. -/
def TrailingText (k : Cursor) (s : List Char) (e : SyntaxError) : Prop :=
  ∃ k' name inside c rest, isIdentifier name = true ∧ k'.Encloses name inside ∧
    k.Reaches s k' (name ++ '(' :: (inside ++ ')' :: c :: rest)) ∧
    e = ⟨name ++ '(' :: (inside ++ ')' :: c :: rest),
      k'.position + Text.byteLength name + 1 + Text.byteLength inside + 1, .textAfterCall⟩

theorem TrailingText.mono {k k' : Cursor} {s t : List Char} {e : SyntaxError}
    (h : k.Reaches s k' t) (ht : TrailingText k' t e) : TrailingText k s e := by
  obtain ⟨k'', name, inside, c, rest, hname, hencloses, hreached, he⟩ := ht
  exact ⟨k'', name, inside, c, rest, hname, hencloses, h.trans hreached, he⟩

theorem reaches_trimmed (k : Cursor) (s : List Char) : k.Reaches s (k.trimmed s) (Text.trim s) := by
  obtain ⟨trail, hs, -⟩ := trim_spec s
  exact ⟨_, trail, hs, rfl⟩

theorem reaches_inside (k : Cursor) (name inside : List Char) :
    k.Reaches (name ++ '(' :: (inside ++ [')'])) (k.opened name) inside := by
  refine ⟨name ++ ['('], [')'], ?_, ?_⟩
  · simp
  · rw [Cursor.after_append]
    rfl

theorem cutFrom_preceded (separates : Marked → Bool) (position : Nat) (marked : List Marked) :
    ∀ p ∈ (cutFrom separates position marked).2, ∃ front m, front ++ [m] <+: marked ∧
      separates m = true ∧
      p.start = position + Text.byteLength ((front ++ [m]).map Marked.char) := by
  induction marked generalizing position with
  | nil => exact List.forall_mem_nil _
  | cons m rest ih =>
    have hlater : ∀ p ∈ (cutFrom separates (position + m.char.utf8Size) rest).2, ∃ front n,
        front ++ [n] <+: m :: rest ∧ separates n = true ∧
        p.start = position + Text.byteLength ((front ++ [n]).map Marked.char) := by
      intro p hp
      obtain ⟨front, n, hleads, hn, hstart⟩ := ih (position + m.char.utf8Size) p hp
      refine ⟨m :: front, n, List.cons_prefix_cons.mpr ⟨rfl, hleads⟩, hn, ?_⟩
      rw [List.cons_append, List.map_cons, Text.byteLength, hstart, Nat.add_assoc]
    simp only [cutFrom]
    split
    · rename_i hm
      exact List.forall_mem_cons.mpr
        ⟨⟨[], m, List.cons_prefix_cons.mpr ⟨rfl, List.nil_prefix⟩, hm, rfl⟩, hlater⟩
    · exact hlater

/-- An argument begins where its call does, or right after a comma. -/
theorem arguments_preceded {s : List Char} {offset : Nat} {pieces : List Piece}
    (h : arguments s offset = .ok pieces) : ∀ p ∈ pieces, p.start = 0 ∨
      ∃ front, front ++ [','] <+: s ∧ p.start = Text.byteLength (front ++ [',']) := by
  rw [arguments] at h
  split at h
  · obtain rfl := Except.ok.inj h
    exact List.forall_mem_nil _
  · cases hmarked : markOuter s offset with
    | error e =>
      rw [hmarked] at h
      cases h
    | ok marked =>
      rw [hmarked] at h
      obtain rfl := Except.ok.inj h
      refine List.forall_mem_cons.mpr ⟨.inl rfl, fun p hp => .inr ?_⟩
      obtain ⟨front, m, hleads, hm, hstart⟩ := cutFrom_preceded _ 0 marked p hp
      rw [Bool.and_eq_true, beq_iff_eq] at hm
      rw [Nat.zero_add, List.map_append, List.map_singleton, hm.2] at hstart
      refine ⟨front.map Marked.char, ?_, hstart⟩
      have hchars := hleads.map Marked.char
      rwa [List.map_append, List.map_singleton, hm.2, markOuter_chars hmarked] at hchars

/-- The arguments that are cut out of the inside of a call are balanced where they stand, and may begin
with a quote there. -/
theorem arguments_reached {k : Cursor} {inside : List Char} (h : k.Balanced inside)
    (hm : k.mayQuote = true) : ∃ pieces, arguments inside k.position = .ok pieces ∧
      ∀ p ∈ pieces, ∃ k', k'.position = k.position + p.start ∧ k'.Balanced p.text ∧
        k'.mayQuote = true ∧ k.Reaches inside k' p.text := by
  obtain ⟨pieces, hpieces, hparts⟩ := arguments_agree h hm []
  refine ⟨pieces, hpieces, fun p hp => ?_⟩
  obtain ⟨gs, k', hreads, hreached⟩ := exists_of_forall₂ hparts p hp
  have hposition := hreads.position
  refine ⟨k', hposition, hreads.balanced, ?_, hreached⟩
  obtain ⟨front, back, hinside, rfl⟩ := hreached
  have hstart : Text.byteLength front = p.start := by
    rw [Cursor.position_after] at hposition
    omega
  rcases arguments_preceded hpieces p hp with hzero | ⟨before, hbefore, hcomma⟩
  · rwa [eq_nil_of_byteLength (hstart.trans hzero)]
  · have hfront : front <+: inside := ⟨_, hinside.symm⟩
    rw [eq_of_prefix_of_byteLength hfront hbefore (hstart.trans hcomma), Cursor.after_append]
    rfl

/-- Only text after a call makes a balanced expression fail. -/
theorem expression_eq_error {k : Cursor} {raw : List Char} (h : k.Balanced raw) {e : SyntaxError}
    (he : expression raw k.position = .error e) : TrailingText k raw e := by
  -- By induction on the length: the arguments of a call are shorter than the call.
  induction hn : raw.length using Nat.strong_induction_on generalizing k raw with
  | _ n ih =>
    subst hn
    obtain ⟨-, htrim⟩ := h.trim
    have hreached := reaches_trimmed k raw
    rw [expression_eq] at he
    cases hquotation : unquote? (Text.trim raw) with
    | some inside =>
      rw [hquotation] at he
      cases he
    | none =>
      have hstart : k.position + Text.byteLength (raw.takeWhile Text.isBlank) =
          (k.trimmed raw).position := (Cursor.position_after _ _).symm
      have hagree := call?_agree htrim
      have hshorter := trim_length raw
      simp only [hquotation, hstart] at he
      generalize hcall : call? (Text.trim raw) (k.trimmed raw).position = call at *
      generalize Reference.call? ((k.trimmed raw).glyphs (Text.trim raw)) = call' at *
      generalize Text.trim raw = t at *
      cases hagree with
      | error name inside c rest hname hencloses hfault =>
        obtain rfl := Except.error.inj he
        exact ⟨_, name, inside, c, rest, hname, hencloses, hreached, hfault⟩
      | word => cases he
      | call name inside hbody =>
        obtain ⟨pieces, hpieces, hreaches⟩ := arguments_reached hbody rfl
        simp only [← Cursor.opened_position, hpieces] at he
        cases hconditions : pieces.mapM fun p =>
            expression p.text (((k.trimmed raw).opened name).position + p.start) with
        | ok conditions =>
          rw [hconditions] at he
          cases he
        | error e' =>
          rw [hconditions] at he
          obtain rfl := Except.error.inj he
          obtain ⟨earlier, p, later, rfl, -, hp⟩ := mapM_eq_error hconditions
          have hmem : p ∈ earlier ++ p :: later := by simp
          obtain ⟨k', hposition, hbalanced, -, hinner⟩ := hreaches p hmem
          have hshort : p.text.length < raw.length :=
            calc p.text.length ≤ inside.length := arguments_length hpieces p hmem
              _ < _ := call?_length hcall
              _ ≤ raw.length := hshorter
          rw [← hposition] at hp
          have hargument := ih p.text.length hshort hbalanced hp rfl
          exact ((hargument.mono hinner).mono (reaches_inside _ name inside)).mono hreached

/-- What is wrong with a term, whose text stands after `front` in the query, and where. -/
inductive TermFault (front text : List Char) : SyntaxError → Prop where
  | noAttribute : (∀ name raw, text = name ++ '=' :: raw → ∃ c ∈ name, c = '(' ∨ Scan.isQuote c = true) →
      TermFault front text ⟨text, Text.byteLength front, .noAttribute⟩
  | emptyAttribute {raw : List Char} : text = '=' :: raw →
      TermFault front text ⟨text, Text.byteLength front, .emptyAttribute⟩
  | textAfterCall {before name inside rest after : List Char} :
      text = before ++ (name ++ '(' :: (inside ++ ')' :: rest) ++ after) → '(' ∉ name → rest ≠ [] →
      (Cursor.start.after (front ++ before)).Encloses name inside →
      TermFault front text ⟨name ++ '(' :: (inside ++ ')' :: rest),
        Text.byteLength (front ++ before ++ name ++ '(' :: (inside ++ [')'])), .textAfterCall⟩

/-- Why a query is rejected, and where: for a delimiter, or else for the first of its terms that is at
fault. -/
inductive Fault (query : List Char) : SyntaxError → Prop where
  | delimiter {e : SyntaxError} : DelimiterFault query e → Fault query e
  | term {earlier later : List Piece} {p : Piece} {front back : List Char} {e : SyntaxError} :
      Cursor.start.Balanced query → terms query = .ok (earlier ++ p :: later) →
      (∀ q ∈ earlier, q.start + Text.byteLength q.text < p.start ∧ ∃ read, term q = .ok read) →
      query = front ++ (p.text ++ back) → p.start = Text.byteLength front →
      term p = .error e → TermFault front p.text e → Fault query e

theorem terms_reached {query : List Char} (h : Cursor.start.Balanced query) {pieces : List Piece}
    (hpieces : terms query = .ok pieces) :
    (pieces.Pairwise fun p q => p.start + Text.byteLength p.text < q.start) ∧
      ∀ p ∈ pieces, ∃ gs k, p.Reads Text.isBlank 0 0 gs k ∧ Cursor.start.Reaches query k p.text := by
  have hcut := h.cut_splitOnP Text.isBlank rfl rfl
  rw [terms, h.markOuter rfl 0] at hpieces
  obtain rfl := Except.ok.inj hpieces
  refine ⟨(cut_pairwise _ _).filter _, fun p hp => ?_⟩
  exact exists_of_forall₂ hcut p (List.mem_filter.mp hp).1

theorem takeWhile_attribute (name raw : List Char) :
    (name ++ '=' :: raw).takeWhile (· != '=') = name.takeWhile (· != '=') := by
  induction name with
  | nil => rfl
  | cons c rest ih => simp only [List.cons_append, List.takeWhile_cons, ih]

theorem termFault_of_trailing {front field raw : List Char} {e : SyntaxError}
    (h : TrailingText (((Cursor.start.after front).after field).next '=') raw e) :
    TermFault front (field ++ '=' :: raw) e := by
  obtain ⟨k, name, inside, c, rest, hname, hencloses, ⟨before, after, rfl, hk⟩, rfl⟩ := h
  have hafter : k = Cursor.start.after (front ++ (field ++ '=' :: before)) := by
    rw [hk, Cursor.after_append, Cursor.after_append, Cursor.after_cons]
  have hposition : k.position + Text.byteLength name + 1 + Text.byteLength inside + 1 =
      Text.byteLength (front ++ (field ++ '=' :: before) ++ name ++ '(' :: (inside ++ [')'])) := by
    have hparens : ('(' : Char).utf8Size = 1 ∧ (')' : Char).utf8Size = 1 := ⟨rfl, rfl⟩
    rw [hafter, Cursor.start_position_after]
    simp only [byteLength_append, Text.byteLength, hparens]
    omega
  have htext : field ++ '=' :: (before ++ (name ++ '(' :: (inside ++ ')' :: c :: rest) ++ after)) =
      field ++ '=' :: before ++ (name ++ '(' :: (inside ++ ')' :: c :: rest) ++ after) := by
    simp only [List.append_assoc, List.cons_append]
  have hfirst : '(' ∉ name := fun hmem => (plain_of_isIdentifier hname '(' hmem).1 rfl
  rw [hposition]
  exact .textAfterCall htext hfirst (List.cons_ne_nil c rest) (hafter ▸ hencloses)

theorem Piece.Reads.start_eq {p : Piece} {separates : Char → Bool} {gs : List Glyph} {front : List Char}
    (h : p.Reads separates 0 0 gs (Cursor.start.after front)) : p.start = Text.byteLength front := by
  have hposition := h.position
  rw [Cursor.start_position_after, Nat.zero_add] at hposition
  exact hposition.symm

theorem termFault_of_term {p : Piece} {gs : List Glyph} {front : List Char}
    (h : p.Reads Text.isBlank 0 0 gs (Cursor.start.after front)) {e : SyntaxError}
    (he : term p = .error e) : TermFault front p.text e := by
  have hposition := h.start_eq
  have hsplit : p.text.takeWhile (· != '=') ++ p.text.dropWhile (· != '=') = p.text :=
    List.takeWhile_append_dropWhile
  have hhead := List.head?_dropWhile_not (· != '=') p.text
  have hfirst : ∀ name raw, p.text = name ++ '=' :: raw →
      p.text.takeWhile (· != '=') = name.takeWhile (· != '=') := by
    intro name raw htext
    rw [htext, takeWhile_attribute]
  simp only [term] at he
  generalize p.text.takeWhile (· != '=') = field at *
  cases hrest : p.text.dropWhile (· != '=') with
  | nil =>
    rw [hrest] at he
    obtain rfl := Except.error.inj he
    rw [hposition]
    refine .noAttribute fun name raw htext => ?_
    have hmem : '=' ∈ p.text := by simp [htext]
    have hno := List.dropWhile_eq_nil_iff.mp hrest '=' hmem
    simp at hno
  | cons c raw =>
    rw [hrest] at he hsplit hhead
    have hc : c = '=' := by simpa using hhead
    subst hc
    cases hfield : field.any fun c => c == '(' || Scan.isQuote c with
    | true =>
      simp only [hfield, if_true] at he
      obtain rfl := Except.error.inj he
      rw [hposition]
      refine .noAttribute fun name raw' htext => ?_
      obtain ⟨c, hc, hmark⟩ := List.any_eq_true.mp hfield
      rw [hfirst name raw' htext] at hc
      rw [Bool.or_eq_true, beq_iff_eq] at hmark
      exact ⟨c, (List.takeWhile_sublist _).subset hc, hmark⟩
    | false =>
      have hplain : ∀ c ∈ field, c ≠ '(' ∧ Scan.isQuote c = false := by
        simpa using hfield
      obtain ⟨htrim, -⟩ := h.trim_field hsplit.symm hplain
      obtain ⟨hbalanced, hassigned⟩ := h.assigned hsplit.symm hplain
      simp only [hfield, if_false, Bool.false_eq_true, htrim] at he
      by_cases hempty : field = []
      · rw [if_pos hempty] at he
        obtain rfl := Except.error.inj he
        subst hempty
        rw [hposition]
        exact .emptyAttribute hsplit.symm
      · rw [if_neg hempty, ← hassigned] at he
        cases hexpression : expression raw
            (((Cursor.start.after front).after field).next '=').position with
        | ok c =>
          rw [hexpression] at he
          cases he
        | error e' =>
          rw [hexpression] at he
          obtain rfl := Except.error.inj he
          rw [← hsplit]
          exact termFault_of_trailing (expression_eq_error hbalanced hexpression)

/-- The expressions that the parser may come to in a query, with the positions it takes them for. -/
inductive Reached (query : List Char) : List Char → Nat → Prop where
  | assigned {pieces : List Piece} {p : Piece} {field raw : List Char} :
      terms query = .ok pieces → p ∈ pieces → p.text = field ++ '=' :: raw →
      (∀ c ∈ field, c ≠ '=' ∧ c ≠ '(' ∧ Scan.isQuote c = false) →
      Reached query raw (p.start + Text.byteLength field + 1)
  | argument {raw : List Char} {offset start : Nat} {call : Call} {pieces : List Piece} {p : Piece} :
      Reached query raw offset → start = offset + Text.byteLength (raw.takeWhile Text.isBlank) →
      unquote? (Text.trim raw) = none → call? (Text.trim raw) start = .ok (some call) →
      arguments call.arguments (start + call.start) = .ok pieces → p ∈ pieces →
      Reached query p.text (start + call.start + p.start)

theorem exists_balanced_of_terms {query : List Char} {pieces : List Piece}
    (h : terms query = .ok pieces) : Cursor.start.Balanced query := by
  cases hscan : Reference.scan query with
  | ok gs => exact (scan_eq_ok.mp hscan).2
  | error e =>
    rw [terms, markOuter_query, hscan] at h
    cases h

/-- An expression is balanced where it stands in the query, and may begin with a quote there. -/
theorem Reached.place {query raw : List Char} {offset : Nat} (h : Reached query raw offset) :
    ∃ k : Cursor, k.position = offset ∧ k.Balanced raw ∧ k.mayQuote = true ∧
      Cursor.start.Reaches query k raw := by
  induction h with
  | @assigned pieces p field raw hterms hp htext hfield =>
    have hbalanced := exists_balanced_of_terms hterms
    obtain ⟨gs, k, hreads, hreached⟩ := (terms_reached hbalanced hterms).2 p hp
    obtain ⟨hraw, hposition⟩ := hreads.assigned htext fun c hc => (hfield c hc).2
    refine ⟨_, hposition, hraw, rfl, hreached.trans ?_⟩
    refine ⟨field ++ ['='], [], ?_, ?_⟩
    · simp [htext]
    · rw [Cursor.after_append]
      rfl
  | @argument raw offset start call pieces p _ hstart _ hcall hpieces hp ih =>
    obtain ⟨k, rfl, hbalanced, -, hreached⟩ := ih
    have hposition : start = (k.trimmed raw).position := hstart.trans (Cursor.position_after _ _).symm
    subst hposition
    have htrimmed := hreached.trans (reaches_trimmed k raw)
    have hagree := call?_agree hbalanced.trim.2
    rw [hcall] at hagree
    generalize Reference.call? ((k.trimmed raw).glyphs (Text.trim raw)) = call' at hagree
    generalize Text.trim raw = t at hagree htrimmed
    cases hagree with
    | call name inside hinside =>
      obtain ⟨pieces', hpieces', hreaches⟩ := arguments_reached hinside rfl
      rw [Cursor.opened_position, hpieces] at hpieces'
      obtain rfl := Except.ok.inj hpieces'
      obtain ⟨k', hk', hargument, hquotes, hinner⟩ := hreaches p hp
      exact ⟨k', hk'.trans (congrArg (· + p.start) (Cursor.opened_position _ name)), hargument, hquotes,
        (htrimmed.trans (reaches_inside _ name inside)).trans hinner⟩

/-- A scan that begins again at an expression comes to its end. All that it can find is text after a
call. -/
theorem Reached.scans {query raw : List Char} {offset : Nat} (h : Reached query raw offset) :
    let start := offset + Text.byteLength (raw.takeWhile Text.isBlank)
    (∀ e, call? (Text.trim raw) start = .error e → e.reason = .textAfterCall) ∧
      ∀ call, call? (Text.trim raw) start = .ok (some call) →
        ∃ pieces, arguments call.arguments (start + call.start) = .ok pieces := by
  obtain ⟨k, rfl, hbalanced, -⟩ := h.place
  have hstart : k.position + Text.byteLength (raw.takeWhile Text.isBlank) =
      (k.trimmed raw).position := (Cursor.position_after _ _).symm
  have hagree := call?_agree hbalanced.trim.2
  simp only [hstart]
  generalize call? (Text.trim raw) (k.trimmed raw).position = call at *
  generalize Reference.call? ((k.trimmed raw).glyphs (Text.trim raw)) = call' at hagree
  generalize Text.trim raw = t at hagree
  cases hagree with
  | error name inside c rest _ _ hfault =>
    refine ⟨fun e he => ?_, nofun⟩
    obtain rfl := Except.error.inj he
    rw [hfault]
  | word => exact ⟨nofun, nofun⟩
  | call name inside hinside =>
    refine ⟨nofun, fun call hcall => ?_⟩
    obtain rfl := Option.some.inj (Except.ok.inj hcall)
    obtain ⟨pieces, hpieces, -⟩ := arguments_reached hinside rfl
    rw [Cursor.opened_position] at hpieces
    exact ⟨pieces, hpieces⟩

theorem fault_of_parse {query : List Char} {e : SyntaxError} (h : parse query = .error e) :
    Fault query e := by
  cases hscan : Reference.scan query with
  | error e' =>
    rw [parse, terms, markOuter_query, hscan] at h
    obtain rfl := Except.error.inj h
    exact .delimiter (delimiterFault_of_scan hscan)
  | ok gs =>
    obtain ⟨-, hbalanced⟩ := scan_eq_ok.mp hscan
    obtain ⟨pieces, hpieces, -⟩ := terms_eq hbalanced
    obtain ⟨hordered, hreached⟩ := terms_reached hbalanced hpieces
    rw [parse, hpieces] at h
    simp only [termsInto_eq] at h
    cases hread : pieces.mapM term with
    | ok read =>
      rw [hread] at h
      cases h
    | error e' =>
      rw [hread] at h
      obtain rfl := Except.error.inj h
      obtain ⟨earlier, p, later, rfl, hearlier, hp⟩ := mapM_eq_error hread
      obtain ⟨gs, k, hreads, front, back, hquery, rfl⟩ := hreached p (by simp)
      refine .term hbalanced hpieces (fun q hq => ⟨?_, hearlier q hq⟩) hquery hreads.start_eq hp
        (termFault_of_term hreads hp)
      exact (List.pairwise_append.mp hordered).2.2 q hq p List.mem_cons_self

theorem Fault.onBoundary {query : List Char} {e : SyntaxError} (h : Fault query e) :
    OnBoundary query e.position := by
  cases h with
  | delimiter hfault => exact hfault.onBoundary
  | @term earlier later p front back e _ _ _ hquery _ _ hfault =>
    cases hfault with
    | noAttribute _ => exact ⟨front, _, hquery, rfl⟩
    | emptyAttribute _ => exact ⟨front, _, hquery, rfl⟩
    | @textAfterCall before name inside rest after htext _ _ _ =>
      refine ⟨_, rest ++ after ++ back, ?_, rfl⟩
      rw [hquery, htext]
      simp

/-- The error of every query that is rejected says what is wrong with it, and points at a place between
two of its characters. Delimiters are only reported by the scan of the whole query: in a query that gets
through it, no scan of a call or of arguments finds fault with them. -/
theorem parse_error_points_at_fault (query : List Char) :
    (∀ e, parse query = .error e →
      Query.ofText (String.ofList query) =
        .error (.parse (String.ofList e.token) e.position e.reason.message) ∧
      e.position ≤ Text.byteLength query ∧ OnBoundary query e.position ∧ Fault query e) ∧
    ∀ raw offset, Reached query raw offset →
      let start := offset + Text.byteLength (raw.takeWhile Text.isBlank)
      (∀ e, call? (Text.trim raw) start = .error e → e.reason = .textAfterCall) ∧
        ∀ call, call? (Text.trim raw) start = .ok (some call) →
          ∃ pieces, arguments call.arguments (start + call.start) = .ok pieces := by
  refine ⟨fun e he => ?_, fun raw offset h => h.scans⟩
  have hfault := fault_of_parse he
  refine ⟨?_, hfault.onBoundary.le, hfault.onBoundary, hfault⟩
  rw [Query.ofText, String.toList_ofList, he]
  rfl

/-- The text after the call stands behind six characters, one of which takes two bytes. -/
theorem trailing_text_found_at_byte :
    let query := ['é', '=', 'f', '(', '1', ')', 'x']
    let e : SyntaxError := ⟨['f', '(', '1', ')', 'x'], 7, .textAfterCall⟩
    parse query = .error e ∧ OnBoundary query 7 ∧ Fault query e := by
  intro query e
  have hterms : terms query = .ok [⟨0, query⟩] := rfl
  have hexpression : expression ['f', '(', '1', ')', 'x'] 3 = .error e := by
    rw [expression_eq]
    rfl
  have hterm : term ⟨0, query⟩ = .error e := congrArg (Except.map (_, ·)) hexpression
  have hparse : parse query = .error e := by
    rw [parse, hterms]
    simp only [termsInto, hterm]
  obtain ⟨-, -, hboundary, hfault⟩ := (parse_error_points_at_fault query).1 e hparse
  exact ⟨hparse, hboundary, hfault⟩

end Inventory.QueryText
