import Inventory.Proofs.QueryText.ErrorPositions
import Inventory.Proofs.QueryText.WrittenMarks

/-! Expressions that begin with a quote. The scan of the query opens a run there, and closes it within the
expression. A run that ends with the expression is its value. Of any other the reader looks at the first
and the last character alone: all that stands between them becomes one text. -/

namespace Inventory.QueryText

/-- Where a scan stands after the text, if it gets through it. -/
def Scan.reached? (scan : Scan) (position : Nat) : List Char → Option Scan
  | [] => some scan
  | c :: rest =>
    match scan.step position c with
    | .ok (_, next) => next.reached? (position + c.utf8Size) rest
    | .error _ => none

/-- The quote that the scan of a query has open after this much of it. -/
def quoteAfter? (front : List Char) : Option (Option Char) :=
  (Scan.fresh.reached? 0 front).map Scan.quote

/-- The scan of the query opens a quoted run after `before`, and the quote right after `inside` closes
it. -/
structure QuotedRun (before : List Char) (q : Char) (inside : List Char) : Prop where
  outside : quoteAfter? before = some none
  runs : ∀ front, front <+: inside → quoteAfter? (before ++ q :: front) = some (some q)
  closed : quoteAfter? (before ++ q :: (inside ++ [q])) = some none

theorem Scan.Follows.reached? {d : Nat} {scan : Scan} {k : Cursor} (h : scan.Follows d k)
    {s : List Char} (hs : ∀ g ∈ k.glyphs s, g.Within d) (position : Nat) :
    scan.reached? position s = some (scan.through k position s) := by
  induction s generalizing scan k position with
  | nil => rfl
  | cons c rest ih =>
    obtain ⟨hc, hrest⟩ := List.forall_mem_cons.mp hs
    rw [Scan.reached?, h.step hc position]
    exact ih (h.advance hc position) hrest _

theorem quoteAfter?_eq {query front back : List Char} (h : Cursor.start.Balanced query)
    (hquery : query = front ++ back) :
    quoteAfter? front = some (Cursor.start.after front).quote := by
  have hreturns := h.toReturns
  rw [hquery] at hreturns
  have hwithin := (Cursor.Returns.append.mp hreturns).1
  rw [quoteAfter?, follows_start.reached? hwithin, Option.map_some,
    (follows_start.through hwithin 0).quote]

theorem Reached.query_balanced {query raw : List Char} {offset : Nat} (h : Reached query raw offset) :
    Cursor.start.Balanced query := by
  induction h with
  | assigned hterms _ _ _ => exact exists_balanced_of_terms hterms
  | argument _ _ _ _ _ _ ih => exact ih

/-- A balanced text that begins with a quote holds the run that opens there. -/
theorem Cursor.Balanced.exists_run {k : Cursor} {q : Char} {rest : List Char}
    (h : k.Balanced (q :: rest)) (hm : k.mayQuote = true) (hq : Scan.isQuote q = true) :
    ∃ inside tail, rest = inside ++ q :: tail ∧ q ∉ inside ∧
      (∀ front, front <+: inside → (k.after (q :: front)).quote = some q) ∧
      (k.after (q :: (inside ++ [q]))).quote = none := by
  have hquoted : k.quoted q = true := by
    rw [quoted, hq, hm]
    simp
  have hopen : (k.next q).quote = some q := by
    simp [next, h.outside, hquoted]
  have hmem : q ∈ rest := by
    by_contra hno
    have hquote := h.quote
    rw [after_cons, (quoted_run hopen hno).2.1] at hquote
    cases hquote
  obtain ⟨inside, tail, rfl, hinside⟩ := List.eq_append_cons_of_mem hmem
  refine ⟨inside, tail, rfl, hinside, fun front hfront => ?_, ?_⟩
  · exact (quoted_run hopen fun hin => hinside (hfront.subset hin)).2.1
  · rw [after_cons, after_append]
    have hlast := (quoted_run hopen hinside).2.1
    generalize (k.next q).after inside = k' at hlast
    simp [after, next, hlast]

theorem exists_quotedRun {query before rest after : List Char} {q : Char}
    (h : Cursor.start.Balanced query) (hquery : query = before ++ (q :: rest ++ after))
    (hrest : (Cursor.start.after before).Balanced (q :: rest))
    (hm : (Cursor.start.after before).mayQuote = true) (hq : Scan.isQuote q = true) :
    ∃ inside tail, rest = inside ++ q :: tail ∧ q ∉ inside ∧ QuotedRun before q inside := by
  obtain ⟨inside, tail, rfl, hinside, hruns, hclosed⟩ := hrest.exists_run hm hq
  refine ⟨inside, tail, rfl, hinside, ?_, fun front hfront => ?_, ?_⟩
  · rw [quoteAfter?_eq h hquery, hrest.outside]
  · obtain ⟨more, rfl⟩ := hfront
    have hfront : query = before ++ q :: front ++ (more ++ q :: tail ++ after) := by simp [hquery]
    rw [quoteAfter?_eq h hfront, Cursor.after_append, hruns front (List.prefix_append _ _)]
  · have hfront : query = before ++ q :: (inside ++ [q]) ++ (tail ++ after) := by simp [hquery]
    rw [quoteAfter?_eq h hfront, Cursor.after_append, hclosed]

theorem unquote?_of_isQuote {q : Char} (hq : Scan.isQuote q = true) (rest : List Char) :
    unquote? (q :: rest) = if rest.getLast? = some q then some rest.dropLast else none := by
  rw [Scan.isQuote, Bool.or_eq_true, beq_iff_eq, beq_iff_eq] at hq
  rw [unquote?]
  exact if_congr (and_iff_right hq) rfl rfl

theorem call?_of_isQuote {q : Char} (hq : Scan.isQuote q = true) (rest : List Char) (offset : Nat) :
    call? (q :: rest) offset = .ok none := by
  have hname : isIdentifier ((q :: rest).takeWhile (· != '(')) = false := by
    rw [Scan.isQuote, Bool.or_eq_true, beq_iff_eq, beq_iff_eq] at hq
    rcases hq with rfl | rfl
    · rfl
    · rfl
  rw [call?]
  simp only [hname]
  cases (q :: rest).dropWhile (· != '(') with
  | nil => rfl
  | cons c body => rfl

theorem literal_of_isQuote {q : Char} (hq : Scan.isQuote q = true) (rest : List Char) :
    literal (q :: rest) = .text (String.ofList (q :: rest)) := by
  rw [Scan.isQuote, Bool.or_eq_true, beq_iff_eq, beq_iff_eq] at hq
  have hint : Text.readInt64? (q :: rest) = none := by
    rcases hq with rfl | rfl
    · rfl
    · rfl
  have hword : looksNumeric (q :: rest) = false := by
    rw [looksNumeric, List.all_cons]
    rcases hq with rfl | rfl
    · exact Bool.and_false _
    · exact Bool.and_false _
  have htrue : q ≠ 't' := by
    rintro rfl
    rcases hq with h | h <;> cases h
  have hfalse : q ≠ 'f' := by
    rintro rfl
    rcases hq with h | h <;> cases h
  rw [literal, if_neg fun h => htrue (List.cons.inj h).1, if_neg fun h => hfalse (List.cons.inj h).1,
    hint, hword]
  rfl

theorem expression_of_isQuote {q : Char} (hq : Scan.isQuote q = true) {raw rest : List Char}
    (htrim : Text.trim raw = q :: rest) (offset : Nat) :
    expression raw offset = .ok (.value (.text (String.ofList
      (if rest.getLast? = some q then rest.dropLast else q :: rest)))) := by
  rw [expression_eq, htrim, unquote?_of_isQuote hq]
  by_cases hlast : rest.getLast? = some q
  · rw [if_pos hlast, if_pos hlast]
  · rw [if_neg hlast, if_neg hlast]
    simp only [call?_of_isQuote hq, literal_of_isQuote hq]

theorem value_of_run (q : Char) (inside tail : List Char) :
    (if (inside ++ q :: tail).getLast? = some q then (inside ++ q :: tail).dropLast
      else q :: (inside ++ q :: tail)) =
    if tail = [] then inside
    else if tail.getLast? = some q then inside ++ q :: tail.dropLast
    else q :: (inside ++ q :: tail) := by
  rcases List.eq_nil_or_concat tail with rfl | ⟨front, c, rfl⟩
  · simp
  · have hsplit : inside ++ q :: front.concat c = (inside ++ q :: front) ++ [c] := by simp
    rw [hsplit, List.getLast?_concat, List.dropLast_concat, List.concat_eq_append,
      List.getLast?_concat, List.dropLast_concat, if_neg (List.concat_ne_nil c front)]

/-- An expression that begins with a quote, anywhere in a query that the scan gets through. The run that
the scan opens there closes within the expression. If it closes with the last character, the value is the
text of the run. If text comes after it, the value holds the closing quote: it is all that stands before
the same quote at the end, or without one there the whole expression. -/
theorem quoted_expression_ends_or_folds {query raw rest : List Char} {offset : Nat} {q : Char}
    (h : Reached query raw offset) (htrim : Text.trim raw = q :: rest)
    (hq : Scan.isQuote q = true) :
    ∃ before inside tail after value,
      query = before ++ (q :: (inside ++ q :: tail)) ++ after ∧
      Text.byteLength before = offset + Text.byteLength (raw.takeWhile Text.isBlank) ∧
      rest = inside ++ q :: tail ∧ QuotedRun before q inside ∧ q ∉ inside ∧
      expression raw offset = .ok (.value (.text (String.ofList value))) ∧
      (tail = [] → value = inside) ∧
      (tail ≠ [] →
        value = if tail.getLast? = some q then inside ++ q :: tail.dropLast else q :: rest) ∧
      (q ∉ value ↔ tail = []) := by
  obtain ⟨k, rfl, hbalanced, hquotes, hreached⟩ := h.place
  obtain ⟨before, after, hquery, hk⟩ := hreached.trans (reaches_trimmed k raw)
  have hposition : Text.byteLength before =
      k.position + Text.byteLength (raw.takeWhile Text.isBlank) := by
    rw [← Cursor.start_position_after, ← hk, Cursor.trimmed, Cursor.position_after]
  have htrimmed := hbalanced.trim.2
  have hmay : (k.trimmed raw).mayQuote = true :=
    Cursor.mayQuote_after_blank hquotes fun c hc => List.mem_takeWhile_imp hc
  rw [htrim] at htrimmed hquery
  rw [hk] at htrimmed hmay
  obtain ⟨inside, tail, rfl, hinside, hrun⟩ :=
    exists_quotedRun h.query_balanced hquery htrimmed hmay hq
  have hquery' : query = before ++ q :: (inside ++ q :: tail) ++ after := by simp [hquery]
  have hvalue := expression_of_isQuote hq htrim k.position
  rw [value_of_run] at hvalue
  refine ⟨before, inside, tail, after, _, hquery', hposition, rfl, hrun, hinside, hvalue,
    fun htail => if_pos htail, fun htail => if_neg htail, ?_⟩
  by_cases htail : tail = []
  · rw [if_pos htail]
    exact iff_of_true hinside htail
  · rw [if_neg htail]
    refine iff_of_false (fun hno => hno ?_) htail
    split
    · exact List.mem_append_right _ List.mem_cons_self
    · exact List.mem_cons_self

/-- Two quoted texts that stand in a call without a comma between them are read as one. -/
theorem neighbours_fold_in_call :
    let query := "x=f(\"a\" \"b\")".toList
    let raw := "\"a\" \"b\"".toList
    Reached query raw 4 ∧ expression raw 4 = .ok (.value (.text "a\" \"b")) := by
  intro query raw
  have hterms : terms query = .ok [⟨0, query⟩] := rfl
  have hterm : query = ['x'] ++ '=' :: query.drop 2 := rfl
  have hname : ∀ c ∈ ['x'], c ≠ '=' ∧ c ≠ '(' ∧ Scan.isQuote c = false :=
    List.forall_mem_singleton.mpr ⟨by decide, by decide, rfl⟩
  have hcall : call? (Text.trim (query.drop 2)) 2 = .ok (some ⟨['f'], 2, raw⟩) := rfl
  have harguments : arguments raw 4 = .ok [⟨0, raw⟩] := rfl
  have hreached : Reached query raw 4 :=
    .argument (.assigned hterms (List.mem_singleton_self _) hterm hname) rfl rfl hcall harguments
      (List.mem_singleton_self _)
  have htrim : Text.trim raw = '"' :: raw.tail := rfl
  obtain ⟨-, inside, tail, -, value, -, -, hrest, -, hinside, hvalue, -, hfolds, -⟩ :=
    quoted_expression_ends_or_folds hreached htrim rfl
  refine ⟨hreached, ?_⟩
  rcases inside with _ | ⟨c, _ | ⟨d, inside⟩⟩
  · cases hrest
  · obtain ⟨rfl, rfl⟩ : 'a' = c ∧ [' ', '"', 'b', '"'] = tail := by simpa [raw] using hrest
    rw [hvalue, hfolds (List.cons_ne_nil _ _)]
    rfl
  · obtain ⟨-, rfl, -⟩ : 'a' = c ∧ '"' = d ∧ _ := by simpa [raw] using hrest
    simp at hinside

/-- Two quoted texts with a comma between them are accepted as the one text of an attribute. -/
theorem listed_texts_fold_into_one :
    let query := "state=\"online\",\"maintenance\"".toList
    ∃ filters, parse query = .ok filters ∧
      filters.get? "state" = some (.value (.text "online\",\"maintenance")) := by
  intro query
  have hterms : terms query = .ok [⟨0, query⟩] := rfl
  have hexpression : expression (query.drop 6) 6 =
      .ok (.value (.text "online\",\"maintenance")) := by
    rw [expression_eq]
    rfl
  have hterm : term ⟨0, query⟩ = .ok ("state", .value (.text "online\",\"maintenance")) :=
    congrArg (Except.map ("state", ·)) hexpression
  refine ⟨TextMap.insert ∅ "state" (.value (.text "online\",\"maintenance")), ?_, rfl⟩
  rw [parse, hterms]
  simp only [termsInto, hterm]

end Inventory.QueryText
