import Inventory.Proofs.QueryText.ErrorPositions
import Inventory.Proofs.QueryText.MovedMarks
import Inventory.Proofs.QueryText.WellFormed

/-! How deep calls are read inside one another. A query is read as well when only so many calls may be
read at once as parentheses are open at once in it. The scan of the whole query keeps these at 128 or
below, so no text takes the reading deeper, and none that stays there is rejected for its depth. -/

namespace Inventory

namespace Operand

mutual

/-- How many filters stand inside one another. -/
def nesting : Operand → Nat
  | .absent => 0
  | .value _ => 0
  | .filter _ x => nesting x + 1
  | .list items => nestingOfAll items

def nestingOfAll : List Operand → Nat
  | [] => 0
  | x :: rest => max (nesting x) (nestingOfAll rest)

end

theorem nestingOfAll_le {n : Nat} {xs : List Operand} (h : ∀ x ∈ xs, x.nesting ≤ n) :
    nestingOfAll xs ≤ n := by
  induction xs with
  | nil => exact Nat.zero_le n
  | cons x rest ih =>
    obtain ⟨hx, hrest⟩ := List.forall_mem_cons.mp h
    exact Nat.max_le.mpr ⟨hx, ih hrest⟩

end Operand

namespace QueryText

theorem nesting_operandOf {n : Nat} (op : Operation) {xs : List Operand}
    (h : ∀ x ∈ xs, x.nesting ≤ n) : (operandOf op xs).nesting ≤ n := by
  rcases operandOf_cases op xs with ⟨hlist, -⟩ | ⟨-, ⟨habsent, -⟩ | ⟨x, hsingle, rfl⟩⟩
  · rw [hlist, Operand.nesting]
    exact Operand.nestingOfAll_le h
  · rw [habsent]
    exact Nat.zero_le n
  · rw [hsingle]
    exact h x (List.mem_singleton_self x)

/-- The largest number of parentheses that are open at once as the text is read, outside quotes. -/
def Cursor.mostOpen (k : Cursor) : List Char → Nat
  | [] => k.depth
  | c :: rest => max k.depth ((k.next c).mostOpen rest)

theorem Cursor.mostOpen_le_iff {k : Cursor} {s : List Char} {n : Nat} :
    k.mostOpen s ≤ n ↔ ∀ front, front <+: s → (k.after front).depth ≤ n := by
  induction s generalizing k with
  | nil => simp [mostOpen, after]
  | cons c rest ih =>
    rw [mostOpen, Nat.max_le, ih]
    constructor
    · rintro ⟨hk, hrest⟩ front hfront
      cases front with
      | nil => exact hk
      | cons d front =>
        obtain ⟨rfl, hlater⟩ := List.cons_prefix_cons.mp hfront
        exact hrest front hlater
    · intro h
      refine ⟨h [] List.nil_prefix, fun front hfront => ?_⟩
      exact h (c :: front) (List.cons_prefix_cons.mpr ⟨rfl, hfront⟩)

theorem Cursor.depth_le_mostOpen (k : Cursor) {front s : List Char} (h : front <+: s) :
    (k.after front).depth ≤ k.mostOpen s :=
  mostOpen_le_iff.mp (Nat.le_refl _) front h

/-- A part of a text has no more open in it than the text. -/
theorem Cursor.Reaches.mostOpen_le {k k' : Cursor} {s t : List Char} (h : k.Reaches s k' t) :
    k'.mostOpen t ≤ k.mostOpen s := by
  obtain ⟨before, after, rfl, rfl⟩ := h
  refine mostOpen_le_iff.mpr fun front hfront => ?_
  rw [← after_append]
  refine k.depth_le_mostOpen ?_
  rw [List.prefix_append_right_inj]
  exact hfront.trans (List.prefix_append t after)

theorem Cursor.Balanced.mostOpen_le {k : Cursor} {s : List Char} (h : k.Balanced s)
    (hk : k.depth ≤ maxNesting) : k.mostOpen s ≤ maxNesting := by
  refine mostOpen_le_iff.mpr ?_
  rintro front ⟨back, rfl⟩
  exact depth_after_le (Returns.append.mp h.toReturns).1 hk

/-- The scan says that parentheses nest too deep only where more than 128 are open. -/
theorem DelimiterFault.reason_ne {query : List Char} {e : SyntaxError} (h : DelimiterFault query e)
    (hopen : Cursor.start.mostOpen query ≤ maxNesting) : e.reason ≠ .nestingTooDeep := by
  cases h with
  | unmatchedClosing _ _ _ _ => nofun
  | unterminatedQuote _ _ => nofun
  | unmatchedOpening _ _ _ _ _ => nofun
  | @nestingTooDeep before after g hquery _ hopening hdepth =>
    obtain ⟨front, rest, hs, -, hg, -⟩ := Cursor.glyphs_eq_append_cons hquery
    have hmany : ((Cursor.start.after front).next g.char).depth ≤ Cursor.start.mostOpen query := by
      have hprefix : front ++ [g.char] <+: query := ⟨rest, by simp [hs]⟩
      have hle := Cursor.start.depth_le_mostOpen hprefix
      rwa [Cursor.after_append] at hle
    have hlevel : (Cursor.start.after front).depth = maxNesting := by
      rw [hg] at hdepth
      exact hdepth
    rw [hg] at hopening
    rw [next_depth_of_opening hopening, hlevel] at hmany
    omega

theorem delimiterFault_of_terms {query : List Char} {e : SyntaxError} (h : terms query = .error e) :
    DelimiterFault query e := by
  rw [terms, markOuter_query] at h
  cases hscan : Reference.scan query with
  | ok gs =>
    rw [hscan] at h
    cases h
  | error e' =>
    rw [hscan] at h
    obtain rfl := Except.error.inj h
    exact delimiterFault_of_scan hscan

theorem Fault.reason_ne {query : List Char} {e : SyntaxError} (h : Fault query e)
    (hopen : Cursor.start.mostOpen query ≤ maxNesting) : e.reason ≠ .nestingTooDeep := by
  cases h with
  | delimiter hfault => exact hfault.reason_ne hopen
  | term _ _ _ _ _ _ hfault =>
    cases hfault with
    | noAttribute _ => nofun
    | emptyAttribute _ => nofun
    | textAfterCall _ _ _ _ => nofun

/-- Why a query is not read: one call more than there is room for would be read, or the text is at
fault. -/
inductive Stop where
  | outOfRoom
  | fault (e : SyntaxError)

/-- Reads an expression as the parser does, with at most so many calls read at once: each takes up room
until its arguments are read. -/
def expressionWithin (room : Nat) (raw : List Char) (offset : Nat) : Except Stop Condition :=
  let start := offset + Text.byteLength (raw.takeWhile Text.isBlank)
  match unquote? (Text.trim raw) with
  | some inside => .ok (.value (.text (String.ofList inside)))
  | none =>
    match call? (Text.trim raw) start with
    | .error e => .error (.fault e)
    | .ok none => .ok (.value (literal (Text.trim raw)))
    | .ok (some call) =>
      match room with
      | 0 => .error .outOfRoom
      | room + 1 =>
        match arguments call.arguments (start + call.start) with
        | .error e => .error (.fault e)
        | .ok pieces =>
          (pieces.mapM fun p => expressionWithin room p.text (start + call.start + p.start)).map
            (callFilter call.name)

def termWithin (room : Nat) (p : Piece) : Except Stop (String × Condition) :=
  let field := p.text.takeWhile (· != '=')
  match p.text.dropWhile (· != '=') with
  | [] => .error (.fault ⟨p.text, p.start, .noAttribute⟩)
  | _ :: raw =>
    if field.any fun c => c == '(' || Scan.isQuote c then
      .error (.fault ⟨p.text, p.start, .noAttribute⟩)
    else if Text.trim field = [] then .error (.fault ⟨p.text, p.start, .emptyAttribute⟩)
    else
      (expressionWithin room raw (p.start + Text.byteLength field + 1)).map
        (String.ofList (Text.trim field), ·)

def parseWithin (room : Nat) (query : List Char) : Except Stop Filters :=
  match terms query with
  | .error e => .error (.fault e)
  | .ok pieces => (pieces.mapM (termWithin room)).map TextMap.ofList

/-- A call opens one more parenthesis, and that is open as its arguments are read. -/
theorem Cursor.Balanced.deeper {k : Cursor} {raw : List Char} (h : k.Balanced raw) {call : Call}
    (hcall : call? (Text.trim raw) (k.trimmed raw).position = .ok (some call)) :
    k.depth < k.mostOpen raw ∧
      ∃ pieces, arguments call.arguments ((k.trimmed raw).position + call.start) = .ok pieces ∧
        ∀ p ∈ pieces, ∃ k', k'.position = (k.trimmed raw).position + call.start + p.start ∧
          k'.depth = k.depth + 1 ∧ k'.Balanced p.text ∧ k.Reaches raw k' p.text := by
  obtain ⟨hlevel, htrim⟩ := h.trim
  have hreached := reaches_trimmed k raw
  have hagree := call?_agree htrim
  rw [hcall] at hagree
  generalize hmarked : Reference.call? ((k.trimmed raw).glyphs (Text.trim raw)) = call' at hagree
  generalize Text.trim raw = t at *
  cases hagree with
  | call name inside hinside =>
    have hname := (Reference.call?_eq_some hmarked).1
    have hdepth : ((k.trimmed raw).opened name).depth = k.depth + 1 := by
      rw [(htrim.opened hname).2.1, hlevel]
    have hinner := hreached.trans (reaches_inside (k.trimmed raw) name inside)
    obtain ⟨pieces, hpieces, hparts⟩ := arguments_agree hinside rfl name
    rw [Cursor.opened_position] at hpieces
    refine ⟨?_, pieces, hpieces, fun p hp => ?_⟩
    · have hopen := depth_le_mostOpen ((k.trimmed raw).opened name) (List.nil_prefix (l := inside))
      exact Nat.lt_of_lt_of_le (Nat.le_of_eq hdepth.symm) (hopen.trans hinner.mostOpen_le)
    · obtain ⟨gs, k', hreads, hpart⟩ := exists_of_forall₂ hparts p hp
      refine ⟨k', ?_, hreads.depth.trans hdepth, hreads.balanced, hinner.trans hpart⟩
      rw [hreads.position, Cursor.opened_position]

/-- There is room enough if no more parentheses are open at once within the text than there is room for
above those that are open before it. -/
theorem expressionWithin_eq {room : Nat} {k : Cursor} {raw : List Char} (h : k.Balanced raw)
    (hroom : k.mostOpen raw ≤ k.depth + room) :
    expressionWithin room raw k.position = (expression raw k.position).mapError .fault := by
  -- The arguments of a call get by with room for one call less, as its parenthesis is open around them.
  induction room using Nat.strong_induction_on generalizing k raw with
  | _ room ih =>
    have hstart : k.position + Text.byteLength (raw.takeWhile Text.isBlank) =
        (k.trimmed raw).position := (Cursor.position_after _ _).symm
    rw [expressionWithin.eq_def, expression_eq]
    simp only [hstart]
    cases unquote? (Text.trim raw) with
    | some inside => rfl
    | none =>
      cases hcall : call? (Text.trim raw) (k.trimmed raw).position with
      | error e => rfl
      | ok found =>
        cases found with
        | none => rfl
        | some call =>
          obtain ⟨hopen, pieces, hpieces, hparts⟩ := h.deeper hcall
          cases room with
          | zero => exact absurd hroom (Nat.not_le.mpr hopen)
          | succ room =>
            have harguments : ∀ p ∈ pieces,
                expressionWithin room p.text ((k.trimmed raw).position + call.start + p.start) =
                  (expression p.text ((k.trimmed raw).position + call.start + p.start)).mapError
                    .fault := by
              intro p hp
              obtain ⟨k', hposition, hdepth, hbalanced, hreached⟩ := hparts p hp
              have hwithin : k'.mostOpen p.text ≤ k'.depth + room := by
                have hle := hreached.mostOpen_le
                omega
              rw [← hposition]
              exact ih room (Nat.lt_succ_self room) hbalanced hwithin
            simp only [hpieces, mapM_mapError harguments]
            cases pieces.mapM fun p =>
                expression p.text ((k.trimmed raw).position + call.start + p.start) with
            | error e => rfl
            | ok conditions => rfl

theorem termWithin_eq {room : Nat} {p : Piece} {gs : List Glyph} {k : Cursor}
    (h : p.Reads Text.isBlank 0 0 gs k) (hroom : k.mostOpen p.text ≤ room) :
    termWithin room p = (term p).mapError .fault := by
  have hsplit : p.text.takeWhile (· != '=') ++ p.text.dropWhile (· != '=') = p.text :=
    List.takeWhile_append_dropWhile
  have hhead := List.head?_dropWhile_not (· != '=') p.text
  simp only [termWithin, term]
  generalize p.text.takeWhile (· != '=') = field at *
  cases hrest : p.text.dropWhile (· != '=') with
  | nil => rfl
  | cons c raw =>
    rw [hrest] at hsplit hhead
    have hc : c = '=' := by simpa using hhead
    subst hc
    cases hfield : field.any fun c => c == '(' || Scan.isQuote c with
    | true => rfl
    | false =>
      have hplain : ∀ c ∈ field, c ≠ '(' ∧ Scan.isQuote c = false := by
        simpa using hfield
      obtain ⟨hbalanced, hposition⟩ := h.assigned hsplit.symm hplain
      have hreached : k.Reaches p.text ((k.after field).next '=') raw := by
        refine ⟨field ++ ['='], [], by simp [hsplit], ?_⟩
        rw [Cursor.after_append]
        rfl
      have hwithin : ((k.after field).next '=').mostOpen raw ≤
          ((k.after field).next '=').depth + room :=
        (hreached.mostOpen_le.trans hroom).trans (Nat.le_add_left room _)
      simp only [Bool.false_eq_true, if_false]
      by_cases hempty : Text.trim field = []
      · rw [if_pos hempty, if_pos hempty]
        rfl
      · rw [if_neg hempty, if_neg hempty, ← hposition, expressionWithin_eq hbalanced hwithin]
        cases expression raw ((k.after field).next '=').position with
        | error e => rfl
        | ok c => rfl

theorem parseWithin_eq {room : Nat} {query : List Char}
    (hroom : Cursor.start.mostOpen query ≤ room) :
    parseWithin room query = (parse query).mapError .fault := by
  rw [parseWithin, parse]
  cases hterms : terms query with
  | error e => rfl
  | ok pieces =>
    have hbalanced := exists_balanced_of_terms hterms
    have hread : ∀ p ∈ pieces, termWithin room p = (term p).mapError .fault := by
      intro p hp
      obtain ⟨gs, k, hreads, hreached⟩ := (terms_reached hbalanced hterms).2 p hp
      exact termWithin_eq hreads (hreached.mostOpen_le.trans hroom)
    simp only [mapM_mapError hread, termsInto_eq]
    cases pieces.mapM term with
    | error e => rfl
    | ok entries => rfl

theorem nesting_of_expressionWithin {room : Nat} {raw : List Char} {offset : Nat} {c : Condition}
    (h : expressionWithin room raw offset = .ok c) : c.toOperand.nesting ≤ room := by
  induction room using Nat.strong_induction_on generalizing raw offset c with
  | _ room ih =>
    rw [expressionWithin.eq_def] at h
    simp only at h
    split at h
    · cases h
      exact Nat.zero_le room
    · split at h
      · cases h
      · cases h
        exact Nat.zero_le room
      · rename_i call _
        cases room with
        | zero => cases h
        | succ room =>
          simp only at h
          split at h
          · cases h
          · rename_i pieces _
            cases hconditions : pieces.mapM fun p => expressionWithin room p.text
                (offset + Text.byteLength (raw.takeWhile Text.isBlank) + call.start + p.start) with
            | error e =>
              rw [hconditions] at h
              cases h
            | ok conditions =>
              rw [hconditions] at h
              obtain rfl := Except.ok.inj h
              rw [toOperand_callFilter, Operand.nesting]
              refine Nat.succ_le_succ (nesting_operandOf _ (List.forall_mem_map.mpr fun c hc => ?_))
              obtain ⟨p, -, hp⟩ := exists_of_mem_mapM hconditions hc
              exact ih room (Nat.lt_succ_self room) hp

theorem nesting_of_termWithin {room : Nat} {p : Piece} {name : String} {c : Condition}
    (h : termWithin room p = .ok (name, c)) : c.toOperand.nesting ≤ room := by
  simp only [termWithin] at h
  split at h
  · cases h
  · split at h
    · cases h
    · split at h
      · cases h
      · rename_i raw _ _ _
        cases hread : expressionWithin room raw
            (p.start + Text.byteLength (p.text.takeWhile (· != '=')) + 1) with
        | error e =>
          rw [hread] at h
          cases h
        | ok c' =>
          rw [hread] at h
          obtain rfl := (Prod.mk.inj (Except.ok.inj h)).2
          exact nesting_of_expressionWithin hread

theorem nesting_of_parse {query : List Char} {filters : Filters} (h : parse query = .ok filters)
    {name : String} {c : Condition} (hc : (name, c) ∈ filters.entries) :
    c.toOperand.nesting ≤ Cursor.start.mostOpen query := by
  obtain ⟨pieces, p, hterms, hp, hterm⟩ := exists_term_of_parse h hc
  have hbalanced := exists_balanced_of_terms hterms
  obtain ⟨gs, k, hreads, hreached⟩ := (terms_reached hbalanced hterms).2 p hp
  have hwithin := termWithin_eq hreads hreached.mostOpen_le
  rw [hterm] at hwithin
  exact nesting_of_termWithin hwithin

/-- The arguments of a call are shorter than the expression that it makes up, and a call within one of
them has less between its parentheses. -/
theorem nested_call_shorter {raw : List Char} {start offset : Nat} {call : Call} {pieces : List Piece}
    (h : call? (Text.trim raw) start = .ok (some call))
    (hpieces : arguments call.arguments offset = .ok pieces) {p : Piece} (hp : p ∈ pieces) :
    p.text.length < raw.length ∧ ∀ start' call',
      call? (Text.trim p.text) start' = .ok (some call') →
        call'.arguments.length < call.arguments.length := by
  have hpart := arguments_length hpieces p hp
  refine ⟨?_, fun start' call' hcall' => ?_⟩
  · exact Nat.lt_of_le_of_lt hpart (Nat.lt_of_lt_of_le (call?_length h) (trim_length raw))
  · exact Nat.lt_of_lt_of_le (call?_length hcall') ((trim_length p.text).trans hpart)

/-- The calls that are read at once are never more than the parentheses open at once in the query, nor
are the filters inside one another in what it is read as, and each call is on a shorter text than the one
around it. If the scan of the query is through, they are at most 128. If no more parentheses are ever
open, neither that scan nor one that begins again inside finds them nested too deep. -/
theorem recursion_bounded_by_scan (query : List Char) :
    (∀ room, Cursor.start.mostOpen query ≤ room →
      parseWithin room query = (parse query).mapError .fault) ∧
    (∀ filters, parse query = .ok filters → ∀ name c, (name, c) ∈ filters.entries →
      c.toOperand.nesting ≤ Cursor.start.mostOpen query) ∧
    (∀ pieces, terms query = .ok pieces → Cursor.start.mostOpen query ≤ maxNesting) ∧
    (∀ raw start offset call pieces, call? (Text.trim raw) start = .ok (some call) →
      arguments call.arguments offset = .ok pieces → ∀ p ∈ pieces, p.text.length < raw.length ∧
        ∀ start' call', call? (Text.trim p.text) start' = .ok (some call') →
          call'.arguments.length < call.arguments.length) ∧
    (Cursor.start.mostOpen query ≤ maxNesting →
      (∀ e, terms query = .error e → e.reason ≠ .nestingTooDeep) ∧
      (∀ e, parse query = .error e → e.reason ≠ .nestingTooDeep) ∧
      ∀ raw offset, Reached query raw offset →
        let start := offset + Text.byteLength (raw.takeWhile Text.isBlank)
        (∀ e, call? (Text.trim raw) start = .error e → e.reason ≠ .nestingTooDeep) ∧
          ∀ call, call? (Text.trim raw) start = .ok (some call) →
            ∃ pieces, arguments call.arguments (start + call.start) = .ok pieces) := by
  refine ⟨fun room hroom => parseWithin_eq hroom, fun filters h name c hc => nesting_of_parse h hc,
    fun pieces h => ?_, fun raw start offset call pieces h hpieces p hp => ?_, fun hopen => ?_⟩
  · exact (exists_balanced_of_terms h).mostOpen_le (Nat.zero_le _)
  · exact nested_call_shorter h hpieces hp
  · refine ⟨fun e he => ?_, fun e he => ?_, fun raw offset h => ?_⟩
    · exact (delimiterFault_of_terms he).reason_ne hopen
    · exact (fault_of_parse he).reason_ne hopen
    · obtain ⟨hcall, harguments⟩ := h.scans
      refine ⟨fun e he => ?_, harguments⟩
      rw [hcall e he]
      nofun

theorem expressionWithin_of_call {room offset start : Nat} {raw : List Char} {call : Call}
    {p : Piece} {pieces : List Piece} {stop : Stop}
    (hstart : offset + Text.byteLength (raw.takeWhile Text.isBlank) = start)
    (hquotation : unquote? (Text.trim raw) = none)
    (hcall : call? (Text.trim raw) start = .ok (some call))
    (hpieces : arguments call.arguments (start + call.start) = .ok (p :: pieces))
    (hfirst : expressionWithin room p.text (start + call.start + p.start) = .error stop) :
    expressionWithin (room + 1) raw offset = .error stop := by
  rw [expressionWithin]
  simp only [hstart, hquotation, hcall, hpieces, List.mapM_cons, hfirst]
  rfl

theorem termWithin_of_expression {room : Nat} {p : Piece} {field raw : List Char} {stop : Stop}
    (hname : p.text.takeWhile (· != '=') = field)
    (hraw : p.text.dropWhile (· != '=') = '=' :: raw)
    (hplain : (field.any fun c => c == '(' || Scan.isQuote c) = false)
    (hne : Text.trim field ≠ [])
    (h : expressionWithin room raw (p.start + Text.byteLength field + 1) = .error stop) :
    termWithin room p = .error stop := by
  rw [termWithin]
  simp only [hname, hraw, hplain, Bool.false_eq_true, if_false, if_neg hne, h]
  rfl

/-- A quoted parenthesis takes up no room, and two calls need room for two. -/
theorem quoted_parenthesis_takes_no_room :
    let query := "x=f(g('('))".toList
    Cursor.start.mostOpen query = 2 ∧ parseWithin 2 query = (parse query).mapError .fault ∧
      parseWithin 1 query = .error .outOfRoom := by
  intro query
  have hmost : Cursor.start.mostOpen query = 2 := by decide +kernel
  have hinner : expressionWithin 0 "g('(')".toList 4 = .error .outOfRoom := by
    rw [expressionWithin]
    rfl
  have houter : expressionWithin 1 "f(g('('))".toList 2 = .error .outOfRoom :=
    expressionWithin_of_call rfl rfl rfl rfl hinner
  have hterm : termWithin 1 ⟨0, query⟩ = .error .outOfRoom :=
    termWithin_of_expression rfl rfl rfl (by decide) houter
  have hterms : terms query = .ok [⟨0, query⟩] := rfl
  have hstop : parseWithin 1 query = .error .outOfRoom := by
    rw [parseWithin, hterms]
    simp only [List.mapM_cons, hterm]
    rfl
  exact ⟨hmost, (recursion_bounded_by_scan query).1 2 (Nat.le_of_eq hmost), hstop⟩

end QueryText

end Inventory
