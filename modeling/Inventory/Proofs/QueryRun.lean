import Inventory.Proofs.FetchedRecords
import Inventory.Proofs.RecordHistory

/-! A query over a whole run. What it sends and what it takes a reply for are told by the rules of the
service: the request is an object with the filters, the order and the attributes, and the first reply
that tells rows and no error is the one that the query keeps. -/

namespace Inventory

mutual

theorem Operand.sorted_toJson (x : Operand) : x.toJson.sorted = x.toJson := by
  match x with
  | .absent => rfl
  | .value v => exact v.sorted_toJson
  | .filter op operand =>
    rw [toJson, Json.sorted, Json.sortedMembers, Operand.sorted_toJson operand]
    rfl
  | .list items => rw [toJson, Json.sorted, Operand.sortedItems_allToJson items]

theorem Operand.sortedItems_allToJson (items : List Operand) :
    Json.sortedItems (allToJson items) = allToJson items := by
  match items with
  | [] => rfl
  | x :: rest =>
    rw [allToJson, Json.sortedItems, Operand.sorted_toJson x, Operand.sortedItems_allToJson rest]

end

theorem Filters.sorted_toJson (filters : Filters) : filters.toJson.sorted = filters.toJson := by
  have hmembers : Ascending (filters.entries.map fun e => (e.1, e.2.toJson)) :=
    filters.ascending.map Condition.toJson
  have hentry : ∀ e : String × Condition, (e.1, e.2.toJson.sorted) = (e.1, e.2.toJson) := fun e => by
    rw [Condition.toJson, Operand.sorted_toJson]
  rw [toJson, Json.sorted, Json.sortedMembers_of_ascending hmembers, List.map_map]
  congr 1
  exact List.map_congr_left fun e _ => hentry e

theorem Json.SaysText.unique {found : Option Json} {s s' : Option String} (h : SaysText found s)
    (h' : SaysText found s') : s = s' := by
  obtain ⟨hfound, rfl⟩ | ⟨t, rfl, rfl⟩ := h
  · obtain ⟨-, rfl⟩ | ⟨t, rfl, -⟩ := h'
    · rfl
    · rcases hfound with h | h <;> cases h
  · obtain ⟨hfound, -⟩ | ⟨t', hfound, rfl⟩ := h'
    · rcases hfound with h | h <;> cases h
    · rw [Json.text.inj (Option.some.inj hfound)]

/-- What a request for objects carries. -/
def QueryRequest.payload (request : QueryRequest) : Json :=
  .object (("filters", .object (request.filters.entries.map fun e => (e.1, e.2.toJson))) ::
    ((request.orderBy.map fun name => ("order_by", Json.text name)).toList ++
      [("restrict", .array (request.restrict.map .text))]))

theorem QueryRequest.sorted_toJson (request : QueryRequest) :
    request.toJson.sorted = request.payload := by
  have hrestrict : (Json.ofTexts request.restrict).sorted = .array (request.restrict.map .text) := by
    rw [Json.ofTexts, Json.sorted, Json.sortedItems_eq_map, List.map_map]
    rfl
  cases horder : request.orderBy with
  | none =>
    have hafter : ("filters" : String) < "restrict" := by decide
    have hkeys : Ascending [("filters", request.filters.toJson),
        ("restrict", Json.ofTexts request.restrict)] := List.pairwise_pair.mpr hafter
    rw [toJson, payload, horder, Option.map_none, Option.toList_none, List.append_nil, Json.sorted,
      Json.sortedMembers_of_ascending hkeys]
    simp only [List.map_cons, List.map_nil, hrestrict, request.filters.sorted_toJson]
    rfl
  | some name =>
    have hrest : Json.sortedMembers [("restrict", Json.ofTexts request.restrict),
        ("order_by", Json.text name)] =
        [("order_by", Json.text name), ("restrict", .array (request.restrict.map .text))] := by
      rw [Json.sortedMembers_pair (by decide), hrestrict, Json.sorted]
    have hlater : ∀ e ∈ [("order_by", Json.text name),
        ("restrict", Json.array (request.restrict.map .text))], ("filters" : String) < e.1 := by
      simp only [List.forall_mem_cons]
      decide
    rw [toJson, payload, horder, Option.map_some, Option.toList_some, List.cons_append,
      List.singleton_append, Json.sorted, Json.sortedMembers, hrest, putEntry_of_lt hlater,
      request.filters.sorted_toJson]
    rfl

namespace QueryReply

variable {reply : Json} {status status' message message' : Option String} {rows rows' : List Json}

theorem HasParts.unique {s s' m m' : Option Json} {result result' : Json}
    (h : HasParts reply s m result) (h' : HasParts reply s' m' result') :
    s = s' ∧ m = m' ∧ result = result' := by
  cases h with
  | object hresult =>
    cases h' with
    | object hresult' => exact ⟨rfl, rfl, Option.some.inj (hresult.symm.trans hresult')⟩
  | array =>
    cases h'
    exact ⟨rfl, rfl, rfl⟩

/-- A reply tells one thing only. -/
theorem Tells.unique (h : Tells reply status message rows)
    (h' : Tells reply status' message' rows') :
    status = status' ∧ message = message' ∧ rows = rows' := by
  obtain ⟨s, m, hparts, hstatus, hmessage⟩ := h.parts
  obtain ⟨s', m', hparts', hstatus', hmessage'⟩ := h'.parts
  obtain ⟨rfl, rfl, hrows⟩ := hparts.unique hparts'
  exact ⟨hstatus.unique hstatus', hmessage.unique hmessage', Json.array.inj hrows⟩

/-- What a reply is taken for: one record for each row if it tells no error, else why there are none. -/
inductive TakenFor (reply : Json) : Except Error RecordSet → Prop where
  | rows {status message : Option String} {rows : List Json} {set : RecordSet} :
      Tells reply status message rows → status ≠ some "error" →
      List.Forall₂ (fun row r => r.FetchedFrom row) rows set.records → TakenFor reply (.ok set)
  | refusal {message : Option String} {rows : List Json} :
      Tells reply (some "error") message rows →
      TakenFor reply (.error (.queryFailed (message.getD "query failed")))
  | unreadable (m : Mismatch) : (∀ status message rows, ¬Tells reply status message rows) →
      TakenFor reply (.error (.decode ("failed to decode query response: " ++ m.message)))

theorem takenFor_records (hreply : reply.IsSorted) : TakenFor reply (records reply) := by
  by_cases h : ∃ status message rows, Tells reply status message rows
  · obtain ⟨status, message, rows, htells⟩ := h
    by_cases hstatus : status = some "error"
    · rw [htells.records_eq_error hreply hstatus]
      exact .refusal (hstatus ▸ htells)
    · obtain ⟨set, hset, hrows⟩ := htells.records_eq_ok hreply hstatus
      rw [hset]
      exact .rows htells hstatus hrows
  · simp only [not_exists] at h
    obtain ⟨m, hm⟩ := records_of_untold hreply h
    rw [hm]
    exact .unreadable m h

theorem TakenFor.of_tells {answer : Except Error RecordSet} (h : TakenFor reply answer)
    (htells : Tells reply status message rows) (hstatus : status ≠ some "error") :
    ∃ set, answer = .ok set ∧ List.Forall₂ (fun row r => r.FetchedFrom row) rows set.records := by
  cases h with
  | rows htells' _ hrows =>
    obtain ⟨-, -, rfl⟩ := htells.unique htells'
    exact ⟨_, rfl, hrows⟩
  | refusal htells' => exact absurd (htells.unique htells').1 hstatus
  | unreadable _ huntold => exact absurd htells (huntold _ _ _)

end QueryReply

namespace Query

variable {τ : Type} [Transport τ]

theorem posted_eq (request : QueryRequest) : posted request = (.query, request.payload) := by
  rw [posted, request.sorted_toJson]

/-- The answer to a request is the error of the transport, or what its reply is taken for. -/
structure Answers (request : QueryRequest) (t : τ) (answer : Except Error RecordSet) : Prop where
  undelivered : ∀ e, (Transport.send t .query request.payload).1 = .error e → answer = .error e
  delivered : ∀ reply, (Transport.send t .query request.payload).1 = .ok reply → reply.IsSorted →
    QueryReply.TakenFor reply answer

theorem answers (request : QueryRequest) (t : τ) : Answers request t (answered request t) where
  undelivered e h := by rw [answered, request.sorted_toJson, h]
  delivered reply h hreply := by
    rw [answered, request.sorted_toJson, h]
    exact QueryReply.takenFor_records hreply

/-- All that some uses of a query, one after the other, can do. -/
structure Runs (q : Query) (uses : List (Use τ)) : Prop where
  keeps : ∀ set, q.loaded = some set →
    q.after uses = { q.built uses with loaded := some (edited set uses) } ∧ q.sentFor uses = []
  refused : q.loaded = none → q.Refused uses →
    q.after uses = q.built uses ∧ q.sentFor uses = (q.asked uses).map posted
  loads : ∀ before u later t set, uses = before ++ u :: later → q.loaded = none →
    q.Refused before → u.over? = some t → answered (q.built before).request t = .ok set →
    q.after uses = { q.built uses with loaded := some (edited (u.edits set) later) } ∧
      q.sentFor uses = (q.asked (before ++ [u])).map posted
  decided : q.Refused uses ∨ ∃ before u later t set, uses = before ++ u :: later ∧
    q.Refused before ∧ u.over? = some t ∧ answered (q.built before).request t = .ok set

theorem runs (q : Query) (uses : List (Use τ)) : q.Runs uses where
  keeps _ h := after_of_loaded h uses
  refused h hr := after_of_refused h hr
  loads _ _ _ _ _ huses h hr hu ha := huses ▸ after_of_answered h hr hu ha
  decided := q.refused_or_answered uses

end Query

variable {τ : Type} [Transport τ]

/-- Each use of a query does what `Query.Performs` says, whatever came before. Over a whole run every
reading sends the request of its moment until one is answered with records; from then on the query
holds these records, with the edits made since, and sends nothing. -/
theorem query_loads_at_most_once :
    (∀ (q : Query) (u : Query.Use τ), q.Performs u) ∧
    (∀ (q : Query) (t : τ) (sent : List (Endpoint × Json)),
      let seen := q.all (⟨t, sent⟩ : Observed τ)
      q.all t = (seen.1, seen.2.1, seen.2.2.inner) ∧
      q.one t = (seen.1.bind Query.only, seen.2.1, seen.2.2.inner) ∧
      q.count t = (seen.1.map RecordSet.size, seen.2.1, seen.2.2.inner)) ∧
    (∀ q : Query, q.request = ⟨q.filters,
      q.attributes ++ (if objectIdName ∈ q.attributes then [] else [objectIdName]), q.orderBy⟩) ∧
    (∀ request, Query.posted request = (.query, request.payload)) ∧
    (∀ (request : QueryRequest) (t : τ), Query.Answers request t (Query.answered request t)) ∧
    (∀ set : RecordSet,
      (Query.only set = .error .noResults ↔ set.records = []) ∧
      (∀ n, Query.only set = .error (.multipleResults n) ↔ set.records.length = n ∧ 2 ≤ n) ∧
      ∀ r, Query.only set = .ok r ↔ set.records = [r]) ∧
    (∀ (q : Query) (uses : List (Query.Use τ)), q.Runs uses) := by
  refine ⟨Query.performs, fun q t sent => ?_, Query.request_eq, Query.posted_eq, Query.answers,
    fun set => ?_, Query.runs⟩
  · have hall := q.all_observed t sent
    exact ⟨hall, by rw [Query.one_eq, hall], by rw [Query.count_eq, hall]⟩
  · exact ⟨Query.only_eq_noResults, fun n => Query.only_eq_multipleResults,
      fun r => Query.only_eq_ok⟩

/-- A reading that fails leaves the query as it was, so the next one asks again, by then for other
attributes; the record that it brings is edited and counted without a further request. -/
theorem query_reads_again_after_failure :
    let row : Json := .object [("hostname", .text "a"), (objectIdName, .integer 1)]
    let down : Script := .ofReplies [.error (.transport "out of reach")]
    let up : Script :=
      .ofReplies [.ok (.object [("result", .array [row]), ("status", .text "success")])]
    let uses : List (Query.Use Script) := [.count down, .setAttributes ["hostname"],
      .one up Record.delete, .sortBy "hostname", .count down]
    let q := (Query.ofFilters ∅).sortBy objectIdName
    (∃ r : Record, r.FetchedFrom row ∧ (q.after uses).loaded = some ⟨[r.delete]⟩) ∧
    q.sentFor uses =
      [(.query, .object [("filters", .object []), ("order_by", .text objectIdName),
        ("restrict", .array [.text objectIdName, .text "hostname"])]),
      (.query, .object [("filters", .object []), ("order_by", .text objectIdName),
        ("restrict", .array [.text "hostname", .text objectIdName])])] := by
  intro row down up uses q
  obtain ⟨-, -, -, hposted, hanswers, -, hruns⟩ := query_loads_at_most_once (τ := Script)
  have hrefused : q.Refused [.count down, .setAttributes ["hostname"]] := by
    refine ⟨fun t ht => ⟨.transport "out of reach", ?_⟩, nofun, trivial⟩
    obtain rfl : down = t := Option.some.inj ht
    exact (hanswers q.request down).undelivered _ rfl
  have hrow : row.IsRow :=
    List.forall_mem_cons.mpr ⟨trivial, List.forall_mem_singleton.mpr trivial⟩
  let asked : Query := q.setAttributes ["hostname"]
  have htells : QueryReply.Tells (.object [("result", .array [row]), ("status", .text "success")])
      (some "success") none [row] :=
    ⟨⟨_, _, .object rfl, .inr ⟨_, rfl, rfl⟩, .inl ⟨.inl rfl, rfl⟩⟩, List.forall_mem_singleton.mpr hrow⟩
  obtain ⟨set, hset, hrows⟩ :=
    ((hanswers asked.request up).delivered _ rfl rfl).of_tells htells (by decide)
  obtain ⟨r, records, hr, hnone, hrecords⟩ := List.forall₂_cons_left_iff.mp hrows
  obtain rfl := List.forall₂_nil_left_iff.mp hnone
  obtain rfl : set = ⟨[r]⟩ := congrArg RecordSet.mk hrecords
  obtain ⟨hafter, hsent⟩ := (hruns q uses).loads [.count down, .setAttributes ["hostname"]] _ _ up _
    rfl rfl hrefused rfl hset
  refine ⟨⟨r, hr, by rw [hafter]; rfl⟩, ?_⟩
  have hasked : q.asked ([.count down, .setAttributes ["hostname"]] ++ [.one up Record.delete]) =
      [q.request, asked.request] := rfl
  rw [hsent, hasked, List.map_cons, List.map_singleton, hposted, hposted]
  rfl

end Inventory
