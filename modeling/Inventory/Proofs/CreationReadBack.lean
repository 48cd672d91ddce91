import Inventory.Proofs.GivenAttributes

/-! The creation of an object, request by request. The object that is asked for has the attributes of
its kind and no identity, with the last value given under each name, and it is read back by the hostname
it was given. No request follows one that failed. -/

namespace Inventory

variable {τ : Type} [Transport τ]

/-- What a transport answers to some requests, made one after the other. -/
def answersTo (t : τ) : List (Endpoint × Json) → List (Except Error Json)
  | [] => []
  | (endpoint, payload) :: rest =>
    (Transport.send t endpoint payload).1 :: answersTo (Transport.send t endpoint payload).2 rest

/-- The answer is a reply that says what was asked for. -/
def WentWell : Endpoint → Except Error Json → Prop
  | _, .error _ => False
  | .newObject _, .ok reply => ∃ fresh, newRecord reply = .ok fresh
  | .commit, .ok reply => ∃ id, CommitReply.accepted reply = .ok id
  | .query, .ok reply => ∃ set, QueryReply.records reply = .ok set

/-- The attributes that the service knows for a kind of object, with their defaults. -/
def SchemaOf (reply : Json) (schema : Fields) : Prop :=
  reply.toRecord "NewObjectResponse" newObjectFields ∅ = .ok schema

/-- The objects that a commit asks to create. -/
def createdIn : Json → List Json
  | .object members =>
    match members.lookup "created" with
    | some (.array entries) => entries
    | _ => []
  | _ => []

/-- The request for the objects of a hostname. -/
def hostnameQuery (hostname : Value) : Endpoint × Json :=
  (.query, .object [("filters", .object [(hostnameName, hostname.toJson)]),
    ("restrict", .array [.text objectIdName, .text hostnameName])])

def hostnameReader (hostname : Value) : Query :=
  .ofFilters (.ofList [(hostnameName, .value hostname)])

theorem posted_hostname (hostname : Value) :
    Query.posted (hostnameReader hostname).request = hostnameQuery hostname := by
  have hsorted := hostname.sorted_toJson
  show (Endpoint.query, Json.object [("filters", .object [(hostnameName, hostname.toJson.sorted)]),
    ("restrict", .array [.text objectIdName, .text hostnameName])]) = hostnameQuery hostname
  rw [hsorted, hostnameQuery]

theorem newObject_eq (servertype : String) (t : τ) : newObject servertype t =
    ((Transport.send t (.newObject servertype) .null).1.bind newRecord,
      (Transport.send t (.newObject servertype) .null).2) := by
  rw [newObject]
  rcases Transport.send t (.newObject servertype) .null with ⟨_ | _, _⟩ <;> rfl

/-- How far a creation comes, with its answer and the requests it makes. -/
inductive CreationCourse (servertype : String) (attributes : List (String × Value)) (t : τ) :
    Except Error Record → List (Endpoint × Json) → Prop where
  | unnamed : lastGiven? hostnameName attributes = none →
      CreationCourse servertype attributes t (.error (.missingField hostnameName)) []
  | unfetched {e : Error} : lastGiven? hostnameName attributes ≠ none →
      (newObject servertype t).1 = .error e →
      CreationCourse servertype attributes t (.error e) [(.newObject servertype, .null)]
  | refused {fresh : Record} {e : Error} : lastGiven? hostnameName attributes ≠ none →
      (newObject servertype t).1 = .ok fresh → fresh.firstRefusal? attributes = some e →
      CreationCourse servertype attributes t (.error e) [(.newObject servertype, .null)]
  | unsent {fresh filled : Record} {e : Error} : lastGiven? hostnameName attributes ≠ none →
      (newObject servertype t).1 = .ok fresh → fresh.setAll attributes = .ok filled →
      CreationCourse servertype attributes t (.error e) [(.newObject servertype, .null)]
  | uncommitted {fresh filled : Record} {request : CommitRequest} {e : Error} :
      lastGiven? hostnameName attributes ≠ none →
      (newObject servertype t).1 = .ok fresh → fresh.setAll attributes = .ok filled →
      CommitRequest.ofRecords [filled] = .ok request →
      CreationCourse servertype attributes t (.error e)
        [(.newObject servertype, .null), (.commit, request.toJson.sorted)]
  | committed {hostname : Value} {fresh filled : Record} {request : CommitRequest} {id : Int64}
      {answer : Except Error Record} (asked committed : τ) :
      lastGiven? hostnameName attributes = some hostname →
      (newObject servertype t).1 = .ok fresh → fresh.setAll attributes = .ok filled →
      CommitRequest.ofRecords [filled] = .ok request →
      asked = (Transport.send t (.newObject servertype) .null).2 →
      (request.send asked).1 = .ok id →
      committed = (Transport.send asked .commit request.toJson.sorted).2 →
      (∀ r, answer = .ok r ↔ ∃ reply,
        (Transport.send committed .query (hostnameQuery hostname).2).1 = .ok reply ∧
        QueryReply.records reply = .ok ⟨[r]⟩) →
      CreationCourse servertype attributes t answer
        [(.newObject servertype, .null), (.commit, request.toJson.sorted), hostnameQuery hostname]

theorem Query.one_eq_ok {q : Query} (hq : q.loaded = none) (t : τ) {r : Record} :
    (q.one t).1 = .ok r ↔ ∃ reply,
      (Transport.send t .query q.request.toJson.sorted).1 = .ok reply ∧
        QueryReply.records reply = .ok ⟨[r]⟩ := by
  rw [one_eq, all_of_unloaded hq, answered]
  dsimp only
  cases (Transport.send t .query q.request.toJson.sorted).1 with
  | error e => simp [Except.bind]
  | ok reply =>
    cases hset : QueryReply.records reply with
    | error e => simp [Except.bind, hset]
    | ok set =>
      obtain ⟨records⟩ := set
      simp [Except.bind, hset, only_eq_ok]

/-- The last request of a creation. -/
def readBack (hostname : Value) (t : τ) : Except Error Record × τ :=
  let read := (hostnameReader hostname).one t
  (read.1.mapError (Error.context · "re-querying created object"), read.2.2)

def commitNew (filled : Record) (hostname : Value) (t : τ) : Except Error Record × τ :=
  match (filled.commit t).1 with
  | .error e => (.error (e.context "committing new object"), (filled.commit t).2.2)
  | .ok _ => readBack hostname (filled.commit t).2.2

/-- What a creation does once the attributes of the new object are known. -/
def fillIn (attributes : List (String × Value)) (hostname : Value) (fresh : Except Error Record)
    (t : τ) : Except Error Record × τ :=
  match fresh.bind (Record.setAll · attributes) with
  | .error e => (.error e, t)
  | .ok filled => commitNew filled hostname t

theorem createObject_of_named {servertype : String} {attributes : List (String × Value)}
    {hostname : Value} (hname : lastHostname? attributes = some hostname) (t : τ) :
    createObject servertype attributes t =
      fillIn attributes hostname (newObject servertype t).1 (newObject servertype t).2 := by
  rw [createObject, hname]
  rcases newObject servertype t with ⟨e | fresh, t'⟩
  · rfl
  · dsimp only [fillIn, Except.bind]
    cases fresh.setAll attributes with
    | error e => rfl
    | ok filled =>
      dsimp only [commitNew]
      rcases filled.commit t' with ⟨e | id, r, t''⟩
      · rfl
      · dsimp only [readBack, hostnameReader]
        rcases (Query.ofFilters (.ofList [(hostnameName, .value hostname)])).one t'' with
          ⟨_ | _, _, _⟩ <;> rfl

/-- Reading back sends one request, and gives a record if the reply holds this record alone. -/
theorem readBack_observed (hostname : Value) (o : Observed τ) :
    (readBack hostname o).2.sent = o.sent ++ [hostnameQuery hostname] ∧
      ∀ r, (readBack hostname o).1 = .ok r ↔ ∃ reply,
        (Transport.send o.inner .query (hostnameQuery hostname).2).1 = .ok reply ∧
        QueryReply.records reply = .ok ⟨[r]⟩ := by
  have hposted := posted_hostname hostname
  have hpayload : (hostnameReader hostname).request.toJson.sorted = (hostnameQuery hostname).2 :=
    congrArg Prod.snd hposted
  constructor
  · rw [readBack, Query.one_observed rfl, hposted]
  · intro r
    have hanswer : (readBack hostname o).1 = .ok r ↔ ((hostnameReader hostname).one o).1 = .ok r := by
      rw [readBack]
      cases ((hostnameReader hostname).one o).1 <;> simp [Except.mapError]
    rw [hanswer, Query.one_eq_ok rfl, hpayload]
    exact Iff.rfl

section Stages

variable {servertype : String} {attributes : List (String × Value)} {t asked : τ} {hostname : Value}
  {fresh filled : Record}

theorem course_of_filled (hnamed : lastGiven? hostnameName attributes = some hostname)
    (hfresh : (newObject servertype t).1 = .ok fresh) (hfilled : fresh.setAll attributes = .ok filled)
    (hasked : asked = (Transport.send t (.newObject servertype) .null).2) :
    let run := commitNew filled hostname (⟨asked, [(.newObject servertype, .null)]⟩ : Observed τ)
    CreationCourse servertype attributes t run.1 run.2.sent := by
  have hne : lastGiven? hostnameName attributes ≠ none := by simp [hnamed]
  dsimp only
  rw [commitNew, Record.commit_eq]
  cases hrequest : CommitRequest.ofRecords [filled] with
  | error e =>
    simp only [commit_of_refused hrequest]
    exact .unsent hne hfresh hfilled
  | ok request =>
    have hsend : request.send (⟨asked, [(.newObject servertype, .null)]⟩ : Observed τ) =
        ((request.send asked).1, ⟨(Transport.send asked .commit request.toJson.sorted).2,
          [(.newObject servertype, .null), (.commit, request.toJson.sorted)]⟩) := by
      rw [CommitRequest.send_eq, CommitRequest.send_eq]
      rfl
    simp only [commit_of_request hrequest, hsend]
    cases haccepted : (request.send asked).1 with
    | error e => exact .uncommitted hne hfresh hfilled hrequest
    | ok id =>
      obtain ⟨hsent, hanswer⟩ := readBack_observed hostname
        (⟨(Transport.send asked .commit request.toJson.sorted).2,
          [(.newObject servertype, .null), (.commit, request.toJson.sorted)]⟩ : Observed τ)
      dsimp only
      rw [hsent]
      exact .committed asked _ hnamed hfresh hfilled hrequest hasked haccepted rfl hanswer

theorem course_of_fresh (hnamed : lastGiven? hostnameName attributes = some hostname)
    (hfresh : (newObject servertype t).1 = .ok fresh)
    (hasked : asked = (Transport.send t (.newObject servertype) .null).2) :
    let run := fillIn attributes hostname (.ok fresh)
      (⟨asked, [(.newObject servertype, .null)]⟩ : Observed τ)
    CreationCourse servertype attributes t run.1 run.2.sent := by
  have hne : lastGiven? hostnameName attributes ≠ none := by simp [hnamed]
  dsimp only [fillIn, Except.bind]
  cases hrefused : fresh.firstRefusal? attributes with
  | some e =>
    simp only [Record.setAll_of_refusal hrefused]
    exact .refused hne hfresh hrefused
  | none =>
    obtain ⟨filled, hfilled⟩ := Record.exists_setAll hrefused
    simp only [hfilled]
    exact course_of_filled hnamed hfresh hfilled hasked

end Stages

theorem creation_course (servertype : String) (attributes : List (String × Value)) (t : τ) :
    CreationCourse servertype attributes t
      (createObject servertype attributes (⟨t, []⟩ : Observed τ)).1
      (createObject servertype attributes (⟨t, []⟩ : Observed τ)).2.sent := by
  have hnew : newObject servertype (⟨t, []⟩ : Observed τ) = ((newObject servertype t).1,
      ⟨(Transport.send t (.newObject servertype) .null).2, [(.newObject servertype, .null)]⟩) := by
    rw [newObject_eq, newObject_eq]
    rfl
  cases hname : lastHostname? attributes with
  | none =>
    rw [createObject, hname]
    exact .unnamed hname
  | some hostname =>
    have hnamed : lastGiven? hostnameName attributes = some hostname := hname
    rw [createObject_of_named hname, hnew]
    cases hfresh : (newObject servertype t).1 with
    | error e =>
      have hne : lastGiven? hostnameName attributes ≠ none := by simp [hnamed]
      exact .unfetched hne hfresh
    | ok fresh => exact course_of_fresh hnamed hfresh rfl

theorem createdIn_sorted_toJson (request : CommitRequest) :
    createdIn request.toJson.sorted = request.created.map Fields.toJson := by
  have hchanged : ¬("created" : String) = "changed" := by decide
  rw [request.sorted_toJson]
  simp [createdIn, lookup_cons_eq, hchanged]

/-- The attributes of a new object, as the service knows them and without identity. -/
def blankObject (schema : Fields) : Record := .ofFields (schema.insert objectIdName .null)

theorem newRecord_of_schemaOf {reply : Json} {schema : Fields} (h : SchemaOf reply schema) :
    newRecord reply = .ok (blankObject schema) :=
  newRecord_eq_ok.mpr ⟨schema, h, rfl⟩

theorem newObject_eq_ok {servertype : String} {t : τ} {fresh : Record}
    (h : (newObject servertype t).1 = .ok fresh) :
    ∃ reply schema, (Transport.send t (.newObject servertype) .null).1 = .ok reply ∧
      SchemaOf reply schema ∧ fresh = blankObject schema := by
  rw [newObject_eq] at h
  cases hreply : (Transport.send t (.newObject servertype) .null).1 with
  | error e =>
    rw [hreply] at h
    cases h
  | ok reply =>
    have hfresh : newRecord reply = .ok fresh := by
      rw [hreply] at h
      exact h
    obtain ⟨schema, hschema, rfl⟩ := newRecord_eq_ok.mp hfresh
    exact ⟨reply, schema, rfl, hschema, rfl⟩

/-- What a creation answers and sends. The object asked for is the one that is read back, and of the
values given under one name the last counts for both. -/
structure CreationReadsBack (servertype : String) (attributes : List (String × Value)) (t : τ)
    (answer : Except Error Record) (sent : List (Endpoint × Json)) : Prop where
  unnamed : lastGiven? hostnameName attributes = none →
    answer = .error (.missingField hostnameName) ∧ sent = []
  refused : lastGiven? hostnameName attributes ≠ none → ∀ reply schema e,
    (Transport.send t (.newObject servertype) .null).1 = .ok reply → SchemaOf reply schema →
    (blankObject schema).firstRefusal? attributes = some e →
    answer = .error e ∧ sent = [(.newObject servertype, .null)]
  ordered : sent.map (·.1) <+: [.newObject servertype, .commit, .query]
  stops : ∀ i endpoint payload reply, sent[i]? = some (endpoint, payload) →
    (answersTo t sent)[i]? = some reply → i + 1 < sent.length → WentWell endpoint reply
  creates : ∀ payload entry, sent[1]? = some (.commit, payload) → entry ∈ createdIn payload →
    createdIn payload = [entry] ∧ ∃ reply schema fields,
      (answersTo t sent)[0]? = some (.ok reply) ∧ SchemaOf reply schema ∧
      entry = Fields.toJson fields ∧
      (∀ field, fields.get? field = (lastGiven? field attributes).or
        ((blankObject schema).fields.get? field)) ∧
      ∀ request, sent[2]? = some request →
        ∃ hostname, fields.get? hostnameName = some hostname ∧ request = hostnameQuery hostname
  returns : ∀ r, answer = .ok r ↔ sent.length = 3 ∧ ∃ reply,
    (answersTo t sent)[2]? = some (.ok reply) ∧ QueryReply.records reply = .ok ⟨[r]⟩

section Course

variable {servertype : String} {attributes : List (String × Value)} {t : τ}
  {answer : Except Error Record} {sent : List (Endpoint × Json)}

theorem CreationCourse.unnamed_of (h : CreationCourse servertype attributes t answer sent)
    (hname : lastGiven? hostnameName attributes = none) :
    answer = .error (.missingField hostnameName) ∧ sent = [] := by
  cases h with
  | unnamed _ => exact ⟨rfl, rfl⟩
  | unfetched hne _ => exact absurd hname hne
  | refused hne _ _ => exact absurd hname hne
  | unsent hne _ _ => exact absurd hname hne
  | uncommitted hne _ _ _ => exact absurd hname hne
  | committed _ _ hnamed _ _ _ _ _ _ _ =>
    rw [hname] at hnamed
    cases hnamed

/-- A record that refuses a value is not filled. -/
theorem CreationCourse.refused_of (h : CreationCourse servertype attributes t answer sent)
    (hname : lastGiven? hostnameName attributes ≠ none) {fresh : Record} {e : Error}
    (hfresh : (newObject servertype t).1 = .ok fresh)
    (hrefused : fresh.firstRefusal? attributes = some e) :
    answer = .error e ∧ sent = [(.newObject servertype, .null)] := by
  have hunfilled : ∀ {fresh' filled : Record}, (newObject servertype t).1 = .ok fresh' →
      fresh'.setAll attributes ≠ .ok filled := by
    intro fresh' filled hfresh' hfilled
    obtain rfl := Except.ok.inj (hfresh.symm.trans hfresh')
    rw [Record.setAll_of_refusal hrefused] at hfilled
    cases hfilled
  cases h with
  | unnamed hnone => exact absurd hnone hname
  | unfetched _ herror =>
    rw [hfresh] at herror
    cases herror
  | refused _ hfresh' hrefused' =>
    obtain rfl := Except.ok.inj (hfresh.symm.trans hfresh')
    rw [hrefused] at hrefused'
    exact ⟨congrArg _ (Option.some.inj hrefused').symm, rfl⟩
  | unsent _ hfresh' hfilled => exact absurd hfilled (hunfilled hfresh')
  | uncommitted _ hfresh' hfilled _ => exact absurd hfilled (hunfilled hfresh')
  | committed _ _ _ hfresh' hfilled _ _ _ _ _ => exact absurd hfilled (hunfilled hfresh')

theorem CreationCourse.ordered (h : CreationCourse servertype attributes t answer sent) :
    sent.map (·.1) <+: [.newObject servertype, .commit, .query] := by
  cases h <;> simp [hostnameQuery]

theorem wentWell_newObject {fresh : Record} (h : (newObject servertype t).1 = .ok fresh) :
    WentWell (.newObject servertype) (Transport.send t (.newObject servertype) .null).1 := by
  obtain ⟨reply, schema, hreply, hschema, -⟩ := newObject_eq_ok h
  rw [hreply]
  exact ⟨_, newRecord_of_schemaOf hschema⟩

theorem wentWell_commit {request : CommitRequest} {id : Int64} (h : (request.send t).1 = .ok id) :
    WentWell .commit (Transport.send t .commit request.toJson.sorted).1 := by
  rw [CommitRequest.send_eq] at h
  cases hreply : (Transport.send t .commit request.toJson.sorted).1 with
  | error e =>
    rw [hreply] at h
    cases h
  | ok reply =>
    rw [hreply] at h
    exact ⟨id, h⟩

theorem CreationCourse.stops (h : CreationCourse servertype attributes t answer sent) {i : Nat}
    {endpoint : Endpoint} {payload : Json} {reply : Except Error Json}
    (hrequest : sent[i]? = some (endpoint, payload)) (hreply : (answersTo t sent)[i]? = some reply)
    (hlater : i + 1 < sent.length) : WentWell endpoint reply := by
  cases h with
  | unnamed _ => simp at hlater
  | unfetched _ _ => simp at hlater
  | refused _ _ _ => simp at hlater
  | unsent _ _ _ => simp at hlater
  | uncommitted _ hfresh _ _ =>
    obtain rfl : i = 0 := by
      have hlt : i + 1 < 2 := hlater
      omega
    obtain ⟨rfl, -⟩ := Prod.mk.inj (Option.some.inj hrequest)
    obtain rfl := Option.some.inj hreply
    exact wentWell_newObject hfresh
  | committed asked _ _ hfresh _ _ hasked haccepted _ _ =>
    have hi : i = 0 ∨ i = 1 := by
      have hlt : i + 1 < 3 := hlater
      omega
    rcases hi with rfl | rfl
    · obtain ⟨rfl, -⟩ := Prod.mk.inj (Option.some.inj hrequest)
      obtain rfl := Option.some.inj hreply
      exact wentWell_newObject hfresh
    · obtain ⟨rfl, -⟩ := Prod.mk.inj (Option.some.inj hrequest)
      obtain rfl := Option.some.inj hreply
      subst hasked
      exact wentWell_commit haccepted

theorem CreationCourse.creates (h : CreationCourse servertype attributes t answer sent)
    {payload entry : Json} (hpayload : sent[1]? = some (.commit, payload))
    (hentry : entry ∈ createdIn payload) :
    createdIn payload = [entry] ∧ ∃ reply schema fields,
      (answersTo t sent)[0]? = some (.ok reply) ∧ SchemaOf reply schema ∧
      entry = Fields.toJson fields ∧
      (∀ field, fields.get? field = (lastGiven? field attributes).or
        ((blankObject schema).fields.get? field)) ∧
      ∀ request, sent[2]? = some request →
        ∃ hostname, fields.get? hostnameName = some hostname ∧ request = hostnameQuery hostname := by
  have hcreated : ∀ {fresh filled : Record} {request : CommitRequest},
      (newObject servertype t).1 = .ok fresh → fresh.setAll attributes = .ok filled →
      CommitRequest.ofRecords [filled] = .ok request → payload = request.toJson.sorted →
      createdIn payload = [entry] ∧ entry = filled.fields.toJson ∧
        ∃ reply schema, (Transport.send t (.newObject servertype) .null).1 = .ok reply ∧
          SchemaOf reply schema ∧
          ∀ field, filled.fields.get? field = (lastGiven? field attributes).or
            ((blankObject schema).fields.get? field) := by
    intro fresh filled request hfresh hfilled hrequest hsent
    obtain ⟨reply, schema, hreply, hschema, rfl⟩ := newObject_eq_ok hfresh
    have hid : (schema.insert objectIdName .null).get? objectIdName = some .null := by
      rw [TextMap.get?_insert, if_pos rfl]
    have hshape : filled.Filled attributes := Record.filled_of_setAll hid hfilled
    rw [hsent, createdIn_sorted_toJson] at hentry ⊢
    by_cases hgiven : givenIdentity attributes = .null
    · obtain rfl := hshape.request_creates hgiven hrequest
      obtain rfl : entry = filled.fields.toJson := by simpa using hentry
      exact ⟨rfl, rfl, reply, schema, hreply, hschema, Record.get?_setAll hfilled⟩
    · obtain ⟨rfl, -⟩ := hshape.request_changes hgiven hrequest
      simp at hentry
  cases h with
  | unnamed _ => simp at hpayload
  | unfetched _ _ => simp at hpayload
  | refused _ _ _ => simp at hpayload
  | unsent _ _ _ => simp at hpayload
  | @uncommitted fresh filled request _ _ hfresh hfilled hrequest =>
    have hsent : payload = request.toJson.sorted := by simpa [eq_comm] using hpayload
    obtain ⟨hone, hfields, reply, schema, hreply, hschema, hget⟩ :=
      hcreated hfresh hfilled hrequest hsent
    exact ⟨hone, reply, schema, filled.fields, congrArg some hreply, hschema, hfields, hget, nofun⟩
  | @committed hostname fresh filled request _ _ _ _ hnamed hfresh hfilled hrequest _ _ _ _ =>
    have hsent : payload = request.toJson.sorted := by simpa [eq_comm] using hpayload
    obtain ⟨hone, hfields, reply, schema, hreply, hschema, hget⟩ :=
      hcreated hfresh hfilled hrequest hsent
    refine ⟨hone, reply, schema, filled.fields, congrArg some hreply, hschema, hfields, hget, ?_⟩
    intro third hthird
    have hstored : filled.fields.get? hostnameName = some hostname := by
      rw [hget, hnamed, Option.some_or]
    exact ⟨hostname, hstored, (Option.some.inj hthird).symm⟩

theorem CreationCourse.returns (h : CreationCourse servertype attributes t answer sent) (r : Record) :
    answer = .ok r ↔ sent.length = 3 ∧ ∃ reply,
      (answersTo t sent)[2]? = some (.ok reply) ∧ QueryReply.records reply = .ok ⟨[r]⟩ := by
  cases h with
  | unnamed _ => simp
  | unfetched _ _ => simp
  | refused _ _ _ => simp
  | unsent _ _ _ => simp
  | uncommitted _ _ _ _ => simp
  | committed asked committed _ _ _ _ hasked _ hcommitted hanswer =>
    subst hasked hcommitted
    rw [hanswer r]
    simp [answersTo, hostnameQuery]

end Course

theorem createObject_congr (servertype : String) {attributes others : List (String × Value)}
    (h : SameGiven attributes others) (t : τ) :
    (createObject servertype attributes t).2 = (createObject servertype others t).2 := by
  have hname : lastHostname? attributes = lastHostname? others := h.lastGiven? hostnameName
  rw [createObject, createObject, hname]
  cases lastHostname? others with
  | none => rfl
  | some hostname =>
    dsimp only
    rcases newObject servertype t with ⟨_ | fresh, t'⟩
    · rfl
    · rcases h.setAll fresh with ⟨s, hs, hs'⟩ | ⟨e, e', he, he'⟩
      · simp only [hs, hs']
      · simp only [he, he']

/-- The values given may change places, except for those under one name, without a change of any
request. -/
theorem creation_reads_back_what_it_creates (servertype : String)
    (attributes : List (String × Value)) (t : τ) :
    let run := createObject servertype attributes (⟨t, []⟩ : Observed τ)
    CreationReadsBack servertype attributes t run.1 run.2.sent ∧
      ∀ others, SameGiven attributes others →
        (createObject servertype others (⟨t, []⟩ : Observed τ)).2.sent = run.2.sent := by
  intro run
  have hcourse : CreationCourse servertype attributes t run.1 run.2.sent :=
    creation_course servertype attributes t
  refine ⟨⟨hcourse.unnamed_of, ?_, hcourse.ordered, fun i endpoint payload reply => hcourse.stops,
    fun payload entry => hcourse.creates, hcourse.returns⟩, fun others hsame => ?_⟩
  · intro hname reply schema e hreply hschema hrefused
    have hfresh : (newObject servertype t).1 = .ok (blankObject schema) := by
      rw [newObject_eq, hreply]
      exact newRecord_of_schemaOf hschema
    exact hcourse.refused_of hname hfresh hrefused
  · exact congrArg Observed.sent (createObject_congr servertype hsame _).symm

/-- Two hostnames are given. The object is created under the last one and found under it, wherever
the other attribute stands. -/
theorem creation_reads_back_last_hostname :
    let schema : Json := .object [("result", .object [("hostname", .null), ("memory", .integer 1),
      (objectIdName, .integer 17)])]
    let stored : Fields := .ofList [("hostname", .text "b"), (objectIdName, .int 9)]
    let t : Script := .ofReplies [.ok schema, .ok (.object [("status", .text "success")]),
      .ok (.object [("status", .text "success"), ("result", .array [stored.toJson])])]
    let run := createObject "vm" [("hostname", .text "a"), ("memory", .int 2), ("hostname", .text "b")]
      (⟨t, []⟩ : Observed Script)
    let moved := createObject "vm" [("memory", .int 2), ("hostname", .text "a"), ("hostname", .text "b")]
      (⟨t, []⟩ : Observed Script)
    run.1 = .ok (.ofFields stored) ∧ run.2.sent[2]? = some (hostnameQuery (.text "b")) ∧
      moved.2.sent = run.2.sent := by
  intro schema stored t run moved
  have hpayload : run.2.sent[1]? = some (.commit, creationPayload
      [.ofList [("hostname", .text "b"), ("memory", .int 2), (objectIdName, .null)]]) := rfl
  obtain ⟨hreads, hmoved⟩ := creation_reads_back_what_it_creates "vm"
    [("hostname", .text "a"), ("memory", .int 2), ("hostname", .text "b")] t
  obtain ⟨-, reply, fresh, fields, -, -, -, hfields, hthird⟩ :=
    hreads.creates _ _ hpayload List.mem_cons_self
  have hlength : run.2.sent.length = 3 := rfl
  obtain ⟨request, hrequest⟩ : ∃ request, run.2.sent[2]? = some request := ⟨_, rfl⟩
  obtain ⟨hostname, hname, hquery⟩ := hthird request hrequest
  have hstored : hostname = .text "b" := by
    rw [hfields] at hname
    exact (Option.some.inj hname).symm
  refine ⟨(hreads.returns _).mpr ⟨hlength, _, rfl, rfl⟩, ?_, ?_⟩
  · rw [hrequest, hquery, hstored]
  · have hnames : ("hostname" : String) ≠ "memory" := by decide
    exact hmoved _ (sameGiven_swap (e := ("hostname", .text "a")) (f := ("memory", .int 2)) hnames []
      [("hostname", .text "b")])

/-- An attribute that the service does not know is taken, if it is the identity. -/
theorem creation_takes_unknown_identity :
    let schema : Fields := .ofList [("hostname", .null)]
    let t : Script := .ofReplies [.ok (.object [("result", schema.toJson)]),
      .ok (.object [("status", .text "success")]),
      .ok (.object [("status", .text "success"), ("result", .array [schema.toJson])])]
    let run := createObject "vm" [("hostname", .text "a"), (objectIdName, .int 5)]
      (⟨t, []⟩ : Observed Script)
    objectIdName ∉ schema.keys ∧ run.1 = .ok (.ofFields schema) ∧ run.2.sent.length = 3 := by
  refine ⟨?_, rfl, rfl⟩
  decide

end Inventory
