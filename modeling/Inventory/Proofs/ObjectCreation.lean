import Inventory.Proofs.CanonicalText
import Inventory.Proofs.CommitSettlement
import Inventory.Proofs.FiniteReply
import Inventory.Proofs.QueryLoading

/-! The creation of an object. The values given are written over the defaults of the service, so the
last one under a name counts, also under that of the identity: a creation that is given an identity
is sent as a change of the object of that number. -/

namespace Inventory

def lastGiven? (name : String) (attributes : List (String × Value)) : Option Value :=
  attributes.reverse.lookup name

theorem lastGiven?_cons (name field : String) (v : Value) (rest : List (String × Value)) :
    lastGiven? name ((field, v) :: rest) =
      (lastGiven? name rest).or (if name = field then some v else none) := by
  rw [lastGiven?, List.reverse_cons, List.lookup_append, lookup_cons_eq]
  rfl

theorem mem_of_lastGiven? {name : String} {attributes : List (String × Value)} {v : Value}
    (h : lastGiven? name attributes = some v) : (name, v) ∈ attributes :=
  List.mem_reverse.mp (mem_of_lookup_eq_some h)

namespace Record

theorem set_eq_ok {r s : Record} {field : String} {v : Value} (h : r.set field v = .ok s) :
    v.isFinite = true ∧ RecordSet.afterSet field v r = s ∧
      s.fields = r.fields.insert field v := by
  by_cases hk : field ∈ r.fields.keys
  · obtain ⟨w, hw⟩ := TextMap.mem_keys.mp hk
    cases hv : v.isFinite with
    | false =>
      rw [set_of_nonFinite hk hv] at h
      cases h
    | true =>
      have hset := set_of_finite hw hv
      rw [h] at hset
      refine ⟨rfl, by rw [RecordSet.afterSet, h], ?_⟩
      rw [Except.ok.inj hset]
  · rw [set_of_absent hk] at h
    cases h

theorem setAll_nil {r s : Record} (h : r.setAll [] = .ok s) : r = s := by
  rw [setAll] at h
  exact Except.ok.inj h

theorem setAll_cons {r s : Record} {field : String} {v : Value} {rest : List (String × Value)}
    (h : r.setAll ((field, v) :: rest) = .ok s) :
    ∃ next, r.set field v = .ok next ∧ next.setAll rest = .ok s := by
  rw [setAll] at h
  cases hset : r.set field v with
  | error e => simp [hset] at h
  | ok next =>
    simp only [hset] at h
    exact ⟨next, rfl, h⟩

theorem get?_setAll {r s : Record} {attributes : List (String × Value)}
    (h : r.setAll attributes = .ok s) (field : String) :
    s.fields.get? field = (lastGiven? field attributes).or (r.fields.get? field) := by
  induction attributes generalizing r with
  | nil =>
    rw [setAll_nil h]
    rfl
  | cons head rest ih =>
    obtain ⟨name, v⟩ := head
    obtain ⟨next, hset, hrest⟩ := setAll_cons h
    rw [ih hrest, (set_eq_ok hset).2.2, TextMap.get?_insert, lastGiven?_cons, Option.or_assoc]
    by_cases hf : field = name <;> simp [hf]

theorem finite_of_setAll {r s : Record} {attributes : List (String × Value)}
    (h : r.setAll attributes = .ok s) : ∀ e ∈ attributes, e.2.isFinite = true := by
  induction attributes generalizing r with
  | nil => exact List.forall_mem_nil _
  | cons head rest ih =>
    obtain ⟨next, hset, hrest⟩ := setAll_cons h
    exact List.forall_mem_cons.mpr ⟨(set_eq_ok hset).1, ih hrest⟩

/-- Giving values touches neither what was settled nor the mark. -/
theorem Tracks.setAll {r s : Record} {l : Ledger} (hr : r.Tracks l)
    {attributes : List (String × Value)} (h : r.setAll attributes = .ok s) :
    ∃ l', s.Tracks l' ∧ l'.base = l.base ∧ l'.deleted = l.deleted := by
  induction attributes generalizing r l with
  | nil => exact ⟨l, setAll_nil h ▸ hr, rfl, rfl⟩
  | cons head rest ih =>
    obtain ⟨name, v⟩ := head
    obtain ⟨next, hset, hrest⟩ := setAll_cons h
    have hnext := hr.set name v
    rw [(set_eq_ok hset).2.1] at hnext
    have hkept : (l.write (.set name v)).base = l.base ∧
        (l.write (.set name v)).deleted = l.deleted := by
      rw [Ledger.write]
      split <;> exact ⟨rfl, rfl⟩
    obtain ⟨l', hs, hbase, hdeleted⟩ := ih hnext hrest
    exact ⟨l', hs, hbase.trans hkept.1, hdeleted.trans hkept.2⟩

end Record

/-- What is given for the identity of the new object, null if nothing is. -/
def givenIdentity (attributes : List (String × Value)) : Value :=
  (lastGiven? objectIdName attributes).getD .null

namespace Record

/-- A record without identity after values were given for some attributes. -/
structure Filled (r : Record) (attributes : List (String × Value)) : Prop where
  identity : r.fields.get? objectIdName = some (givenIdentity attributes)
  given : ∀ field v, lastGiven? field attributes = some v → r.fields.get? field = some v
  finite : (givenIdentity attributes).isFinite = true
  unmarked : r.deleted = false
  changes : ∀ change, r.changes.get? objectIdName = some change ↔
    Value.null.sameAs (givenIdentity attributes) = false ∧
      change = .between .null (givenIdentity attributes)

theorem filled_of_setAll {fields : Fields} {r : Record} {attributes : List (String × Value)}
    (hid : fields.get? objectIdName = some .null)
    (h : (ofFields fields).setAll attributes = .ok r) : r.Filled attributes := by
  obtain ⟨l, hl, hbase, hdeleted⟩ := (tracks_ofFields fields).setAll h
  have hsettled : l.base.get? objectIdName = some .null := by
    rw [hbase]
    exact hid
  have hcurrent : r.fields.get? objectIdName = some (givenIdentity attributes) := by
    rw [get?_setAll h, show (ofFields fields).fields.get? objectIdName = some .null from hid,
      givenIdentity]
    cases lastGiven? objectIdName attributes <;> rfl
  refine ⟨hcurrent, fun field v hv => ?_, ?_, hl.deleted.trans hdeleted, fun change => ?_⟩
  · rw [get?_setAll h, hv]
    rfl
  · rw [givenIdentity]
    cases hgiven : lastGiven? objectIdName attributes with
    | none => rfl
    | some v => exact finite_of_setAll h _ (mem_of_lastGiven? hgiven)
  · rw [hl.changes_get?, hsettled, hcurrent]
    constructor
    · rintro ⟨_, _, ⟨⟩, ⟨⟩, hdiffer, rfl⟩
      exact ⟨hdiffer, rfl⟩
    · rintro ⟨hdiffer, rfl⟩
      exact ⟨_, _, rfl, rfl, hdiffer, rfl⟩

namespace Filled

variable {r : Record} {attributes : List (String × Value)}

theorem state_created (h : r.Filled attributes) (hnull : givenIdentity attributes = .null) :
    r.state = .created := by
  apply state_of_not_stored
  rintro ⟨v, hv, hne⟩
  rw [h.identity, hnull] at hv
  exact hne (Option.some.inj hv).symm

/-- An identity that is given differs from null, which it had before. -/
theorem identity_changed (h : r.Filled attributes) (hgiven : givenIdentity attributes ≠ .null) :
    r.changes.get? objectIdName = some (.update .null (givenIdentity attributes)) := by
  rw [h.changes]
  refine ⟨?_, rfl⟩
  by_contra hsame
  have hnull := Value.eq_null_iff_of_sameAs rfl h.finite (Bool.not_eq_false _ ▸ hsame)
  exact hgiven (hnull.mp rfl)

theorem state_changed (h : r.Filled attributes) (hgiven : givenIdentity attributes ≠ .null) :
    r.state = .changed := by
  refine state_eq_changed.mpr ⟨⟨_, h.identity, hgiven⟩, h.unmarked, ?_⟩
  have hm := TextMap.mem_entries.mpr (h.identity_changed hgiven)
  rw [ChangeSet.isEmpty, TextMap.isEmpty, List.isEmpty_eq_false_iff]
  exact List.ne_nil_of_mem hm

theorem request_creates (h : r.Filled attributes) (hnull : givenIdentity attributes = .null)
    {request : CommitRequest} (hrequest : CommitRequest.ofRecords [r] = .ok request) :
    request = ⟨[r.fields], [], []⟩ := by
  have hstate := h.state_created hnull
  rw [(CommitRequest.ofRecords_eq_ok.mp hrequest).2]
  simp [CommitRequest.sortedByState, hstate]

theorem request_changes (h : r.Filled attributes) (hgiven : givenIdentity attributes ≠ .null)
    {request : CommitRequest} (hrequest : CommitRequest.ofRecords [r] = .ok request) :
    request = ⟨[], [r.changes], []⟩ ∧
      ∃ id, (givenIdentity attributes).asInt64? = some id ∧ r.changes.objectId = some id := by
  have hstate := h.state_changed hgiven
  obtain ⟨hids, rfl⟩ := CommitRequest.ofRecords_eq_ok.mp hrequest
  refine ⟨by simp [CommitRequest.sortedByState, hstate], ?_⟩
  have hid : r.objectId? = (givenIdentity attributes).asInt64? := by
    rw [objectId?, h.identity, Option.bind_some]
  have hne : r.objectId? ≠ none := fun hno => hids r List.mem_cons_self ⟨.inl hstate, hno⟩
  obtain ⟨id, hsome⟩ := Option.ne_none_iff_exists'.mp hne
  exact ⟨id, hid.symm.trans hsome, hsome⟩

end Filled

end Record

variable {τ : Type} [Transport τ]

theorem exists_fields_of_newRecord {j : Json} {r : Record} (h : newRecord j = .ok r) :
    ∃ fields : Fields, fields.get? objectIdName = some .null ∧ r = .ofFields fields := by
  obtain ⟨fields, -, rfl⟩ := newRecord_eq_ok.mp h
  refine ⟨fields.insert objectIdName .null, ?_, rfl⟩
  rw [TextMap.get?_insert, if_pos rfl]

/-- The requests of a creation: the attributes are asked for, the filled record is committed, and the
object is read back, each only after what comes before it went well. -/
inductive CreationSends (servertype : String) (attributes : List (String × Value)) :
    List (Endpoint × Json) → Prop where
  | nothing : CreationSends servertype attributes []
  | asked : CreationSends servertype attributes [(.newObject servertype, .null)]
  | committed {fields : Fields} {filled : Record} {request : CommitRequest}
      {later : List (Endpoint × Json)} :
      fields.get? objectIdName = some .null → (Record.ofFields fields).setAll attributes = .ok filled →
      CommitRequest.ofRecords [filled] = .ok request → (∀ e ∈ later, e.1 = .query) →
      CreationSends servertype attributes
        ((.newObject servertype, .null) :: (.commit, request.toJson.sorted) :: later)

theorem newObject_observed (servertype : String) (o : Observed τ) :
    (newObject servertype o).2.sent = o.sent ++ [(.newObject servertype, .null)] ∧
      ∀ r, (newObject servertype o).1 = .ok r →
        ∃ fields : Fields, fields.get? objectIdName = some .null ∧ r = .ofFields fields := by
  have hsent : (Transport.send o (.newObject servertype) .null).2.sent =
      o.sent ++ [(.newObject servertype, .null)] := rfl
  rw [newObject]
  rcases hs : Transport.send o (.newObject servertype) .null with ⟨e | reply, o'⟩
  · rw [hs] at hsent
    exact ⟨hsent, nofun⟩
  · rw [hs] at hsent
    exact ⟨hsent, fun r hr => exists_fields_of_newRecord hr⟩

theorem Query.one_observed {q : Query} (hq : q.loaded = none) (o : Observed τ) :
    (q.one o).2.2.sent = o.sent ++ [posted q.request] := by
  rw [one_eq, all_of_unloaded hq]
  rfl

theorem createObject_sends (servertype : String) (attributes : List (String × Value)) (t : τ) :
    CreationSends servertype attributes
      (createObject servertype attributes (⟨t, []⟩ : Observed τ)).2.sent := by
  -- each answer on the way may be the last; what was sent before it is one of the cases
  obtain ⟨hasked, hfresh⟩ := newObject_observed servertype (⟨t, []⟩ : Observed τ)
  rw [createObject]
  cases lastHostname? attributes with
  | none => exact .nothing
  | some hostname =>
    dsimp only
    rcases hnew : newObject servertype (⟨t, []⟩ : Observed τ) with ⟨answer, o⟩
    rw [hnew] at hasked hfresh
    have hasked : o.sent = [(.newObject servertype, .null)] := hasked
    cases answer with
    | error e =>
      dsimp only
      rw [hasked]
      exact .asked
    | ok fresh =>
      obtain ⟨fields, hid, rfl⟩ := hfresh fresh rfl
      cases hfilled : (Record.ofFields fields).setAll attributes with
      | error e =>
        simp only [hfilled]
        rw [hasked]
        exact .asked
      | ok filled =>
        simp only [hfilled, Record.commit_eq]
        cases hrequest : CommitRequest.ofRecords [filled] with
        | error e =>
          simp only [commit_of_refused hrequest]
          rw [hasked]
          exact .asked
        | ok request =>
          have hsent := congrArg Observed.sent (commit_sent hrequest o)
          rw [hasked] at hsent
          cases hanswer : (commit [filled] o).1 with
          | error e =>
            dsimp only
            rw [hsent]
            exact .committed hid hfilled hrequest (List.forall_mem_nil _)
          | ok id =>
            have hread := Query.one_observed (q := Query.ofFilters
              (.ofList [(hostnameName, .value hostname)])) rfl (commit [filled] o).2.2
            rw [hsent] at hread
            rcases hone : (Query.ofFilters (.ofList [(hostnameName, .value hostname)])).one
              (commit [filled] o).2.2 with ⟨_ | created, q, o'⟩
            all_goals
              rw [hone] at hread
              have hlater : o'.sent = (.newObject servertype, .null) ::
                (.commit, request.toJson.sorted) :: [Query.posted _] := hread
              simp only [hone]
              rw [hlater]
              exact .committed hid hfilled hrequest (List.forall_mem_singleton.mpr rfl)

theorem CreationSends.one_commit {servertype : String} {attributes : List (String × Value)}
    {sent : List (Endpoint × Json)} (h : CreationSends servertype attributes sent) :
    (sent.filter (·.1 = .commit)).length ≤ 1 := by
  cases h with
  | nothing => exact Nat.zero_le 1
  | asked => exact Nat.zero_le 1
  | @committed fields filled request later _ _ _ hlater =>
    have hnone : later.filter (·.1 = .commit) = [] := by
      rw [List.filter_eq_nil_iff]
      intro e he
      simp [hlater e he]
    simp [hnone]

theorem CreationSends.of_commit {servertype : String} {attributes : List (String × Value)}
    {sent : List (Endpoint × Json)} (h : CreationSends servertype attributes sent) {payload : Json}
    (hsent : (.commit, payload) ∈ sent) :
    ∃ (filled : Record) (request : CommitRequest), filled.Filled attributes ∧
      CommitRequest.ofRecords [filled] = .ok request ∧ payload = request.toJson.sorted := by
  cases h with
  | nothing => cases hsent
  | asked => simp at hsent
  | @committed fields filled request later hid hfilled hrequest hlater =>
    refine ⟨filled, request, Record.filled_of_setAll hid hfilled, hrequest, ?_⟩
    simp only [List.mem_cons, Prod.mk.injEq, reduceCtorEq, false_and, true_and, false_or] at hsent
    rcases hsent with hpayload | hmem
    · exact hpayload
    · cases hlater _ hmem

/-- A creation sends one commit at most. If no identity is given, it asks for one object with the given
values and no identity. If one is given, it asks for a change of the object of that number instead,
the new values and the identity itself among the changes. -/
theorem creation_commits_unless_identified (servertype : String) (attributes : List (String × Value))
    (t : τ) :
    let sent := (createObject servertype attributes (⟨t, []⟩ : Observed τ)).2.sent
    (sent.filter (·.1 = .commit)).length ≤ 1 ∧
    ∀ payload, (.commit, payload) ∈ sent →
      (givenIdentity attributes = .null → ∃ fields : Fields,
        fields.get? objectIdName = some .null ∧
        (∀ field v, lastGiven? field attributes = some v → fields.get? field = some v) ∧
        payload = creationPayload [fields]) ∧
      (givenIdentity attributes ≠ .null → ∃ (c : ChangeSet) (id : Int64),
        (givenIdentity attributes).asInt64? = some id ∧ c.objectId = some id ∧
        c.get? objectIdName = some (.update .null (givenIdentity attributes)) ∧
        payload = .object [("changed", .array [c.toJson.sorted]), ("created", .array []),
          ("deleted", .array [])]) := by
  intro sent
  have hsends : CreationSends servertype attributes sent := createObject_sends servertype attributes t
  refine ⟨hsends.one_commit, fun payload hpayload => ?_⟩
  obtain ⟨filled, request, hfilled, hrequest, rfl⟩ := hsends.of_commit hpayload
  constructor
  · intro hnull
    obtain rfl := hfilled.request_creates hnull hrequest
    refine ⟨filled.fields, hnull ▸ hfilled.identity, hfilled.given, ?_⟩
    rw [CommitRequest.sorted_toJson]
    rfl
  · intro hgiven
    obtain ⟨rfl, id, hid, hobject⟩ := hfilled.request_changes hgiven hrequest
    refine ⟨filled.changes, id, hid, hobject, hfilled.identity_changed hgiven, ?_⟩
    rw [CommitRequest.sorted_toJson]
    rfl

/-- Defaults with an identity of their own do not stand in the way: the object that is asked for has
none. -/
theorem creation_creates_without_identity :
    let schema : Json := .object [("result", .object [("hostname", .null), (objectIdName, .integer 17)])]
    let t : Script := .ofReplies [.ok schema]
    let sent := (createObject "vm" [("hostname", .text "a")] (⟨t, []⟩ : Observed Script)).2.sent
    ∃ fields : Fields, (.commit, creationPayload [fields]) ∈ sent ∧
      fields.get? objectIdName = some .null ∧ fields.get? "hostname" = some (.text "a") := by
  intro schema t sent
  have hsent : sent = [(.newObject "vm", .null), (.commit, creationPayload
      [.ofList [("hostname", .text "a"), (objectIdName, .null)]])] := rfl
  obtain ⟨-, hcommit⟩ := creation_commits_unless_identified "vm" [("hostname", .text "a")] t
  have hmem : (.commit, creationPayload
      [.ofList [("hostname", .text "a"), (objectIdName, .null)]]) ∈ sent := by
    rw [hsent]
    exact List.mem_cons_of_mem _ List.mem_cons_self
  obtain ⟨fields, hid, hgiven, hpayload⟩ := (hcommit _ hmem).1 rfl
  exact ⟨fields, hpayload ▸ hmem, hid, hgiven _ _ rfl⟩

/-- A creation that is given the identity 5 asks for a change of object 5, if there is one. -/
theorem creation_changes_given_identity :
    let attributes := [("hostname", Value.text "a"), (objectIdName, .int 5)]
    let schema : Json := .object [("result", .object [("hostname", .null)])]
    let t : Observed Script := ⟨.ofReplies [.ok schema], []⟩
    (createObject "vm" attributes t).2.sent = [(.newObject "vm", .null),
      (.commit, .object [
        ("changed", .array [.object [
          ("hostname", .object [("action", .text "update"), ("new", .text "a"), ("old", .null)]),
          (objectIdName, .object [("action", .text "update"), ("new", .integer 5), ("old", .null)])]]),
        ("created", .array []), ("deleted", .array [])])] := by
  rfl

end Inventory
