import Inventory.Proofs.CommitPayload

/-! A commit takes effect on every record or on none. It sends one request, with an entry for each record
that has something to send, and the records settle exactly when the service says that it succeeded. -/

namespace Inventory

/-- What a commit of the records sends: the changes of those that changed, the fields of those without an
object, and the identities of those to be deleted. -/
def commitPayload (records : List Record) : Json :=
  .object [
    ("changed", .array ((records.filter (·.state = .changed)).map fun r =>
      .object r.changes.sent.entries)),
    ("created", .array ((records.filter (·.state = .created)).map fun r =>
      .object (r.fields.entries.map fun e => (e.1, e.2.toJson)))),
    ("deleted", .array ((records.filter (·.state = .deleted)).filterMap fun r =>
      r.objectId?.map fun id => .integer id.toInt))]

theorem CommitRequest.sorted_toJson_of_ofRecords {records : List Record} {request : CommitRequest}
    (h : ofRecords records = .ok request) : request.toJson.sorted = commitPayload records := by
  obtain ⟨-, rfl⟩ := ofRecords_eq_ok.mp h
  have hchanged : ∀ r : Record, r.changes.toJson.sorted = .object r.changes.sent.entries :=
    fun r => r.changes.sorted_toJson
  simp only [sorted_toJson, sortedByState, commitPayload, List.map_map, List.map_filterMap,
    Function.comp_def, hchanged]
  rfl

variable {τ : Type} [Transport τ]

/-- The outcome of a commit of `records` over `o`, with what it may be. A request is sent unless a record
that changed or is to be deleted has no identity. -/
structure AllOrNothing (records : List Record) (o : Observed τ) (answer : Except Error Int64)
    (after : List Record) (o' : Observed τ) : Prop where
  settled_or_kept : (∃ id, answer = .ok id ∧ after = records.map Record.confirm) ∨
    (∃ e, answer = .error e ∧ after = records)
  built : (∃ request, CommitRequest.ofRecords records = .ok request) ↔ ∀ r ∈ records, ¬r.Unidentified
  unsent : ∀ e, CommitRequest.ofRecords records = .error e → answer = .error e ∧ o' = o
  sent_once : ∀ request, CommitRequest.ofRecords records = .ok request →
    o'.sent = o.sent ++ [(.commit, commitPayload records)] ∧
    o'.inner = (Transport.send o.inner .commit (commitPayload records)).2
  accepted : ∀ id, answer = .ok id ↔ ∃ request reply r,
    CommitRequest.ofRecords records = .ok request ∧
    (Transport.send o.inner .commit (commitPayload records)).1 = .ok reply ∧
    CommitReply.ofJson reply = .ok r ∧ r.status = "success" ∧ r.commitId = id

theorem commit_outcome (records : List Record) (o : Observed τ) :
    AllOrNothing records o (commit records o).1 (commit records o).2.1 (commit records o).2.2 where
  settled_or_kept := commit_settled_or_kept records o
  built := by
    constructor
    · rintro ⟨request, h⟩
      exact (CommitRequest.ofRecords_eq_ok.mp h).1
    · exact fun h => ⟨_, CommitRequest.ofRecords_eq_ok.mpr ⟨h, rfl⟩⟩
  unsent e h := by rw [commit_of_refused h]; exact ⟨rfl, rfl⟩
  sent_once request h := by
    rw [commit_sent h, CommitRequest.sorted_toJson_of_ofRecords h]
    exact ⟨rfl, rfl⟩
  accepted id := by
    cases h : CommitRequest.ofRecords records with
    | error e => simp [commit_of_refused h]
    | ok request =>
      rw [commit_accepted h, CommitRequest.sorted_toJson_of_ofRecords h]
      simp only [Except.ok.injEq, exists_and_left, exists_eq_left']

/-- A commit settles every record or leaves every record as it was, with one request at most. The
same goes for the commit of a set and of a single record. -/
theorem commit_all_or_nothing :
    (∀ (records : List Record) (o : Observed τ), AllOrNothing records o
      (commit records o).1 (commit records o).2.1 (commit records o).2.2) ∧
    (∀ (s : RecordSet) (o : Observed τ), AllOrNothing s.records o
      (s.commit o).1 (s.commit o).2.1.records (s.commit o).2.2) ∧
    (∀ (r : Record) (o : Observed τ), AllOrNothing [r] o
      (r.commit o).1 [(r.commit o).2.1] (r.commit o).2.2) ∧
    (∀ (records : List Record) (t : τ) (sent : List (Endpoint × Json)),
      let observed := commit records (⟨t, sent⟩ : Observed τ)
      commit records t = (observed.1, observed.2.1, observed.2.2.inner)) ∧
    (∀ (reply : Json) (r : CommitReply), reply.KeysApart →
      (CommitReply.ofJson reply = .ok r ↔ CommitReply.Spells reply r)) := by
  refine ⟨commit_outcome, fun s o => ?_, fun r o => ?_, commit_observed,
    fun _ _ h => CommitReply.ofJson_eq_ok h⟩
  · rw [RecordSet.commit_eq]
    exact commit_outcome s.records o
  · rw [Record.commit_eq]
    simp only [commit_singleton]
    exact commit_outcome [r] o

/-- A pending write is sent, kept when the service is out of reach, sent once more and settled, in the
company of a new object and of one to be deleted. -/
theorem commit_repeated_after_failure :
    let fresh : Record := .ofFields (.ofList [("hostname", .text "a")])
    let doomed : Record := (Record.ofFields (.ofList [(objectIdName, .int 1)])).delete
    let edited : Record := (Record.ofFields
      (.ofList [(objectIdName, .int 2), ("hostname", .text "b")])).history
        ([.set "hostname" (.text "c")] : List (Event Script))
    let t : Observed Script := ⟨.ofReplies [.error (.transport "out of reach"),
      .ok (.object [("commit_id", .integer 7), ("status", .text "success")])], []⟩
    let failed := commit [fresh, doomed, edited] t
    let settled := commit failed.2.1 failed.2.2
    let payload : Json := .object [
      ("changed", .array [.object [("hostname", .object [("action", .text "update"),
        ("new", .text "c"), ("old", .text "b")]), (objectIdName, .integer 2)]]),
      ("created", .array [.object [("hostname", .text "a")]]), ("deleted", .array [.integer 1])]
    failed.1 = .error (.transport "out of reach") ∧ failed.2.1 = [fresh, doomed, edited] ∧
      settled.1 = .ok 7 ∧ settled.2.1 = [fresh, doomed, edited].map Record.confirm ∧
      settled.2.2.sent = [(.commit, payload), (.commit, payload)] := by
  intro fresh doomed edited t failed settled payload
  have hfresh : fresh.state = .created := rfl
  have hdoomed : doomed.state = .deleted := rfl
  have hedited : edited.state = .changed := by decide +kernel
  have hrequest : CommitRequest.ofRecords [fresh, doomed, edited] =
      .ok ⟨[fresh.fields], [edited.changes], [1]⟩ :=
    CommitRequest.ofRecords_eq_ok_iff_sorts.mpr
      (.created hfresh (.deleted hdoomed rfl (.changed hedited rfl .nil)))
  have hdiffer : (Value.text "b").sameAs (.text "c") = false := by decide +kernel
  have hchanges : edited.changes = ⟨some 2, .ofList [("hostname", .update (.text "b") (.text "c"))]⟩ :=
    Record.changes_of_single rfl rfl hdiffer
  have hpayload : commitPayload [fresh, doomed, edited] = payload := by
    rw [← CommitRequest.sorted_toJson_of_ofRecords hrequest, CommitRequest.sorted_toJson, hchanges,
      List.map_singleton, ChangeSet.sorted_toJson]
    rfl
  have hone := commit_all_or_nothing.1 [fresh, doomed, edited] t
  obtain ⟨hfirst, hinner⟩ := hone.sent_once _ hrequest
  have hfailed : failed.1 = .error (.transport "out of reach") :=
    congrArg Prod.fst (commit_of_request hrequest t)
  have hkept : failed.2.1 = [fresh, doomed, edited] := by
    rcases hone.settled_or_kept with ⟨id, hid, -⟩ | ⟨e, -, hkept⟩
    · cases hfailed.symm.trans hid
    · exact hkept
  have hagain : settled = commit [fresh, doomed, edited] failed.2.2 := by rw [← hkept]
  have htwo := commit_all_or_nothing.1 [fresh, doomed, edited] failed.2.2
  have hsettled : settled.1 = .ok 7 := by
    rw [hagain, htwo.accepted 7, hinner]
    exact ⟨_, _, ⟨"success", 7, none⟩, hrequest, rfl, rfl, rfl, rfl⟩
  refine ⟨hfailed, hkept, hsettled, ?_, ?_⟩
  · rw [hagain] at hsettled ⊢
    rcases htwo.settled_or_kept with ⟨id, -, hconfirmed⟩ | ⟨e, he, -⟩
    · exact hconfirmed
    · cases hsettled.symm.trans he
  · rw [hagain, (htwo.sent_once _ hrequest).1, hfirst, hpayload]
    rfl

end Inventory
