import Inventory.Proofs.CommitPartition
import Inventory.Proofs.QueryLoading
import Inventory.Proofs.QueryReply
import Inventory.Proofs.RecordHistory

/-! Failures that the service reports. A commit that is refused fails with the words of the service,
whatever else the reply holds. A query that is refused does so only if the reply holds results all the
same: without them the reply cannot be read, and its message is lost. -/

namespace Inventory

/-- What a part says that may be left out or null. -/
def Json.SaysText (found : Option Json) (s : Option String) : Prop :=
  ((found = none ∨ found = some .null) ∧ s = none) ∨ ∃ t, found = some (.text t) ∧ s = some t

theorem Json.saysText_iff {found : Option Json} {s : Option String} :
    SaysText found s ↔ ReadsPart toText? found none s := by
  cases found <;> simp [SaysText, ReadsPart, toText?_eq_ok]

structure Reports (reply : TextMap Json) (status : String) (message : Option String) : Prop where
  status : reply.get? "status" = some (.text status)
  message : Json.SaysText (reply.get? "message") message

/-- The commit id, if there is one, is an integer of 64 bits. -/
def TypedCommitId (reply : TextMap Json) : Prop :=
  ∀ j, reply.get? "commit_id" = some j → ∃ id : Int64, j = .integer id.toInt

def TypedResults (reply : TextMap Json) : Prop :=
  ∀ j, reply.get? "result" = some j → j.IsTable

theorem Reports.refuses_commit {reply : TextMap Json} {status : String} {message : Option String}
    (h : Reports reply status message) (hid : TypedCommitId reply) (hstatus : status ≠ "success") :
    CommitReply.accepted (.object reply.entries) =
      .error (.commitFailed (message.getD status)) := by
  obtain ⟨id, hid⟩ : ∃ id : Int64, ((reply.get? "commit_id" = none ∧ id = 0) ∨
      reply.get? "commit_id" = some (.integer id.toInt)) := by
    cases hfound : reply.get? "commit_id" with
    | none => exact ⟨0, .inl ⟨rfl, rfl⟩⟩
    | some j =>
      obtain ⟨id, rfl⟩ := hid j hfound
      exact ⟨id, .inr rfl⟩
  have hread : CommitReply.ofJson (.object reply.entries) = .ok ⟨status, id, message⟩ :=
    (CommitReply.ofJson_object reply.nodup_keys).mpr ⟨h.status, hid, h.message⟩
  rw [CommitReply.accepted, hread]
  exact if_neg hstatus

theorem Reports.status_read {reply : TextMap Json} {status : String} {message : Option String}
    (h : Reports reply status message) :
    Json.ReadsPart Json.toText? (reply.get? "status") none (some status) := by
  rw [h.status]
  exact Json.toText?_eq_ok.mpr (.inr ⟨status, rfl, rfl⟩)

theorem Reports.refuses_query {reply : TextMap Json} {message : Option String}
    (h : Reports reply "error" message) (hresult : TypedResults reply)
    (hpresent : reply.get? "result" ≠ none) :
    QueryReply.records (.object reply.entries) =
      .error (.queryFailed (message.getD "query failed")) := by
  obtain ⟨table, htable⟩ := Option.ne_none_iff_exists'.mp hpresent
  obtain ⟨rows, hrows⟩ := Fields.listOfJson_isOk.mpr (hresult table htable)
  have hread : QueryReply.ofJson (.object reply.entries) = .ok ⟨some "error", message, rows⟩ := by
    refine (QueryReply.ofJson_object reply.nodup_keys).mpr
      ⟨hpresent, h.status_read, Json.saysText_iff.mp h.message, ?_⟩
    change Json.ReadsPart _ (reply.get? "result") _ _
    rw [htable]
    exact hrows
  rw [QueryReply.records, hread]
  exact if_pos rfl

theorem Reports.hides_refusal {reply : TextMap Json} {status : String} {message : Option String}
    (h : Reports reply status message) (habsent : reply.get? "result" = none) :
    QueryReply.records (.object reply.entries) =
      .error (.decode "failed to decode query response: missing field `result`") := by
  have hread := QueryReply.ofJson_object_of_absent reply.nodup_keys habsent h.status_read
    (Json.saysText_iff.mp h.message)
  rw [QueryReply.records, hread]
  rfl

variable {τ : Type} [Transport τ]

def CommitFails (records : List Record) (t : τ) (e : Error) : Prop :=
  (commit records t).1 = .error e ∧ (commit records t).2.1 = records

/-- Whatever is asked of the results fails and leaves the query as it was. -/
structure Query.Fails (q : Query) (t : τ) (e : Error) : Prop where
  all : (q.all t).1 = .error e ∧ (q.all t).2.1 = q
  one : (q.one t).1 = .error e ∧ (q.one t).2.1 = q
  count : (q.count t).1 = .error e ∧ (q.count t).2.1 = q

theorem commitFails_of_accepted {records : List Record} {request : CommitRequest} {t : τ}
    {reply : Json} {e : Error} (hrequest : CommitRequest.ofRecords records = .ok request)
    (hreply : (Transport.send t .commit request.toJson.sorted).1 = .ok reply)
    (h : CommitReply.accepted reply = .error e) : CommitFails records t e := by
  have hsend : (request.send t).1 = .error e := by
    rw [CommitRequest.send_eq, hreply]
    exact h
  rw [CommitFails, commit_of_request hrequest, hsend]
  exact ⟨rfl, rfl⟩

theorem Query.fails_of_records {q : Query} {t : τ} {reply : Json} {e : Error} (hq : q.loaded = none)
    (hreply : (Transport.send t .query q.request.toJson.sorted).1 = .ok reply)
    (h : QueryReply.records reply = .error e) : q.Fails t e := by
  have hanswer : answered q.request t = .error e := by
    rw [answered, hreply]
    exact h
  have hall := all_of_unloaded hq t
  rw [hanswer] at hall
  have hone := q.one_eq t
  have hcount := q.count_eq t
  rw [hall] at hone hcount
  constructor
  · rw [hall]
    exact ⟨rfl, rfl⟩
  · rw [hone]
    exact ⟨rfl, rfl⟩
  · rw [hcount]
    exact ⟨rfl, rfl⟩

/-- A commit that the service does not call a success fails with its message, or its status if there is
none. A query that it calls an error fails with its message if the reply holds results; if the reply
holds none, the query fails for the lack of them. In each case the records and the query stay as they
were. -/
theorem reported_failures_surface_beside_results :
    (∀ (records : List Record) (request : CommitRequest) (t : τ) (reply : TextMap Json)
        (status : String) (message : Option String),
      CommitRequest.ofRecords records = .ok request →
      (Transport.send t .commit request.toJson.sorted).1 = .ok (.object reply.entries) →
      Reports reply status message → TypedCommitId reply → status ≠ "success" →
      CommitFails records t (.commitFailed (message.getD status))) ∧
    (∀ (q : Query) (t : τ) (reply : TextMap Json) (message : Option String),
      q.loaded = none →
      (Transport.send t .query q.request.toJson.sorted).1 = .ok (.object reply.entries) →
      Reports reply "error" message → TypedResults reply →
      (reply.get? "result" ≠ none →
        q.Fails t (.queryFailed (message.getD "query failed"))) ∧
      (reply.get? "result" = none →
        q.Fails t (.decode "failed to decode query response: missing field `result`"))) := by
  constructor
  · intro records request t reply status message hrequest hreply h hid hstatus
    exact commitFails_of_accepted hrequest hreply (h.refuses_commit hid hstatus)
  · intro q t reply message hq hreply h hresult
    constructor
    · intro hpresent
      exact Query.fails_of_records hq hreply (h.refuses_query hresult hpresent)
    · intro habsent
      exact Query.fails_of_records hq hreply (h.hides_refusal habsent)

/-- A pending write and a query are refused with a message, the write with a key of its own beside it. -/
theorem refusals_surface_with_messages :
    let edited : Record := (Record.ofFields
      (.ofList [(objectIdName, .int 2), ("hostname", .text "b")])).history
        ([.set "hostname" (.text "c")] : List (Event Script))
    let refusal : TextMap Json := .ofList [("message", .text "bad hostname"),
      ("status", .text "error"), ("type", .text "ValidationError")]
    let noAnswer : TextMap Json := .ofList [("message", .text "unknown attribute foo"),
      ("result", .array []), ("status", .text "error")]
    edited.state = .changed ∧
    CommitFails [edited] (Script.ofReplies [.ok (.object refusal.entries)])
      (.commitFailed "bad hostname") ∧
    (Query.ofFilters ∅).Fails (Script.ofReplies [.ok (.object noAnswer.entries)])
      (.queryFailed "unknown attribute foo") := by
  intro edited refusal noAnswer
  have hedited : edited.state = .changed := by decide +kernel
  have hrequest : CommitRequest.ofRecords [edited] = .ok ⟨[], [edited.changes], []⟩ :=
    CommitRequest.ofRecords_eq_ok_iff_sorts.mpr (.changed hedited rfl .nil)
  have hcommit : Reports refusal "error" (some "bad hostname") := ⟨rfl, .inr ⟨_, rfl, rfl⟩⟩
  have hquery : Reports noAnswer "error" (some "unknown attribute foo") := ⟨rfl, .inr ⟨_, rfl, rfl⟩⟩
  have hresult : TypedResults noAnswer := by
    intro j hj
    obtain rfl : Json.array [] = j := Option.some.inj hj
    exact List.forall_mem_nil _
  obtain ⟨hcommits, hqueries⟩ := @reported_failures_surface_beside_results Script _
  refine ⟨hedited, ?_, ?_⟩
  · exact hcommits [edited] _ _ refusal "error" _ hrequest rfl hcommit nofun (by decide)
  · exact (hqueries _ _ noAnswer _ rfl rfl hquery hresult).1 nofun

/-- An error that is reported without results: the message of the service does not come through. -/
theorem failure_hidden_without_results :
    let reply : TextMap Json := .ofList [("message", .text "boom"), ("status", .text "error")]
    let q := Query.ofFilters ∅
    Reports reply "error" (some "boom") ∧ TypedResults reply ∧
    (q.all (Script.ofReplies [.ok (.object reply.entries)])).1 =
      .error (.decode "failed to decode query response: missing field `result`") := by
  intro reply q
  have hreports : Reports reply "error" (some "boom") := ⟨rfl, .inr ⟨"boom", rfl, rfl⟩⟩
  have hresult : TypedResults reply := nofun
  refine ⟨hreports, hresult, ?_⟩
  exact (Query.fails_of_records rfl rfl (hreports.hides_refusal rfl)).all.1

end Inventory
