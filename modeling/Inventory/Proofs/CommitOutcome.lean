import Inventory.Proofs.CommitReply

/-! What a commit does to the records and to the transport. Either the service took the request and
every record settles, or nothing about the records changes; the transport carries one request, or
none if no request can be made. -/

namespace Inventory

/-- A transport with the requests that went through it, in their order. -/
structure Observed (τ : Type) where
  inner : τ
  sent : List (Endpoint × Json)

variable {τ : Type} [Transport τ]

def Observed.send (o : Observed τ) (endpoint : Endpoint) (payload : Json) :
    Except Error Json × Observed τ :=
  let (reply, inner) := Transport.send o.inner endpoint payload
  (reply, ⟨inner, o.sent ++ [(endpoint, payload)]⟩)

instance : Transport (Observed τ) := ⟨Observed.send⟩

namespace CommitRequest

theorem send_eq (request : CommitRequest) (t : τ) : request.send t =
    ((Transport.send t .commit request.toJson.sorted).1.bind CommitReply.accepted,
      (Transport.send t .commit request.toJson.sorted).2) := by
  rw [send]
  rcases Transport.send t .commit request.toJson.sorted with ⟨_ | _, _⟩ <;> rfl

theorem send_eq_ok {request : CommitRequest} {t : τ} {id : Int64} :
    (request.send t).1 = .ok id ↔
      ∃ reply, (Transport.send t .commit request.toJson.sorted).1 = .ok reply ∧
        CommitReply.accepted reply = .ok id := by
  rw [send_eq]
  cases (Transport.send t .commit request.toJson.sorted).1 with
  | error e => exact iff_of_false nofun nofun
  | ok reply => exact ⟨fun h => ⟨reply, rfl, h⟩, fun ⟨_, hreply, h⟩ => Except.ok.inj hreply ▸ h⟩

end CommitRequest

theorem commit_of_refused {records : List Record} {e : Error}
    (h : CommitRequest.ofRecords records = .error e) (t : τ) :
    commit records t = (.error e, records, t) := by
  simp only [commit, h]

theorem commit_of_request {records : List Record} {request : CommitRequest}
    (h : CommitRequest.ofRecords records = .ok request) (t : τ) :
    commit records t = ((request.send t).1,
      if (request.send t).1.isOk then records.map Record.confirm else records,
      (request.send t).2) := by
  simp only [commit, h]
  rcases request.send t with ⟨_ | _, _⟩ <;> rfl

/-- The answer alone decides what becomes of the records. -/
theorem commit_records (records : List Record) (t : τ) :
    (commit records t).2.1 =
      if (commit records t).1.isOk then records.map Record.confirm else records := by
  cases h : CommitRequest.ofRecords records with
  | error e => simp [commit_of_refused h, Except.isOk, Except.toBool]
  | ok request => rw [commit_of_request h]

theorem commit_settled_or_kept (records : List Record) (t : τ) :
    (∃ id, (commit records t).1 = .ok id ∧ (commit records t).2.1 = records.map Record.confirm) ∨
    ∃ e, (commit records t).1 = .error e ∧ (commit records t).2.1 = records := by
  have hr := commit_records records t
  cases ha : (commit records t).1 with
  | ok id =>
    rw [ha] at hr
    exact .inl ⟨id, rfl, hr.trans (if_pos rfl)⟩
  | error e =>
    rw [ha] at hr
    exact .inr ⟨e, rfl, hr.trans (if_neg (by simp [Except.isOk, Except.toBool]))⟩

/-- The transport carries the request, and nothing else. -/
theorem commit_sent {records : List Record} {request : CommitRequest}
    (h : CommitRequest.ofRecords records = .ok request) (o : Observed τ) :
    (commit records o).2.2 = ⟨(Transport.send o.inner .commit request.toJson.sorted).2,
      o.sent ++ [(.commit, request.toJson.sorted)]⟩ := by
  rw [commit_of_request h, CommitRequest.send_eq]
  rfl

theorem commit_accepted {records : List Record} {request : CommitRequest}
    (h : CommitRequest.ofRecords records = .ok request) (o : Observed τ) {id : Int64} :
    (commit records o).1 = .ok id ↔ ∃ reply r,
      (Transport.send o.inner .commit request.toJson.sorted).1 = .ok reply ∧
      CommitReply.ofJson reply = .ok r ∧ r.status = "success" ∧ r.commitId = id := by
  rw [commit_of_request h, CommitRequest.send_eq_ok]
  simp only [CommitReply.accepted_eq_ok]
  exact exists_congr fun reply => exists_and_left.symm

theorem RecordSet.commit_eq (s : RecordSet) (t : τ) : s.commit t =
    ((Inventory.commit s.records t).1, ⟨(Inventory.commit s.records t).2.1⟩,
      (Inventory.commit s.records t).2.2) := rfl

theorem Record.commit_eq (r : Record) (t : τ) : r.commit t =
    ((Inventory.commit [r] t).1, (Inventory.commit [r] t).2.1.headD r,
      (Inventory.commit [r] t).2.2) := rfl

theorem commit_singleton (r : Record) (t : τ) :
    [(Inventory.commit [r] t).2.1.headD r] = (Inventory.commit [r] t).2.1 := by
  rw [commit_records]
  cases (Inventory.commit [r] t).1.isOk <;> rfl

/-- Observing a transport changes neither what is answered nor what becomes of the records. -/
theorem commit_observed (records : List Record) (t : τ) (sent : List (Endpoint × Json)) :
    commit records t =
      ((commit records (⟨t, sent⟩ : Observed τ)).1, (commit records (⟨t, sent⟩ : Observed τ)).2.1,
        (commit records (⟨t, sent⟩ : Observed τ)).2.2.inner) := by
  cases h : CommitRequest.ofRecords records with
  | error e => rw [commit_of_refused h, commit_of_refused h]
  | ok request =>
    have hs : request.send t = ((request.send (⟨t, sent⟩ : Observed τ)).1,
        (request.send (⟨t, sent⟩ : Observed τ)).2.inner) := by
      simp only [CommitRequest.send, Transport.send, Observed.send]
      rcases Transport.send t .commit request.toJson.sorted with ⟨_ | _, _⟩ <;> rfl
    rw [commit_of_request h, commit_of_request h, hs]

end Inventory
