import Inventory.Proofs.CreationReadBack

/-! What the engine does over a transport is a dialogue: it makes one request after the other, and only
the replies decide what it asks next and how it ends. The same dialogue is held over every transport. -/

namespace Inventory

inductive Dialogue (α : Type) where
  | done (a : α)
  | ask (endpoint : Endpoint) (payload : Json) (next : Except Error Json → Dialogue α)

namespace Dialogue

variable {α β : Type} {τ : Type} [Transport τ]

def run : Dialogue α → τ → α × τ
  | done a, t => (a, t)
  | ask endpoint payload next, t =>
    (next (Transport.send t endpoint payload).1).run (Transport.send t endpoint payload).2

def bind (d : Dialogue α) (f : α → Dialogue β) : Dialogue β :=
  match d with
  | done a => f a
  | ask endpoint payload next => ask endpoint payload fun reply => (next reply).bind f

theorem run_bind (d : Dialogue α) (f : α → Dialogue β) (t : τ) :
    (d.bind f).run t = (f (d.run t).1).run (d.run t).2 := by
  induction d generalizing t with
  | done a => rfl
  | ask endpoint payload next ih => exact ih _ _

end Dialogue

/-- A computation that is carried out over a transport, whichever it is. -/
def Conduct (α : Type) : Type 1 := (τ : Type) → [Transport τ] → τ → α × τ

/-- Over every transport the computation holds the same dialogue. -/
def Conduct.IsDialogue {α : Type} (f : Conduct α) : Prop :=
  ∃ d : Dialogue α, ∀ (τ : Type) [Transport τ] (t : τ), f τ t = d.run t

namespace Conduct.IsDialogue

variable {α β : Type}

theorem done (a : α) : IsDialogue fun _ _ t => (a, t) :=
  ⟨.done a, fun _ _ _ => rfl⟩

/-- Nothing is asked, so that a transport without replies gives the same answer. -/
theorem silent {f : Conduct α} (h : ∀ (τ : Type) [Transport τ] (t : τ),
    f τ t = ((f Script (.ofReplies [])).1, t)) : IsDialogue f :=
  ⟨.done (f Script (.ofReplies [])).1, h⟩

theorem send (endpoint : Endpoint) (payload : Json) :
    IsDialogue fun _ _ t => Transport.send t endpoint payload :=
  ⟨.ask endpoint payload .done, fun _ _ _ => rfl⟩

theorem bind {f : Conduct α} (hf : IsDialogue f) {g : α → Conduct β} (hg : ∀ a, IsDialogue (g a)) :
    IsDialogue fun τ _ t => g (f τ t).1 τ (f τ t).2 := by
  obtain ⟨d, hd⟩ := hf
  choose e he using hg
  refine ⟨d.bind e, fun τ _ t => ?_⟩
  have hf := hd τ t
  have hg := he (d.run t).1 τ (d.run t).2
  dsimp only
  rw [Dialogue.run_bind, hf, hg]

theorem map {f : Conduct α} (hf : IsDialogue f) (h : α → β) :
    IsDialogue fun τ _ t => (h (f τ t).1, (f τ t).2) :=
  hf.bind fun a => done (h a)

theorem congr {f g : Conduct α} (hf : IsDialogue f)
    (h : ∀ (τ : Type) [Transport τ] (t : τ), g τ t = f τ t) : IsDialogue g := by
  obtain ⟨d, hd⟩ := hf
  refine ⟨d, fun τ _ t => ?_⟩
  rw [h, hd]

end Conduct.IsDialogue

/-- An answer, the object that was used, and the transport, the last one apart. -/
def apart {α β τ : Type} (r : α × β × τ) : (α × β) × τ := ((r.1, r.2.1), r.2.2)

open Conduct (IsDialogue)

theorem isDialogue_request (request : CommitRequest) : IsDialogue fun _ _ t => request.send t := by
  refine ((IsDialogue.send .commit request.toJson.sorted).map (·.bind CommitReply.accepted)).congr ?_
  intro τ _ t
  exact request.send_eq t

theorem isDialogue_commit (records : List Record) :
    IsDialogue fun _ _ t => apart (commit records t) := by
  cases hrequest : CommitRequest.ofRecords records with
  | error e =>
    refine (IsDialogue.done (Except.error e, records)).congr fun τ _ t => ?_
    rw [commit_of_refused hrequest]
    rfl
  | ok request =>
    refine ((isDialogue_request request).map fun answer =>
      (answer, if answer.isOk then records.map Record.confirm else records)).congr fun τ _ t => ?_
    rw [commit_of_request hrequest]
    rfl

theorem isDialogue_record_commit (r : Record) : IsDialogue fun _ _ t => apart (r.commit t) := by
  refine ((isDialogue_commit [r]).map fun a => (a.1, a.2.headD r)).congr fun τ _ t => ?_
  rw [Record.commit_eq]
  rfl

theorem isDialogue_set_commit (s : RecordSet) : IsDialogue fun _ _ t => apart (s.commit t) := by
  refine ((isDialogue_commit s.records).map fun a => (a.1, ⟨a.2⟩)).congr fun τ _ t => ?_
  rw [RecordSet.commit_eq]
  rfl

namespace Query

theorem isDialogue_all (q : Query) : IsDialogue fun _ _ t => apart (q.all t) := by
  cases hloaded : q.loaded with
  | some set =>
    refine (IsDialogue.done (Except.ok set, q)).congr fun τ _ t => ?_
    rw [all_of_loaded hloaded]
    rfl
  | none =>
    refine ((IsDialogue.send .query q.request.toJson.sorted).map fun reply =>
      (reply.bind QueryReply.records, (reply.bind QueryReply.records).toOption.elim q fun set =>
        { q with loaded := some set })).congr fun τ _ t => ?_
    simp only [all, hloaded, fetch]
    rcases Transport.send t .query q.request.toJson.sorted with ⟨e | reply, t'⟩
    · rfl
    · dsimp only [Except.bind]
      cases QueryReply.records reply <;> rfl

theorem isDialogue_one (q : Query) : IsDialogue fun _ _ t => apart (q.one t) := by
  refine (q.isDialogue_all.map fun a => (a.1.bind only, a.2)).congr fun τ _ t => ?_
  rw [one_eq]
  rfl

theorem isDialogue_count (q : Query) : IsDialogue fun _ _ t => apart (q.count t) := by
  refine (q.isDialogue_all.map fun a => (a.1.map RecordSet.size, a.2)).congr fun τ _ t => ?_
  rw [count_eq]
  rfl

end Query

theorem isDialogue_newObject (servertype : String) :
    IsDialogue fun _ _ t => newObject servertype t := by
  refine ((IsDialogue.send (.newObject servertype) .null).map (·.bind newRecord)).congr ?_
  intro τ _ t
  exact newObject_eq servertype t

theorem isDialogue_readBack (hostname : Value) : IsDialogue fun _ _ t => readBack hostname t :=
  (hostnameReader hostname).isDialogue_one.map fun a =>
    a.1.mapError (Error.context · "re-querying created object")

/-- What follows the commit of a new object. -/
def afterCommit (hostname : Value) : Except Error Int64 → Conduct (Except Error Record)
  | .error e, _, _, t => (.error (e.context "committing new object"), t)
  | .ok _, _, _, t => readBack hostname t

theorem isDialogue_afterCommit (hostname : Value) (committed : Except Error Int64) :
    IsDialogue (afterCommit hostname committed) := by
  cases committed with
  | error e => exact .done _
  | ok id => exact isDialogue_readBack hostname

theorem isDialogue_commitNew (filled : Record) (hostname : Value) :
    IsDialogue fun _ _ t => commitNew filled hostname t := by
  refine ((isDialogue_record_commit filled).bind fun a =>
    isDialogue_afterCommit hostname a.1).congr fun τ _ t => ?_
  simp only [commitNew, apart]
  rcases filled.commit t with ⟨_ | _, _, _⟩ <;> rfl

theorem isDialogue_fillIn (attributes : List (String × Value)) (hostname : Value)
    (fresh : Except Error Record) : IsDialogue fun _ _ t => fillIn attributes hostname fresh t := by
  simp only [fillIn]
  cases fresh.bind (Record.setAll · attributes) with
  | error e => exact .done _
  | ok filled => exact isDialogue_commitNew filled hostname

theorem isDialogue_createObject (servertype : String) (attributes : List (String × Value)) :
    IsDialogue fun _ _ t => createObject servertype attributes t := by
  cases hname : lastHostname? attributes with
  | none =>
    refine (IsDialogue.done (.error (.missingField hostnameName))).congr fun τ _ t => ?_
    rw [createObject, hname]
  | some hostname =>
    refine ((isDialogue_newObject servertype).bind
      (isDialogue_fillIn attributes hostname)).congr fun τ _ t => ?_
    exact createObject_of_named hname t

end Inventory
