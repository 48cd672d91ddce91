import Inventory.Proofs.Dialogue
import Inventory.Workspace.Step

/-! Programs of operations on named objects. What a program does next may depend on every answer it was
given so far. A program is a dialogue with the service, the same one over every transport. -/

namespace Inventory

/-- A program makes one call after the other, each chosen by the answers to those before. -/
inductive Program where
  | stop
  | call (step : Step) (next : Except Failure Answer → Program)

namespace Program

variable {τ : Type} [Transport τ]

/-- The answers to the calls in their order, and the workspace in the end. -/
def run : Program → Workspace τ → List (Except Failure Answer) × Workspace τ
  | stop, w => ([], w)
  | call step next, w =>
    let (answer, w) := w.run step
    let (answers, w) := (next answer).run w
    (answer :: answers, w)

end Program

/-- What can be done on a workspace, whatever the transport. -/
def Act (α : Type) : Type 1 := (τ : Type) → [Transport τ] → Workspace τ → Except Failure α × Workspace τ

/-- An answer and the objects of a workspace, its transport apart. -/
def settled {α τ : Type} (r : α × Workspace τ) : (α × TextMap Item) × τ :=
  ((r.1, r.2.items), r.2.transport)

def Act.IsDialogue {α : Type} (f : Act α) : Prop :=
  ∀ items, Conduct.IsDialogue fun τ _ t => settled (f τ ⟨items, t⟩)

namespace Act.IsDialogue

variable {α β : Type}

theorem congr {f g : Act α} (hf : IsDialogue f)
    (h : ∀ (τ : Type) [Transport τ] (w : Workspace τ), g τ w = f τ w) : IsDialogue g := by
  intro items
  refine (hf items).congr fun τ _ t => ?_
  rw [h]

/-- Nothing is asked, and the objects alone decide. -/
theorem done (h : TextMap Item → Except Failure α × TextMap Item) :
    IsDialogue fun _ _ w => ((h w.items).1, ⟨(h w.items).2, w.transport⟩) :=
  fun items => Conduct.IsDialogue.done (h items)

/-- An error ends what is done, and a result is handed on with the objects as they are. -/
def handed (g : α → Act β) :
    Except Failure α × TextMap Item → Conduct (Except Failure β × TextMap Item)
  | (.ok a, items), τ, _, t => settled (g a τ ⟨items, t⟩)
  | (.error e, items), _, _, t => ((.error e, items), t)

theorem isDialogue_handed {g : α → Act β} (hg : ∀ a, IsDialogue (g a))
    (a : Except Failure α × TextMap Item) : Conduct.IsDialogue (handed g a) := by
  obtain ⟨e | r, items⟩ := a
  · exact .done _
  · exact hg r items

theorem bind {f : Act α} (hf : IsDialogue f) {g : α → Act β} (hg : ∀ a, IsDialogue (g a)) :
    IsDialogue fun τ _ w =>
      match f τ w with
      | (.ok a, w) => g a τ w
      | (.error e, w) => (.error e, w) := by
  intro items
  refine ((hf items).bind (isDialogue_handed hg)).congr fun τ _ t => ?_
  dsimp only [settled]
  rcases f τ ⟨items, t⟩ with ⟨_ | _, _⟩ <;> rfl

/-- An object is used over the transport, and what becomes of it is kept. -/
theorem use {f : Conduct (Except Error α × β)} (hf : f.IsDialogue)
    (keep : TextMap Item → β → TextMap Item) : IsDialogue fun τ _ w =>
      ((f τ w.transport).1.1.mapError Failure.error,
        ⟨keep w.items (f τ w.transport).1.2, (f τ w.transport).2⟩) := fun items =>
  hf.map fun a => (a.1.mapError Failure.error, keep items a.2)

end Act.IsDialogue

namespace Workspace

variable {α : Type}

theorem isDialogue_onQuery (name : String)
    {f : (τ : Type) → [Transport τ] → Query → τ → Except Error α × Query × τ}
    (hf : ∀ q, Conduct.IsDialogue fun τ _ t => apart (f τ q t)) :
    Act.IsDialogue fun τ _ w => w.onQuery name (f τ) := by
  intro items
  cases hitem : items.get? name with
  | none =>
    refine (Conduct.IsDialogue.done (.error .misuse, items)).congr fun τ _ t => ?_
    simp only [onQuery, hitem]
    rfl
  | some item =>
    cases item with
    | query q =>
      refine ((hf q).map fun a => (a.1.mapError Failure.error, items.insert name (.query a.2))).congr
        fun τ _ t => ?_
      simp only [onQuery, hitem]
      rcases f τ q t with ⟨_ | _, _, _⟩ <;> rfl
    | _ =>
      refine (Conduct.IsDialogue.done (.error .misuse, items)).congr fun τ _ t => ?_
      simp only [onQuery, hitem]
      rfl

theorem isDialogue_set (name : String) : Act.IsDialogue fun _ _ w => w.set name := by
  intro items
  have hquery := isDialogue_onQuery name (f := fun _ _ => Query.all) Query.isDialogue_all items
  cases hitem : items.get? name with
  | none =>
    refine hquery.congr fun τ _ t => ?_
    simp only [set, hitem]
  | some item =>
    cases item with
    | records s =>
      refine (Conduct.IsDialogue.done (.ok s, items)).congr fun τ _ t => ?_
      simp only [set, hitem]
      rfl
    | _ =>
      refine hquery.congr fun τ _ t => ?_
      simp only [set, hitem]

theorem isDialogue_record (target : Target) : Act.IsDialogue fun _ _ w => w.record target := by
  obtain ⟨name, index⟩ := target
  cases index with
  | some index =>
    refine ((isDialogue_set name).bind fun s => Act.IsDialogue.done fun items =>
      (s.get? index).elim (.error .misuse, items) fun r => (.ok r, items)).congr fun τ _ w => ?_
    simp only [record]
    rcases w.set name with ⟨_ | s, w'⟩
    · rfl
    · dsimp only
      cases s.get? index <;> rfl
  | none =>
    intro items
    have hquery := isDialogue_onQuery name (f := fun _ _ => Query.one) Query.isDialogue_one items
    cases hitem : items.get? name with
    | none =>
      refine hquery.congr fun τ _ t => ?_
      simp only [record, hitem]
    | some item =>
      cases item with
      | record r =>
        refine (Conduct.IsDialogue.done (.ok r, items)).congr fun τ _ t => ?_
        simp only [record, hitem]
        rfl
      | _ =>
        refine hquery.congr fun τ _ t => ?_
        simp only [record, hitem]

theorem isDialogue_gather (targets : List Target) :
    Act.IsDialogue fun _ _ w => w.gather targets := by
  induction targets with
  | nil => exact Act.IsDialogue.done fun items => (.ok [], items)
  | cons target rest ih =>
    refine ((isDialogue_record target).bind fun r =>
      (ih.bind fun records => Act.IsDialogue.done fun items => (.ok (r :: records), items))).congr ?_
    intro τ _ w
    simp only [gather]
    rcases w.record target with ⟨_ | r, w'⟩
    · rfl
    · dsimp only
      rcases w'.gather rest with ⟨_ | _, _⟩ <;> rfl

/-- Storing touches the objects alone. -/
theorem store_eq {τ : Type} (w : Workspace τ) (target : Target) (r : Record) : w.store target r =
    ⟨((⟨w.items, ()⟩ : Workspace Unit).store target r).items, w.transport⟩ := by
  obtain ⟨name, index⟩ := target
  simp only [store]
  cases w.items.get? name with
  | none => rfl
  | some item => cases item <;> cases index <;> rfl

theorem storeSet_eq {τ : Type} (w : Workspace τ) (name : String) (s : RecordSet) :
    w.storeSet name s = ⟨((⟨w.items, ()⟩ : Workspace Unit).storeSet name s).items, w.transport⟩ := by
  simp only [storeSet]
  cases w.items.get? name with
  | none => rfl
  | some item => cases item <;> rfl

theorem isDialogue_onRecord (target : Target)
    {f : (τ : Type) → [Transport τ] → Record → τ → Except Error α × Record × τ}
    (hf : ∀ r, Conduct.IsDialogue fun τ _ t => apart (f τ r t)) :
    Act.IsDialogue fun τ _ w => w.onRecord target (f τ) := by
  refine ((isDialogue_record target).bind fun r => Act.IsDialogue.use (hf r) fun items r =>
    ((⟨items, ()⟩ : Workspace Unit).store target r).items).congr fun τ _ w => ?_
  rw [onRecord]
  rcases w.record target with ⟨_ | r, w'⟩
  · rfl
  · dsimp only
    rcases f τ r w'.transport with ⟨_ | _, _, _⟩
    all_goals
      dsimp only
      rw [store_eq w']
      rfl

theorem isDialogue_onSet (name : String)
    {f : (τ : Type) → [Transport τ] → RecordSet → τ → Except Error α × RecordSet × τ}
    (hf : ∀ s, Conduct.IsDialogue fun τ _ t => apart (f τ s t)) :
    Act.IsDialogue fun τ _ w => w.onSet name (f τ) := by
  refine ((isDialogue_set name).bind fun s => Act.IsDialogue.use (hf s) fun items s =>
    ((⟨items, ()⟩ : Workspace Unit).storeSet name s).items).congr fun τ _ w => ?_
  rw [onSet]
  rcases w.set name with ⟨_ | s, w'⟩
  · rfl
  · dsimp only
    rcases f τ s w'.transport with ⟨_ | _, _, _⟩
    all_goals
      dsimp only
      rw [storeSet_eq w']
      rfl

theorem isDialogue_keep (name : String) {f : Conduct (Except Error Record)} (hf : f.IsDialogue) :
    Act.IsDialogue fun τ _ w => w.keep name (f τ) := by
  intro items
  refine (hf.map fun answer => ((answer.map fun _ => ()).mapError Failure.error,
    answer.toOption.elim items fun r => items.insert name (.record r))).congr fun τ _ t => ?_
  simp only [keep]
  rcases f τ t with ⟨_ | _, _⟩ <;> rfl

end Workspace

theorem RecordStep.isDialogue (step : RecordStep) (r : Record) :
    Conduct.IsDialogue fun _ _ t => apart (step.run r t) := by
  cases step with
  | commit =>
    refine ((isDialogue_record_commit r).map fun a => (a.1.map Answer.committed, a.2)).congr
      fun τ _ t => ?_
    simp only [run]
    rcases r.commit t with ⟨_ | _, _, _⟩ <;> rfl
  | set field v =>
    simp only [run]
    cases r.set field v <;> exact .silent fun _ _ _ => rfl
  | editMulti field edits =>
    simp only [run]
    cases r.editMulti field edits <;> exact .silent fun _ _ _ => rfl
  | _ => exact .silent fun _ _ _ => rfl

theorem SetStep.isDialogue (step : SetStep) (s : RecordSet) :
    Conduct.IsDialogue fun _ _ t => apart (step.run s t) := by
  cases step with
  | commit =>
    refine ((isDialogue_set_commit s).map fun a => (a.1.map Answer.committed, a.2)).congr
      fun τ _ t => ?_
    simp only [run]
    rcases s.commit t with ⟨_ | _, _, _⟩ <;> rfl
  | _ => exact .silent fun _ _ _ => rfl

theorem QueryStep.isDialogue (step : QueryStep) (q : Query) :
    Conduct.IsDialogue fun _ _ t => apart (step.run q t) := by
  cases step with
  | all => exact q.isDialogue_all.map fun a => (a.1.map fun s => Answer.count s.size, a.2)
  | one => exact q.isDialogue_one.map fun a => (a.1.map fun r => Answer.record (some r), a.2)
  | count => exact q.isDialogue_count.map fun a => (a.1.map Answer.count, a.2)
  | _ => exact .silent fun _ _ _ => rfl

namespace Workspace

theorem isDialogue_answered {α : Type} {f : Act α} (hf : f.IsDialogue)
    (h : α → TextMap Item → Answer × TextMap Item) : Act.IsDialogue fun τ _ w =>
      (f τ w).2.answered (f τ w).1 fun a =>
        ((h a (f τ w).2.items).1, ⟨(h a (f τ w).2.items).2, (f τ w).2.transport⟩) := by
  refine (hf.bind fun a => Act.IsDialogue.done fun items =>
    (.ok (h a items).1, (h a items).2)).congr fun τ _ w => ?_
  rcases f τ w with ⟨_ | _, _⟩ <;> rfl

theorem isDialogue_run (step : Step) : Act.IsDialogue fun _ _ w => w.run step := by
  cases step with
  | onRecord target step => exact isDialogue_onRecord target step.isDialogue
  | onSet name step => exact isDialogue_onSet name step.isDialogue
  | onQuery name step => exact isDialogue_onQuery name step.isDialogue
  | newRecord name fields =>
    exact .done fun items => (.ok Answer.done, items.insert name (.record (.ofFields fields)))
  | readRecord name text why =>
    simp only [run]
    cases Record.ofText text why with
    | ok r => exact .done fun items => (.ok Answer.done, items.insert name (.record r))
    | error e => exact .done fun items => (.error (.error e), items)
  | copy name target =>
    obtain ⟨source, index⟩ := target
    cases index with
    | none =>
      refine (Act.IsDialogue.done fun items => (items.get? source).elim (.error .misuse, items)
        fun item => (.ok .done, items.insert name item)).congr fun τ _ w => ?_
      simp only [run]
      cases w.items.get? source <;> rfl
    | some index =>
      exact isDialogue_answered (isDialogue_record ⟨source, some index⟩) fun r items =>
        (.done, items.insert name (.record r))
  | equal name other =>
    refine (Act.IsDialogue.done fun items => (items.get? name).elim (.error .misuse, items)
      fun a => (items.get? other).elim (.error .misuse, items)
        fun b => (.ok (.flag (a == b)), items)).congr fun τ _ w => ?_
    simp only [run]
    cases w.items.get? name <;> cases w.items.get? other <;> rfl
  | collect name targets =>
    exact isDialogue_answered (isDialogue_gather targets) fun records items =>
      (.done, items.insert name (.records ⟨records⟩))
  | pushFrom name target =>
    refine ((isDialogue_record target).bind fun r =>
      isDialogue_onSet name (SetStep.push r).isDialogue).congr fun τ _ w => ?_
    simp only [run]
    rcases w.record target with ⟨_ | _, _⟩ <;> rfl
  | newQuery name filters =>
    exact .done fun items => (.ok (Answer.query (.ofFilters filters)),
      items.insert name (.query (.ofFilters filters)))
  | readQuery name text =>
    simp only [run]
    cases Query.ofText text with
    | ok q => exact .done fun items => (.ok (Answer.query q), items.insert name (.query q))
    | error e => exact .done fun items => (.error (.error e), items)
  | detach name query =>
    exact isDialogue_answered (isDialogue_onQuery query (f := fun _ _ => Query.all)
      Query.isDialogue_all) fun s items => (.done, items.insert name (.records s))
  | newObject name servertype =>
    exact isDialogue_answered (isDialogue_keep name (isDialogue_newObject servertype))
      fun _ items => (.done, items)
  | createObject name servertype attributes =>
    exact isDialogue_answered (isDialogue_keep name (isDialogue_createObject servertype attributes))
      fun _ items => (.done, items)
  | send endpoint payload =>
    intro items
    refine ((Conduct.IsDialogue.send endpoint payload).map fun reply =>
      ((reply.map Answer.json).mapError Failure.error, items)).congr fun τ _ t => ?_
    simp only [run]
    rcases Transport.send t endpoint payload with ⟨_ | _, _⟩ <;> rfl

end Workspace

theorem Program.isDialogue (program : Program) (items : TextMap Item) :
    Conduct.IsDialogue fun _ _ t => settled (program.run ⟨items, t⟩) := by
  -- by induction on the program; what comes after a call begins with the objects it left
  induction program generalizing items with
  | stop => exact .done ([], items)
  | call step next ih =>
    exact (Workspace.isDialogue_run step items).bind (g := fun a τ _ t =>
      ((a.1 :: (settled ((next a.1).run ⟨a.2, t⟩)).1.1, (settled ((next a.1).run ⟨a.2, t⟩)).1.2),
        (settled ((next a.1).run ⟨a.2, t⟩)).2)) fun a =>
      (ih a.1 a.2).map fun b => (a.1 :: b.1, b.2)

end Inventory
