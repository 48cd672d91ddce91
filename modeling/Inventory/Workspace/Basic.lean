import Inventory.Creation

/-! Named records, record sets and queries over one transport. Where a record is wanted, a member
of a set will do, or a query that matched one; where a set is wanted, the results of a query. -/

namespace Inventory

inductive Item where
  | record (r : Record)
  | records (s : RecordSet)
  | query (q : Query)

def Item.beq : Item → Item → Bool
  | record r, record s => r == s
  | records s, records t => s == t
  | query p, query q => p == q
  | _, _ => false

instance : BEq Item := ⟨Item.beq⟩

/-- An object by name, or one of its members. -/
structure Target where
  name : String
  index : Option Nat

inductive Failure where
  | error (e : Error)
  /-- There is no object of this name, or none of the kind that is wanted. -/
  | misuse

structure Workspace (τ : Type) where
  items : TextMap Item
  transport : τ

namespace Workspace

variable {τ α : Type}

def ofTransport (t : τ) : Workspace τ := ⟨∅, t⟩

def put (w : Workspace τ) (name : String) (item : Item) : Workspace τ :=
  { w with items := w.items.insert name item }

def reach (w : Workspace τ) (t : τ) : Workspace τ := { w with transport := t }

def store (w : Workspace τ) (target : Target) (r : Record) : Workspace τ :=
  match w.items.get? target.name, target.index with
  | some (.record _), _ => w.put target.name (.record r)
  | some (.records s), some index => w.put target.name (.records (s.replace index r))
  | some (.query q), index =>
    w.put target.name (.query (q.edit fun s => s.replace (index.getD 0) r))
  | _, _ => w

def storeSet (w : Workspace τ) (name : String) (s : RecordSet) : Workspace τ :=
  match w.items.get? name with
  | some (.query q) => w.put name (.query (q.edit fun _ => s))
  | _ => w.put name (.records s)

variable [Transport τ]

def onQuery (w : Workspace τ) (name : String) (f : Query → τ → Except Error α × Query × τ) :
    Except Failure α × Workspace τ :=
  match w.items.get? name with
  | some (.query q) =>
    match f q w.transport with
    | (.ok a, q, t) => (.ok a, (w.put name (.query q)).reach t)
    | (.error e, q, t) => (.error (.error e), (w.put name (.query q)).reach t)
  | _ => (.error .misuse, w)

def set (w : Workspace τ) (name : String) : Except Failure RecordSet × Workspace τ :=
  match w.items.get? name with
  | some (.records s) => (.ok s, w)
  | _ => w.onQuery name Query.all

def record (w : Workspace τ) (target : Target) : Except Failure Record × Workspace τ :=
  match target.index, w.items.get? target.name with
  | none, some (.record r) => (.ok r, w)
  | none, _ => w.onQuery target.name Query.one
  | some index, _ =>
    match w.set target.name with
    | (.ok s, w) =>
      match s.get? index with
      | some r => (.ok r, w)
      | none => (.error .misuse, w)
    | (.error e, w) => (.error e, w)

def onRecord (w : Workspace τ) (target : Target)
    (f : Record → τ → Except Error α × Record × τ) : Except Failure α × Workspace τ :=
  match w.record target with
  | (.ok r, w) =>
    match f r w.transport with
    | (.ok a, r, t) => (.ok a, (w.store target r).reach t)
    | (.error e, r, t) => (.error (.error e), (w.store target r).reach t)
  | (.error e, w) => (.error e, w)

def onSet (w : Workspace τ) (name : String)
    (f : RecordSet → τ → Except Error α × RecordSet × τ) : Except Failure α × Workspace τ :=
  match w.set name with
  | (.ok s, w) =>
    match f s w.transport with
    | (.ok a, s, t) => (.ok a, (w.storeSet name s).reach t)
    | (.error e, s, t) => (.error (.error e), (w.storeSet name s).reach t)
  | (.error e, w) => (.error e, w)

/-- The records at some targets, up to the first failure. -/
def gather (w : Workspace τ) : List Target → Except Failure (List Record) × Workspace τ
  | [] => (.ok [], w)
  | target :: rest =>
    match w.record target with
    | (.ok r, w) =>
      match gather w rest with
      | (.ok records, w) => (.ok (r :: records), w)
      | (.error e, w) => (.error e, w)
    | (.error e, w) => (.error e, w)

def keep (w : Workspace τ) (name : String) (call : τ → Except Error Record × τ) :
    Except Failure Unit × Workspace τ :=
  match call w.transport with
  | (.ok r, t) => (.ok (), (w.put name (.record r)).reach t)
  | (.error e, t) => (.error (.error e), w.reach t)

end Workspace

end Inventory
