import Inventory.Record.Basic

/-! The changes of a record. An attribute changed if its values before and now are not the same
attribute value; a change between lists is sent as the elements gained and lost, any other as both
values. -/

namespace Inventory

inductive FieldChange where
  | update (old new : Value)
  | multi (add remove : List Value)

def FieldChange.toJson : FieldChange → Json
  | update old new =>
    .object [("action", .text "update"), ("old", old.toJson), ("new", new.toJson)]
  | multi add remove =>
    .object [("action", .text "multi"), ("add", .array (add.map Value.toJson)),
      ("remove", .array (remove.map Value.toJson))]

structure ChangeSet where
  objectId : Option Int64
  changes : TextMap FieldChange

namespace ChangeSet

def get? (c : ChangeSet) (field : String) : Option FieldChange := c.changes.get? field

def isEmpty (c : ChangeSet) : Bool := c.changes.isEmpty

/-- The identity first, then the changes. A changed identity stands under the same key again. -/
def toJson (c : ChangeSet) : Json :=
  .object ((objectIdName, (c.objectId.map fun id => Json.integer id.toInt).getD .null)
    :: c.changes.entries.map fun (field, change) => (field, change.toJson))

end ChangeSet

/-- The elements by canonical form; of several with one form the last. -/
def byCanonical (values : List Value) : TextMap Value :=
  .ofList (values.map fun v => (v.canonical, v))

def missingFrom (m n : TextMap Value) : List Value :=
  (m.entries.filter fun e => !n.contains e.1).map (·.2)

/-- What a list gains and loses as a set, both in ascending order of the canonical form. -/
def sliceDiff (old new : List Value) : List Value × List Value :=
  (missingFrom (byCanonical new) (byCanonical old), missingFrom (byCanonical old) (byCanonical new))

def FieldChange.between (old new : Value) : FieldChange :=
  match old, new with
  | .list before, .list after => .multi (sliceDiff before after).1 (sliceDiff before after).2
  | _, _ => .update old new

namespace Record

def change? (r : Record) (field : String) (old : Value) : Option FieldChange :=
  let new := (r.fields.get? field).getD .null
  if old.sameAs new then none else some (.between old new)

def changes (r : Record) : ChangeSet := ⟨r.objectId?, r.prior.filterMap r.change?⟩

def state (r : Record) : CommitState :=
  match r.fields.get? objectIdName with
  | none => .created
  | some .null => .created
  | some _ =>
    if r.deleted then .deleted
    else if r.changes.isEmpty then .consistent
    else .changed

end Record

end Inventory
