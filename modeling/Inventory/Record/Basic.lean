import Inventory.Error
import Inventory.Value.Multi

/-! Records with their pending writes. A record remembers for every attribute written since the
last settle point the value from before the first of these writes; what changed is read off that
memory alone. -/

namespace Inventory

def objectIdName : String := "object_id"

structure Record where
  fields : Fields
  /-- The attributes written since the last settle point, with their values before. -/
  prior : Fields
  deleted : Bool

inductive CommitState where
  | created
  | deleted
  | changed
  | consistent
deriving DecidableEq

def CommitState.name : CommitState → String
  | created => "created"
  | deleted => "deleted"
  | changed => "changed"
  | consistent => "consistent"

namespace Record

def ofFields (fields : Fields) : Record := ⟨fields, ∅, false⟩

instance : EmptyCollection Record := ⟨ofFields ∅⟩

instance : Inhabited Record := ⟨∅⟩

/-- The current value of an attribute, integral numbers as integers. -/
def get? (r : Record) (field : String) : Option Value := (r.fields.get? field).map Value.normalized

def getText (r : Record) (field : String) : String :=
  ((r.fields.get? field).bind Value.asText?).getD ""

def getMulti (r : Record) (field : String) : MultiValue :=
  match r.fields.get? field with
  | some v => .ofValue v
  | none => ∅

def objectId? (r : Record) : Option Int64 := (r.fields.get? objectIdName).bind Value.asInt64?

def hasField (r : Record) (field : String) : Bool := r.fields.contains field

def nonFinite : String := "non-finite number cannot be sent as JSON"

/-- Overwrites an attribute that the record has with a value that JSON can carry. -/
def set (r : Record) (field : String) (v : Value) : Except Error Record :=
  match r.fields.get? field with
  | none => .error (.unknownField field)
  | some current =>
    if v.isFinite then
      .ok { r with
        fields := r.fields.insert field v
        prior := if r.prior.contains field then r.prior else r.prior.insert field current }
    else .error (.invalidValue field nonFinite)

def delete (r : Record) : Record := { r with deleted := true }

/-- Takes back every write and the deletion since the last settle point. -/
def rollback (r : Record) : Record := ⟨r.fields.overlay r.prior, ∅, false⟩

/-- Settles the record after the service took its changes. A deleted record loses its identity. -/
def confirm (r : Record) : Record :=
  ⟨if r.deleted then r.fields.insert objectIdName .null else r.fields, ∅, false⟩

def beq (r s : Record) : Bool :=
  r.fields.agrees Value.beq s.fields && r.prior.agrees Value.beq s.prior && r.deleted == s.deleted

instance : BEq Record := ⟨beq⟩

end Record

end Inventory
