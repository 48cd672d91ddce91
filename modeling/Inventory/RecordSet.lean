import Inventory.Record.Basic

/-! Ordered sets of records, and edits of all their members. -/

namespace Inventory

structure RecordSet where
  records : List Record

namespace RecordSet

instance : EmptyCollection RecordSet := ⟨⟨[]⟩⟩

def size (s : RecordSet) : Nat := s.records.length

def isEmpty (s : RecordSet) : Bool := s.records.isEmpty

def get? (s : RecordSet) (index : Nat) : Option Record := s.records[index]?

def push (s : RecordSet) (r : Record) : RecordSet := ⟨s.records ++ [r]⟩

def replace (s : RecordSet) (index : Nat) (r : Record) : RecordSet := ⟨s.records.set index r⟩

/-- The record after an attempt to set, successful or not. -/
def afterSet (field : String) (v : Value) (r : Record) : Record :=
  match r.set field v with
  | .ok r => r
  | .error _ => r

def failure? (field : String) (v : Value) (member : Record × Nat) : Option (MemberError Error) :=
  match member.1.set field v with
  | .ok _ => none
  | .error e => some ⟨member.2, member.1.objectId?, e⟩

/-- Attempts to set an attribute of every member; those that fail are named together. -/
def set (s : RecordSet) (field : String) (v : Value) : Except Error Unit × RecordSet :=
  let failures := s.records.zipIdx.filterMap (failure? field v)
  (if failures.isEmpty then .ok () else .error (.batch failures),
    ⟨s.records.map (afterSet field v)⟩)

/-- Sets an attribute of the members in turn, each to its own value, up to the first failure. -/
def setEach (field : String) : List Record → List Value → Except Error Unit × List Record
  | r :: records, v :: values =>
    match r.set field v with
    | .ok r =>
      let (answer, records) := setEach field records values
      (answer, r :: records)
    | .error e => (.error e, r :: records)
  | records, _ => (.ok (), records)

def delete (s : RecordSet) : RecordSet := ⟨s.records.map Record.delete⟩

def rollback (s : RecordSet) : RecordSet := ⟨s.records.map Record.rollback⟩

def agrees : List Record → List Record → Bool
  | [], [] => true
  | r :: rs, s :: ss => r == s && agrees rs ss
  | _, _ => false

instance : BEq RecordSet := ⟨fun s t => agrees s.records t.records⟩

end RecordSet

end Inventory
