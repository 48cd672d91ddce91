import Inventory.Value.Json

/-! The texts of an attribute with many values, with the edits of a set. Edits are local; the
result is stored back as a list. -/

namespace Inventory

structure MultiValue where
  items : List String
deriving DecidableEq

namespace MultiValue

def empty : MultiValue := ⟨[]⟩

instance : EmptyCollection MultiValue := ⟨empty⟩

def size (m : MultiValue) : Nat := m.items.length

def isEmpty (m : MultiValue) : Bool := m.items.isEmpty

def contains (m : MultiValue) (text : String) : Bool := m.items.contains text

/-- Appends a text unless it is there. -/
def insert (m : MultiValue) (text : String) : MultiValue :=
  if m.contains text then m else ⟨m.items ++ [text]⟩

def insertAll (m : MultiValue) (texts : List String) : MultiValue :=
  texts.foldl insert m

def erase (m : MultiValue) (text : String) : MultiValue :=
  ⟨m.items.filter (· != text)⟩

def clear (_ : MultiValue) : MultiValue := ∅

def toValue (m : MultiValue) : Value := .list (m.items.map .text)

/-- The texts among the elements of a list; any other value has none. -/
def ofValue : Value → MultiValue
  | .list items => ⟨items.filterMap Value.asText?⟩
  | _ => ∅

def toJson (m : MultiValue) : Json := .ofTexts m.items

def wire (m : MultiValue) : String := m.toJson.compact

def textsOfJson : List Json → Except Mismatch (List String)
  | [] => .ok []
  | j :: rest =>
    match j.toText with
    | .ok s => (textsOfJson rest).map (s :: ·)
    | .error e => .error e

def ofJson : Json → Except Mismatch MultiValue
  | .array items => (textsOfJson items).map MultiValue.mk
  | j => .error (.wrongType j "a sequence")

inductive Edit where
  | insertAll (texts : List String)
  | erase (text : String)
  | clear

def apply (m : MultiValue) : Edit → MultiValue
  | .insertAll texts => m.insertAll texts
  | .erase text => m.erase text
  | .clear => m.clear

end MultiValue

end Inventory
