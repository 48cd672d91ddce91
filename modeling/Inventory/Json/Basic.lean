import Inventory.Double.Text
import Inventory.TextMap

/-! JSON trees. Members of an object stand in the order in which they are to be written; a tree is
sorted when the keys of each of its objects ascend. -/

namespace Inventory

inductive Json where
  | null
  | bool (b : Bool)
  | integer (n : Int)
  | float (d : Double)
  | text (s : String)
  | array (items : List Json)
  | object (members : List (String × Json))

namespace Json

instance : Inhabited Json := ⟨.null⟩

mutual

/-- The tree with the members of every object in ascending order of the key. Of several members
with one key the last stays. -/
def sorted : Json → Json
  | .array items => .array (sortedItems items)
  | .object members => .object (sortedMembers members)
  | .null => .null
  | .bool b => .bool b
  | .integer n => .integer n
  | .float d => .float d
  | .text s => .text s

def sortedItems : List Json → List Json
  | [] => []
  | j :: rest => sorted j :: sortedItems rest

def sortedMembers : List (String × Json) → List (String × Json)
  | [] => []
  | (key, j) :: rest =>
    let later := sortedMembers rest
    if later.any (·.1 == key) then later else putEntry key (sorted j) later

end

/-- JSON has no form for NaN and the infinities; null stands in. -/
def ofDouble (d : Double) : Json := if d.isFinite then .float d else .null

def ofTexts (texts : List String) : Json := .array (texts.map .text)

end Json

end Inventory
