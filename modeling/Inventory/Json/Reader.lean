import Inventory.Json.Token

/-! Reading JSON. The tokens of a text are put together on a stack of open brackets into the text
as written, which keeps members in order and numbers as literals. What is written denotes a tree if
its brackets nest at most 127 deep, its numbers are in range and its texts have content. -/

namespace Inventory.Json

inductive Written where
  | null
  | bool (b : Bool)
  | number (n : Numeral)
  | text (content : Option String)
  | array (items : List Written)
  | object (members : List (Option String × Written))

/-- An open bracket and what stands complete inside it, in reverse. -/
inductive Level where
  | array (items : List Written)
  | object (members : List (Option String × Written))
  | member (members : List (Option String × Written)) (key : Option String)

inductive Place where
  | value
  | firstItem
  | firstKey
  | key
  | colon (key : Option String)
  | ended (w : Written)

structure Reading where
  levels : List Level
  place : Place

namespace Reading

def atStart : Reading := ⟨[], .value⟩

def beginValue? (levels : List Level) : Token → Option Reading
  | .null => some ⟨levels, .ended .null⟩
  | .bool b => some ⟨levels, .ended (.bool b)⟩
  | .number n => some ⟨levels, .ended (.number n)⟩
  | .text content => some ⟨levels, .ended (.text content)⟩
  | .arrayStart => some ⟨.array [] :: levels, .firstItem⟩
  | .objectStart => some ⟨.object [] :: levels, .firstKey⟩
  | _ => none

def step? : Reading → Token → Option Reading
  | ⟨.array [] :: levels, .firstItem⟩, .arrayEnd => some ⟨levels, .ended (.array [])⟩
  | ⟨levels, .firstItem⟩, token => beginValue? levels token
  | ⟨levels, .value⟩, token => beginValue? levels token
  | ⟨.object [] :: levels, .firstKey⟩, .objectEnd => some ⟨levels, .ended (.object [])⟩
  | ⟨levels, .firstKey⟩, .text content => some ⟨levels, .colon content⟩
  | ⟨levels, .key⟩, .text content => some ⟨levels, .colon content⟩
  | ⟨.object members :: levels, .colon key⟩, .colon => some ⟨.member members key :: levels, .value⟩
  | ⟨.array items :: levels, .ended w⟩, .comma => some ⟨.array (w :: items) :: levels, .value⟩
  | ⟨.array items :: levels, .ended w⟩, .arrayEnd =>
    some ⟨levels, .ended (.array (w :: items).reverse)⟩
  | ⟨.member members key :: levels, .ended w⟩, .comma =>
    some ⟨.object ((key, w) :: members) :: levels, .key⟩
  | ⟨.member members key :: levels, .ended w⟩, .objectEnd =>
    some ⟨levels, .ended (.object ((key, w) :: members).reverse)⟩
  | _, _ => none

def run? (reading : Reading) : List Token → Option Written
  | [] =>
    match reading with
    | ⟨[], .ended w⟩ => some w
    | _ => none
  | token :: rest =>
    match reading.step? token with
    | some next => run? next rest
    | none => none

end Reading

def written? (s : String) : Option Written :=
  match tokens? s.toList with
  | some tokens => Reading.atStart.run? tokens
  | none => none

namespace Written

mutual

/-- The tree denoted, when brackets may still nest `levels` deep. -/
def toJson? (levels : Nat) : Written → Option Json
  | .null => some .null
  | .bool b => some (.bool b)
  | .number n => n.toJson?
  | .text content => content.map .text
  | .array items =>
    match levels with
    | 0 => none
    | levels + 1 => (itemsToJson? levels items).map .array
  | .object members =>
    match levels with
    | 0 => none
    | levels + 1 => (membersToJson? levels members).map .object

def itemsToJson? (levels : Nat) : List Written → Option (List Json)
  | [] => some []
  | w :: rest =>
    match toJson? levels w, itemsToJson? levels rest with
    | some j, some more => some (j :: more)
    | _, _ => none

def membersToJson? (levels : Nat) : List (Option String × Written) → Option (List (String × Json))
  | [] => some []
  | (key, w) :: rest =>
    match key, toJson? levels w, membersToJson? levels rest with
    | some key, some j, some more => some ((key, j) :: more)
    | _, _, _ => none

end

end Written

def maxNesting : Nat := 127

def parse? (s : String) : Option Json :=
  match written? s with
  | some w => w.toJson? maxNesting
  | none => none

def parseSorted? (s : String) : Option Json := (parse? s).map sorted

end Inventory.Json
