import Inventory.Json.Decode
import Inventory.QueryText.Scan

/-! What can go wrong, by cause, and its wording. -/

namespace Inventory

structure MemberError (ε : Type) where
  index : Nat
  objectId : Option Int64
  error : ε

inductive Error where
  | parse (token : String) (position : Nat) (reason : String)
  | unknownField (field : String)
  | batch (members : List (MemberError Error))
  | invalidValue (field : String) (reason : String)
  | missingField (field : String)
  | noResults
  | multipleResults (count : Nat)
  | remote (status : Nat) (message : String)
  | queryFailed (message : String)
  | commitFailed (message : String)
  | decode (message : String)
  | transport (message : String)

namespace Error

def idText : Option Int64 → String
  | some id => toString id.toInt
  | none => "<nil>"

mutual

def message : Error → String
  | parse token position reason =>
    s!"parse error at byte {position} (" ++ Text.quoted token ++ "): " ++ reason
  | unknownField field => "attribute " ++ Text.quoted field ++ ": unknown attribute"
  | batch members => "\n".intercalate (memberMessages members)
  | invalidValue field reason => "attribute " ++ Text.quoted field ++ ": " ++ reason
  | missingField field => "attributes must include " ++ Text.quoted field
  | noResults => "no server objects found"
  | multipleResults count => s!"expected exactly one server object, got {count}"
  | remote status text =>
    if text = "" then s!"HTTP error {status}" else s!"HTTP error {status}: " ++ text
  | queryFailed text => "query failed: " ++ text
  | commitFailed text => "commit failed: " ++ text
  | decode text => "failed to decode response: " ++ text
  | transport text => "transport error: " ++ text

def memberMessages : List (MemberError Error) → List String
  | [] => []
  | ⟨index, objectId, error⟩ :: rest =>
    (s!"object {index} (id=" ++ idText objectId ++ "): " ++ message error) :: memberMessages rest

end

/-- Says what was attempted, where the cause lies outside the caller's data. -/
def context (e : Error) (attempt : String) : Error :=
  match e with
  | transport text => transport (attempt ++ ": " ++ text)
  | decode text => decode (attempt ++ ": " ++ text)
  | commitFailed text => commitFailed (attempt ++ ": " ++ text)
  | queryFailed text => queryFailed (attempt ++ ": " ++ text)
  | e => e

def isCardinality : Error → Bool
  | noResults => true
  | multipleResults _ => true
  | _ => false

end Error

def QueryText.Reason.message : Reason → String
  | nestingTooDeep => "nesting too deep"
  | unmatchedClosing => "unmatched ) found"
  | unmatchedOpening => "unmatched ( found"
  | unterminatedQuote => "unterminated quote"
  | noAttribute => "expected attribute=expression"
  | emptyAttribute => "empty attribute name"
  | textAfterCall => "unexpected text after closing parenthesis"

def Error.ofSyntax (e : QueryText.SyntaxError) : Error :=
  .parse (String.ofList e.token) e.position e.reason.message

def Error.ofMismatch (e : Mismatch) : Error := .decode e.message

end Inventory
