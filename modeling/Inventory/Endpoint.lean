import Inventory.Error

/-! The endpoints of the service, and what it means to reach it. A transport carries one request
and brings back the decoded reply or an error; it keeps a state of its own from call to call. -/

namespace Inventory

inductive Endpoint where
  | query
  | commit
  | newObject (servertype : String)
deriving DecidableEq

namespace Endpoint

def path : Endpoint → String
  | query => "/api/dataset/query"
  | commit => "/api/dataset/commit"
  | newObject _ => "/api/dataset/new_object"

def params : Endpoint → List (String × String)
  | newObject servertype => [("servertype", servertype)]
  | _ => []

end Endpoint

class Transport (τ : Type) where
  send : τ → Endpoint → Json → Except Error Json × τ

/-- A transport that answers from a list of replies and notes each request. -/
structure Script where
  replies : List (Except Error Json)
  /-- The latest first. -/
  sent : List (Endpoint × Json)

namespace Script

def ofReplies (replies : List (Except Error Json)) : Script := ⟨replies, []⟩

def requests (s : Script) : List (Endpoint × Json) := s.sent.reverse

def send (s : Script) (endpoint : Endpoint) (payload : Json) : Except Error Json × Script :=
  let sent := (endpoint, payload) :: s.sent
  match s.replies with
  | reply :: rest => (reply, ⟨rest, sent⟩)
  | [] => (.error (.transport ("no reply scripted for " ++ endpoint.path)), ⟨[], sent⟩)

instance : Transport Script := ⟨send⟩

end Script

end Inventory
