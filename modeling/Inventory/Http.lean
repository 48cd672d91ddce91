import Inventory.Config
import Inventory.Endpoint
import Inventory.Json.Printer
import Inventory.Json.Reader
import Inventory.Signature.Headers

/-! Reaching the service over HTTP: the request made of a payload, and what a reply means. -/

namespace Inventory.Http

structure Request where
  method : String
  url : String
  contentType : String
  userAgent : String
  headers : List (String × String)
  body : Bytes

/-- Whether the byte stands for itself in a form value. -/
def isPlain (b : UInt8) : Bool :=
  let c := Char.ofNat b.toNat
  b.toNat < 0x80 && (c.isAlphanum || c == '*' || c == '-' || c == '.' || c == '_')

def formByte (b : UInt8) : List Char :=
  if b = 0x20 then ['+']
  else if isPlain b then [Char.ofNat b.toNat]
  else '%' :: (Text.hexByte b).map Char.toUpper

def formEncoded (s : String) : String := String.ofList ((Text.toBytes s).flatMap formByte)

def formQuery (params : List (String × String)) : String :=
  "&".intercalate (params.map fun (name, value) => formEncoded name ++ "=" ++ formEncoded value)

/-- The address of a request. The base URL is taken for an absolute address without a query of its own;
only to such a one are the parameters simply appended. -/
def urlOf (config : Config) (endpoint : Endpoint) : String :=
  config.baseUrl ++ endpoint.path
    ++ if endpoint.params.isEmpty then "" else "?" ++ formQuery endpoint.params

namespace Request

def ofPayload (config : Config) (timestamp : Int64) (endpoint : Endpoint) (payload : Json) :
    Request :=
  let body := Text.toBytes payload.compact
  { method := "GET"
    url := urlOf config endpoint
    contentType := "application/x-json"
    userAgent := "dataset-client/0.1.0"
    headers := Signature.headers config.token timestamp body
    body }

def target (r : Request) : String :=
  let rest := r.url.toList
  match rest.dropWhile (· != ':') with
  | ':' :: '/' :: '/' :: hostAndPath => String.ofList (hostAndPath.dropWhile (· != '/'))
  | _ => r.url

end Request

/-- The value of a field in a body of one record: an object in which the field occurs at most
once, or the array of that one field. The outer option is none for any other body. -/
def bodyField? (name : String) : Json.Written → Option (Option Json.Written)
  | .object members =>
    if members.any (·.1.isNone) then none
    else
      match members.filter (·.1 == some name) with
      | [] => some none
      | [(_, w)] => some (some w)
      | _ => none
  | .array [] => some none
  | .array [w] => some (some w)
  | _ => none

def errorMessage? (body : Json.Written) : Option String :=
  match bodyField? "error" body with
  | some (some detail) =>
    match bodyField? "message" detail with
    | some (some (.text content)) => content
    | _ => none
  | _ => none

/-- What stands for a byte that belongs to no character: a character, and half of a surrogate pair. Side
by side they can stand inside a text literal and nowhere else, and leave that literal without content. -/
def strayByte : List Char := ['\uFFFD', '\\', 'u', 'd', 'c', '0', '0']

/-- Stray bytes do no harm in a text that is passed over. -/
def complaint? (body : Bytes) : Option String :=
  (Json.written? (String.ofList (Text.filled strayByte body))).bind errorMessage?

def errorMessage (body : Bytes) : String := (complaint? body).getD ""

/-- What a reply means. A body that cannot be read as JSON is reported in the words of its reader, which
are given. -/
def interpret (unreadable : Bytes → String) (status : Nat) (body : Bytes) : Except Error Json :=
  if 200 ≤ status ∧ status < 300 then
    match (Text.ofBytes? body).bind Json.parseSorted? with
    | some j => .ok j
    | none => .error (.decode (unreadable body))
  else .error (.remote status (errorMessage body))

/-- How an exchange ends: with a reply, with one whose body breaks off, or without one. The reasons are
those of the network; a request that has no reply may yet have arrived. -/
inductive Delivery where
  | reply (status : Nat) (body : Bytes)
  | broken (reason : String)
  | failed (arrived : Bool) (reason : String)

/-- A configured client and the far end: how the exchanges to come will end, and the requests that
arrived, the latest first. -/
structure Link where
  config : Config
  now : Int64
  /-- What the reader of JSON says of a body that it cannot read. -/
  unreadable : Bytes → String
  deliveries : List Delivery
  /-- How exchanges end after the listed ones. -/
  otherwise : Delivery
  arrived : List Request

namespace Link

def requests (l : Link) : List Request := l.arrived.reverse

/-- The next exchange is over; its request arrived or did not. -/
def exchanged (l : Link) (arrived : Bool) (r : Request) : Link :=
  { l with
    deliveries := l.deliveries.tail
    arrived := if arrived then r :: l.arrived else l.arrived }

def send (l : Link) (endpoint : Endpoint) (payload : Json) : Except Error Json × Link :=
  let request := Request.ofPayload l.config l.now endpoint payload
  match l.deliveries.headD l.otherwise with
  | .reply status body => (interpret l.unreadable status body, l.exchanged true request)
  | .broken reason =>
    (.error (.transport ("failed to read response body: " ++ reason)), l.exchanged true request)
  | .failed arrived reason =>
    (.error (.transport ("request to " ++ (l.config.baseUrl ++ endpoint.path) ++ " failed: " ++ reason)),
      l.exchanged arrived request)

instance : Transport Link := ⟨send⟩

end Link

end Inventory.Http
