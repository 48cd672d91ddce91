import Inventory.Signature.Sha1

/-! Signing requests. A signed request carries the time it was made at, the keyed digest of that
time and its body under the shared token, and the digest of the token. -/

namespace Inventory.Signature

/-- The decimal timestamp, a colon, then the body. -/
def message (timestamp : Int64) (body : Bytes) : Bytes :=
  Text.toBytes (toString timestamp.toInt) ++ 0x3A :: body

def securityToken (token : Bytes) (timestamp : Int64) (body : Bytes) : String :=
  Text.hex (Sha1.keyed token (message timestamp body))

def applicationId (token : Bytes) : String := Text.hex (Sha1.digest token)

/-- Without a token only the timestamp is sent. -/
def headers (token : Option String) (timestamp : Int64) (body : Bytes) : List (String × String) :=
  ("X-Timestamp", toString timestamp.toInt) ::
    match token with
    | some token =>
      [("X-SecurityToken", securityToken (Text.toBytes token) timestamp body),
       ("X-Application", applicationId (Text.toBytes token))]
    | none => []

end Inventory.Signature
