import Inventory.Error
import Inventory.Text.Bytes
import Inventory.Text.Decimal

/-! The configuration of a client, how it is read from the environment, and the cache that keeps the
first one read until it is reset. -/

namespace Inventory

structure Config where
  /-- The address of the service, without slashes at its end. -/
  baseUrl : String
  /-- The shared secret that signs requests. -/
  token : Option String
  timeoutSeconds : Nat
deriving DecidableEq

inductive ConfigError where
  | missingBaseUrl
  | invalidTimeout (text : String)
deriving DecidableEq

namespace ConfigError

def message : ConfigError → String
  | missingBaseUrl => "SERVERADMIN_BASE_URL environment variable is required"
  | invalidTimeout text => "Invalid SERVERADMIN_TIMEOUT_SECS value: " ++ Text.quoted text

def toError (e : ConfigError) : Error := .transport ("failed to get config: " ++ e.message)

end ConfigError

inductive Variable where
  | baseUrl
  | token
  | timeout
deriving DecidableEq

abbrev Environment := Variable → Option Bytes

namespace Environment

def empty : Environment := fun _ => none

def set (env : Environment) (v : Variable) (bytes : Option Bytes) : Environment :=
  fun w => if w = v then bytes else env w

/-- The text of a variable. One that is not UTF-8 counts as not set. -/
def text? (env : Environment) (v : Variable) : Option String := (env v).bind Text.ofBytes?

def nonEmpty? (env : Environment) (v : Variable) : Option String := (env.text? v).filter (· ≠ "")

end Environment

namespace Config

def defaultTimeout : Nat := 30

def trimSlashes (s : String) : String :=
  String.ofList (s.toList.reverse.dropWhile (· == '/')).reverse

def ofBaseUrl (url : String) : Config := ⟨trimSlashes url, none, defaultTimeout⟩

def withToken (c : Config) (token : String) : Config := { c with token := some token }

def withTimeout (c : Config) (seconds : Nat) : Config := { c with timeoutSeconds := seconds }

/-- Whole seconds that fit 64 bits. -/
def readTimeout? (s : String) : Option Nat :=
  (Text.readNat? s.toList).filter (· < UInt64.size)

def timeoutOf (env : Environment) : Except ConfigError Nat :=
  match env.text? .timeout with
  | none => .ok defaultTimeout
  | some s =>
    match readTimeout? s with
    | some seconds => .ok seconds
    | none => .error (.invalidTimeout s)

def ofEnvironment (env : Environment) : Except ConfigError Config :=
  match env.nonEmpty? .baseUrl with
  | none => .error .missingBaseUrl
  | some url =>
    match timeoutOf env with
    | .error e => .error e
    | .ok seconds =>
      .ok { (ofBaseUrl url).withTimeout seconds with token := env.nonEmpty? .token }

end Config

/-- The environment and the configuration kept from its first reading. -/
structure ConfigStore where
  environment : Environment
  cache : Option Config

namespace ConfigStore

def fresh : ConfigStore := ⟨.empty, none⟩

def assign (s : ConfigStore) (v : Variable) (bytes : Option Bytes) : ConfigStore :=
  { s with environment := s.environment.set v bytes }

def reset (s : ConfigStore) : ConfigStore := { s with cache := none }

/-- The configuration in force, read on first use. A failure is not kept. -/
def config (s : ConfigStore) : Except ConfigError Config × ConfigStore :=
  match s.cache with
  | some c => (.ok c, s)
  | none =>
    match Config.ofEnvironment s.environment with
    | .ok c => (.ok c, { s with cache := some c })
    | .error e => (.error e, s)

def transportConfig (s : ConfigStore) : Except Error Config × ConfigStore :=
  match s.config with
  | (.ok c, s) => (.ok c, s)
  | (.error e, s) => (.error e.toError, s)

/-- A transport on the configuration in force. What makes the client of the HTTP library is
given. -/
def openTransport {κ : Type} (build : Config → Except String κ) (s : ConfigStore) :
    Except Error (Config × κ) × ConfigStore :=
  match s.transportConfig with
  | (.error e, s) => (.error e, s)
  | (.ok c, s) =>
    match build c with
    | .ok client => (.ok (c, client), s)
    | .error message => (.error (.transport ("failed to build HTTP client: " ++ message)), s)

end ConfigStore

end Inventory
