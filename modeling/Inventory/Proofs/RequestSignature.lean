import Inventory.Http
import Inventory.Proofs.ByteText
import Inventory.Proofs.Dialogue
import Inventory.Proofs.NumberText

/-! What a signature stands for. The signed message can be taken apart again into the timestamp and the
body, and every request that is sent carries the timestamp and the body that its own signature is made
of. -/

namespace Inventory

namespace Text

theorem colon_not_mem_utf8EncodeChar {c : Char} (hascii : c.val ≤ 127) (hc : c ≠ ':') :
    0x3A ∉ String.utf8EncodeChar c := by
  rw [String.utf8EncodeChar_eq_singleton (Char.utf8Size_eq_one_iff.mpr hascii), List.mem_singleton]
  intro hbyte
  have hsame : c.val.toNat % 2 ^ 8 = 58 := by
    rw [← UInt32.toNat_toUInt8, ← hbyte]
    rfl
  have hsmall : c.val.toNat ≤ 127 := UInt32.le_iff_toNat_le.mp hascii
  exact hc (Char.ext (UInt32.toNat_inj.mp (by omega : c.val.toNat = 58)))

theorem ascii_of_isNumberChar {c : Char} (h : Json.Scan.isNumberChar c = true) :
    c.val ≤ 127 ∧ c ≠ ':' := by
  simp only [Json.Scan.isNumberChar, isDigit, Bool.or_eq_true, Bool.and_eq_true, decide_eq_true_eq,
    beq_iff_eq] at h
  rcases h with (((((⟨hl, hr⟩ | rfl) | rfl) | rfl) | rfl) | rfl)
  · have hsmall : c.toNat ≤ 57 := hr
    refine ⟨UInt32.le_iff_toNat_le.mpr (Nat.le_trans hsmall (by decide)), ?_⟩
    rintro rfl
    exact absurd hsmall (by decide)
  all_goals decide

/-- The text of an integer has no colon. -/
theorem colon_not_mem_decimal (n : Int) : 0x3A ∉ toBytes (toString n) := by
  rw [toBytes_eq, List.mem_flatMap]
  rintro ⟨c, hc, hcolon⟩
  obtain ⟨hascii, hne⟩ := ascii_of_isNumberChar ((numberWord_int n).2 c hc)
  exact colon_not_mem_utf8EncodeChar hascii hne hcolon

end Text

namespace Signature

/-- The timestamp and the body of a signed message: what stands before its first colon, and after. -/
def parts? (signed : Bytes) : Option (Int64 × Bytes) :=
  match signed.dropWhile (· != 0x3A) with
  | [] => none
  | _ :: body =>
    ((Text.ofBytes? (signed.takeWhile (· != 0x3A))).bind fun s => Text.readInt64? s.toList).map
      (·, body)

theorem parts?_message (timestamp : Int64) (body : Bytes) :
    parts? (message timestamp body) = some (timestamp, body) := by
  have hno : ∀ b ∈ Text.toBytes (toString timestamp.toInt), (b != 0x3A) = true := by
    intro b hb
    rw [bne_iff_ne]
    rintro rfl
    exact Text.colon_not_mem_decimal timestamp.toInt hb
  rw [parts?, message, List.dropWhile_append_of_pos hno, List.takeWhile_append_of_pos hno,
    List.dropWhile_cons_of_neg (by decide), List.takeWhile_cons_of_neg (by decide), List.append_nil]
  simp only [Text.ofBytes?_toBytes, Option.bind_some, Text.readInt64?_toString, Option.map_some]

theorem message_inj {t u : Int64} {b c : Bytes} : message t b = message u c ↔ t = u ∧ b = c := by
  constructor
  · intro h
    have hparts := congrArg parts? h
    rw [parts?_message, parts?_message] at hparts
    exact Prod.mk.inj (Option.some.inj hparts)
  · rintro ⟨rfl, rfl⟩
    rfl

end Signature

namespace Http

/-- What a request sends under a name. -/
def Request.valuesOf (r : Request) (name : String) : List String :=
  (r.headers.filter (·.1 == name)).map Prod.snd

/-- The request names the time, and under a token the two digests: one of that time and the body that it
carries, one of the token. -/
structure Request.Signed (token : Option String) (timestamp : Int64) (r : Request) : Prop where
  time : r.valuesOf "X-Timestamp" = [toString timestamp.toInt]
  keyed : r.valuesOf "X-SecurityToken" = token.toList.map fun token =>
    Signature.securityToken (Text.toBytes token) timestamp r.body
  application : r.valuesOf "X-Application" = token.toList.map fun token =>
    Signature.applicationId (Text.toBytes token)

theorem signed_ofPayload (config : Config) (timestamp : Int64) (endpoint : Endpoint) (payload : Json) :
    (Request.ofPayload config timestamp endpoint payload).Signed config.token timestamp := by
  obtain ⟨baseUrl, token, seconds⟩ := config
  cases token with
  | none => exact ⟨rfl, rfl, rfl⟩
  | some token => exact ⟨rfl, rfl, rfl⟩

/-- All that has arrived over the link was signed by its client. -/
structure Link.AllSigned (config : Config) (now : Int64) (l : Link) : Prop where
  configured : l.config = config
  clock : l.now = now
  arrived : ∀ r ∈ l.arrived, r.Signed config.token now

theorem Link.AllSigned.exchanged {config : Config} {now : Int64} {l : Link} (h : l.AllSigned config now)
    (arrived : Bool) {r : Request} (hr : r.Signed config.token now) :
    (l.exchanged arrived r).AllSigned config now := by
  refine ⟨h.configured, h.clock, ?_⟩
  cases arrived with
  | false => exact h.arrived
  | true => exact List.forall_mem_cons.mpr ⟨hr, h.arrived⟩

theorem Link.AllSigned.send {config : Config} {now : Int64} {l : Link} (h : l.AllSigned config now)
    (endpoint : Endpoint) (payload : Json) :
    (Transport.send l endpoint payload).2.AllSigned config now := by
  have hone : (Request.ofPayload l.config l.now endpoint payload).Signed config.token now := by
    rw [h.configured, h.clock]
    exact signed_ofPayload config now endpoint payload
  have hsend : Transport.send l endpoint payload = l.send endpoint payload := rfl
  rw [hsend, Link.send]
  cases l.deliveries.headD l.otherwise with
  | reply status body => exact h.exchanged true hone
  | broken reason => exact h.exchanged true hone
  | failed arrived reason => exact h.exchanged arrived hone

end Http

theorem Dialogue.allSigned {α : Type} (d : Dialogue α) {config : Config} {now : Int64} {l : Http.Link}
    (h : l.AllSigned config now) : (d.run l).2.AllSigned config now := by
  induction d generalizing l with
  | done a => exact h
  | ask endpoint payload next ih => exact ih _ (h.send endpoint payload)

open Signature Http in
/-- A signed message stands for one timestamp and one body. A request made of a payload sends the text of
the payload and signs that, with the timestamp that it sends, and so does every request that arrives in
the course of a dialogue; without a token it sends no digest. -/
theorem signature_binds_timestamp_and_body :
    (∀ (t u : Int64) (b c : Bytes), message t b = message u c ↔ t = u ∧ b = c) ∧
    (∀ (config : Config) (timestamp : Int64) (endpoint : Endpoint) (payload : Json),
      let r := Request.ofPayload config timestamp endpoint payload
      r.body = Text.toBytes payload.compact ∧ r.Signed config.token timestamp) ∧
    ∀ (config : Config) (now : Int64) (unreadable : Bytes → String) (deliveries : List Delivery)
      (otherwise : Delivery) (α : Type) (d : Dialogue α),
      ∀ r ∈ (d.run (⟨config, now, unreadable, deliveries, otherwise, []⟩ : Link)).2.requests,
        r.Signed config.token now := by
  refine ⟨fun t u b c => message_inj, fun config timestamp endpoint payload => ?_,
    fun config now unreadable deliveries otherwise α d r hr => ?_⟩
  · exact ⟨rfl, signed_ofPayload config timestamp endpoint payload⟩
  · have hstart : (⟨config, now, unreadable, deliveries, otherwise, []⟩ : Link).AllSigned config now :=
      ⟨rfl, rfl, List.forall_mem_nil _⟩
    exact (d.allSigned hstart).arrived r (List.mem_reverse.mp hr)

open Http in
/-- The digests of the request for a new object, which has the body `null`. -/
theorem new_object_request_signed :
    let link : Link :=
      ⟨⟨"http://inventory", some "secret", 30⟩, 123456789, fun _ => "", [], .reply 503 [], []⟩
    let d : Dialogue (Except Error Json) := .ask (.newObject "vm") .null .done
    ∃ r ∈ (d.run link).2.requests, r.Signed (some "secret") 123456789 ∧
      r.valuesOf "X-Timestamp" = ["123456789"] ∧
      r.valuesOf "X-SecurityToken" = ["9afee04672fb886e13d3249d7167c3f4361ac010"] ∧
      r.valuesOf "X-Application" = ["e5e9fa1ba31ecd1ae84f75caaa474f3a663f05f4"] := by
  intro link d
  have hrequest : Request.ofPayload link.config 123456789 (.newObject "vm") .null ∈
      (d.run link).2.requests := List.mem_singleton_self _
  have hsigned := signature_binds_timestamp_and_body.2.2 ⟨"http://inventory", some "secret", 30⟩
    123456789 (fun _ => "") [] (.reply 503 []) _ d _ hrequest
  refine ⟨_, hrequest, hsigned, hsigned.time.trans ?_, hsigned.keyed.trans ?_,
    hsigned.application.trans ?_⟩ <;> decide +kernel

end Inventory
