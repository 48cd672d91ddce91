import Mathlib.Data.List.Forall2
import Inventory.Proofs.HttpReply
import Inventory.Proofs.ProgramDialogue

/-! A script of replies stands in for the service. Where each reply over HTTP says what the script says,
every program gives the same answers over both and leaves the same objects, and the requests that arrive
are those that the script notes, whether they are signed or not. -/

namespace Inventory.Http

/-- Where the requests for an endpoint go, beside the base URL. -/
def locator : Endpoint → String
  | .query => "/api/dataset/query"
  | .commit => "/api/dataset/commit"
  | .newObject servertype => "/api/dataset/new_object" ++ ("?servertype=" ++ formEncoded servertype)

/-- The request carries a payload to an endpoint of the service at a base URL. -/
structure Request.Carries (baseUrl : String) (r : Request) (sent : Endpoint × Json) : Prop where
  method : r.method = "GET"
  url : r.url = baseUrl ++ locator sent.1
  body : r.body = Text.toBytes sent.2.compact

theorem formQuery_servertype (servertype : String) :
    formQuery [("servertype", servertype)] = "servertype=" ++ formEncoded servertype := by
  have hname : formEncoded "servertype" ++ "=" = "servertype=" := by decide +kernel
  have hone : formQuery [("servertype", servertype)] =
      formEncoded "servertype" ++ "=" ++ formEncoded servertype := rfl
  rw [hone, hname]

theorem urlOf_newObject (config : Config) (servertype : String) :
    urlOf config (.newObject servertype) = config.baseUrl ++ locator (.newObject servertype) := by
  have hurl : urlOf config (.newObject servertype) = config.baseUrl ++ "/api/dataset/new_object" ++
      ("?" ++ formQuery [("servertype", servertype)]) := by
    rw [urlOf]
    rfl
  have hliteral : "?" ++ "servertype=" = "?servertype=" := by decide
  have hmark : "?" ++ ("servertype=" ++ formEncoded servertype) =
      "?servertype=" ++ formEncoded servertype := by
    rw [← String.append_assoc, hliteral]
  rw [hurl, formQuery_servertype, hmark, String.append_assoc]
  rfl

theorem urlOf_eq (config : Config) (endpoint : Endpoint) :
    urlOf config endpoint = config.baseUrl ++ locator endpoint := by
  cases endpoint with
  | query =>
    have hurl : urlOf config .query = config.baseUrl ++ "/api/dataset/query" ++ "" := by
      rw [urlOf]
      rfl
    rw [hurl, String.append_empty]
    rfl
  | commit =>
    have hurl : urlOf config .commit = config.baseUrl ++ "/api/dataset/commit" ++ "" := by
      rw [urlOf]
      rfl
    rw [hurl, String.append_empty]
    rfl
  | newObject servertype => exact urlOf_newObject config servertype

theorem carries_ofPayload (config : Config) (timestamp : Int64) (endpoint : Endpoint) (payload : Json) :
    (Request.ofPayload config timestamp endpoint payload).Carries config.baseUrl (endpoint, payload) :=
  ⟨rfl, urlOf_eq config endpoint, rfl⟩

/-- The link has the replies of the script before it, and the requests of the script behind it. -/
structure Link.Follows (config : Config) (l : Link) (s : Script) : Prop where
  configured : l.config = config
  replies : List.Forall₂ (Corresponds l.unreadable) l.deliveries s.replies
  arrived : List.Forall₂ (Request.Carries config.baseUrl) l.arrived s.sent

theorem Link.Follows.send {config : Config} {l : Link} {s : Script} (h : l.Follows config s)
    (hreplies : s.replies ≠ []) (endpoint : Endpoint) (payload : Json) :
    (Transport.send l endpoint payload).1 = (Transport.send s endpoint payload).1 ∧
      (Transport.send l endpoint payload).2.Follows config (Transport.send s endpoint payload).2 := by
  obtain ⟨hconfig, hall, harrived⟩ := h
  obtain ⟨config', now, unreadable, deliveries, otherwise, arrived⟩ := l
  obtain ⟨replies, sent⟩ := s
  subst hconfig
  cases hall with
  | nil => exact absurd rfl hreplies
  | @cons delivery reply deliveries replies hone hrest =>
    cases delivery with
    | broken reason => cases hone
    | failed arrived reason => cases hone
    | reply status body =>
      refine ⟨corresponds_iff.mp hone, rfl, hrest, ?_⟩
      exact .cons (carries_ofPayload config' now endpoint payload) harrived

end Inventory.Http

namespace Inventory

theorem Dialogue.sent_le {α : Type} (d : Dialogue α) (s : Script) :
    s.sent.length ≤ (d.run s).2.sent.length := by
  induction d generalizing s with
  | done a => exact Nat.le_refl _
  | ask endpoint payload next ih =>
    have hsent : (Transport.send s endpoint payload).2.sent = (endpoint, payload) :: s.sent := by
      obtain ⟨_ | ⟨reply, rest⟩, sent⟩ := s <;> rfl
    have hlater := ih (Transport.send s endpoint payload).1 (Transport.send s endpoint payload).2
    rw [hsent, List.length_cons] at hlater
    exact Nat.le_of_succ_le hlater

/-- A dialogue that finds enough replies goes over a link as it goes over the script. -/
theorem Dialogue.run_follows {α : Type} (d : Dialogue α) {config : Config} {l : Http.Link} {s : Script}
    (h : l.Follows config s)
    (henough : (d.run s).2.sent.length ≤ s.sent.length + s.replies.length) :
    (d.run l).1 = (d.run s).1 ∧ (d.run l).2.Follows config (d.run s).2 := by
  induction d generalizing l s with
  | done a => exact ⟨rfl, h⟩
  | ask endpoint payload next ih =>
    obtain ⟨replies, sent⟩ := s
    cases replies with
    | nil =>
      have hlater := (next (Transport.send (⟨[], sent⟩ : Script) endpoint payload).1).sent_le
        (Transport.send (⟨[], sent⟩ : Script) endpoint payload).2
      have hmore : (Transport.send (⟨[], sent⟩ : Script) endpoint payload).2.sent.length =
        sent.length + 1 := rfl
      have hrun : sent.length + 1 ≤ sent.length := by
        rw [hmore] at hlater
        exact Nat.le_trans hlater henough
      omega
    | cons reply rest =>
      obtain ⟨hreply, hnext⟩ := h.send (List.cons_ne_nil reply rest) endpoint payload
      have hleft : (((next reply).run (⟨rest, (endpoint, payload) :: sent⟩ : Script)).2.sent.length ≤
          ((endpoint, payload) :: sent).length + rest.length) := by
        have hrun : ((next reply).run (⟨rest, (endpoint, payload) :: sent⟩ : Script)).2.sent.length ≤
          sent.length + (reply :: rest).length := henough
        simp only [List.length_cons] at hrun ⊢
        omega
      have hlast := ih reply hnext hleft
      rw [Dialogue.run, hreply]
      exact hlast

/-- Every reply of the service says what the script says in its place, and the script has enough of them
for the program. Then the program cannot tell the service from the script, and the service is asked what
the script is asked. -/
theorem script_stands_in_for_service (config : Config) (now : Int64) (unreadable : Bytes → String)
    (otherwise : Http.Delivery) {deliveries : List Http.Delivery} {replies : List (Except Error Json)}
    (h : List.Forall₂ (Http.Corresponds unreadable) deliveries replies) (program : Program)
    (items : TextMap Item)
    (henough : (program.run ⟨items, Script.ofReplies replies⟩).2.transport.requests.length ≤
      replies.length) :
    let scripted := program.run ⟨items, Script.ofReplies replies⟩
    let served := program.run ⟨items, (⟨config, now, unreadable, deliveries, otherwise, []⟩ : Http.Link)⟩
    served.1 = scripted.1 ∧ served.2.items = scripted.2.items ∧
      List.Forall₂ (Http.Request.Carries config.baseUrl) served.2.transport.requests
        scripted.2.transport.requests := by
  intro scripted served
  obtain ⟨d, hd⟩ := program.isDialogue items
  have hscript : settled scripted = d.run (Script.ofReplies replies) := hd Script _
  have hlink : settled served = d.run ⟨config, now, unreadable, deliveries, otherwise, []⟩ := hd Http.Link _
  have hstart : (⟨config, now, unreadable, deliveries, otherwise, []⟩ : Http.Link).Follows config
      (Script.ofReplies replies) := ⟨rfl, h, .nil⟩
  have hleft : (d.run (Script.ofReplies replies)).2.sent.length ≤ 0 + replies.length := by
    have hrequests : scripted.2.transport.requests.length ≤ replies.length := henough
    rw [Script.requests, List.length_reverse] at hrequests
    rw [← hscript, Nat.zero_add]
    exact hrequests
  obtain ⟨hanswers, -, -, harrived⟩ := d.run_follows hstart hleft
  rw [← hscript, ← hlink] at hanswers harrived
  obtain ⟨hresults, hitems⟩ := Prod.mk.inj hanswers
  exact ⟨hresults, hitems, List.forall₂_reverse_iff.mpr harrived⟩

/-- A signed query finds the service busy, then cannot read the reply, and is made a third time. The
complaint is understood although a byte beside it belongs to no character. -/
theorem script_stands_in_for_busy_service :
    let config : Config := ⟨"http://inventory", some "secret", 30⟩
    let unreadable : Bytes → String := fun _ => "expected value at line 1 column 1"
    let busy : Bytes := Text.toBytes "\x7b\"host\":\"" ++ 0xE9 ::
      Text.toBytes "\",\"error\":\x7b\"message\":\"busy\"\x7d\x7d"
    let deliveries : List Http.Delivery :=
      [.reply 503 busy, .reply 200 (Text.toBytes "<html>"),
        .reply 200 (Text.toBytes "\x7b\"result\":[]\x7d")]
    let replies : List (Except Error Json) :=
      [.error (.remote 503 "busy"), .error (.decode "expected value at line 1 column 1"),
        .ok (.object [("result", .array [])])]
    let counted (otherwise : Program) : Program := .call (.onQuery "web" .count) fun answer =>
      if answer.isOk then .stop else otherwise
    let program : Program := .call (.newQuery "web" .empty) fun _ => counted (counted (counted .stop))
    let scripted := program.run ⟨.empty, Script.ofReplies replies⟩
    let served := program.run
      ⟨.empty, (⟨config, 0, unreadable, deliveries, .failed false "refused", []⟩ : Http.Link)⟩
    List.Forall₂ (Http.Corresponds unreadable) deliveries replies ∧
      scripted.2.transport.requests.length = 3 ∧
      served.1 = scripted.1 ∧ served.2.items = scripted.2.items ∧
      List.Forall₂ (Http.Request.Carries config.baseUrl) served.2.transport.requests
        scripted.2.transport.requests := by
  intro config unreadable busy deliveries replies counted program scripted served
  have hcomplaint : Http.complaint? (Text.toBytes "\x7b\"host\":\"" ++ 0xE9 ::
      Text.toBytes "\",\"error\":\x7b\"message\":\"busy\"\x7d\x7d") = some "busy" := by
    decide +kernel
  have hmarkup : ((Text.ofBytes? (Text.toBytes "<html>")).bind Json.parse?).isNone = true := by
    decide +kernel
  have hno : ∀ j, ¬Http.Holds (Text.toBytes "<html>") j := by
    intro j hj
    rw [Http.holds_iff.mp hj] at hmarkup
    cases hmarkup
  have hcompact : (Json.object [("result", .array [])]).compact = "\x7b\"result\":[]\x7d" := by
    decide +kernel
  have hreadable : (Json.object [("result", .array [])]).Readable := by
    simp only [Json.Readable, Json.MembersReadable, Json.ItemsReadable, and_self]
  have hempty : Http.Holds (Text.toBytes "\x7b\"result\":[]\x7d") (.object [("result", .array [])]) := by
    rw [Http.holds_iff, Text.ofBytes?_toBytes, Option.bind_some, ← hcompact]
    exact Json.parse?_compact hreadable (by decide)
  have hfirst : Http.Corresponds unreadable (.reply 503 busy) (.error (.remote 503 "busy")) :=
    .complaint (by decide) (Http.complains_iff.mpr hcomplaint)
  have hsecond : Http.Corresponds unreadable (.reply 200 (Text.toBytes "<html>"))
      (.error (.decode "expected value at line 1 column 1")) := .unreadable (by decide) hno
  have hthird : Http.Corresponds unreadable (.reply 200 (Text.toBytes "\x7b\"result\":[]\x7d"))
      (.ok (.object [("result", .array [])])) := .json (by decide) hempty
  have hall : List.Forall₂ (Http.Corresponds unreadable) deliveries replies :=
    .cons hfirst (.cons hsecond (.cons hthird .nil))
  have hthree : scripted.2.transport.requests.length = 3 := by decide +kernel
  exact ⟨hall, hthree, script_stands_in_for_service config 0 unreadable (.failed false "refused") hall
    program .empty hthree.le⟩

end Inventory
