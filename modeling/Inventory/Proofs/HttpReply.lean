import Inventory.Http
import Inventory.Proofs.ByteText
import Inventory.Proofs.JsonText.Scanning

/-! What a reply over HTTP says, read off the grammar of JSON: the tree that its body spells, the message
of an error that it carries, or nothing that could be read. -/

namespace Inventory.Http

/-- The bytes are those of a text that spells the JSON as it is written. -/
def Spells (body : Bytes) (w : Json.Written) : Prop :=
  ∃ text, Text.toBytes text = body ∧ Json.Padded w.Spelled text.toList

/-- The bytes are the text of the JSON tree, and its brackets nest no deeper than allowed. -/
def Holds (body : Bytes) (j : Json) : Prop :=
  ∃ w : Json.Written, Spells body w ∧ w.toJson? Json.maxNesting = some j

/-- The one member of this name in an object, or the one item of an array, which stands for it. -/
inductive FieldOf (name : String) : Json.Written → Json.Written → Prop where
  | member {before after : List (Option String × Json.Written)} {w : Json.Written} :
      (∀ m ∈ before ++ after, m.1 ≠ none ∧ m.1 ≠ some name) →
      FieldOf name (.object (before ++ (some name, w) :: after)) w
  | item {w : Json.Written} : FieldOf name (.array [w]) w

/-- The body is JSON, and this is the text of `error.message` in it. Bytes that belong to no character
may stand in the texts that are passed over: with a character and half of a surrogate pair in place of
each, a text is still a text, but one without content. -/
def Complains (body : Bytes) (message : String) : Prop :=
  ∃ text w detail, Text.Filled ['\uFFFD', '\\', 'u', 'd', 'c', '0', '0'] body text ∧
    Json.Padded w.Spelled text ∧ FieldOf "error" w detail ∧
    FieldOf "message" detail (.text (some message))

open Json in
/-- What stands for a stray byte can stand in a text literal and leaves it without content, whatever else
stands in it. -/
theorem strayByte_spoils_content : ∃ stray, PiecesText stray strayByte ∧
    ∀ before after, joinPieces? (before ++ (stray ++ after)) = none := by
  refine ⟨[.char '\uFFFD', .surrogate 0xDC00], ?_, fun before after => ?_⟩
  · have hescape : PieceText (.surrogate 0xDC00) ['\\', 'u', 'd', 'c', '0', '0'] :=
      @PieceText.numbered 'd' 'c' '0' '0' 13 12 0 0 rfl rfl rfl rfl
    exact ⟨_, _, .plain (by decide) (by decide) (by decide), ⟨_, _, hescape, rfl, rfl⟩, rfl⟩
  · have hlone : joinPieces? (.surrogate 0xDC00 :: after) = none := by
      rcases after with _ | ⟨_ | low, rest⟩
      · rfl
      · rfl
      · exact if_neg fun h => Nat.lt_irrefl _ h.1
    induction before using joinPieces?.induct with
    | case1 =>
      rw [List.nil_append, List.cons_append, List.singleton_append, joinPieces?, hlone,
        Option.map_none]
    | case2 c rest ih => rw [List.cons_append, joinPieces?, ih, Option.map_none]
    | case3 high low rest hpair ih =>
      rw [List.cons_append, List.cons_append, joinPieces?, if_pos hpair, ih, Option.map_none]
    | case4 high low rest hpair =>
      rw [List.cons_append, List.cons_append, joinPieces?, if_neg hpair]
    | case5 unit rest hno =>
      rcases rest with _ | ⟨_ | low, rest⟩
      · rfl
      · rfl
      · exact absurd rfl (hno low rest)

/-- What the service says to each of its exchanges, in the words of a script, when the reader of JSON
speaks of an unreadable body in these words. -/
inductive Corresponds (unreadable : Bytes → String) : Delivery → Except Error Json → Prop where
  | json {status : Nat} {body : Bytes} {j : Json} : 200 ≤ status ∧ status < 300 → Holds body j →
      Corresponds unreadable (.reply status body) (.ok j.sorted)
  | unreadable {status : Nat} {body : Bytes} : 200 ≤ status ∧ status < 300 → (∀ j, ¬Holds body j) →
      Corresponds unreadable (.reply status body) (.error (.decode (unreadable body)))
  | complaint {status : Nat} {body : Bytes} {message : String} : ¬(200 ≤ status ∧ status < 300) →
      Complains body message →
      Corresponds unreadable (.reply status body) (.error (.remote status message))
  | silence {status : Nat} {body : Bytes} : ¬(200 ≤ status ∧ status < 300) →
      (∀ message, ¬Complains body message) →
      Corresponds unreadable (.reply status body) (.error (.remote status ""))

theorem spells_iff {body : Bytes} {w : Json.Written} :
    Spells body w ↔ (Text.ofBytes? body).bind Json.written? = some w := by
  simp only [Spells, Option.bind_eq_some_iff, Json.written?_eq_some, Text.ofBytes?_eq_some_iff]

theorem holds_iff {body : Bytes} {j : Json} :
    Holds body j ↔ (Text.ofBytes? body).bind Json.parse? = some j := by
  simp only [Holds, spells_iff, Option.bind_eq_some_iff, Json.parse?]
  constructor
  · rintro ⟨w, ⟨text, htext, hw⟩, hj⟩
    refine ⟨text, htext, ?_⟩
    rw [hw]
    exact hj
  · rintro ⟨text, htext, hj⟩
    split at hj
    · rename_i w hw
      exact ⟨w, ⟨text, htext, hw⟩, hj⟩
    · cases hj

theorem bodyField?_object {name : String} {members : List (Option String × Json.Written)}
    {v : Json.Written} : bodyField? name (.object members) = some (some v) ↔
      (∀ m ∈ members, m.1 ≠ none) ∧ members.filter (·.1 == some name) = [(some name, v)] := by
  have hkeys : members.any (·.1.isNone) = false ↔ ∀ m ∈ members, m.1 ≠ none := by
    simp [List.any_eq_false]
  rw [bodyField?, ← hkeys]
  cases members.any (·.1.isNone) with
  | true => simp
  | false =>
    have hname : ∀ m ∈ members.filter (·.1 == some name), m.1 = some name := by
      intro m hm
      exact eq_of_beq (List.mem_filter.mp hm).2
    simp only [Bool.false_eq_true, if_false, true_and]
    split
    · rename_i hnone
      simp [hnone]
    · rename_i key w hone
      have hkey : key = some name := hname (key, w) (by simp [hone])
      simp [hone, hkey]
    · rename_i hnone hsome
      refine iff_of_false nofun fun hone => hsome _ _ hone

theorem fieldOf_iff {name : String} {w v : Json.Written} :
    FieldOf name w v ↔ bodyField? name w = some (some v) := by
  constructor
  · rintro (hothers | _)
    · rename_i before after
      rw [bodyField?_object]
      obtain ⟨hbefore, hafter⟩ := List.forall_mem_append.mp hothers
      have hnone : ∀ l : List (Option String × Json.Written),
          (∀ m ∈ l, m.1 ≠ none ∧ m.1 ≠ some name) → l.filter (·.1 == some name) = [] := by
        intro l hl
        rw [List.filter_eq_nil_iff]
        intro m hm
        simpa using (hl m hm).2
      constructor
      · intro m hm
        rcases List.mem_append.mp hm with hm | hm
        · exact (hbefore m hm).1
        · rcases List.mem_cons.mp hm with rfl | hm
          · exact Option.some_ne_none name
          · exact (hafter m hm).1
      · rw [List.filter_append, List.filter_cons, hnone before hbefore, hnone after hafter]
        simp
    · rfl
  · intro h
    cases w with
    | object members =>
      obtain ⟨hkeys, hone⟩ := bodyField?_object.mp h
      obtain ⟨before, after, rfl, hbefore, -, hafter⟩ := List.filter_eq_cons_iff.mp hone
      rw [List.filter_eq_nil_iff] at hafter
      refine .member fun m hm => ⟨hkeys m ?_, ?_⟩
      · simp only [List.mem_append, List.mem_cons] at hm ⊢
        exact hm.imp_right .inr
      · intro hname
        have hno : ∀ m ∈ before ++ after, ¬(m.1 == some name) = true :=
          List.forall_mem_append.mpr ⟨hbefore, hafter⟩
        exact hno m hm (by simp [hname])
    | array items =>
      match items with
      | [] => cases h
      | [w'] =>
        obtain rfl := Option.some.inj (Option.some.inj h)
        exact .item
      | _ :: _ :: _ => cases h
    | _ => cases h

theorem complains_iff {body : Bytes} {message : String} :
    Complains body message ↔ complaint? body = some message := by
  rw [complaint?, Option.bind_eq_some_iff]
  simp only [Complains, fieldOf_iff, Json.written?_eq_some, String.toList_ofList, Text.filled_iff]
  constructor
  · rintro ⟨text, w, detail, rfl, hw, herror, hmessage⟩
    refine ⟨w, hw, ?_⟩
    rw [errorMessage?, herror]
    simp only [hmessage]
  · rintro ⟨w, hw, hmessage⟩
    rw [errorMessage?] at hmessage
    split at hmessage
    · rename_i detail herror
      split at hmessage
      · rename_i content hcontent
        exact ⟨_, w, detail, rfl, hw, herror, hmessage ▸ hcontent⟩
      · cases hmessage
    · cases hmessage

/-- Every reply is read as the one thing that it says. -/
theorem corresponds_iff {unreadable : Bytes → String} {status : Nat} {body : Bytes}
    {answer : Except Error Json} :
    Corresponds unreadable (.reply status body) answer ↔ interpret unreadable status body = answer := by
  have hsorted : (Text.ofBytes? body).bind Json.parseSorted? =
      ((Text.ofBytes? body).bind Json.parse?).map Json.sorted := by
    cases Text.ofBytes? body <;> rfl
  by_cases hstatus : 200 ≤ status ∧ status < 300
  · rw [interpret, if_pos hstatus, hsorted]
    constructor
    · rintro (⟨-, hholds⟩ | ⟨-, hno⟩ | ⟨hfailed, -⟩ | ⟨hfailed, -⟩)
      · rw [holds_iff.mp hholds]
        rfl
      · have hnone : (Text.ofBytes? body).bind Json.parse? = none := by
          rw [Option.eq_none_iff_forall_ne_some]
          exact fun j hj => hno j (holds_iff.mpr hj)
        rw [hnone]
        rfl
      · exact absurd hstatus hfailed
      · exact absurd hstatus hfailed
    · rintro rfl
      cases hparse : (Text.ofBytes? body).bind Json.parse? with
      | some j => exact .json hstatus (holds_iff.mpr hparse)
      | none =>
        refine .unreadable hstatus fun j hj => ?_
        rw [holds_iff.mp hj] at hparse
        cases hparse
  · rw [interpret, if_neg hstatus, errorMessage]
    constructor
    · rintro (⟨hfine, -⟩ | ⟨hfine, -⟩ | ⟨-, hcomplains⟩ | ⟨-, hno⟩)
      · exact absurd hfine hstatus
      · exact absurd hfine hstatus
      · rw [complains_iff.mp hcomplains]
        rfl
      · have hnone : complaint? body = none := by
          rw [Option.eq_none_iff_forall_ne_some]
          exact fun message hmessage => hno message (complains_iff.mpr hmessage)
        rw [hnone]
        rfl
    · rintro rfl
      cases hmessage : complaint? body with
      | some message => exact .complaint hstatus (complains_iff.mpr hmessage)
      | none =>
        refine .silence hstatus fun message hcomplains => ?_
        rw [complains_iff.mp hcomplains] at hmessage
        cases hmessage

end Inventory.Http
