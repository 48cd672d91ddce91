import Inventory.Proofs.CommitOutcome
import Inventory.Query

/-! Queries over whole runs. Reading the results sends one request as long as no load succeeded, and
none after the first that did: from then on the query shows what was fetched, with the edits made to
it since. What a builder call changes is the next request alone. -/

namespace Inventory.Query

/-- A use of a query. The results are read over a transport that may have served others before, and
what is handed out may be edited. -/
inductive Use (τ : Type) where
  | all (t : τ) (edit : RecordSet → RecordSet)
  | one (t : τ) (edit : Record → Record)
  | count (t : τ)
  | request
  | setAttributes (names : List String)
  | addAttributes (names : List String)
  | sortBy (name : String)
  | addFilter (field : String) (c : Condition)

inductive Reply where
  | done
  | request (r : QueryRequest)
  | records (answer : Except Error RecordSet)
  | record (answer : Except Error Record)
  | size (answer : Except Error Nat)

/-- What comes of a use: its reply, the query after it and the requests sent for it. -/
structure Outcome where
  reply : Reply
  query : Query
  sent : List (Endpoint × Json)

def editOnly (edit : Record → Record) (set : RecordSet) : RecordSet :=
  match set.records with
  | [r] => ⟨[edit r]⟩
  | _ => set

namespace Use

variable {τ : Type}

/-- The transport over which a use reads the results, if it reads them. -/
def over? : Use τ → Option τ
  | all t _ => some t
  | one t _ => some t
  | count t => some t
  | _ => none

def edits : Use τ → RecordSet → RecordSet
  | all _ edit => edit
  | one _ edit => editOnly edit
  | _ => id

/-- The reply of a use to which the results are `answer`. -/
def reply (q : Query) (answer : Except Error RecordSet) : Use τ → Reply
  | all _ _ => .records answer
  | one _ _ => .record (answer.bind only)
  | count _ => .size (answer.map RecordSet.size)
  | request => .request q.request
  | _ => .done

def build (q : Query) : Use τ → Query
  | setAttributes names => q.setAttributes names
  | addAttributes names => q.addAttributes names
  | sortBy name => q.sortBy name
  | addFilter field c => q.addFilter field c
  | _ => q

theorem loaded_build (q : Query) (u : Use τ) : (u.build q).loaded = q.loaded := by
  cases u <;> rfl

theorem build_of_reads {u : Use τ} {t : τ} (h : u.over? = some t) (q : Query) :
    u.build q = q := by
  cases u <;> first | rfl | cases h

theorem edits_of_builds {u : Use τ} (h : u.over? = none) (set : RecordSet) :
    u.edits set = set := by
  cases u <;> first | rfl | cases h

/-- A builder call does not look at the results. -/
theorem build_with_loaded (q : Query) (u : Use τ) (results : Option RecordSet) :
    u.build { q with loaded := results } = { u.build q with loaded := results } := by
  cases u <;> rfl

end Use

variable {τ : Type}

/-- The query as the builder calls among some uses leave it. -/
def built (q : Query) (uses : List (Use τ)) : Query := uses.foldl Use.build q

/-- A set of records after the edits made through what some uses handed out. -/
def edited (set : RecordSet) (uses : List (Use τ)) : RecordSet := uses.foldl (fun s u => u.edits s) set

/-- The requests that the readings among some uses make if none of them succeeds. -/
def asked (q : Query) : List (Use τ) → List QueryRequest
  | [] => []
  | u :: rest => (if u.over?.isSome then [q.request] else []) ++ (u.build q).asked rest

theorem loaded_built (q : Query) (uses : List (Use τ)) : (q.built uses).loaded = q.loaded := by
  induction uses generalizing q with
  | nil => rfl
  | cons u rest ih => exact (ih (u.build q)).trans (u.loaded_build q)

theorem built_with_loaded (q : Query) (uses : List (Use τ)) (results : Option RecordSet) :
    built { q with loaded := results } uses = { q.built uses with loaded := results } := by
  induction uses generalizing q with
  | nil => rfl
  | cons u rest ih =>
    have hrest := ih (u.build q)
    rw [← Use.build_with_loaded] at hrest
    exact hrest

theorem built_append (q : Query) (uses more : List (Use τ)) :
    q.built (uses ++ more) = (q.built uses).built more := List.foldl_append

theorem asked_append (q : Query) (uses more : List (Use τ)) :
    q.asked (uses ++ more) = q.asked uses ++ (q.built uses).asked more := by
  induction uses generalizing q with
  | nil => rfl
  | cons u rest ih =>
    rw [List.cons_append, asked, ih, asked, List.append_assoc]
    rfl

def posted (request : QueryRequest) : Endpoint × Json := (.query, request.toJson.sorted)

variable [Transport τ]

def perform (q : Query) : Use τ → Outcome
  | .all t edit =>
    let (answer, q, o) := q.all (⟨t, []⟩ : Observed τ)
    ⟨.records answer, if answer.isOk then q.edit edit else q, o.sent⟩
  | .one t edit =>
    let (answer, q, o) := q.one (⟨t, []⟩ : Observed τ)
    ⟨.record answer, if answer.isOk then q.edit (editOnly edit) else q, o.sent⟩
  | .count t =>
    let (answer, q, o) := q.count (⟨t, []⟩ : Observed τ)
    ⟨.size answer, q, o.sent⟩
  | .request => ⟨.request q.request, q, []⟩
  | .setAttributes names => ⟨.done, q.setAttributes names, []⟩
  | .addAttributes names => ⟨.done, q.addAttributes names, []⟩
  | .sortBy name => ⟨.done, q.sortBy name, []⟩
  | .addFilter field c => ⟨.done, q.addFilter field c, []⟩

/-- The query after some uses. -/
def after (q : Query) : List (Use τ) → Query
  | [] => q
  | u :: rest => (q.perform u).query.after rest

/-- The requests sent for some uses, in their order. -/
def sentFor (q : Query) : List (Use τ) → List (Endpoint × Json)
  | [] => []
  | u :: rest => (q.perform u).sent ++ (q.perform u).query.sentFor rest

/-- What the service has to say to a request: the records of its reply, or why there are none. -/
def answered (request : QueryRequest) (t : τ) : Except Error RecordSet :=
  match (Transport.send t .query request.toJson.sorted).1 with
  | .ok reply => QueryReply.records reply
  | .error e => .error e

theorem fetch_eq (request : QueryRequest) (t : τ) :
    fetch request t =
      (answered request t, (Transport.send t .query request.toJson.sorted).2) := by
  rw [fetch, answered]
  rcases Transport.send t .query request.toJson.sorted with ⟨_ | _, _⟩ <;> rfl

theorem all_of_loaded {q : Query} {set : RecordSet} (h : q.loaded = some set) (t : τ) :
    q.all t = (.ok set, q, t) := by
  rw [all, h]

theorem all_of_unloaded {q : Query} (h : q.loaded = none) (t : τ) :
    q.all t = (answered q.request t,
      (match answered q.request t with
        | .ok set => { q with loaded := some set }
        | .error _ => q),
      (Transport.send t .query q.request.toJson.sorted).2) := by
  rw [all, h]
  simp only [fetch_eq]
  cases answered q.request t <;> rfl

theorem one_eq (q : Query) (t : τ) :
    q.one t = ((q.all t).1.bind only, (q.all t).2.1, (q.all t).2.2) := by
  rw [one]
  rcases q.all t with ⟨_ | _, _, _⟩ <;> rfl

theorem count_eq (q : Query) (t : τ) :
    q.count t = ((q.all t).1.map RecordSet.size, (q.all t).2.1, (q.all t).2.2) := by
  rw [count]
  rcases q.all t with ⟨_ | _, _, _⟩ <;> rfl

theorem editOnly_of_not_single {set : RecordSet} (h : (only set).isOk = false)
    (edit : Record → Record) : editOnly edit set = set := by
  obtain ⟨records⟩ := set
  match records with
  | [] => rfl
  | [_] => cases h
  | _ :: _ :: _ => rfl

theorem perform_of_results {q q' : Query} {u : Use τ} {t : τ} {set : RecordSet} {o : Observed τ}
    (hu : u.over? = some t) (hall : q.all (⟨t, []⟩ : Observed τ) = (.ok set, q', o))
    (hq : q'.loaded = some set) :
    q.perform u = ⟨u.reply q (.ok set), { q' with loaded := some (u.edits set) }, o.sent⟩ := by
  cases u with
  | all t' edit =>
    obtain rfl : t' = t := Option.some.inj hu
    simp only [perform, hall, Query.edit, hq, Except.isOk, Except.toBool, if_true, Option.map_some]
    rfl
  | one t' edit =>
    obtain rfl : t' = t := Option.some.inj hu
    have hsame : { q' with loaded := some set } = q' := by rw [← hq]
    cases hone : (only set).isOk with
    | true =>
      simp only [perform, one_eq, hall, Except.bind, hone, if_true, Query.edit, hq, Option.map_some]
      rfl
    | false =>
      simp only [perform, one_eq, hall, Except.bind, hone, Bool.false_eq_true, if_false, Use.edits,
        editOnly_of_not_single hone, hsame]
      rfl
  | count t' =>
    obtain rfl : t' = t := Option.some.inj hu
    have hsame : { q' with loaded := some set } = q' := by rw [← hq]
    simp only [perform, count_eq, hall, Use.edits, id_eq, hsame]
    rfl
  | _ => cases hu

theorem perform_of_failure {q q' : Query} {u : Use τ} {t : τ} {e : Error} {o : Observed τ}
    (hu : u.over? = some t) (hall : q.all (⟨t, []⟩ : Observed τ) = (.error e, q', o)) :
    q.perform u = ⟨u.reply q (.error e), q', o.sent⟩ := by
  cases u with
  | all t' edit =>
    obtain rfl : t' = t := Option.some.inj hu
    simp only [perform, hall]
    rfl
  | one t' edit =>
    obtain rfl : t' = t := Option.some.inj hu
    simp only [perform, one_eq, hall]
    rfl
  | count t' =>
    obtain rfl : t' = t := Option.some.inj hu
    simp only [perform, count_eq, hall]
    rfl
  | _ => cases hu

/-- All that one use of a query can do. -/
structure Performs (q : Query) (u : Use τ) : Prop where
  builds : u.over? = none → ∀ answer, q.perform u = ⟨u.reply q answer, u.build q, []⟩
  reuses : ∀ t set, u.over? = some t → q.loaded = some set →
    q.perform u = ⟨u.reply q (.ok set), { q with loaded := some (u.edits set) }, []⟩
  fetches : ∀ t set, u.over? = some t → q.loaded = none → answered q.request t = .ok set →
    q.perform u =
      ⟨u.reply q (.ok set), { q with loaded := some (u.edits set) }, [posted q.request]⟩
  fails : ∀ t e, u.over? = some t → q.loaded = none → answered q.request t = .error e →
    q.perform u = ⟨u.reply q (.error e), q, [posted q.request]⟩

theorem performs (q : Query) (u : Use τ) : q.Performs u where
  builds h answer := by
    cases u with
    | all _ _ => cases h
    | one _ _ => cases h
    | count _ => cases h
    | _ => rfl
  reuses t set hu hq := perform_of_results hu (all_of_loaded hq _) hq
  fetches t set hu hq ha := by
    have hall := all_of_unloaded hq (⟨t, []⟩ : Observed τ)
    rw [show answered q.request (⟨t, []⟩ : Observed τ) = .ok set from ha] at hall
    exact perform_of_results hu hall rfl
  fails t e hu hq ha := by
    have hall := all_of_unloaded hq (⟨t, []⟩ : Observed τ)
    rw [show answered q.request (⟨t, []⟩ : Observed τ) = .error e from ha] at hall
    exact perform_of_failure hu hall

/-- No reading among some uses brings back results. -/
def Refused (q : Query) : List (Use τ) → Prop
  | [] => True
  | u :: rest => (∀ t, u.over? = some t → ∃ e, answered q.request t = .error e) ∧
    (u.build q).Refused rest

theorem perform_of_loaded {q : Query} {set : RecordSet} (h : q.loaded = some set) (u : Use τ) :
    (q.perform u).query = { u.build q with loaded := some (u.edits set) } ∧
      (q.perform u).sent = [] := by
  cases hu : u.over? with
  | none =>
    have hsame : (u.build q).loaded = some (u.edits set) := by
      rw [u.loaded_build, h, u.edits_of_builds hu]
    rw [(q.performs u).builds hu (.ok set), ← hsame]
    exact ⟨rfl, rfl⟩
  | some t =>
    rw [(q.performs u).reuses t set hu h, u.build_of_reads hu]
    exact ⟨rfl, rfl⟩

theorem after_of_loaded {q : Query} {set : RecordSet} (h : q.loaded = some set)
    (uses : List (Use τ)) :
    q.after uses = { q.built uses with loaded := some (edited set uses) } ∧ q.sentFor uses = [] := by
  induction uses generalizing q set with
  | nil =>
    refine ⟨?_, rfl⟩
    rw [after, built, edited, List.foldl_nil, List.foldl_nil, ← h]
  | cons u rest ih =>
    obtain ⟨hquery, hsent⟩ := perform_of_loaded h u
    have hloaded : (q.perform u).query.loaded = some (u.edits set) := by rw [hquery]
    obtain ⟨hrest, hnone⟩ := ih hloaded
    rw [after, sentFor, hrest, hsent, hnone, hquery, built_with_loaded]
    exact ⟨rfl, rfl⟩

theorem perform_of_refused {q : Query} {u : Use τ} (h : q.loaded = none)
    (hu : ∀ t, u.over? = some t → ∃ e, answered q.request t = .error e) :
    (q.perform u).query = u.build q ∧
      (q.perform u).sent = (if u.over?.isSome then [q.request] else []).map posted := by
  cases ho : u.over? with
  | none =>
    rw [(q.performs u).builds ho (.ok ∅)]
    exact ⟨rfl, rfl⟩
  | some t =>
    obtain ⟨e, he⟩ := hu t ho
    rw [(q.performs u).fails t e ho h he, u.build_of_reads ho]
    exact ⟨rfl, rfl⟩

theorem after_of_refused {q : Query} {uses : List (Use τ)} (h : q.loaded = none)
    (hr : q.Refused uses) :
    q.after uses = q.built uses ∧ q.sentFor uses = (q.asked uses).map posted := by
  induction uses generalizing q with
  | nil => exact ⟨rfl, rfl⟩
  | cons u rest ih =>
    obtain ⟨hquery, hsent⟩ := perform_of_refused h hr.1
    obtain ⟨hafter, hposted⟩ := ih ((u.loaded_build q).trans h) hr.2
    rw [after, sentFor, asked, List.map_append, hquery, hsent, hafter, hposted]
    exact ⟨rfl, rfl⟩

theorem refused_or_answered (q : Query) (uses : List (Use τ)) :
    q.Refused uses ∨ ∃ before u later t set, uses = before ++ u :: later ∧ q.Refused before ∧
      u.over? = some t ∧ answered (q.built before).request t = .ok set := by
  induction uses generalizing q with
  | nil => exact .inl trivial
  | cons u rest ih =>
    by_cases hu : ∀ t, u.over? = some t → ∃ e, answered q.request t = .error e
    · rcases ih (u.build q) with hr | ⟨before, v, later, t, set, rfl, hbefore, hv, ha⟩
      · exact .inl ⟨hu, hr⟩
      · exact .inr ⟨u :: before, v, later, t, set, rfl, ⟨hu, hbefore⟩, hv, ha⟩
    · simp only [not_forall, not_exists] at hu
      obtain ⟨t, ht, hno⟩ := hu
      cases ha : answered q.request t with
      | error e => exact absurd ha (hno e)
      | ok set => exact .inr ⟨[], u, rest, t, set, rfl, trivial, ht, ha⟩

theorem after_append (q : Query) (uses more : List (Use τ)) :
    q.after (uses ++ more) = (q.after uses).after more := by
  induction uses generalizing q with
  | nil => rfl
  | cons u rest ih => exact ih (q.perform u).query

theorem sentFor_append (q : Query) (uses more : List (Use τ)) :
    q.sentFor (uses ++ more) = q.sentFor uses ++ (q.after uses).sentFor more := by
  induction uses generalizing q with
  | nil => rfl
  | cons u rest ih =>
    rw [List.cons_append, sentFor, ih, sentFor, List.append_assoc]
    rfl

theorem after_of_answered {q : Query} {before later : List (Use τ)} {u : Use τ} {t : τ}
    {set : RecordSet} (h : q.loaded = none) (hr : q.Refused before) (hu : u.over? = some t)
    (ha : answered (q.built before).request t = .ok set) :
    q.after (before ++ u :: later) =
        { q.built (before ++ u :: later) with loaded := some (edited (u.edits set) later) } ∧
      q.sentFor (before ++ u :: later) = (q.asked (before ++ [u])).map posted := by
  obtain ⟨hafter, hsent⟩ := after_of_refused h hr
  have hnone : (q.built before).loaded = none := (q.loaded_built before).trans h
  have hperform := ((q.built before).performs u).fetches t set hu hnone ha
  have hloaded : ((q.built before).perform u).query.loaded = some (u.edits set) := by rw [hperform]
  obtain ⟨hlater, hidle⟩ := after_of_loaded hloaded later
  have hasked : (q.built before).asked [u] = [(q.built before).request] := by
    rw [asked, hu]
    rfl
  constructor
  · rw [after_append, hafter, after, hlater, hperform, built_with_loaded, built_append]
    have hbuild : (q.built before).built (u :: later) = (q.built before).built later := by
      rw [built, List.foldl_cons, u.build_of_reads hu]
      rfl
    rw [hbuild]
  · rw [sentFor_append, hsent, hafter, sentFor, hidle, hperform, asked_append, hasked,
      List.map_append]
    rfl

theorem request_eq (q : Query) : q.request = ⟨q.filters,
    q.attributes ++ (if objectIdName ∈ q.attributes then [] else [objectIdName]), q.orderBy⟩ := by
  rw [request]
  by_cases h : objectIdName ∈ q.attributes <;> simp [h]

theorem only_eq_noResults {set : RecordSet} :
    only set = .error .noResults ↔ set.records = [] := by
  obtain ⟨records⟩ := set
  match records with
  | [] => simp [only]
  | [_] => simp [only]
  | _ :: _ :: _ => simp [only]

theorem only_eq_multipleResults {set : RecordSet} {n : Nat} :
    only set = .error (.multipleResults n) ↔ set.records.length = n ∧ 2 ≤ n := by
  obtain ⟨records⟩ := set
  match records with
  | [] =>
    simp only [only, List.length_nil, Except.error.injEq, reduceCtorEq, false_iff]
    omega
  | [_] =>
    simp only [only, List.length_singleton, reduceCtorEq, false_iff]
    omega
  | _ :: _ :: _ =>
    simp only [only, List.length_cons, Except.error.injEq, Error.multipleResults.injEq]
    omega

theorem only_eq_ok {set : RecordSet} {r : Record} : only set = .ok r ↔ set.records = [r] := by
  obtain ⟨records⟩ := set
  match records with
  | [] => simp [only]
  | [_] => simp [only]
  | _ :: _ :: _ => simp [only]

/-- Observing a transport changes neither what is answered nor what becomes of the query. -/
theorem all_observed (q : Query) (t : τ) (sent : List (Endpoint × Json)) :
    q.all t = ((q.all (⟨t, sent⟩ : Observed τ)).1, (q.all (⟨t, sent⟩ : Observed τ)).2.1,
      (q.all (⟨t, sent⟩ : Observed τ)).2.2.inner) := by
  cases h : q.loaded with
  | some set => rw [all_of_loaded h, all_of_loaded h]
  | none =>
    rw [all_of_unloaded h, all_of_unloaded h]
    rfl

end Inventory.Query
