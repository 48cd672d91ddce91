import Mathlib.Data.List.DropRight
import Inventory.Proofs.ConfigCache
import Inventory.Proofs.ScriptedService

/-! The base URL of the configurations that are read. It is the text of its variable without the slashes
at the end. A text of slashes alone passes for an address, of which nothing remains. -/

namespace Inventory

namespace Config

def slashes (n : Nat) : String := String.ofList (List.replicate n '/')

/-- The base URL is what remains of the text without the slashes at its end, and nothing if it has no
other characters. -/
structure RemainsOf (text : String) (c : Config) : Prop where
  trimmed : ∃ n, text = c.baseUrl ++ slashes n
  unslashed : c.baseUrl.toList.getLast? ≠ some '/'
  empty_iff : c.baseUrl = "" ↔ ∃ n, text = slashes n

theorem trimSlashes_eq (text : String) :
    (trimSlashes text).toList = text.toList.rdropWhile (· == '/') := String.toList_ofList

theorem exists_slashes (text : String) : ∃ n, text = trimSlashes text ++ slashes n := by
  have hall : ∀ c ∈ text.toList.rtakeWhile (· == '/'), c = '/' := by
    intro c hc
    have hslash := List.mem_rtakeWhile_imp hc
    exact eq_of_beq hslash
  have htail := List.eq_replicate_of_mem hall
  refine ⟨(text.toList.rtakeWhile (· == '/')).length, ?_⟩
  rw [← String.toList_inj, String.toList_append, trimSlashes_eq, slashes, String.toList_ofList, ← htail,
    List.rdropWhile_append_rtakeWhile]

theorem getLast?_trimSlashes (text : String) : (trimSlashes text).toList.getLast? ≠ some '/' := by
  rw [trimSlashes_eq]
  intro hlast
  obtain ⟨hne, hc⟩ := List.mem_getLast?_eq_getLast hlast
  have hno := List.rdropWhile_last_not (· == '/') text.toList hne
  rw [← hc] at hno
  exact hno rfl

theorem trimSlashes_eq_empty_iff {text : String} :
    trimSlashes text = "" ↔ ∃ n, text = slashes n := by
  rw [← String.toList_eq_nil_iff, trimSlashes_eq, List.rdropWhile_eq_nil_iff]
  constructor
  · intro hall
    have hsame := List.eq_replicate_of_mem fun c hc => eq_of_beq (hall c hc)
    exact ⟨_, String.toList_inj.mp (hsame.trans String.toList_ofList.symm)⟩
  · rintro ⟨n, rfl⟩ c hc
    rw [slashes, String.toList_ofList] at hc
    rw [List.eq_of_mem_replicate hc]
    rfl

theorem remainsOf_of_baseUrl {c : Config} {text : String} (h : c.baseUrl = trimSlashes text) :
    c.RemainsOf text :=
  ⟨h ▸ exists_slashes text, h ▸ getLast?_trimSlashes text, h ▸ trimSlashes_eq_empty_iff⟩

theorem nonEmpty?_eq_some {env : Environment} {v : Variable} {text : String} :
    env.nonEmpty? v = some text ↔ env.text? v = some text ∧ text ≠ "" := by
  rw [Environment.nonEmpty?, Option.filter_eq_some_iff, decide_eq_true_iff]

theorem nonEmpty?_eq_none {env : Environment} {v : Variable} :
    env.nonEmpty? v = none ↔ env.text? v = none ∨ env.text? v = some "" := by
  rw [Environment.nonEmpty?]
  cases env.text? v <;> simp

theorem ofEnvironment_of_text {env : Environment} {text : String} (h : env.text? .baseUrl = some text)
    (hne : text ≠ "") : ofEnvironment env =
      (timeoutOf env).map fun seconds => ⟨trimSlashes text, env.nonEmpty? .token, seconds⟩ := by
  rw [ofEnvironment, nonEmpty?_eq_some.mpr ⟨h, hne⟩]
  simp only
  cases timeoutOf env <;> rfl

theorem ofEnvironment_of_missing {env : Environment}
    (h : env.text? .baseUrl = none ∨ env.text? .baseUrl = some "") :
    ofEnvironment env = .error .missingBaseUrl := by
  rw [ofEnvironment, nonEmpty?_eq_none.mpr h]

theorem remainsOf_of_ofEnvironment {env : Environment} {c : Config} (h : ofEnvironment env = .ok c) :
    ∃ text, env.text? .baseUrl = some text ∧ text ≠ "" ∧ c.RemainsOf text := by
  by_cases hmissing : env.text? .baseUrl = none ∨ env.text? .baseUrl = some ""
  · rw [ofEnvironment_of_missing hmissing] at h
    cases h
  · rw [not_or] at hmissing
    obtain ⟨text, htext⟩ := Option.ne_none_iff_exists'.mp hmissing.1
    have hne : text ≠ "" := by
      rintro rfl
      exact hmissing.2 htext
    rw [ofEnvironment_of_text htext hne] at h
    cases htimeout : timeoutOf env with
    | error e =>
      rw [htimeout] at h
      cases h
    | ok seconds =>
      rw [htimeout] at h
      cases h
      exact ⟨text, htext, hne, remainsOf_of_baseUrl rfl⟩

end Config

/-- The configuration that a step answers with. -/
def ConfigAnswer.config? {κ : Type} : ConfigAnswer κ → Option Config
  | done => none
  | config answer => answer.toOption
  | transport answer => answer.toOption.map Prod.fst

namespace ConfigStep

variable {κ : Type} {build : Config → Except String κ} {s : ConfigStore} {c : Config}
  {step : ConfigStep} {env : Environment} {steps : List ConfigStep}

theorem config_snd_cache (h : s.config.2.cache = some c) :
    s.cache = some c ∨ Config.ofEnvironment s.environment = .ok c := by
  cases hcache : s.cache with
  | some c' =>
    rw [config_of_cached hcache] at h
    exact .inl (hcache.symm.trans h)
  | none =>
    rw [config_of_empty hcache] at h
    cases hread : Config.ofEnvironment s.environment with
    | error e =>
      rw [hread] at h
      cases h
    | ok c' =>
      rw [hread] at h
      exact .inr (congrArg Except.ok (Option.some.inj h))

/-- What a step leaves in the cache was there before, or has been read from the environment. -/
theorem cache_run (h : (run build s step).2.cache = some c) :
    s.cache = some c ∨ Config.ofEnvironment s.environment = .ok c := by
  cases step with
  | assign v bytes => exact .inl h
  | reset => cases h
  | fromEnvironment => exact .inl h
  | config => exact config_snd_cache h
  | transport =>
    rw [run, openTransport_snd] at h
    exact config_snd_cache h

theorem exists_read_of_cached (h : (reached build env steps).cache = some c) :
    ∃ before, before <+: steps ∧ Config.ofEnvironment (env.after before) = .ok c := by
  induction steps using List.reverseRecOn with
  | nil => cases h
  | append_singleton steps step ih =>
    rw [reached_append_singleton] at h
    rcases cache_run h with hcached | hread
    · obtain ⟨before, hbefore, hc⟩ := ih hcached
      exact ⟨before, hbefore.trans (List.prefix_append _ _), hc⟩
    · rw [environment_reached] at hread
      exact ⟨steps, List.prefix_append _ _, hread⟩

theorem toOption_eq_some {ε α : Type} {r : Except ε α} {a : α} (h : r.toOption = some a) :
    r = .ok a := by
  cases r with
  | error e => cases h
  | ok b => exact congrArg Except.ok (Option.some.inj h)

theorem openTransport_ok {client : κ} (h : (s.openTransport build).1 = .ok (c, client)) :
    s.config.1 = .ok c := by
  rw [ConfigStore.openTransport, ConfigStore.transportConfig] at h
  rcases hconfig : s.config with ⟨e | c', s'⟩
  · rw [hconfig] at h
    cases h
  · rw [hconfig] at h
    cases hbuild : build c' with
    | error message =>
      simp only [hbuild] at h
      cases h
    | ok client' =>
      simp only [hbuild] at h
      cases h
      rfl

theorem config?_run (h : (run build s step).1.config? = some c) :
    step = .fromEnvironment ∧ Config.ofEnvironment s.environment = .ok c ∨
      step.IsRead ∧ s.config.1 = .ok c := by
  cases step with
  | assign v bytes => cases h
  | reset => cases h
  | fromEnvironment => exact .inl ⟨rfl, toOption_eq_some h⟩
  | config => exact .inr ⟨.inl rfl, toOption_eq_some h⟩
  | transport =>
    obtain ⟨⟨c', client⟩, hanswer, rfl⟩ := Option.map_eq_some_iff.mp h
    exact .inr ⟨.inr rfl, openTransport_ok (toOption_eq_some hanswer)⟩

/-- Every configuration that a step answers with has been read from the environment as it was at some
moment, which is the present one if the cache is not asked or is empty. -/
theorem exists_source (h : (answerAfter build env steps step).config? = some c) :
    ∃ before, before <+: steps ∧ Config.ofEnvironment (env.after before) = .ok c ∧
      (step = .fromEnvironment ∨ (reached build env steps).cache = none → before = steps) := by
  have henvironment := environment_reached build env steps
  rcases config?_run h with ⟨-, hread⟩ | ⟨hstep, hconfig⟩
  · rw [henvironment] at hread
    exact ⟨steps, List.prefix_rfl, hread, fun _ => rfl⟩
  · cases hcache : (reached build env steps).cache with
    | none =>
      rw [config_of_empty hcache, henvironment] at hconfig
      exact ⟨steps, List.prefix_rfl, hconfig, fun _ => rfl⟩
    | some c' =>
      rw [config_of_cached hcache] at hconfig
      obtain rfl := Except.ok.inj hconfig
      obtain ⟨before, hbefore, hread⟩ := exists_read_of_cached hcache
      refine ⟨before, hbefore, hread, ?_⟩
      rintro (rfl | hnone)
      · rcases hstep with h | h <;> cases h
      · cases hnone

/-- Without a configuration to fall back on, an environment that cannot be read makes every read fail. -/
theorem tells_of_error {e : ConfigError} (h : Config.ofEnvironment s.environment = .error e)
    (hread : step = .fromEnvironment ∨ step.IsRead ∧ s.cache = none) :
    (run build s step).1.Tells build (.error e) := by
  rcases hread with rfl | ⟨rfl | rfl, hcache⟩
  · exact h
  · have hconfig := congrArg Prod.fst (config_of_empty hcache)
    exact hconfig.trans h
  · have hconfig := config_of_empty hcache
    rw [h] at hconfig
    rw [run, ConfigStore.openTransport, ConfigStore.transportConfig, hconfig]
    rfl

end ConfigStep

theorem urlOf_of_empty {c : Config} (h : c.baseUrl = "") (endpoint : Endpoint) :
    Http.urlOf c endpoint = Http.locator endpoint := by
  rw [Http.urlOf_eq, h, String.empty_append]

open ConfigStep in
/-- Every configuration that is read, at whatever step, has for its base URL what remained of the address
in the environment when it was read. Without an address every read fails for that, unless it has a cached
configuration. An address of slashes alone is read like any other as long as there is no other fault, and
then requests go to a path without a host. -/
theorem base_url_remains_of_address {κ : Type} (build : Config → Except String κ) (env : Environment)
    (done : List ConfigStep) :
    (∀ step c, (answerAfter build env done step).config? = some c →
      ∃ before text, before <+: done ∧
        (step = .fromEnvironment ∨ (reached build env done).cache = none → before = done) ∧
        (env.after before).text? .baseUrl = some text ∧ text ≠ "" ∧ c.RemainsOf text) ∧
    (∀ step, step = .fromEnvironment ∨ step.IsRead ∧ (reached build env done).cache = none →
      (env.after done).text? .baseUrl = none ∨ (env.after done).text? .baseUrl = some "" →
        (answerAfter build env done step).Tells build (.error .missingBaseUrl)) ∧
    ∀ n, (env.after done).text? .baseUrl = some (Config.slashes (n + 1)) →
      Config.ofEnvironment (env.after done) = (Config.timeoutOf (env.after done)).map
          (⟨"", (env.after done).nonEmpty? .token, ·⟩) ∧
        ∀ c, Config.ofEnvironment (env.after done) = .ok c → ∀ endpoint,
          Http.urlOf c endpoint = Http.locator endpoint := by
  refine ⟨fun step c hanswer => ?_, fun step hread hmissing => ?_, fun n hslashes => ?_⟩
  · obtain ⟨before, hbefore, hc, hnow⟩ := exists_source hanswer
    obtain ⟨text, htext, hne, hremains⟩ := Config.remainsOf_of_ofEnvironment hc
    exact ⟨before, text, hbefore, hnow, htext, hne, hremains⟩
  · refine tells_of_error ?_ hread
    rw [environment_reached]
    exact Config.ofEnvironment_of_missing hmissing
  · have hne : Config.slashes (n + 1) ≠ "" := by
      intro hempty
      have hnil : List.replicate (n + 1) '/' = [] := String.ofList_eq_empty_iff.mp hempty
      cases hnil
    have hnothing : Config.trimSlashes (Config.slashes (n + 1)) = "" :=
      Config.trimSlashes_eq_empty_iff.mpr ⟨n + 1, rfl⟩
    have hread := Config.ofEnvironment_of_text hslashes hne
    rw [hnothing] at hread
    refine ⟨hread, fun c hc endpoint => ?_⟩
    rw [hread] at hc
    cases htimeout : Config.timeoutOf (env.after done) with
    | error e =>
      rw [htimeout] at hc
      cases hc
    | ok seconds =>
      rw [htimeout] at hc
      cases hc
      exact urlOf_of_empty rfl endpoint

open ConfigStep in
/-- A transport on a cached configuration has the address of an earlier moment, here without two slashes. -/
theorem cached_base_url_remains_of_address :
    let client : Config → Except String Nat := fun c => .ok c.timeoutSeconds
    let done := [.assign .baseUrl (some (Text.toBytes "http://first.local//")), .config,
      .assign .baseUrl none]
    let c : Config := ⟨"http://first.local", none, 30⟩
    (answerAfter client .empty done .transport).config? = some c ∧
      ∃ before text, before <+: done ∧ (Environment.empty.after before).text? .baseUrl = some text ∧
        text ≠ "" ∧ c.RemainsOf text := by
  intro client done c
  have hanswer : (answerAfter client .empty done .transport).config? = some c := by decide +kernel
  obtain ⟨before, text, hbefore, -, hremains⟩ :=
    (base_url_remains_of_address client .empty done).1 .transport c hanswer
  exact ⟨hanswer, before, text, hbefore, hremains⟩

/-- The address `/` is accepted, and the base URL is empty. -/
theorem lone_slash_leaves_no_base_url :
    let env := Environment.empty.set .baseUrl (some (Text.toBytes "/"))
    Config.ofEnvironment env = .ok ⟨"", none, 30⟩ ∧
      Http.urlOf ⟨"", none, 30⟩ .query = "/api/dataset/query" := by
  decide +kernel

end Inventory
