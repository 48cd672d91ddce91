import Mathlib.Data.List.Induction
import Inventory.Config

/-! The cache of the configuration over a run of steps. The first read that comes by a configuration fixes
what later reads answer, whatever happens to the environment, until the cache is reset. A transport may
still fail after that, when its client cannot be built. -/

namespace Inventory

inductive ConfigStep where
  | assign (v : Variable) (bytes : Option Bytes)
  | reset
  | fromEnvironment
  | config
  | transport

inductive ConfigAnswer (κ : Type) where
  | done
  | config (answer : Except ConfigError Config)
  | transport (answer : Except Error (Config × κ))

/-- The environment as the assignments leave it. -/
def Environment.after (env : Environment) (steps : List ConfigStep) : Environment :=
  steps.foldl (fun env step => match step with | .assign v bytes => env.set v bytes | _ => env) env

namespace ConfigAnswer

variable {κ : Type}

def Fails : ConfigAnswer κ → Prop
  | done => False
  | config answer => ∃ e, answer = .error e
  | transport answer => ∃ e, answer = .error e

/-- The error of a transport whose client could not be built. -/
def unbuilt (reason : String) : Error := .transport ("failed to build HTTP client: " ++ reason)

/-- Whether a read answers with this configuration, or fails with this error as it reports it. A transport
needs a client beside the configuration, and says so if there is none. -/
def Tells (build : Config → Except String κ) (result : Except ConfigError Config) :
    ConfigAnswer κ → Prop
  | done => False
  | config answer => answer = result
  | transport answer =>
    match result with
    | .ok c => (∃ client, build c = .ok client ∧ answer = .ok (c, client)) ∨
        ∃ reason, build c = .error reason ∧ answer = .error (unbuilt reason)
    | .error e => answer = .error e.toError

/-- The read fails for want of a configuration. -/
def Misses (build : Config → Except String κ) (answer : ConfigAnswer κ) : Prop :=
  ∃ e, answer.Tells build (.error e)

theorem Misses.fails {build : Config → Except String κ} {answer : ConfigAnswer κ}
    (h : answer.Misses build) : answer.Fails := by
  obtain ⟨e, he⟩ := h
  cases answer with
  | done => exact he
  | config answer => exact ⟨e, he⟩
  | transport answer => exact ⟨e.toError, he⟩

theorem unbuilt_ne_toError (reason : String) (e : ConfigError) : unbuilt reason ≠ e.toError := by
  intro h
  have htext : "failed to build HTTP client: " ++ reason = "failed to get config: " ++ e.message :=
    Error.transport.inj h
  -- the two texts part at the eleventh character
  have hchar := congrArg (fun s : String => s.toList[10]?) htext
  simp only [String.toList_append] at hchar
  rw [List.getElem?_append_left (by decide), List.getElem?_append_left (by decide)] at hchar
  exact absurd hchar (by decide)

variable {build : Config → Except String κ} {answer : ConfigAnswer κ}

theorem not_misses_of_tells_ok {c : Config} (h : answer.Tells build (.ok c)) : ¬answer.Misses build := by
  rintro ⟨e, he⟩
  cases answer with
  | done => exact h
  | config answer => exact nomatch h.symm.trans he
  | transport answer =>
    rcases h with ⟨client, -, rfl⟩ | ⟨reason, -, rfl⟩
    · cases he
    · exact unbuilt_ne_toError reason e (Except.error.inj he)

theorem Tells.misses_iff {result : Except ConfigError Config} (h : answer.Tells build result) :
    answer.Misses build ↔ ∃ e, result = .error e := by
  cases result with
  | error e => exact iff_of_true ⟨e, h⟩ ⟨e, rfl⟩
  | ok c => exact iff_of_false (not_misses_of_tells_ok h) nofun

end ConfigAnswer

namespace ConfigStep

variable {κ : Type} (build : Config → Except String κ)

/-- The two steps that answer from the cache. -/
def IsRead (step : ConfigStep) : Prop := step = .config ∨ step = .transport

theorem IsRead.ne_reset {step : ConfigStep} (h : step.IsRead) : step ≠ .reset := by
  rintro rfl
  rcases h with h | h <;> cases h

def run (s : ConfigStore) : ConfigStep → ConfigAnswer κ × ConfigStore
  | assign v bytes => (.done, s.assign v bytes)
  | reset => (.done, s.reset)
  | fromEnvironment => (.config (Config.ofEnvironment s.environment), s)
  | config => (.config s.config.1, s.config.2)
  | transport => (.transport (s.openTransport build).1, (s.openTransport build).2)

/-- Where the steps lead to from an empty cache. -/
def reached (env : Environment) (steps : List ConfigStep) : ConfigStore :=
  steps.foldl (fun s step => (run build s step).2) ⟨env, none⟩

/-- The answer to a step that comes after others. -/
def answerAfter (env : Environment) (before : List ConfigStep) (step : ConfigStep) : ConfigAnswer κ :=
  (run build (reached build env before) step).1

/-- No read since the last reset has come by a configuration. -/
def NoneLoaded (env : Environment) (steps : List ConfigStep) : Prop :=
  ∀ before step after, steps = before ++ step :: after → .reset ∉ after → step.IsRead →
    (answerAfter build env before step).Misses build

/-- The first read since the last reset that came by a configuration stands right after `before`. -/
def FirstLoad (env : Environment) (before steps : List ConfigStep) : Prop :=
  ∃ step after, steps = before ++ step :: after ∧ .reset ∉ after ∧ step.IsRead ∧
    ¬(answerAfter build env before step).Misses build ∧ NoneLoaded build env before

theorem reached_append_singleton (env : Environment) (steps : List ConfigStep) (step : ConfigStep) :
    reached build env (steps ++ [step]) = (run build (reached build env steps) step).2 := by
  rw [reached, List.foldl_append]
  rfl

theorem after_append_singleton (env : Environment) (steps : List ConfigStep) (step : ConfigStep) :
    env.after (steps ++ [step]) = (env.after steps).after [step] := List.foldl_append

theorem config_of_cached {s : ConfigStore} {c : Config} (h : s.cache = some c) :
    s.config = (.ok c, s) := by
  rw [ConfigStore.config, h]

theorem config_of_empty {s : ConfigStore} (h : s.cache = none) :
    s.config = (Config.ofEnvironment s.environment,
      ⟨s.environment, (Config.ofEnvironment s.environment).toOption⟩) := by
  obtain ⟨env, cache⟩ := s
  obtain rfl : cache = none := h
  rw [ConfigStore.config]
  cases Config.ofEnvironment env <;> rfl

/-- A transport leaves behind what a read of the configuration leaves, whether a client can be built or
not. -/
theorem openTransport_snd {build : Config → Except String κ} {s : ConfigStore} :
    (s.openTransport build).2 = s.config.2 := by
  rw [ConfigStore.openTransport, ConfigStore.transportConfig]
  rcases s.config with ⟨e | c, s'⟩
  · rfl
  · simp only
    cases build c <;> rfl

/-- Both reads tell what the cache and the environment give, and leave the same behind. -/
theorem run_read (s : ConfigStore) {step : ConfigStep} (hread : step.IsRead) :
    (run build s step).1.Tells build s.config.1 ∧ (run build s step).2 = s.config.2 := by
  rcases hread with rfl | rfl
  · exact ⟨rfl, rfl⟩
  · refine ⟨?_, openTransport_snd⟩
    simp only [run, ConfigStore.openTransport, ConfigStore.transportConfig]
    rcases s.config with ⟨e | c, s'⟩
    · exact rfl
    · simp only
      cases hclient : build c with
      | ok client => exact .inl ⟨client, hclient, rfl⟩
      | error reason => exact .inr ⟨reason, hclient, rfl⟩

variable {build} {s : ConfigStore} {c : Config} {env : Environment} {steps after : List ConfigStep}
  {step : ConfigStep}

theorem run_keeps (h : s.cache = some c) (hstep : step ≠ .reset) :
    (run build s step).2.cache = some c := by
  have hconfig := congrArg Prod.snd (config_of_cached h)
  cases step with
  | assign v bytes => exact h
  | reset => exact absurd rfl hstep
  | fromEnvironment => exact h
  | config => rwa [(run_read build s (.inl rfl)).2, hconfig]
  | transport => rwa [(run_read build s (.inr rfl)).2, hconfig]

theorem reached_keeps (h : (reached build env steps).cache = some c) (hafter : .reset ∉ after) :
    (reached build env (steps ++ after)).cache = some c := by
  induction after using List.reverseRecOn with
  | nil => rwa [List.append_nil]
  | append_singleton after step ih =>
    rw [List.mem_append, List.mem_singleton, not_or] at hafter
    rw [← List.append_assoc, reached_append_singleton]
    exact run_keeps (ih hafter.1) (Ne.symm hafter.2)

theorem run_of_misses (h : (run build s step).1.Misses build) : (run build s step).2 = s := by
  by_cases hread : step.IsRead
  -- A read that misses found the cache empty, and nothing in the environment to fill it with.
  · obtain ⟨htells, hstore⟩ := run_read build s hread
    obtain ⟨e, he⟩ := htells.misses_iff.mp h
    rw [hstore]
    cases hcache : s.cache with
    | some c => rw [config_of_cached hcache]
    | none =>
      rw [config_of_empty hcache] at he ⊢
      have hnone : (Config.ofEnvironment s.environment).toOption = none := congrArg Except.toOption he
      rw [hnone, ← hcache]
  · cases step with
    | assign v bytes => exact h.elim fun _ he => he.elim
    | reset => exact h.elim fun _ he => he.elim
    | fromEnvironment => rfl
    | config => exact absurd (.inl rfl) hread
    | transport => exact absurd (.inr rfl) hread

theorem noneLoaded_append_singleton_iff : NoneLoaded build env (steps ++ [step]) ↔
    (step = .reset ∨ NoneLoaded build env steps) ∧
      (step.IsRead → (answerAfter build env steps step).Misses build) := by
  constructor
  · refine fun h => ⟨?_, h steps step [] rfl List.not_mem_nil⟩
    by_cases hstep : step = .reset
    · exact .inl hstep
    · refine .inr ?_
      rintro before read after rfl hafter hread
      refine h before read (after ++ [step]) (by simp) ?_ hread
      rw [List.mem_append, List.mem_singleton, not_or]
      exact ⟨hafter, Ne.symm hstep⟩
  · rintro ⟨hearlier, hlast⟩ before read after heq hafter hread
    rcases List.eq_nil_or_concat after with rfl | ⟨after, last, rfl⟩
    · obtain ⟨rfl, hsame⟩ := List.append_inj' heq rfl
      obtain rfl := List.singleton_inj.mp hsame
      exact hlast hread
    · rw [List.concat_eq_append] at heq hafter
      rw [← List.cons_append, ← List.append_assoc] at heq
      obtain ⟨rfl, hsame⟩ := List.append_inj' heq rfl
      obtain rfl := List.singleton_inj.mp hsame
      rw [List.mem_append, List.mem_singleton, not_or] at hafter
      exact hearlier.resolve_left (Ne.symm hafter.2) before read after rfl hafter.1 hread

theorem cache_of_noneLoaded (h : NoneLoaded build env steps) :
    (reached build env steps).cache = none := by
  induction steps using List.reverseRecOn with
  | nil => rfl
  | append_singleton steps step ih =>
    obtain ⟨hearlier, hlast⟩ := noneLoaded_append_singleton_iff.mp h
    rw [reached_append_singleton]
    by_cases hread : step.IsRead
    · rw [run_of_misses (hlast hread)]
      exact ih (hearlier.resolve_left hread.ne_reset)
    · cases step with
      | assign v bytes => exact ih (hearlier.resolve_left nofun)
      | reset => rfl
      | fromEnvironment => exact ih (hearlier.resolve_left nofun)
      | config => exact absurd (.inl rfl) hread
      | transport => exact absurd (.inr rfl) hread

theorem FirstLoad.cached {before : List ConfigStep} (h : FirstLoad build env before steps) :
    ∃ c, Config.ofEnvironment (reached build env before).environment = .ok c ∧
      (reached build env steps).cache = some c := by
  obtain ⟨read, after, rfl, hafter, hread, hloads, hnone⟩ := h
  have hconfig := config_of_empty (cache_of_noneLoaded hnone)
  obtain ⟨htells, hstore⟩ := run_read build (reached build env before) hread
  rw [answerAfter, htells.misses_iff, hconfig] at hloads
  rw [hconfig] at hstore
  cases hc : Config.ofEnvironment (reached build env before).environment with
  | error e => exact absurd ⟨e, hc⟩ hloads
  | ok c =>
    refine ⟨c, rfl, ?_⟩
    rw [← List.singleton_append, ← List.append_assoc]
    refine reached_keeps ?_ hafter
    rw [reached_append_singleton, hstore, hc]
    rfl

theorem environment_run (s : ConfigStore) (step : ConfigStep) :
    (run build s step).2.environment = s.environment.after [step] := by
  have hconfig : s.config.2.environment = s.environment := by
    cases hcache : s.cache with
    | some c => rw [config_of_cached hcache]
    | none => rw [config_of_empty hcache]
  cases step with
  | assign v bytes => rfl
  | reset => rfl
  | fromEnvironment => rfl
  | config => exact hconfig
  | transport => exact (congrArg ConfigStore.environment openTransport_snd).trans hconfig

variable (build)

theorem environment_reached (env : Environment) (steps : List ConfigStep) :
    (reached build env steps).environment = env.after steps := by
  induction steps using List.reverseRecOn with
  | nil => rfl
  | append_singleton steps step ih =>
    rw [reached_append_singleton, environment_run, ih, after_append_singleton]

/-- Since the last reset, either no read has come by a configuration or there is a first that has. -/
theorem noneLoaded_or_firstLoad (env : Environment) (steps : List ConfigStep) :
    NoneLoaded build env steps ∨ ∃ before, FirstLoad build env before steps := by
  induction steps using List.reverseRecOn with
  | nil => exact .inl fun before step after h => absurd h (by simp)
  | append_singleton steps step ih =>
    rw [noneLoaded_append_singleton_iff]
    rcases ih with hnone | ⟨before, read, after, rfl, hafter, hread, hfirst⟩
    · by_cases hloads : step.IsRead ∧ ¬(answerAfter build env steps step).Misses build
      · exact .inr ⟨steps, step, [], rfl, List.not_mem_nil, hloads.1, hloads.2, hnone⟩
      · rw [not_and_not_right] at hloads
        exact .inl ⟨.inr hnone, hloads⟩
    · by_cases hstep : step = .reset
      · exact .inl ⟨.inl hstep, fun h => absurd hstep h.ne_reset⟩
      · refine .inr ⟨before, read, after ++ [step], by simp, ?_, hread, hfirst⟩
        rw [List.mem_append, List.mem_singleton, not_or]
        exact ⟨hafter, Ne.symm hstep⟩

/-- A step fails for want of a configuration, or because no client could be built for the one there is. -/
theorem fails_iff (s : ConfigStore) (step : ConfigStep) : (run build s step).1.Fails ↔
    (run build s step).1.Misses build ∨ step = .transport ∧ ∃ c reason, s.config.1 = .ok c ∧
      build c = .error reason ∧
      (run build s step).1 = .transport (.error (ConfigAnswer.unbuilt reason)) := by
  constructor
  · intro h
    cases step with
    | assign v bytes => exact h.elim
    | reset => exact h.elim
    | fromEnvironment => exact .inl h
    | config => exact .inl h
    | transport =>
      have htells := (run_read build s (.inr rfl)).1
      cases hconfig : s.config.1 with
      | error e =>
        rw [hconfig] at htells
        exact .inl ⟨e, htells⟩
      | ok c =>
        rw [hconfig] at htells
        obtain ⟨e, he⟩ := h
        rcases htells with ⟨client, -, hanswer⟩ | ⟨reason, hreason, hanswer⟩
        · cases he.symm.trans hanswer
        · exact .inr ⟨rfl, c, reason, rfl, hreason, congrArg _ hanswer⟩
  · rintro (h | ⟨-, c, reason, -, -, hanswer⟩)
    · exact h.fails
    · rw [hanswer]
      exact ⟨_, rfl⟩

end ConfigStep

open ConfigStep ConfigAnswer in
/-- The configuration after any steps from an empty cache. Reading it from the environment shows the
environment of the moment and leaves the cache alone. The two reads that go through the cache both
tell what the environment gives while none of them has come by a configuration since the last reset, and
after that what the environment gave at the first that did. A step that fails for want of a configuration
changes nothing. The only other failure is that of a transport without a client: it leaves the cache as a
read of the configuration would, filled. -/
theorem config_read_once_until_reset {κ : Type} (build : Config → Except String κ) (env : Environment)
    (done : List ConfigStep) :
    answerAfter build env done .fromEnvironment = .config (Config.ofEnvironment (env.after done)) ∧
      reached build env (done ++ [.fromEnvironment]) = reached build env done ∧
      (NoneLoaded build env done → ∀ step, step.IsRead →
        (answerAfter build env done step).Tells build (Config.ofEnvironment (env.after done))) ∧
      (∀ before, FirstLoad build env before done → ∃ c,
        Config.ofEnvironment (env.after before) = .ok c ∧ ∀ step, step.IsRead →
          (answerAfter build env done step).Tells build (.ok c)) ∧
      (NoneLoaded build env done ∨ ∃ before, FirstLoad build env before done) ∧
      (∀ step, (answerAfter build env done step).Misses build →
        reached build env (done ++ [step]) = reached build env done) ∧
      reached build env (done ++ [.transport]) = reached build env (done ++ [.config]) ∧
      ∀ step, (answerAfter build env done step).Fails ↔
        (answerAfter build env done step).Misses build ∨ step = .transport ∧ ∃ c reason,
          answerAfter build env done .config = .config (.ok c) ∧ build c = .error reason ∧
          answerAfter build env done step = .transport (.error (unbuilt reason)) := by
  refine ⟨?_, ?_, fun hnone step hread => ?_, fun before hfirst => ?_,
    noneLoaded_or_firstLoad build env done, fun step hmisses => ?_, ?_, fun step => ?_⟩
  · rw [← environment_reached build]
    rfl
  · exact reached_append_singleton build env done .fromEnvironment
  · have htells := (run_read build (reached build env done) hread).1
    rwa [config_of_empty (cache_of_noneLoaded hnone), environment_reached] at htells
  · obtain ⟨c, hc, hcached⟩ := hfirst.cached
    rw [environment_reached] at hc
    refine ⟨c, hc, fun step hread => ?_⟩
    have htells := (run_read build (reached build env done) hread).1
    rwa [config_of_cached hcached] at htells
  · rw [reached_append_singleton, run_of_misses hmisses]
  · rw [reached_append_singleton, reached_append_singleton]
    exact openTransport_snd
  · have hconfig : ∀ c, answerAfter build env done .config = .config (.ok c) ↔
        (reached build env done).config.1 = .ok c :=
      fun c => ⟨ConfigAnswer.config.inj, congrArg ConfigAnswer.config⟩
    simp only [hconfig]
    exact fails_iff build (reached build env done) step

open ConfigStep ConfigAnswer in
/-- After a read that failed, one that came by a configuration and a change of the address, a transport
still goes to the address before the change. So does a read after a transport without a client. -/
theorem transport_goes_to_first_address :
    let client : Config → Except String Nat := fun c => .ok c.timeoutSeconds
    let noClient : Config → Except String Nat := fun _ => .error "no TLS backend"
    let tried := [.config, .assign .baseUrl (some (Text.toBytes "http://first.local/"))]
    let change := .assign .baseUrl (some (Text.toBytes "http://second.local/"))
    answerAfter client .empty (tried ++ [.config, change]) .transport =
        .transport (.ok (⟨"http://first.local", none, 30⟩, 30)) ∧
      answerAfter noClient .empty tried .transport =
        .transport (.error (unbuilt "no TLS backend")) ∧
      answerAfter noClient .empty (tried ++ [.transport, change]) .config =
        .config (.ok ⟨"http://first.local", none, 30⟩) := by
  intro client noClient tried change
  have hfirst : Config.ofEnvironment (Environment.empty.after tried) =
      .ok ⟨"http://first.local", none, 30⟩ := by decide +kernel
  have hnone : ∀ build : Config → Except String Nat, NoneLoaded build .empty tried := by
    rintro build (_ | ⟨_, _ | ⟨_, before⟩⟩) step after heq - hread
    · obtain rfl : ConfigStep.config = step := (List.cons.inj heq).1
      exact ⟨.missingBaseUrl, rfl⟩
    · obtain rfl := (List.cons.inj (List.cons.inj heq).2).1
      rcases hread with h | h <;> cases h
    · exact absurd heq (by simp [tried])
  have hrest : ConfigStep.reset ∉ [change] := fun h => absurd h (by simp [change])
  have hload : ∀ (build : Config → Except String Nat) (read : ConfigStep), read.IsRead →
      FirstLoad build .empty tried (tried ++ [read, change]) := by
    intro build read hread
    refine ⟨read, [change], rfl, hrest, hread, ?_, hnone build⟩
    have htells := (config_read_once_until_reset build .empty tried).2.2.1 (hnone build) read hread
    rw [htells.misses_iff, hfirst]
    nofun
  refine ⟨?_, ?_, ?_⟩
  · obtain ⟨c, hc, hanswer⟩ := (config_read_once_until_reset client .empty
      (tried ++ [.config, change])).2.2.2.1 tried (hload client .config (.inl rfl))
    obtain rfl := Except.ok.inj (hfirst.symm.trans hc)
    rcases hanswer .transport (.inr rfl) with ⟨n, hn, htransport⟩ | ⟨reason, hreason, -⟩
    · obtain rfl := Except.ok.inj hn
      exact congrArg ConfigAnswer.transport htransport
    · cases hreason
  · have htells := (config_read_once_until_reset noClient .empty tried).2.2.1 (hnone noClient)
      .transport (.inr rfl)
    rw [hfirst] at htells
    rcases htells with ⟨n, hn, -⟩ | ⟨reason, hreason, htransport⟩
    · cases hn
    · obtain rfl := Except.error.inj hreason
      exact congrArg ConfigAnswer.transport htransport
  · obtain ⟨c, hc, hanswer⟩ := (config_read_once_until_reset noClient .empty
      (tried ++ [.transport, change])).2.2.2.1 tried (hload noClient .transport (.inr rfl))
    obtain rfl := Except.ok.inj (hfirst.symm.trans hc)
    exact congrArg ConfigAnswer.config (hanswer .config (.inl rfl))

end Inventory
