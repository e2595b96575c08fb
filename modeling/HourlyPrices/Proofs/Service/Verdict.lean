import HourlyPrices.Proofs.Config
import HourlyPrices.Proofs.Service.Progress

/-!
# What a cycle reports

A cycle hears a fault for each download that fails. It reports one fault, and the status and the
policy follow from that alone (`Cycle.refresh_verdict`): the fault of its configuration, or else the
first of the faults that it hears which is due to the configuration, or else the first of them all
(`Cycle.Reports`). A fault of the configuration thus outweighs any other, wherever it stands.
-/

namespace HourlyPrices

open Activity

/-- The fault that a source answers to a request, if it does. -/
def Source.fault? (source : Source) (r : Request) : Option Fault :=
  match source r with
  | .error f => some f
  | .ok _ => none

/-- The faults that a source answers to some requests, in their order. -/
def Source.faults (source : Source) (rs : List Request) : List Fault := rs.filterMap source.fault?

theorem Source.faults_append (source : Source) (rs rs' : List Request) :
    source.faults (rs ++ rs') = source.faults rs ++ source.faults rs' := List.filterMap_append

theorem RetrySettings.faultPolicy_eq_configuration_iff {r : RetrySettings} {f : Fault}
    {anchor : TimeOfDay} {zone : Zone} :
    r.faultPolicy f anchor zone =
        .fromFailure .configuration (.fixed (.ofSeconds r.configurationErrorDelay)) ↔
      f.kind = .configuration := by
  unfold faultPolicy
  cases f.kind with
  | configuration => simp
  | dataIncomplete => simp [missingPolicy]
  | communication | parse | cancelled =>
    dsimp only
    split <;> simp

namespace Cycle

variable {v : View} {source : Source} {c : Config} {context : LogContext} {d : Cache}
  {k : Component} {ks : List Component} {s : Schedule} {name : String} {draw : Nat} {f : Fault}
  {faults : List Fault}

/-! ## The fault that is reported -/

/-- Of some faults the one that is to blame: the first that is due to the configuration, or, if none
is, the first. -/
def Blames (faults : List Fault) (f : Fault) : Prop :=
  ∃ before after, faults = before ++ f :: after ∧ (∀ g ∈ before, g.kind ≠ .configuration) ∧
    (f.kind = .configuration ∨ before = [] ∧ ∀ g ∈ after, g.kind ≠ .configuration)

theorem Blames.mem (h : Blames faults f) : f ∈ faults := by
  obtain ⟨before, after, rfl, -, -⟩ := h
  simp

theorem Blames.kind_eq_configuration_iff (h : Blames faults f) :
    f.kind = .configuration ↔ ∃ g ∈ faults, g.kind = .configuration := by
  constructor
  · intro hf
    exact ⟨f, h.mem, hf⟩
  · rintro ⟨g, hg, hkind⟩
    obtain ⟨before, after, rfl, hbefore, hf | ⟨rfl, hafter⟩⟩ := h
    · exact hf
    · rcases List.mem_cons.1 hg with rfl | hg
      · exact hkind
      · exact absurd hkind (hafter g hg)

theorem reported_eq_error_iff : reported faults = .error f ↔ Blames faults f := by
  have hreported : reported faults = .error f ↔
      (faults.find? (·.kind == .configuration) <|> faults.head?) = some f := by
    unfold reported
    split <;> simp [*]
  rw [hreported]
  cases hfind : faults.find? (·.kind == .configuration) with
  | some g =>
    obtain ⟨hg, before, after, hfaults, hbefore⟩ := List.find?_eq_some_iff_append.1 hfind
    have hblames : Blames faults g :=
      ⟨before, after, hfaults, by simpa using hbefore, .inl (by simpa using hg)⟩
    constructor
    · intro h
      cases h
      exact hblames
    · intro h
      have hkind := h.kind_eq_configuration_iff.2 ⟨g, hblames.mem, by simpa using hg⟩
      obtain ⟨before', after', hfaults', hbefore', -⟩ := h
      have hfirst : faults.find? (·.kind == .configuration) = some f :=
        List.find?_eq_some_iff_append.2
          ⟨by simpa using hkind, before', after', hfaults', by simpa using hbefore'⟩
      rw [← hfind, hfirst]
      rfl
  | none =>
    have hnone : ∀ g ∈ faults, g.kind ≠ .configuration := by
      simpa using List.find?_eq_none.1 hfind
    change faults.head? = some f ↔ _
    constructor
    · intro h
      obtain ⟨after, rfl⟩ := List.head?_eq_some_iff.1 h
      exact ⟨[], after, rfl, by simp, .inr ⟨rfl, fun g hg => hnone g (List.mem_cons_of_mem _ hg)⟩⟩
    · rintro ⟨before, after, rfl, -, hf | ⟨rfl, -⟩⟩
      · exact absurd hf (hnone f (by simp))
      · rfl

theorem reported_eq_ok_iff : reported faults = .ok () ↔ faults = [] := by
  cases faults with
  | nil => exact iff_of_true rfl rfl
  | cons g gs =>
    unfold reported
    cases List.find? (·.kind == .configuration) (g :: gs) <;> simp

/-- The fault that a cycle reports: that of its configuration, or the one of its downloads that is
to blame. -/
def Reports (c : Config) (faults : List Fault) (f : Fault) : Prop :=
  c.validate = .error f ∨ c.validate = .ok () ∧ Blames faults f

/-- The configuration is to blame. -/
def Misconfigured (c : Config) (faults : List Fault) : Prop :=
  c.validate ≠ .ok () ∨ ∃ g ∈ faults, g.kind = .configuration

theorem Reports.kind_eq_configuration_iff (h : Reports c faults f) :
    f.kind = .configuration ↔ Misconfigured c faults := by
  rcases h with hf | ⟨hvalid, hf⟩
  · refine iff_of_true (FailsByConfiguration.validate c f hf) (.inl ?_)
    simp [hf]
  · rw [hf.kind_eq_configuration_iff, Misconfigured, hvalid]
    simp

/-- The result of a cycle whose downloads have failed by some faults. -/
def verdict (c : Config) (faults : List Fault) : Except Fault Unit :=
  match c.validate with
  | .error f => .error f
  | .ok () => reported faults

theorem verdict_eq_ok_iff : verdict c faults = .ok () ↔ c.validate = .ok () ∧ faults = [] := by
  rw [verdict, ← reported_eq_ok_iff]
  cases c.validate <;> simp

theorem verdict_eq_error_iff : verdict c faults = .error f ↔ Reports c faults f := by
  rw [verdict, Reports, ← reported_eq_error_iff]
  cases c.validate <;> simp

/-! ## The faults that a cycle hears -/

/-- Downloads of some components have requested each of them at most once, in their order, have
published nothing, and, if they come to a value, find it from the faults that the source has
answered. -/
structure Hears {α : Type} (source : Source) (ks : List Component) (value : List Fault → α)
    (o : Outcome α) : Prop where
  inOrder : (o.requests.map Request.component).Sublist ks
  unpublished : ∀ p, .publication p ∉ o.effects
  value_eq : ∀ a, o.value = .ok a → a = value (source.faults o.requests)

theorem requests_logs {α : Type} (es : List LogEvent) (d : Cache) (x : Except Overflow α) :
    (Outcome.mk (es.map .log) d x).requests = [] := by
  simp [Outcome.requests, Effect.request?, List.filterMap_map]

theorem requests_request_logs {α : Type} (r : Request) (es : List LogEvent) (d : Cache)
    (x : Except Overflow α) : (Outcome.mk (.request r :: es.map .log) d x).requests = [r] := by
  simp [Outcome.requests, Effect.request?, List.filterMap_map]

theorem hears_attempt (v : View) (source : Source) (c : Config) (context : LogContext)
    (k : Component) (d : Cache) : Hears source [k] id (run v source (attempt c context k) d) := by
  rcases run_attempt_cases v source c context k d with
    ⟨o, -, -, -, hrun⟩ | ⟨-, es, hrun⟩ | ⟨-, r, es, faults, hr, hrun, hanswer⟩
  · rw [hrun]
    exact ⟨by simp [Outcome.requests], by simp, fun a ha => by cases ha⟩
  · rw [hrun]
    refine ⟨by simp [requests_logs], by simp, fun a ha => ?_⟩
    cases ha
    rw [requests_logs]
    rfl
  · rw [hrun]
    refine ⟨by simp [requests_request_logs, hr], by simp, fun a ha => ?_⟩
    cases ha
    rw [requests_request_logs]
    rcases hanswer with ⟨⟨f, hf, rfl⟩, -⟩ | ⟨records, hrecords, rfl⟩
    · simp [Source.faults, Source.fault?, hf]
    · simp [Source.faults, Source.fault?, hrecords]

theorem Hears.map {α β : Type} {value : List Fault → α} {o : Outcome α}
    (h : Hears source ks value o) (g : α → β) :
    Hears source ks (fun faults => g (value faults)) (o.bind fun a e => ⟨[], e, .ok (g a)⟩) := by
  cases ha : o.value with
  | error x =>
    rw [Outcome.bind_of_error ha]
    exact ⟨h.inOrder, h.unpublished, fun b hb => by cases hb⟩
  | ok a =>
    rw [Outcome.bind_of_ok ha, List.append_nil]
    refine ⟨h.inOrder, h.unpublished, fun b hb => ?_⟩
    cases hb
    exact congrArg g (h.value_eq a ha)

/-- After a first component, others add their faults to those of the first. -/
theorem Hears.cons {o : Outcome (List Fault)} (h : Hears source [k] id o)
    {next : List Fault → Cache → Outcome (List Fault)}
    (hnext : ∀ first e, Hears source ks (first ++ ·) (next first e)) :
    Hears source (k :: ks) id (o.bind next) := by
  cases hfirst : o.value with
  | error x =>
    rw [Outcome.bind_of_error hfirst]
    refine ⟨?_, h.unpublished, fun faults hf => by cases hf⟩
    exact h.inOrder.trans (List.singleton_sublist.2 List.mem_cons_self)
  | ok first =>
    have hrest := hnext first o.cache
    have hrequests := Outcome.requests_bind_of_ok hfirst next
    refine ⟨?_, fun p hp => ?_, fun faults hf => ?_⟩
    · rw [hrequests, List.map_append]
      exact h.inOrder.append hrest.inOrder
    · rcases Outcome.mem_effects_bind.1 hp with hp | ⟨first', -, hp⟩
      · exact h.unpublished p hp
      · exact (hnext first' o.cache).unpublished p hp
    · rw [Outcome.bind_of_ok hfirst] at hf
      rw [hrest.value_eq faults hf, hrequests, Source.faults_append, h.value_eq first hfirst]
      rfl

theorem hears_downloads (v : View) (source : Source) (c : Config) (context : LogContext)
    (ks : List Component) (d : Cache) :
    Hears source ks id (run v source (downloads c context ks) d) := by
  induction ks generalizing d with
  | nil =>
    refine ⟨.slnil, fun p hp => (by cases hp), fun faults hf => ?_⟩
    cases hf
    rfl
  | cons k ks ih =>
    rw [downloads_cons, run_seq]
    refine (hears_attempt v source c context k d).cons fun first e => ?_
    rw [run_seq]
    exact (ih e).map (first ++ ·)

/-- The downloads of a cycle come to the verdict over the faults that they hear. -/
theorem hears_download (v : View) (source : Source) (c : Config) (context : LogContext)
    (d : Cache) :
    Hears source Component.all (verdict c) (run v source (download c context) d) := by
  cases hvalid : c.validate with
  | error f =>
    rw [download, hvalid]
    refine ⟨List.nil_sublist _, fun p hp => (by cases hp), fun result hr => ?_⟩
    cases hr
    rw [verdict, hvalid]
  | ok u =>
    have hverdict : verdict c = reported := by
      funext faults
      rw [verdict, hvalid]
    rw [run_download_of_valid hvalid, hverdict]
    exact (hears_downloads v source c context Component.all d).map reported

/-! ## The status -/

theorem status_not_mem_publishCurrent (x : ServiceStatus) :
    .publication (.status x) ∉ (run v source (publishCurrent c ks) d).effects := by
  induction ks with
  | nil => exact List.not_mem_nil
  | cons k ks ih =>
    rw [run_publishCurrent_cons]
    split
    · cases c.currentValue d k v.now with
      | error o => exact List.not_mem_nil
      | ok y => simpa using ih
    · exact ih

theorem status_not_mem_publishPrices (x : ServiceStatus) :
    .publication (.status x) ∉ (run v source (publishPrices c) d).effects := by
  rw [run_publishPrices, Outcome.mem_effects_bind]
  rintro (hx | ⟨_, -, hx⟩)
  · exact status_not_mem_publishCurrent x hx
  · split at hx <;> simp at hx

theorem status_not_mem_publishProperties (x : ServiceStatus) (ps : List (String × String)) :
    .publication (.status x) ∉ (run v source (publishProperties ps) d).effects := by
  induction ps with
  | nil => exact List.not_mem_nil
  | cons p ps ih =>
    rw [publishProperties, run_publish_bind]
    simpa using ih

theorem status_not_mem_plan (x : ServiceStatus) (result : Except Fault Unit) (e : Cache) :
    .publication (.status x) ∉
      (run v source (plan c s context draw result v e) d).effects := by
  change _ ∉ (run v source (Activity.lift (nextCall v.now (delayAfter c s draw v e result).1) >>= _)
    d).effects
  cases nextCall v.now (delayAfter c s draw v e result).1 with
  | error o => exact List.not_mem_nil
  | ok next =>
    rw [run_lift_ok_bind, run_seq, Outcome.mem_effects_bind]
    rintro (hx | ⟨_, -, hx⟩)
    · exact status_not_mem_publishProperties x _ hx
    · rw [run_log_bind, Outcome.after_effects] at hx
      rcases List.mem_cons.1 hx with hx | hx <;> cases hx

theorem status_not_mem_noteFault (x : ServiceStatus) (result : Except Fault Unit) :
    .publication (.status x) ∉ (run v source (noteFault context result) d).effects := by
  cases result with
  | ok u => exact List.not_mem_nil
  | error f => exact fun hx => by cases List.mem_singleton.1 hx

theorem status_not_mem_noteShortage (x : ServiceStatus) (result : Except Fault Unit) (e : Cache) :
    .publication (.status x) ∉ (run v source (noteShortage c result e v) d).effects := by
  unfold noteShortage
  split
  · exact fun hx => by cases List.mem_singleton.1 hx
  · exact List.not_mem_nil

/-- A cycle that comes to its conclusion publishes its status and no other. -/
theorem status_mem_conclude_iff {x : ServiceStatus} {result : Except Fault Unit} :
    .publication (.status x) ∈ (run v source (conclude c s context draw result) d).effects ↔
      x = ServiceStatus.ofResult result := by
  constructor
  · intro hx
    rw [conclude, run_seq, Outcome.mem_effects_bind] at hx
    obtain hx | ⟨_, -, hx⟩ := hx
    · exact absurd hx (status_not_mem_noteFault x result)
    rw [run_publish_bind, Outcome.after_effects] at hx
    rcases List.mem_cons.1 hx with hx | hx
    · cases hx
      rfl
    rw [run_seq, Outcome.mem_effects_bind] at hx
    obtain hx | ⟨_, -, hx⟩ := hx
    · exact absurd hx (status_not_mem_publishPrices x)
    rw [run_view_bind, run_cached_bind, run_seq, Outcome.mem_effects_bind] at hx
    obtain hx | ⟨_, -, hx⟩ := hx
    · exact absurd hx (status_not_mem_noteShortage x result _)
    · exact absurd hx (status_not_mem_plan x result _)
  · rintro rfl
    exact status_mem_conclude

/-! ## The whole cycle -/

/-- A cycle requests what its downloads request. -/
theorem requests_refresh (v : View) (source : Source) (c : Config) (s : Schedule) (name : String)
    (draw : Nat) (d : Cache) : (run v source (refresh c s name draw) d).requests =
      (run v source (download c (namedContext c name)) d).requests := by
  have hafter : ∀ (e : LogEvent) (o : Outcome CycleOutcome),
      (o.after (.log e)).requests = o.requests := fun _ _ => rfl
  rw [run_refresh, hafter]
  cases hresult : (run v source (download c (namedContext c name)) d).value with
  | error o => exact Outcome.requests_bind_of_error hresult _
  | ok result =>
    rw [Outcome.requests_bind_of_ok hresult]
    cases Cache.cleanup _ c.cache v.now with
    | error o => exact List.append_nil _
    | ok e => simp [(conclude_quiet ..).requests]

/-- The downloads of a cycle have published nothing, and it concludes when past hours have been
dropped. -/
theorem status_mem_refresh_iff {x : ServiceStatus} :
    .publication (.status x) ∈ (run v source (refresh c s name draw) d).effects ↔
      c.cache.Representable v.now ∧ x = ServiceStatus.ofResult
        (verdict c (source.faults (run v source (refresh c s name draw) d).requests)) := by
  have hhears := hears_download v source c (namedContext c name) d
  rw [requests_refresh, run_refresh, Outcome.after_effects, List.mem_cons, Outcome.mem_effects_bind]
  constructor
  · rintro (hx | hx | ⟨result, hresult, hx⟩)
    · cases hx
    · exact absurd hx (hhears.unpublished _)
    · rw [← hhears.value_eq result hresult]
      cases hclean : Cache.cleanup _ c.cache v.now with
      | error o =>
        rw [hclean] at hx
        cases hx
      | ok e =>
        rw [hclean] at hx
        exact ⟨(Cache.cleanup_eq_ok_iff.1 hclean).1, status_mem_conclude_iff.1 hx⟩
  · rintro ⟨hin, rfl⟩
    obtain ⟨result, hresult⟩ :=
      exists_download_value source (namedContext c name) d fun _ => hin
    obtain ⟨e, he⟩ := (Cache.exists_cleanup_iff_representable
      (run v source (download c (namedContext c name)) d).cache).2 hin
    refine .inr (.inr ⟨result, hresult, ?_⟩)
    rw [he, ← hhears.value_eq result hresult]
    exact status_mem_conclude_iff.2 rfl

/-- A cycle comes to an outcome unless an instant or a current value is out of range; the outcome
is that of the verdict over the faults that it hears. -/
theorem refresh_value_eq_ok_iff {out : CycleOutcome} :
    (run v source (refresh c s name draw) d).value = .ok out ↔
      c.cache.Representable v.now ∧ VatFits c v (run v source (refresh c s name draw) d).cache ∧
      nextCall v.now (delayAfter c s draw v (run v source (refresh c s name draw) d).cache
        (verdict c (source.faults (run v source (refresh c s name draw) d).requests))).1 =
          .ok out.nextCall ∧
      out = outcomeAfter c s draw v (run v source (refresh c s name draw) d).cache
        (verdict c (source.faults (run v source (refresh c s name draw) d).requests))
        out.nextCall := by
  by_cases hin : c.cache.Representable v.now
  · obtain ⟨result, hresult, hvalue, -⟩ := run_refresh_of_representable hin source s name draw d
    rw [requests_refresh, ← (hears_download ..).value_eq result hresult, hvalue,
      conclude_value_eq_ok_iff, publishPrices_value_iff, ← vatFits_iff, iff_true_intro hin,
      true_and]
  · exact iff_of_false (mt representable_of_refresh hin) fun h => hin h.1

/-- What a cycle lets consumers see when its downloads have failed by some faults. -/
structure Announces (c : Config) (faults : List Fault) (status : ServiceStatus) : Prop where
  online_iff : status = .online ↔ c.validate = .ok () ∧ faults = []
  offline : status ≠ .online → ∃ f, Reports c faults f ∧
    status = .offline (if f.kind = .configuration then .configuration else .communication) f.message
  configuration_iff :
    (∃ message, status = .offline .configuration message) ↔ Misconfigured c faults

theorem announces_ofResult (c : Config) (faults : List Fault) :
    Announces c faults (ServiceStatus.ofResult (verdict c faults)) := by
  cases hverdict : verdict c faults with
  | ok u =>
    have hnone := verdict_eq_ok_iff.1 hverdict
    refine ⟨iff_of_true rfl hnone, fun h => absurd rfl h, iff_of_false ?_ ?_⟩
    · rintro ⟨message, h⟩
      cases h
    · simp [Misconfigured, hnone]
  | error f =>
    have hreports := verdict_eq_error_iff.1 hverdict
    refine ⟨iff_of_false (fun h => by cases h) fun h => ?_, fun _ => ⟨f, hreports, rfl⟩, ?_⟩
    · rw [verdict_eq_ok_iff.2 h] at hverdict
      cases hverdict
    · rw [← hreports.kind_eq_configuration_iff]
      by_cases hf : f.kind = .configuration <;>
        simp [ServiceStatus.ofResult, ServiceStatus.ofFault, hf]

/-- The policy that a cycle selects when its downloads have failed by some faults, and which spot
prices are known after it. -/
structure Selects (c : Config) (v : View) (d : Cache) (faults : List Fault) (p : RetryPolicy) :
    Prop where
  fault : ∀ f, Reports c faults f → p = c.retry.faultPolicy f (publicationTime c) marketZone
  configuration_iff :
    p = .fromFailure .configuration (.fixed (.ofSeconds c.retry.configurationErrorDelay)) ↔
      Misconfigured c faults
  spot : c.validate = .ok () → faults = [] → v.needs .spotPrice → ∃ time,
    c.retry.publicationTime = .ok time ∧
    p = if c.retry.minimumLookaheadHours ≤
          (d.get .spotPrice).hours.countP (v.now.hourStart ≤ ·) then
        .fixedDailyAnchor time marketZone
      else c.retry.missingPolicy time marketZone

theorem candidate_of_needs (hneeds : v.needs .spotPrice) (boot : Bool) :
    candidate c d v boot (.ok ()) =
      if c.retry.minimumLookaheadHours ≤ d.lookahead .spotPrice v.now then
        .fixedDailyAnchor (publicationTime c) marketZone
      else c.retry.missingPolicy (publicationTime c) marketZone := by
  simp only [candidate, shortage?, hneeds, if_true, Bool.true_and, decide_eq_true_eq]
  by_cases henough : c.retry.minimumLookaheadHours ≤ d.lookahead .spotPrice v.now
  · rw [if_neg (Nat.not_lt.2 henough), if_pos henough]
  · rw [if_pos (Nat.lt_of_not_le henough), if_neg henough]
    rfl

theorem candidate_ne_configuration (c : Config) (d : Cache) (v : View) (boot : Bool) (b : Backoff) :
    candidate c d v boot (.ok ()) ≠ .fromFailure .configuration b := by
  by_cases hneeds : v.needs .spotPrice
  · rw [candidate_of_needs hneeds]
    split <;> simp [RetrySettings.missingPolicy]
  · rw [candidate, if_neg hneeds]
    split <;> simp [RetrySettings.initialPolicy]

theorem selects_candidate (c : Config) (v : View) (d : Cache) (faults : List Fault) (boot : Bool) :
    Selects c v d faults (candidate c d v boot (verdict c faults)) := by
  cases hverdict : verdict c faults with
  | error f =>
    have hreports := verdict_eq_error_iff.1 hverdict
    refine ⟨fun g hg => ?_, ?_, fun hvalid hnone => ?_⟩
    · rw [verdict_eq_error_iff.2 hg] at hverdict
      cases hverdict
      rfl
    · rw [← hreports.kind_eq_configuration_iff]
      exact RetrySettings.faultPolicy_eq_configuration_iff
    · rw [verdict_eq_ok_iff.2 ⟨hvalid, hnone⟩] at hverdict
      cases hverdict
  | ok u =>
    obtain ⟨hvalid, rfl⟩ := verdict_eq_ok_iff.1 hverdict
    refine ⟨fun g hg => ?_, ?_, fun _ _ hneeds => ?_⟩
    · rw [verdict_eq_error_iff.2 hg] at hverdict
      cases hverdict
    · exact iff_of_false (candidate_ne_configuration c d v boot _) (by simp [Misconfigured, hvalid])
    · obtain ⟨time, htime⟩ := (Config.rules_of_valid hvalid).1
      have hanchor : publicationTime c = time := by
        rw [publicationTime, htime]
        rfl
      exact ⟨time, htime, hanchor ▸ candidate_of_needs hneeds boot⟩

/-- The policy after a cycle follows the rule of its candidate. -/
theorem rule_outcomeAfter (c : Config) (s : Schedule) (draw : Nat) (v : View) (d : Cache)
    (result : Except Fault Unit) (next : Instant) :
    (outcomeAfter c s draw v d result next).schedule.policy.rule =
      candidate c d v s.bootstrapped result := by
  have hreplaced := RetryPolicy.sameRule_iff.1
    (RetryPolicy.sameRule_replacedBy s.policy (candidate c d v s.bootstrapped result))
  refine (RetryPolicy.rule_next ..).trans (hreplaced.symm.trans ?_)
  exact RetryPolicy.rule_eq_self attempts_candidate

/-- The status of a cycle and the policy after it follow from its configuration and from the faults
that the source answers to its requests, which it makes in the order of the components, one for each
at most. It publishes a status when the window of past hours starts in range, and comes to a policy
when no current value and not the instant of the next cycle is out of range either. The clock is
taken to be ahead of the last two days of the calendar, in which the end of tomorrow is not
representable. -/
theorem refresh_verdict (c : Config) (s : Schedule) (name : String) (draw : Nat) (v : View)
    (_ : marketZone.dayAt v.now + 2 ≤ Zone.lastDay) (source : Source) (d : Cache) :
    ∃ faults : List Fault,
    faults = source.faults (run v source (refresh c s name draw) d).requests ∧
    ((run v source (refresh c s name draw) d).requests.map Request.component).Sublist
      Component.all ∧
    ((∃ status, .publication (.status status) ∈
      (run v source (refresh c s name draw) d).effects) ↔ c.cache.Representable v.now) ∧
    (∀ status, .publication (.status status) ∈
      (run v source (refresh c s name draw) d).effects → Announces c faults status) ∧
    ((∃ out, (run v source (refresh c s name draw) d).value = .ok out) ↔
      c.cache.Representable v.now ∧ VatFits c v (run v source (refresh c s name draw) d).cache ∧
      ∃ next, nextCall v.now (delayAfter c s draw v (run v source (refresh c s name draw) d).cache
        (verdict c faults)).1 = .ok next) ∧
    ∀ out, (run v source (refresh c s name draw) d).value = .ok out →
      Announces c faults out.status ∧
      Selects c v (run v source (refresh c s name draw) d).cache faults
        out.schedule.policy.rule := by
  refine ⟨_, rfl, ?_, ?_, ?_, ?_, ?_⟩
  · rw [requests_refresh]
    exact (hears_download ..).inOrder
  · simp only [status_mem_refresh_iff]
    exact ⟨fun ⟨_, hin, _⟩ => hin, fun hin => ⟨_, hin, rfl⟩⟩
  · intro status hstatus
    rw [(status_mem_refresh_iff.1 hstatus).2]
    exact announces_ofResult ..
  · simp only [refresh_value_eq_ok_iff]
    constructor
    · rintro ⟨out, hin, hvat, hnext, -⟩
      exact ⟨hin, hvat, out.nextCall, hnext⟩
    · rintro ⟨hin, hvat, next, hnext⟩
      exact ⟨outcomeAfter c s draw v _ _ next, hin, hvat, hnext, rfl⟩
  · intro out hout
    rw [(refresh_value_eq_ok_iff.1 hout).2.2.2, rule_outcomeAfter]
    exact ⟨announces_ofResult .., selects_candidate ..⟩

/-- A cycle whose only request is not answered announces that fault, and selects the policy for
it. -/
theorem refresh_verdict_offline : ∃ out,
    (run { now := .ofSeconds 1675512000, subscribed := [.current .systemTariff] }
      (fun _ => .error (.empty "No records")) (refresh {} (.start {}) "cycle" 0) .empty).value =
      .ok out ∧
    Announces {} [.empty "No records"] out.status ∧
    Selects {} { now := .ofSeconds 1675512000, subscribed := [.current .systemTariff] } .empty
      [.empty "No records"] out.schedule.policy.rule := by
  obtain ⟨faults, hfaults, -, -, -, -, hout⟩ := refresh_verdict {} (.start {}) "cycle" 0
    { now := .ofSeconds 1675512000, subscribed := [.current .systemTariff] } (by decide)
    (fun _ => .error (.empty "No records")) .empty
  obtain rfl : faults = [.empty "No records"] := hfaults.trans (by rfl)
  exact ⟨_, rfl, hout _ rfl⟩

/-- A valid configuration may keep a window of past hours that reaches back beyond the first
instant. Then a cycle that needs nothing publishes no status, in the year 2023, though nothing has
failed. -/
theorem refresh_deepHistory_silent :
    ({ cache := { historicHours := 4294967295, keepHistoricSpot := true } } : Config).validate =
      .ok () ∧
    (run { now := .ofSeconds 1675512000 } (.answering (.ok []) (.ok []))
      (refresh { cache := { historicHours := 4294967295, keepHistoricSpot := true } }
        { policy := .initial (.ofSeconds 15) } "cycle" 0) .empty).requests = [] ∧
    (run { now := .ofSeconds 1675512000 } (.answering (.ok []) (.ok []))
      (refresh { cache := { historicHours := 4294967295, keepHistoricSpot := true } }
        { policy := .initial (.ofSeconds 15) } "cycle" 0) .empty).value = .error .time ∧
    ¬ ∃ status, .publication (.status status) ∈
      (run { now := .ofSeconds 1675512000 } (.answering (.ok []) (.ok []))
        (refresh { cache := { historicHours := 4294967295, keepHistoricSpot := true } }
          { policy := .initial (.ofSeconds 15) } "cycle" 0) .empty).effects := by
  refine ⟨by rfl, by rfl, by rfl, ?_⟩
  rintro ⟨status, hstatus⟩
  have hin := (status_mem_refresh_iff.1 hstatus).1
  revert hin
  unfold Retention.Representable
  decide

end Cycle

end HourlyPrices
