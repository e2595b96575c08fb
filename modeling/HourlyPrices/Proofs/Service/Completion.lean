import HourlyPrices.Proofs.Decimal.Value
import HourlyPrices.Proofs.Retry.Policy
import HourlyPrices.Proofs.Service.Isolation
import HourlyPrices.Proofs.Time.Hours

/-!
# When cycles complete

A cycle and an hourly tick can overflow in three places: at the start of the window of past hours,
at a current value with value added tax, and at the instant at which the next cycle is due. Where
none of them overflows, the status and the prices are published and the next cycle is planned
(`Cycle.refresh_completes_iff`). The configuration need not be valid for this, and it does not
matter what the source answers: its prices never overflow on their way to the cache.
-/

namespace HourlyPrices.Cycle

open Activity

variable {v : View} {source : Source} {c : Config} {context : LogContext} {d : Cache}
  {k : Component} {ks : List Component} {s : Schedule} {draw : Nat} {result : Except Fault Unit}

/-! ## Publishing -/

theorem run_publishCurrent_cons (v : View) (source : Source) (c : Config) (k : Component)
    (ks : List Component) (d : Cache) :
    run v source (publishCurrent c (k :: ks)) d =
      if .current k ∈ v.subscribed then
        match c.currentValue d k v.now with
        | .error o => ⟨[], d, .error o⟩
        | .ok x => (run v source (publishCurrent c ks) d).after (.publication (.currentValue k x))
      else run v source (publishCurrent c ks) d := by
  rw [publishCurrent]
  simp only [run_view_bind, List.contains_iff_mem]
  split
  · simp only [run_cached_bind]
    cases c.currentValue d k v.now <;> rfl
  · rfl

/-- Current values can be published when each of those that are subscribed can be computed. -/
theorem publishCurrent_value_iff (v : View) (source : Source) (c : Config) (d : Cache)
    (ks : List Component) :
    (run v source (publishCurrent c ks) d).value = .ok () ↔
      ∀ k ∈ ks, .current k ∈ v.subscribed → ∃ x, c.currentValue d k v.now = .ok x := by
  induction ks with
  | nil => simp [publishCurrent]
  | cons k ks ih =>
    rw [run_publishCurrent_cons, List.forall_mem_cons]
    split
    · cases c.currentValue d k v.now <;> simp [*]
    · simp [*]

theorem mem_publishCurrent {x : Option Decimal}
    (h : (run v source (publishCurrent c ks) d).value = .ok ()) (hk : k ∈ ks)
    (hs : .current k ∈ v.subscribed) (hx : c.currentValue d k v.now = .ok x) :
    .publication (.currentValue k x) ∈ (run v source (publishCurrent c ks) d).effects := by
  induction ks with
  | nil => cases hk
  | cons l ks ih =>
    rw [run_publishCurrent_cons] at h ⊢
    rcases List.mem_cons.1 hk with rfl | hk
    · simp [hs, hx]
    · by_cases hl : .current l ∈ v.subscribed
      · rw [if_pos hl] at h ⊢
        cases hy : c.currentValue d l v.now with
        | error o => simp [hy] at h
        | ok y =>
          rw [hy] at h
          exact List.mem_cons_of_mem _ (ih h hk)
      · rw [if_neg hl] at h ⊢
        exact ih h hk

/-- What has been published of the prices in a cache: the current values and the curve, as far as
they have consumers. -/
structure Publishes (c : Config) (v : View) (d : Cache) (effects : List Effect) : Prop where
  current : ∀ k, .current k ∈ v.subscribed → ∃ x, c.currentValue d k v.now = .ok x ∧
    .publication (.currentValue k x) ∈ effects
  curve : .hourlyPrices ∈ v.subscribed → .publication (.futurePrices (c.futurePrices d)) ∈ effects

theorem run_publishPrices (v : View) (source : Source) (c : Config) (d : Cache) :
    run v source (publishPrices c) d =
      (run v source (publishCurrent c Component.all) d).bind fun _ d =>
        if .hourlyPrices ∈ v.subscribed then
          ⟨[.publication (.futurePrices (c.futurePrices d))], d, .ok ()⟩
        else ⟨[], d, .ok ()⟩ := by
  rw [publishPrices, run_seq]
  congr 1
  funext _ d
  simp only [run_view_bind, List.contains_iff_mem]
  split <;> rfl

theorem publishPrices_value_iff (v : View) (source : Source) (c : Config) (d : Cache) :
    (run v source (publishPrices c) d).value = .ok () ↔
      ∀ k, .current k ∈ v.subscribed → ∃ x, c.currentValue d k v.now = .ok x := by
  have hcurrent := publishCurrent_value_iff v source c d Component.all
  simp only [Component.mem_all, true_imp_iff] at hcurrent
  rw [run_publishPrices, Outcome.bind_value_eq_ok_iff, ← hcurrent]
  constructor
  · rintro ⟨⟨⟩, h, -⟩
    exact h
  · intro h
    refine ⟨(), h, ?_⟩
    split <;> rfl

theorem publishes_publishPrices (h : (run v source (publishPrices c) d).value = .ok ()) :
    Publishes c v d (run v source (publishPrices c) d).effects := by
  have hall := (publishPrices_value_iff v source c d).1 h
  have hcurrent : (run v source (publishCurrent c Component.all) d).value = .ok () :=
    (publishCurrent_value_iff v source c d _).2 fun k _ => hall k
  rw [run_publishPrices]
  refine ⟨fun k hk => ?_, fun hk => ?_⟩
  · obtain ⟨x, hx⟩ := hall k hk
    exact ⟨x, hx, Outcome.mem_effects_bind_left
      (mem_publishCurrent hcurrent (Component.mem_all k) hk hx) _⟩
  · refine Outcome.mem_effects_bind_right hcurrent ?_
    rw [if_pos hk, (publishCurrent_quiet c _).run_cache]
    exact List.mem_singleton.2 rfl

/-! ## Deciding on the next cycle -/

/-- The wait after a cycle with this result, and the schedule behind it. -/
def delayAfter (c : Config) (s : Schedule) (draw : Nat) (v : View) (d : Cache)
    (result : Except Fault Unit) : Duration × Schedule :=
  reschedule s (candidate c d v s.bootstrapped result) result.isOk v.now draw

/-- What a cycle with this result ends with, when the next one is due at an instant. -/
def outcomeAfter (c : Config) (s : Schedule) (draw : Nat) (v : View) (d : Cache)
    (result : Except Fault Unit) (next : Instant) : CycleOutcome where
  status := ServiceStatus.ofResult result
  delay := (delayAfter c s draw v d result).1
  nextCall := next
  schedule := (delayAfter c s draw v d result).2

theorem noteFault_value (v : View) (source : Source) (context : LogContext)
    (result : Except Fault Unit) (d : Cache) :
    (run v source (noteFault context result) d).value = .ok () := by
  cases result <;> rfl

theorem noteShortage_value (c : Config) (result : Except Fault Unit) (e : Cache) :
    (run v source (noteShortage c result e v) d).value = .ok () := by
  unfold noteShortage
  split <;> rfl

theorem publishProperties_value (ps : List (String × String)) :
    (run v source (publishProperties ps) d).value = .ok () := by
  induction ps with
  | nil => rfl
  | cons p ps ih => exact ih

/-- The plan for the next cycle is made unless the instant of the next cycle is out of range. -/
theorem plan_value_eq_ok_iff {e : Cache} {out : CycleOutcome} :
    (run v source (plan c s context draw result v e) d).value = .ok out ↔
      nextCall v.now (delayAfter c s draw v e result).1 = .ok out.nextCall ∧
        out = outcomeAfter c s draw v e result out.nextCall := by
  change (run v source (Activity.lift (nextCall v.now (delayAfter c s draw v e result).1) >>= _)
    d).value = .ok out ↔ _
  cases nextCall v.now (delayAfter c s draw v e result).1 with
  | error o => simp
  | ok next =>
    rw [run_lift_ok_bind, run_seq, Outcome.bind_of_ok (publishProperties_value _)]
    simp only [run_log_bind, Outcome.after_value, run_pure, Except.ok.injEq]
    constructor
    · rintro rfl
      exact ⟨rfl, rfl⟩
    · rintro ⟨rfl, h⟩
      exact h.symm

/-- A cycle concludes if the prices can be published and the instant of the next cycle is not out of
range. -/
theorem conclude_value_eq_ok_iff {out : CycleOutcome} :
    (run v source (conclude c s context draw result) d).value = .ok out ↔
      (run v source (publishPrices c) d).value = .ok () ∧
      nextCall v.now (delayAfter c s draw v d result).1 = .ok out.nextCall ∧
        out = outcomeAfter c s draw v d result out.nextCall := by
  have hfault := noteFault_value v source context result d
  rw [conclude, run_seq, Outcome.bind_of_ok hfault, (noteFault_quiet _ _).run_cache,
    run_publish_bind, Outcome.after_value, run_seq, Outcome.bind_value_eq_ok_iff,
    (publishPrices_quiet c).run_cache]
  simp only [run_view_bind, run_cached_bind, run_seq (noteShortage c result d v),
    Outcome.bind_of_ok (noteShortage_value c result d), (noteShortage_quiet c result d v).run_cache,
    plan_value_eq_ok_iff]
  constructor
  · rintro ⟨⟨⟩, h⟩
    exact h
  · intro h
    exact ⟨(), h⟩

theorem Publishes.mono {es es' : List Effect} (h : Publishes c v d es) (hsub : ∀ e ∈ es, e ∈ es') :
    Publishes c v d es' where
  current k hk := by
    obtain ⟨x, hx, hm⟩ := h.current k hk
    exact ⟨x, hx, hsub _ hm⟩
  curve hk := hsub _ (h.curve hk)

/-- A cycle that comes to its conclusion publishes its status. -/
theorem status_mem_conclude :
    .publication (.status (ServiceStatus.ofResult result)) ∈
      (run v source (conclude c s context draw result) d).effects := by
  rw [conclude, run_seq]
  refine Outcome.mem_effects_bind_right (noteFault_value v source context result d) ?_
  rw [run_publish_bind, Outcome.after_effects]
  exact List.mem_cons_self

theorem publishes_conclude (h : (run v source (publishPrices c) d).value = .ok ()) :
    Publishes c v d (run v source (conclude c s context draw result) d).effects := by
  refine (publishes_publishPrices h).mono fun e he => ?_
  rw [conclude, run_seq]
  refine Outcome.mem_effects_bind_right (noteFault_value v source context result d) ?_
  rw [(noteFault_quiet _ _).run_cache, run_publish_bind, Outcome.after_effects, run_seq]
  exact List.mem_cons_of_mem _ (Outcome.mem_effects_bind_left he _)

/-! ## What can overflow -/

/-- The window of past hours starts in range unless it is kept and deeper than time goes back. -/
theorem representable_iff {now : Instant} (h : now.inRange) :
    c.cache.Representable now ↔ (c.cache.keepHistoricSpot →
      Instant.minSeconds + 3600 * c.cache.historicHours ≤ now.hourStart.seconds) := by
  have hle := Instant.hourStart_le now
  rw [Instant.inRange_iff] at h
  simp only [Instant.hourStart, Instant.ofSeconds, Instant.le_def] at hle
  refine imp_congr_right fun hkeep => ?_
  simp only [Retention.keptFrom, hkeep, and_self, if_true, Instant.inRange_iff, Instant.ofSeconds,
    Instant.hourStart, secondsPerHour] at hle ⊢
  omega

/-- The current values that consumers get with value added tax stay, by more than a half, below the
bound of coefficients. -/
def VatFits (c : Config) (v : View) (d : Cache) : Prop :=
  ∀ k p, .current k ∈ v.subscribed → k ∈ c.vat.includeVat → d.valueAt? k v.now = some p →
    |p.toRat * (vatFactor c.vat.country).toRat| < 2 ^ 96 - 1 / 2

/-- A current value can be computed unless its product with value added tax overflows. -/
theorem exists_currentValue_iff {now : Instant} :
    (∃ x, c.currentValue d k now = .ok x) ↔
      ∀ p, k ∈ c.vat.includeVat → d.valueAt? k now = some p →
        (p.mul? (vatFactor c.vat.country)).isSome := by
  unfold Config.currentValue
  cases d.valueAt? k now with
  | none => simp
  | some p =>
    by_cases hk : k ∈ c.vat.includeVat
    · simp only [hk, true_imp_iff, Option.some.injEq, forall_eq']
      cases p.mul? (vatFactor c.vat.country) with
      | none =>
        refine iff_of_false ?_ (by simp)
        rintro ⟨x, hx⟩
        cases hx
      | some q => exact iff_of_true ⟨some q, rfl⟩ rfl
    · simp [hk]

theorem vatFits_iff : VatFits c v d ↔
    ∀ k, .current k ∈ v.subscribed → ∃ x, c.currentValue d k v.now = .ok x := by
  have hbound : (coefficientBound : ℚ) = 2 ^ 96 := by norm_num [coefficientBound]
  simp only [exists_currentValue_iff, Decimal.mul?_isSome_iff, hbound]
  exact ⟨fun h k hs p => h k p hs, fun h k p hs => h k hs p⟩

/-- An instant that is in range with its delay is found as it is: the delay fits a span. -/
theorem nextCall_of_add? {now t : Instant} {delay : Duration} (h : now.inRange)
    (hadd : now.add? delay.toSpan = some t) : nextCall now delay = .ok t := by
  have hnonneg : 0 ≤ delay.toSpan.nanos := Int.natCast_nonneg _
  have hle := Instant.le_seconds_shift (t := now) hnonneg
  have hrange : (now.shift delay.toSpan).inRange := by
    unfold Instant.add? at hadd
    dsimp only at hadd
    split at hadd
    · assumption
    · cases hadd
  have hfits : delay.toSpan.inRange := by
    simp only [Instant.inRange, decide_eq_true_eq] at h hrange
    simp only [Span.inRange, decide_eq_true_eq]
    rw [Span.seconds, Int.tdiv_eq_ediv_of_nonneg hnonneg] at hle
    simp only [Instant.minSeconds, Instant.maxSeconds, Span.maxMillis, nanosPerSecond] at *
    omega
  rw [nextCall, Span.checked, if_pos hfits, Option.getD_some, hadd]
  rfl

/-! ## The whole cycle -/

/-- A cycle has completed as it should: the status and the prices that have consumers have been
published, the policy in force follows the rule of the one that the result asks for, the wait is not
shorter than a second, and the next cycle is due when it is over. -/
structure Completes (c : Config) (s : Schedule) (v : View) (result : Except Fault Unit)
    (o : Outcome CycleOutcome) (out : CycleOutcome) : Prop where
  value : o.value = .ok out
  status : out.status = ServiceStatus.ofResult result
  status_published : .publication (.status out.status) ∈ o.effects
  prices_published : Publishes c v o.cache o.effects
  policy : (candidate c o.cache v s.bootstrapped result).sameRule out.schedule.policy
  delay_ge : RetryPolicy.shortestDelay.nanos ≤ out.delay.nanos
  nextCall_eq : v.now.add? out.delay.toSpan = some out.nextCall

/-- With the window of past hours in range, a cycle comes to its conclusion. -/
theorem run_refresh_of_representable (h : c.cache.Representable v.now) (source : Source)
    (s : Schedule) (name : String) (draw : Nat) (d : Cache) :
    ∃ result, (run v source (download c (namedContext c name)) d).value = .ok result ∧
      (run v source (refresh c s name draw) d).value =
        (run v source (conclude c s (namedContext c name) draw result)
          (run v source (refresh c s name draw) d).cache).value ∧
      ∀ x ∈ (run v source (conclude c s (namedContext c name) draw result)
          (run v source (refresh c s name draw) d).cache).effects,
        x ∈ (run v source (refresh c s name draw) d).effects := by
  obtain ⟨result, hr⟩ := exists_download_value source (namedContext c name) d fun _ => h
  obtain ⟨e, he⟩ := (Cache.exists_cleanup_iff_representable
    (run v source (download c (namedContext c name)) d).cache).2 h
  refine ⟨result, hr, ?_⟩
  rw [run_refresh, Outcome.bind_of_ok hr]
  simp only [he, (conclude_quiet c s _ draw result).run_cache, Outcome.after_cache,
    Outcome.after_value, Outcome.after_effects, List.mem_cons, List.mem_append, true_and]
  exact fun x hx => .inr (.inr hx)

/-- A cycle that ends with a value has found the window of past hours in range. -/
theorem representable_of_refresh {name : String} {out : CycleOutcome}
    (h : (run v source (refresh c s name draw) d).value = .ok out) :
    c.cache.Representable v.now := by
  by_contra hout
  rw [(refresh_of_not_representable hout source s name draw d).1] at h
  cases h

theorem run_tick (v : View) (source : Source) (c : Config) (d : Cache) :
    run v source (tick c) d = match d.cleanup c.cache v.now with
      | .error o => ⟨[], d, .error o⟩
      | .ok e => run v source (publishPrices c) e := by
  simp only [tick, run_cached_bind, run_view_bind]
  cases d.cleanup c.cache v.now <;> rfl

/-- A cycle completes exactly when the window of past hours, if it is kept, does not reach back
beyond the first instant, the published current values do not overflow with value added tax, and the
instant at which the wait is over is in range. An hourly tick completes exactly under the first two
conditions. -/
theorem refresh_completes_iff (c : Config) (s : Schedule) (name : String) (draw : Nat) (v : View)
    (source : Source) (d : Cache) (hnow : v.now.inRange) :
    ((∃ result out, (run v source (download c (namedContext c name)) d).value = .ok result ∧
        Completes c s v result (run v source (refresh c s name draw) d) out) ↔
      (c.cache.keepHistoricSpot →
        Instant.minSeconds + 3600 * c.cache.historicHours ≤ v.now.hourStart.seconds) ∧
      VatFits c v (run v source (refresh c s name draw) d).cache ∧
      ∀ result, (run v source (download c (namedContext c name)) d).value = .ok result →
        (v.now.add? (delayAfter c s draw v
          (run v source (refresh c s name draw) d).cache result).1.toSpan).isSome) ∧
    ((run v source (tick c) d).value = .ok () ∧
        Publishes c v (run v source (tick c) d).cache (run v source (tick c) d).effects ↔
      (c.cache.keepHistoricSpot →
        Instant.minSeconds + 3600 * c.cache.historicHours ≤ v.now.hourStart.seconds) ∧
      VatFits c v (run v source (tick c) d).cache) := by
  rw [← representable_iff hnow, vatFits_iff, vatFits_iff]
  constructor
  · constructor
    · rintro ⟨result, out, hr, h⟩
      have hin := representable_of_refresh h.value
      obtain ⟨result', hr', hvalue, -⟩ :=
        run_refresh_of_representable hin source s name draw d
      obtain rfl : result' = result := by simpa [hr] using hr'.symm
      obtain ⟨hprices, -, hout⟩ := conclude_value_eq_ok_iff.1 (hvalue ▸ h.value)
      refine ⟨hin, (publishPrices_value_iff v source c _).1 hprices, fun result'' hr'' => ?_⟩
      obtain rfl : result'' = result' := by simpa [hr'] using hr''.symm
      have hnext := h.nextCall_eq
      rw [hout] at hnext
      exact Option.isSome_of_mem hnext
    · rintro ⟨hin, hvat, hdelay⟩
      obtain ⟨result, hr, hvalue, heffects⟩ :=
        run_refresh_of_representable hin source s name draw d
      obtain ⟨next, hnext⟩ := Option.isSome_iff_exists.1 (hdelay result hr)
      have hprices := (publishPrices_value_iff v source c _).2 hvat
      refine ⟨result, outcomeAfter c s draw v _ result next, hr, ?_, rfl,
        heffects _ status_mem_conclude, (publishes_conclude hprices).mono heffects, ?_, ?_, hnext⟩
      · rw [hvalue]
        exact conclude_value_eq_ok_iff.2 ⟨hprices, nextCall_of_add? hnow hnext, rfl⟩
      · simp only [outcomeAfter, delayAfter, reschedule, RetryPolicy.sameRule_next]
        exact RetryPolicy.sameRule_replacedBy _ _
      · exact RetryPolicy.shortestDelay_le_next _ _ _
  · rw [run_tick]
    constructor
    · rintro ⟨hvalue, hpub⟩
      cases hclean : d.cleanup c.cache v.now with
      | error o => simp [hclean] at hvalue
      | ok e =>
        simp only [hclean] at hpub ⊢
        refine ⟨(Cache.exists_cleanup_iff_representable d).1 ⟨e, hclean⟩, fun k hk => ?_⟩
        obtain ⟨x, hx, -⟩ := hpub.current k hk
        exact ⟨x, hx⟩
    · rintro ⟨hin, hvat⟩
      obtain ⟨e, he⟩ := (Cache.exists_cleanup_iff_representable d).2 hin
      simp only [he, (publishPrices_quiet c).run_cache] at hvat ⊢
      have hprices := (publishPrices_value_iff v source c _).2 hvat
      exact ⟨hprices, publishes_publishPrices hprices⟩

/-- A cycle without answers, in which the spot price that is known is published with value added
tax. -/
theorem refresh_completes_offline :
    ∃ result out,
      (run { now := .ofSeconds 1675512000, subscribed := [.current .spotPrice, .hourlyPrices] }
        (fun _ => .error (.empty "No records"))
        (download { vat := { includeVat := [.spotPrice] } }
          (namedContext { vat := { includeVat := [.spotPrice] } } "cycle"))
        (.put .empty .spotPrice
          (.ofList [(.ofSeconds 1675512000, { num := 100, scale := 2 })]))).value = .ok result ∧
      Completes { vat := { includeVat := [.spotPrice] } } { policy := .initial (.ofSeconds 15) }
        { now := .ofSeconds 1675512000, subscribed := [.current .spotPrice, .hourlyPrices] } result
        (run { now := .ofSeconds 1675512000, subscribed := [.current .spotPrice, .hourlyPrices] }
          (fun _ => .error (.empty "No records"))
          (refresh { vat := { includeVat := [.spotPrice] } } { policy := .initial (.ofSeconds 15) }
            "cycle" 0)
          (.put .empty .spotPrice
            (.ofList [(.ofSeconds 1675512000, { num := 100, scale := 2 })]))) out := by
  refine (refresh_completes_iff { vat := { includeVat := [.spotPrice] } } _ "cycle" 0 _ _ _
    (by decide)).1.2 ⟨fun h => absurd h (by decide), fun k p hk _ hp => ?_, fun result hr => ?_⟩
  · obtain rfl : k = .spotPrice := by simpa using hk
    obtain rfl : { num := 100, scale := 2 } = p := Option.some.inj (Eq.trans rfl hp)
    have hvat : vatFactor "DK" = { num := 125, scale := 2 } := by rfl
    norm_num [hvat, Decimal.toRat]
  · obtain rfl : .error (.empty "No records") = result := Except.ok.inj (Eq.trans rfl hr)
    rfl

/-- A valid configuration may ask for a window of past hours that reaches back beyond the first
instant. Then neither the cycle nor the hourly tick completes, in the year 2023. -/
theorem deepHistory_overflows :
    ({ cache := { historicHours := 4294967295, keepHistoricSpot := true } } : Config).validate =
      .ok () ∧
    (run { now := .ofSeconds 1675512000 } (fun _ => .error (.empty "No records"))
      (tick { cache := { historicHours := 4294967295, keepHistoricSpot := true } })
      .empty).value = .error .time ∧
    (run { now := .ofSeconds 1675512000 } (fun _ => .error (.empty "No records"))
      (refresh { cache := { historicHours := 4294967295, keepHistoricSpot := true } }
        { policy := .initial (.ofSeconds 15) } "cycle" 0) .empty).value = .error .time :=
  ⟨by rfl, by rfl, by rfl⟩

end HourlyPrices.Cycle
