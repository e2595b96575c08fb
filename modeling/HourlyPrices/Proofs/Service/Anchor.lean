import HourlyPrices.Proofs.Cache.Coverage
import HourlyPrices.Proofs.Cache.Retention
import HourlyPrices.Proofs.Service.Progress
import HourlyPrices.Proofs.Time.Setting
import HourlyPrices.Proofs.Zone.NextTime

/-!
# Waiting for the next publication

When a cycle is content, it waits for a time of day: that of the publication, or midnight. A
component that is covered then keeps a price at every instant of the wait, however many hourly ticks
drop past hours meanwhile (`Cycle.covered_until_next`).
-/

namespace HourlyPrices.Cycle

open Activity OffsetTable

variable {c : Config} {s : Schedule} {name : String} {draw : Nat} {v v' : View} {d d' : Cache}
  {result : Except Fault Unit} {out : CycleOutcome} {time : TimeOfDay} {zone : Zone}
  {k : Component} {now t u : Instant}

/-! ## The time of day -/

theorem publicationTime_nanos (c : Config) : (publicationTime c).nanos ≤ nanosPerSecond := by
  unfold publicationTime RetrySettings.publicationTime
  cases h : TimeOfDay.ofText c.retry.dailyPublicationTime with
  | error f => exact Nat.zero_le _
  | ok time =>
    rcases TimeOfDay.nanos_ofText h with h | h
    · exact Nat.le_trans (Nat.le_of_eq h) (Nat.zero_le _)
    · exact Nat.le_of_eq h

theorem publicationZone_table (h : c.timezone = "CET" ∨ c.timezone = "Europe/Copenhagen") :
    (publicationZone c).table = .centralEurope := by
  unfold publicationZone Config.localZone
  rcases h with h | h
  · rw [h]
    rfl
  · rw [h]
    rfl

/-- A cycle that ends with the wait for a time of day was decided so, and its delay is that wait. -/
theorem Passes.eq_of_fixedDailyAnchor (h : Passes c s name draw v d result v' d' out)
    (hpolicy : out.schedule.policy = .fixedDailyAnchor time zone) :
    candidate c d' v' s.bootstrapped result = .fixedDailyAnchor time zone ∧
      out.delay = (RetryPolicy.untilNext time zone v'.now).longer RetryPolicy.shortestDelay := by
  obtain ⟨hdelay, hpolicy'⟩ := h.policy_eq
  have hrule : (decision c s v' d' result).inForce.rule = .fixedDailyAnchor time zone := by
    rw [← RetryPolicy.rule_next _ v'.now draw, ← hpolicy', hpolicy]
    rfl
  refine ⟨RetryPolicy.eq_of_rule_fixedDailyAnchor ((Decision.rule_inForce _).symm.trans hrule), ?_⟩
  rw [hdelay, RetryPolicy.eq_of_rule_fixedDailyAnchor hrule]
  rfl

/-- The time of day is that of the publication or midnight, each by a clock of central Europe. -/
theorem Passes.anchor (h : Passes c s name draw v d result v' d' out)
    (hpolicy : out.schedule.policy = .fixedDailyAnchor time zone)
    (hzone : c.timezone = "CET" ∨ c.timezone = "Europe/Copenhagen") :
    time.nanos ≤ nanosPerSecond ∧ zone.table = .centralEurope := by
  have hcandidate := (h.eq_of_fixedDailyAnchor hpolicy).1
  obtain ⟨f, hf⟩ | heq | heq | heq := candidate_cases c d' v' s.bootstrapped result
  · obtain ⟨m, n, jitter, hb, -⟩ := c.retry.backoff?_faultPolicy f (publicationTime c) marketZone
    rw [← hf, hcandidate] at hb
    cases hb
  · rw [hcandidate] at heq
    cases heq
  · rw [hcandidate] at heq
    cases heq
    exact ⟨publicationTime_nanos c, rfl⟩
  · rw [hcandidate] at heq
    cases heq
    exact ⟨Nat.zero_le _, publicationZone_table hzone⟩

/-! ## The instant of the next cycle -/

/-- The next cycle is due when the delay is over, or after a second. -/
theorem eq_of_nextCall {delay : Duration} (h : nextCall now delay = .ok u) :
    u = now.shift delay.toSpan ∨ u = now.shift (.ofSeconds 1) := by
  have hadd : ∀ {e : Span}, Overflow.time.unless (now.add? e) = .ok u → u = now.shift e := by
    intro e he
    unfold Instant.add? at he
    dsimp only at he
    split at he
    · cases he
      rfl
    · cases he
  unfold nextCall at h
  cases hfits : delay.toSpan.checked with
  | none =>
    rw [hfits] at h
    exact .inr (hadd h)
  | some e =>
    rw [hfits] at h
    unfold Span.checked at hfits
    split at hfits
    · cases hfits
      exact .inl (hadd h)
    · cases hfits

/-- A delay of a second or more ends behind now and outside leap seconds. -/
theorem lt_of_nextCall {delay : Duration} (hdelay : nanosPerSecond ≤ delay.nanos)
    (h : nextCall now delay = .ok u) :
    now < u ∧ u.nanos < nanosPerSecond ∧
      (u.seconds = now.seconds + 1 ∨ u = now.shift delay.toSpan) := by
  rcases eq_of_nextCall h with hu | hu
  · have hspan : (nanosPerSecond : Int) ≤ delay.toSpan.nanos := Int.ofNat_le.2 hdelay
    obtain ⟨-, hnanos, hlt⟩ := Instant.position_shift (t := now) hspan
    rw [← hu] at hnanos hlt
    exact ⟨hlt, hnanos, .inr hu⟩
  · have hsecond : (nanosPerSecond : Int) ≤ (Span.ofSeconds 1).nanos := by decide
    obtain ⟨hpos, hnanos, hlt⟩ := Instant.position_shift (t := now) hsecond
    rw [← hu] at hpos hnanos hlt
    refine ⟨hlt, hnanos, .inl ?_⟩
    simp only [Instant.position, Span.ofSeconds, nanosPerSecond] at hpos hnanos
    omega

/-- After a wait for a time of day the next cycle is due behind now and not behind the end of
tomorrow. -/
theorem Passes.nextCall_le (h : Passes c s name draw v d result v' d' out)
    (hpolicy : out.schedule.policy = .fixedDailyAnchor time zone)
    (hzone : c.timezone = "CET" ∨ c.timezone = "Europe/Copenhagen")
    (hlast : marketZone.dayAt v'.now + 2 ≤ Zone.lastDay) :
    v'.now < out.nextCall ∧
      (out.nextCall < marketZone.endOfTomorrow v'.now ∨
        out.nextCall = marketZone.endOfTomorrow v'.now ∧ time.seconds = 86399 ∧
          time.nanos = nanosPerSecond ∧ nanosPerSecond ≤ v'.now.nanos ∧
          (marketZone.endOfTomorrow v'.now).seconds =
            (marketZone.midnight (marketZone.dayAt v'.now + 1)).seconds + 25 * secondsPerHour) := by
  obtain ⟨htime, htable⟩ := h.anchor hpolicy hzone
  have hdelay := (h.eq_of_fixedDailyAnchor hpolicy).2
  have hcall : nextCall v'.now out.delay = .ok out.nextCall := by
    obtain ⟨hcall, hout⟩ := h.nextCall_eq
    have hsame : out.delay = (delayAfter c s draw v' d' result).1 := by rw [hout, outcomeAfter]
    rw [hsame, hcall]
  have hday : zone.dayAt v'.now = marketZone.dayAt v'.now := Zone.dayAt_congr htable _
  have hend : marketZone.endOfTomorrow v'.now = zone.midnight (zone.dayAt v'.now + 2) := by
    rw [Zone.endOfTomorrow, Zone.daysLater_of_le (by exact_mod_cast hlast), hday,
      Zone.midnight_eq rfl, Zone.midnight_eq htable]
    rfl
  have hlonger : nanosPerSecond ≤ out.delay.nanos := hdelay ▸ Nat.le_max_right _ _
  obtain ⟨hlt, hnanos, hwait⟩ := lt_of_nextCall hlonger hcall
  refine ⟨hlt, ?_⟩
  rw [hend]
  obtain hless | ⟨heq, hsec, hleap, hclock, hlong⟩ :=
    Zone.nextAt_wait_le htable (by omega) htime hnanos (hdelay ▸ hwait)
  · exact .inl hless
  · refine .inr ⟨heq, hsec, hleap, hclock, ?_⟩
    rw [Zone.midnight_eq htable, Zone.midnight_eq rfl, ← hday]
    exact hlong

/-! ## Ticks during the wait -/

/-- What some hourly ticks, one after the other, leave of a cache. -/
def ticks (c : Config) (source : Source) (ws : List View) (d : Cache) : Cache :=
  ws.foldl (fun d w => (run w source (tick c) d).cache) d

/-- A tick keeps the entries from the first hour that is kept on. -/
theorem get?_tick {p : Decimal} (source : Source) (hp : (d.get k).get? u = some p)
    (hu : c.cache.keptFrom k v.now ≤ u) :
    ((run v source (tick c) d).cache.get k).get? u = some p := by
  rw [run_tick]
  cases hclean : d.cleanup c.cache v.now with
  | error o => exact hp
  | ok e =>
    dsimp only
    rw [(publishPrices_quiet c).run_cache]
    exact (Cache.get?_cleanup hclean k u p).2 ⟨hp, hu⟩

theorem get?_ticks {p : Decimal} {ws : List View} (source : Source)
    (hp : (d.get k).get? u = some p) (hu : ∀ w ∈ ws, c.cache.keptFrom k w.now ≤ u) :
    ((ticks c source ws d).get k).get? u = some p := by
  unfold ticks
  induction ws generalizing d with
  | nil => exact hp
  | cons w ws ih =>
    obtain ⟨hw, hws⟩ := List.forall_mem_cons.1 hu
    exact ih (get?_tick source hp hw) hws

/-- When a cycle of the years from 1995 to 2036 ends with the wait for a time of day, the next cycle
is due behind now and not behind the end of tomorrow; it is due at the end of tomorrow only if the
time of day and the clock stand within a leap second at the end of the day, and tomorrow has 25
hours. A component with prices at clock hours that is covered has a price at every instant of the
wait, whatever ticks there have been from now to then. -/
theorem covered_until_next (c : Config) (s : Schedule) (name : String) (draw : Nat) (v v' : View)
    (d d' : Cache) (out : CycleOutcome) (h : (refresh c s name draw).Course v d v' d' (.ok out))
    (time : TimeOfDay) (zone : Zone) (hpolicy : out.schedule.policy = .fixedDailyAnchor time zone)
    (hzone : c.timezone = "CET" ∨ c.timezone = "Europe/Copenhagen")
    (hyears : Zone.InTables v'.now) (k : Component)
    (hkeyed : (d'.get k).HourKeyed) (hcovered : d'.coversTomorrow k v'.now) :
    v'.now < out.nextCall ∧
    (out.nextCall < marketZone.endOfTomorrow v'.now ∨
      out.nextCall = marketZone.endOfTomorrow v'.now ∧ time.seconds = 86399 ∧
        time.nanos = nanosPerSecond ∧ nanosPerSecond ≤ v'.now.nanos ∧
        (marketZone.endOfTomorrow v'.now).seconds =
          (marketZone.midnight (marketZone.dayAt v'.now + 1)).seconds + 25 * secondsPerHour) ∧
    ∀ t ws source, v'.now ≤ t → t < out.nextCall → (∀ w ∈ ws, v'.now ≤ w.now ∧ w.now ≤ t) →
      ((ticks c source ws d').valueAt? k t).isSome := by
  obtain ⟨result, hp⟩ := course_refresh_iff.1 h
  obtain ⟨hlt, hend⟩ := hp.nextCall_le hpolicy hzone (hyears.dayAt_le_lastDay rfl)
  refine ⟨hlt, hend, fun t ws source hfrom hto hws => ?_⟩
  have hstop : t < k.zone.endOfTomorrow v'.now := by
    rcases hend with hless | ⟨heq, -⟩
    · exact Instant.lt_trans hto hless
    · exact heq ▸ hto
  obtain ⟨p, hp⟩ := Option.isSome_iff_exists.1 ((Cache.coversTomorrow_iff hkeyed).1 hcovered
    t.hourStart (Instant.isHour_hourStart t) (Instant.hourStart_mono hfrom)
    (Instant.lt_of_le_of_lt (Instant.hourStart_le t) hstop))
  -- A tick keeps what is known from its own hour on, if not more.
  have hkept : ∀ w ∈ ws, c.cache.keptFrom k w.now ≤ t.hourStart := fun w hw =>
    Instant.le_trans (c.cache.keptFrom_le_hourStart k w.now)
      (Instant.hourStart_mono (hws w hw).2)
  rw [Cache.valueAt?, get?_ticks source hp hkept]
  rfl

/-- At eleven in the evening, when nothing is needed, a cycle waits for midnight. The spot prices,
which are known to the end of tomorrow, have a price until then, also after a tick. -/
theorem covered_until_midnight : ∃ out : CycleOutcome,
    (refresh {} { policy := .initial (.ofSeconds 15), bootstrapped := true } "cycle" 0).Course
      { now := .ofSeconds 1675548000 }
      (.put .empty .spotPrice (.flat (.ofSeconds 1675548000) 25 { num := 1, scale := 0 }))
      { now := .ofSeconds 1675548000 }
      (.put .empty .spotPrice (.flat (.ofSeconds 1675548000) 25 { num := 1, scale := 0 }))
      (.ok out) ∧
    out.schedule.policy = .fixedDailyAnchor .midnight .copenhagen ∧
    Instant.ofSeconds 1675548000 < out.nextCall ∧
    ∀ t, Instant.ofSeconds 1675548000 ≤ t → t < out.nextCall →
      ((ticks {} (fun _ => .error (.empty "No records")) [{ now := t }]
        (.put .empty .spotPrice (.flat (.ofSeconds 1675548000) 25
          { num := 1, scale := 0 }))).valueAt? .spotPrice t).isSome := by
  have hrun : ∃ out, (run { now := .ofSeconds 1675548000 } (fun _ => .error (.empty "No records"))
      (refresh {} { policy := .initial (.ofSeconds 15), bootstrapped := true } "cycle" 0)
      (.put .empty .spotPrice (.flat (.ofSeconds 1675548000) 25
        { num := 1, scale := 0 }))).value = .ok out ∧
      out.schedule.policy = .fixedDailyAnchor .midnight .copenhagen := ⟨_, rfl, rfl⟩
  have hcache : (run { now := .ofSeconds 1675548000 } (fun _ => .error (.empty "No records"))
      (refresh {} { policy := .initial (.ofSeconds 15), bootstrapped := true } "cycle" 0)
      (.put .empty .spotPrice (.flat (.ofSeconds 1675548000) 25
        { num := 1, scale := 0 }))).cache =
      .put .empty .spotPrice (.flat (.ofSeconds 1675548000) 25 { num := 1, scale := 0 }) := by
    decide +kernel
  obtain ⟨out, hvalue, hpolicy⟩ := hrun
  have hcourse := hcache ▸ hvalue ▸ course_run ..
  obtain ⟨hlt, -, hknown⟩ := covered_until_next {} _ _ _ _ _ _ _ out hcourse _ _ hpolicy (.inr rfl)
    ⟨by decide, by decide⟩ .spotPrice (Series.hourKeyed_flat (by decide) _ _) (by decide +kernel)
  refine ⟨out, hcourse, hpolicy, hlt, fun t hfrom hto => hknown t _ _ hfrom hto fun w hw => ?_⟩
  obtain rfl := List.mem_singleton.1 hw
  exact ⟨hfrom, Instant.le_refl t⟩

/-- Within a leap second at the end of a day before one of 25 hours, a cycle that waits for the same
time of day waits to the end of tomorrow. -/
theorem nextCall_eq_endOfTomorrow :
    (Cache.put .empty .spotPrice (.flat (.ofSeconds 1698526800) 26
      { num := 1, scale := 0 })).coversTomorrow .spotPrice ⟨1698530399, nanosPerSecond, by decide⟩ ∧
    (Series.flat (.ofSeconds 1698526800) 26 { num := 1, scale := 0 }).HourKeyed ∧
    ∃ out : CycleOutcome,
      (run { now := ⟨1698530399, nanosPerSecond, by decide⟩, subscribed := [.current .spotPrice] }
        (fun _ => .error (.empty "No records"))
        (refresh { retry := { dailyPublicationTime := "23:59:60" } }
          (.start { retry := { dailyPublicationTime := "23:59:60" } }) "cycle" 0)
        (.put .empty .spotPrice (.flat (.ofSeconds 1698526800) 26
          { num := 1, scale := 0 }))).value = .ok out ∧
      out.schedule.policy =
        .fixedDailyAnchor ⟨86399, nanosPerSecond, by decide, by decide⟩ marketZone ∧
      ¬ out.nextCall < marketZone.endOfTomorrow ⟨1698530399, nanosPerSecond, by decide⟩ :=
  ⟨by decide +kernel, Series.hourKeyed_flat (by decide) _ _, _, rfl, rfl, by decide +kernel⟩

end HourlyPrices.Cycle
