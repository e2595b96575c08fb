import HourlyPrices.Proofs.Series.Sum
import HourlyPrices.Proofs.Service.Ticks
import HourlyPrices.Proofs.Service.Traffic
import HourlyPrices.Proofs.Zone.NextTime

/-!
# Coverage lasts for the day

A component that is known to the end of tomorrow needs no download for the rest of the day: neither
cycles nor ticks nor queries request it, downloads of others leave its series alone, and the hours
that are dropped have passed. So it stays covered (`Traffic.coversTomorrow_of_reaches`), unless a
request for it is still under way from before.
-/

namespace HourlyPrices

open Activity

/-- What a property has to be for the service to mind it: it outlasts the dropping of past hours,
and as long as it holds its component has a price and needs no download. -/
structure Watch.Respected (w : Watch) (c : Config) : Prop where
  cleanup : ∀ {t d e}, w.HoldsIn t d → d.cleanup c.cache t = .ok e → w.HoldsIn t e
  settled : ∀ {t d}, w.within t → w.HoldsIn t d → c.needsDownload d w.component t = .ok false
  priced : ∀ {t d}, w.within t → w.HoldsIn t d → ¬ (d.get w.component).isEmpty

variable {α : Type} {w : Watch} {c : Config} {k : Component}

theorem Activity.Minds.clean (h : w.Respected c) {rest : Activity α} (hrest : rest.Minds w) :
    Minds w (do
      .store (← .lift ((← .cached).cleanup c.cache (← .view).now))
      rest) where
  upholds t d _ hd v hv hw := by
    change (lift (d.cleanup c.cache v.now) >>= fun e => store e >>= fun _ => rest).Upholds w v.now d
    cases he : d.cleanup c.cache v.now with
    | error o => exact hd.later hv
    | ok e => exact hrest.upholds v.now e hw (h.cleanup (hd.later hv) he)
  resumes d v := by
    change (lift (d.cleanup c.cache v.now) >>= fun e => store e >>= fun _ => rest).Resumes w
    cases d.cleanup c.cache v.now with
    | error o => trivial
    | ok e => exact hrest.resumes

/-! ## What the service minds -/

namespace Download

/-- A download of another component. -/
theorem minds_component (hk : k ≠ w.component) : (component c k).Minds w := by
  unfold component
  split
  · rename_i hspot
    subst hspot
    unfold spot
    apply Minds.cached_bind
    intro d
    apply Minds.view_bind
    intro v
    apply Minds.lift_bind
    intro history
    refine Minds.ask_bind ?_ fun answer => ?_
    · exact hk
    cases answer with
    | error f => exact .pure _
    | ok records =>
      apply Minds.lift_bind
      intro received
      apply Minds.view_bind
      intro v
      exact ⟨fun t d _ hd => ⟨nofun, hd.put hk _⟩, fun d => trivial⟩
  · unfold tariff
    split
    · exact Minds.log_bind (.pure _)
    · apply Minds.view_bind
      intro v
      refine Minds.ask_bind ?_ fun answer => ?_
      · exact hk
      cases answer with
      | error f => exact .pure _
      | ok records =>
        apply Minds.log_bind
        exact ⟨fun t d _ hd => hd.put hk _, fun d => trivial⟩

theorem resumes_component (c : Config) (k : Component) : (component c k).Resumes w := by
  by_cases hk : k = w.component
  · -- There is no wait for another component.
    unfold component
    split
    · rename_i hspot
      subst hspot
      intro d v
      change (lift (c.wantsHistory d v.now) >>= _).Resumes w
      cases c.wantsHistory d v.now with
      | error o => trivial
      | ok history =>
        refine ⟨fun hr => absurd hk hr, fun answer => ?_⟩
        cases answer with
        | error f => trivial
        | ok records =>
          change (lift (SpotRecord.seriesPerKwh records c.service.currency) >>= _).Resumes w
          cases SpotRecord.seriesPerKwh records c.service.currency with
          | error o => trivial
          | ok received => exact fun _ _ => trivial
    · unfold tariff
      split
      · trivial
      · refine fun v => ⟨fun hr => absurd hk hr, fun answer => ?_⟩
        cases answer with
        | error f => trivial
        | ok records => exact fun _ => trivial
  · exact (minds_component hk).resumes

end Download

namespace Query

theorem minds_series (h : w.Respected c) (k : Component) : (series c k).Minds w := by
  have hdownloaded : Minds w (do
      .store (← .lift ((← .cached).cleanup c.cache (← .view).now))
      return (← .cached).get k) := Minds.clean h (.cached_bind fun _ => .pure _)
  have hfailed : ∀ f : Fault, Minds w (do
      .log c.serviceContext .warn s!"Error retrieving {k.name}: {f.message}"
      return (← .cached).get k) := fun f => Minds.log_bind (.cached_bind fun _ => .pure _)
  unfold series
  constructor
  · intro t d hw hd
    change (if (d.get k).isEmpty then _ else _ : Activity Series).Upholds w t d
    split
    · rename_i hempty
      have hk : k ≠ w.component := fun hk => h.priced hw hd (hk ▸ hempty)
      refine ((Download.minds_component hk).upholds t d hw hd).bind hw fun result => ?_
      cases result with
      | ok n => exact hdownloaded.upholds
      | error f => exact (hfailed f).upholds
    · exact hd
  · intro d
    change (if (d.get k).isEmpty then _ else _ : Activity Series).Resumes w
    split
    · refine (Download.resumes_component c k).bind fun result => ?_
      cases result with
      | ok n => exact hdownloaded
      | error f => exact hfailed f
    · exact fun _ => trivial

theorem minds_sumFrom (h : w.Respected c) (total : Series) (ks : List Component) :
    (sumFrom c total ks).Minds w := by
  induction ks generalizing total with
  | nil => exact .pure _
  | cons k ks ih =>
    rw [sumFrom]
    apply (minds_series h k).bind
    intro s
    apply Minds.lift_bind
    intro total'
    exact ih total'

theorem minds_sum (h : w.Respected c) (ks : List Component) : (sum c ks).Minds w := by
  unfold sum
  split
  · exact Minds.log_bind (.pure _)
  · exact minds_sumFrom h _ ks

theorem minds_sumNamed (h : w.Respected c) (names : String) : (sumNamed c names).Minds w := by
  unfold sumNamed
  split
  · exact minds_sum h _
  · split
    · exact minds_sum h _
    · exact Minds.log_bind (.pure _)

theorem minds_cost (h : w.Respected c) (start stop : Instant) (watts : Decimal) :
    (cost c start stop watts).Minds w := by
  unfold cost
  apply (minds_sum h _).bind
  intro prices
  apply Minds.lift_bind
  intro amount
  dsimp only
  split
  · exact Minds.of_quiet ⟨nofun, trivial⟩
  · exact .pure _

end Query

theorem Question.minds_result (h : w.Respected c) (q : Question) : (q.result c).Minds w := by
  cases q with
  | series k => exact (Query.minds_series h k).bind fun _ => .pure _
  | sum ks => exact (Query.minds_sum h ks).bind fun _ => .pure _
  | sumNamed names => exact (Query.minds_sumNamed h names).bind fun _ => .pure _
  | cost start stop watts => exact (Query.minds_cost h start stop watts).bind fun _ => .pure _

namespace Cycle

theorem minds_attempt (h : w.Respected c) (context : LogContext) (k : Component) :
    (attempt c context k).Minds w := by
  have hlogged : ∀ (l : LogContext) (level : LogLevel) (message : String) (faults : List Fault),
      Minds w (do
        .log l level message
        return faults) := fun _ _ _ _ => Minds.log_bind (.pure _)
  unfold attempt
  constructor
  · intro t d _ hd v hv hw
    have hd := hd.later hv
    change (if !v.needs k then _ else _ : Activity (List Fault)).Upholds w v.now d
    split
    · exact hd
    · change (lift (c.needsDownload d k v.now) >>= _).Upholds w v.now d
      cases hdue : c.needsDownload d k v.now with
      | error o => exact hd
      | ok due =>
        change (if !due then _ else _ : Activity (List Fault)).Upholds w v.now d
        split
        · exact (hlogged ..).upholds v.now d hw hd
        · rename_i htrue
          have hk : k ≠ w.component := by
            rintro rfl
            rw [h.settled hw hd] at hdue
            cases hdue
            exact htrue rfl
          refine ((Download.minds_component hk).upholds v.now d hw hd).bind hw fun result => ?_
          cases result with
          | ok n => exact (hlogged ..).upholds
          | error f => exact (hlogged ..).upholds
  · intro v
    change (if !v.needs k then _ else _ : Activity (List Fault)).Resumes w
    split
    · trivial
    · intro d
      change (lift (c.needsDownload d k v.now) >>= _).Resumes w
      cases c.needsDownload d k v.now with
      | error o => trivial
      | ok due =>
        change (if !due then _ else _ : Activity (List Fault)).Resumes w
        split
        · exact (hlogged ..).resumes
        · refine (Download.resumes_component c k).bind fun result => ?_
          cases result with
          | ok n => exact hlogged ..
          | error f => exact hlogged ..

theorem minds_downloads (h : w.Respected c) (context : LogContext) (ks : List Component) :
    (downloads c context ks).Minds w := by
  induction ks with
  | nil => exact .pure _
  | cons k ks ih =>
    rw [downloads_cons]
    exact (minds_attempt h context k).bind fun _ => ih.bind fun _ => .pure _

theorem minds_refresh (h : w.Respected c) (s : Schedule) (name : String) (draw : Nat) :
    (refresh c s name draw).Minds w := by
  rw [refresh_eq]
  apply Minds.log_bind
  apply Minds.bind
  · unfold download
    split
    · exact .pure _
    · exact (minds_downloads h _ _).bind fun _ => .pure _
  · intro result
    exact Minds.clean h (.of_quiet (conclude_quiet ..))

theorem minds_tick (h : w.Respected c) : (tick c).Minds w :=
  Minds.clean h (.of_quiet (publishPrices_quiet c))

end Cycle

theorem Watch.Respected.minded (h : w.Respected c) : Traffic.Minded c w := by
  intro x s
  cases x with
  | cycle name draw => exact (Cycle.minds_refresh h s name draw).bind fun _ => .pure _
  | tick => exact (Cycle.minds_tick h).bind fun _ => .pure _
  | question q => exact Question.minds_result h q

/-! ## Coverage -/

/-- Coverage to the end of tomorrow, on the day of an instant. -/
def Watch.coverage (k : Component) (t : Instant) : Watch where
  component := k
  within u := k.zone.dayAt u = k.zone.dayAt t
  holds u s := s.HourKeyed ∧
    ∀ h, h.IsHour → u.hourStart ≤ h → h < k.zone.endOfTomorrow t → (s.get? h).isSome
  convex := by
    intro t₁ u t₂ h₁ h₂ hw₁ hw₂
    have hle₁ := k.zone.dayAt_le_dayAt h₁
    have hle₂ := k.zone.dayAt_le_dayAt h₂
    omega
  later hle h := ⟨h.1, fun u hu hstart =>
    h.2 u hu (Instant.le_trans (Instant.hourStart_mono hle) hstart)⟩

namespace Watch

variable {t u : Instant} {d : Cache}

theorem coverage_holdsIn_iff (hu : k.zone.dayAt u = k.zone.dayAt t) :
    (coverage k t).HoldsIn u d ↔ (d.get k).HourKeyed ∧ d.coversTomorrow k u := by
  have hend : k.zone.endOfTomorrow u = k.zone.endOfTomorrow t := by
    rw [Zone.endOfTomorrow, Zone.endOfTomorrow, hu]
  refine and_congr_right fun hkeyed => ?_
  rw [Cache.coversTomorrow_iff (k := k) hkeyed, hend]
  rfl

/-- The service minds the coverage of tariffs, and that of the spot price when no past hours are
kept of it. -/
theorem coverage_respected (hk : k = .spotPrice → c.cache.keepHistoricSpot = false)
    (hlast : k.zone.dayAt t + 2 ≤ Zone.lastDay) : (coverage k t).Respected c where
  cleanup := by
    intro u d e hd he
    have hkept : c.cache.keptFrom k u = u.hourStart := by
      by_cases hspot : k = .spotPrice
      · exact Retention.keptFrom_of_not_keep (hk hspot) k u
      · exact Retention.keptFrom_of_ne hspot _ u
    have hget : e.get k = (d.get k).filterHours (u.hourStart ≤ ·) :=
      hkept ▸ (Cache.cleanup_eq_ok_iff.1 he).2 k
    refine ⟨fun h p hp => ?_, fun h hh hstart hend => ?_⟩
    · change (e.get k).get? h = some p at hp
      rw [hget, Series.get?_filterHours] at hp
      split at hp
      · exact hd.1 h p hp
      · cases hp
    · change ((e.get k).get? h).isSome
      rw [hget, Series.get?_filterHours, if_pos (decide_eq_true hstart)]
      exact hd.2 h hh hstart hend
  settled := by
    intro u d hu hd
    obtain ⟨-, hcovers⟩ := (coverage_holdsIn_iff hu).1 hd
    change c.needsDownload d k u = .ok false
    by_cases hspot : k = .spotPrice
    · subst hspot
      rw [Config.needsDownload_spotPrice (Config.wantsHistory_of_not_keep (hk rfl) d u), hcovers]
      rfl
    · rw [Config.needsDownload_of_ne hspot, hcovers]
      rfl
  priced := by
    intro u d hu hd hempty
    change k.zone.dayAt u = k.zone.dayAt t at hu
    have hlt : u.hourStart < k.zone.endOfTomorrow t := by
      refine Instant.lt_of_le_of_lt (Instant.hourStart_le u) ((Zone.lt_midnight_iff rfl).2 ?_)
      rw [Zone.daysLater_of_le hlast, hu]
      exact Int.lt_add_of_pos_right _ (by decide)
    have hsome := hd.2 u.hourStart (Instant.isHour_hourStart u) (Instant.le_refl _) hlt
    rw [Series.isEmpty_iff.1 hempty] at hsome
    cases hsome

end Watch

namespace Traffic

/-- When a component with prices at clock hours is covered to the end of tomorrow and no request for
it is under way, it stays covered for the rest of the day, and it is not requested: whatever cycles,
ticks and queries go on or begin meanwhile, whatever the source answers, and however the clock moves
on. The window of past spot prices must not be kept for that, and the day after tomorrow must be
representable. -/
theorem coversTomorrow_of_reaches (c : Config) (k : Component)
    (hk : k = .spotPrice → c.cache.keepHistoricSpot = false) {t : Instant} {d : Cache}
    {es es' : List Effect} {σ σ' : Traffic} (hσ : Reaches c ⟨t, d, []⟩ es σ)
    (hlast : k.zone.dayAt σ.now + 2 ≤ Zone.lastDay) (hkeyed : (σ.cache.get k).HourKeyed)
    (hcovers : σ.cache.coversTomorrow k σ.now)
    (hwaiting : ∀ p ∈ σ.waiting, p.request.component ≠ k) (hσ' : Reaches c σ es' σ')
    (hday : k.zone.dayAt σ'.now = k.zone.dayAt σ.now) :
    σ'.cache.coversTomorrow k σ'.now ∧ ∀ r, .request r ∈ es' → r.component ≠ k := by
  have hminded := (Watch.coverage_respected hk hlast).minded
  have hresumable : σ.Resumable (.coverage k σ.now) :=
    hσ.resumable hminded fun p hp => by cases hp
  have hupheld : σ.Upheld (.coverage k σ.now) :=
    ⟨(Watch.coverage_holdsIn_iff rfl).2 ⟨hkeyed, hcovers⟩,
      fun p hp => ⟨hwaiting p hp, (hresumable p hp).1 (hwaiting p hp)⟩⟩
  obtain ⟨hupheld', hes⟩ := hσ'.upheld hminded hupheld rfl hday
  exact ⟨((Watch.coverage_holdsIn_iff hday).1 hupheld'.holds).2, fun r hr => hes _ hr r rfl⟩

/-- At noon spot prices are cached to the end of tomorrow. At one a cycle needs the spot price and
the system tariff. It waits for the system tariff only, and the spot price stays covered. -/
theorem coversTomorrow_of_reaches_cycle :
    let noon := Instant.ofSeconds 1675512000
    let c : Config := { service := { gridCompanyGln := "5790000610099" } }
    ∃ (es : List Effect) (σ : Traffic),
      Reaches c ⟨noon, Cache.empty.put .spotPrice (.flat noon 35 .one), []⟩ es σ ∧
      σ.now = noon.shift (Span.ofHours 1) ∧
      σ.waiting.map (·.request.component) = [.systemTariff] ∧
      σ.cache.coversTomorrow .spotPrice σ.now ∧
      ∀ r, .request r ∈ es → r.component ≠ .spotPrice := by
  intro noon c
  let v : View := ⟨.ofSeconds 1675515600, [.current .spotPrice, .current .systemTariff], none⟩
  let d := Cache.empty.put .spotPrice (.flat noon 35 .one)
  have hwait : Reaches c ⟨noon, d, []⟩ _ _ := .step .refl (.wait (t := v.now) (by decide))
  have hcycle := hwait.step (.begin (.cycle "A" 0) (.start c) (stretch_advance _ v d))
  have hkeyed : (d.get .spotPrice).HourKeyed := Series.hourKeyed_flat (by decide) 35 .one
  obtain ⟨hcovers, hes⟩ := coversTomorrow_of_reaches c .spotPrice (fun _ => rfl) .refl (by decide)
    hkeyed (by decide) (List.forall_mem_nil _) hcycle (by decide)
  exact ⟨_, _, hcycle, by decide, by decide, hcovers, hes⟩

/-- Before noon spot prices are requested, though there are some from noon to the end of tomorrow.
At noon these cover the hours to come. When the request is answered with the price of one hour, that
is all there is. -/
theorem not_coversTomorrow_of_waiting :
    let noon := Instant.ofSeconds 1675512000
    let c : Config := { service := { gridCompanyGln := "5790000610099" } }
    ∃ (es es' : List Effect) (σ σ' : Traffic),
      Reaches c ⟨.ofSeconds 1675510200, Cache.empty.put .spotPrice (.flat noon 35 .one), []⟩ es σ ∧
      (σ.cache.get .spotPrice).HourKeyed ∧ σ.cache.coversTomorrow .spotPrice σ.now ∧
      Reaches c σ es' σ' ∧
      Component.spotPrice.zone.dayAt σ'.now = Component.spotPrice.zone.dayAt σ.now ∧
      ¬ σ'.cache.coversTomorrow .spotPrice σ'.now := by
  intro noon c
  let v : View := ⟨.ofSeconds 1675510200, [.current .spotPrice], none⟩
  let d := Cache.empty.put .spotPrice (.flat noon 35 .one)
  let p := advance v ((Errand.cycle "A" 0).activity c (.start c)) d
  let σ : Traffic := ⟨noon, p.2.1, p.2.2.pending ++ []⟩
  have hcycle : Reaches c ⟨v.now, d, []⟩ _ ⟨v.now, p.2.1, p.2.2.pending ++ []⟩ :=
    .step .refl (.begin _ _ (stretch_advance _ v d))
  have hnoon : Reaches c ⟨v.now, d, []⟩ _ σ := hcycle.step (.wait (t := noon) (by decide))
  have hcache : σ.cache = d := by decide
  have hkeyed : (σ.cache.get .spotPrice).HourKeyed :=
    hcache ▸ Series.hourKeyed_flat (by decide) 35 .one
  have hcovers : σ.cache.coversTomorrow .spotPrice σ.now := by decide
  let source : Source := .answering
    (.ok [{ hour := noon, dkk := some { num := 1000, scale := 0 } }]) (.ok [])
  have hanswer : Step c σ _ _ := .resume_head (by decide) { v with now := noon } rfl (source _)
  exact ⟨_, _, σ, _, hnoon, hkeyed, hcovers, .step .refl hanswer, rfl, by decide⟩

end Traffic

end HourlyPrices
