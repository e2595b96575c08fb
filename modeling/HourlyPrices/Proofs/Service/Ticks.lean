import HourlyPrices.Proofs.Cache.Coverage
import HourlyPrices.Proofs.Cache.Retention
import HourlyPrices.Proofs.Service.Serving

/-!
# Cycles without their ticks

A tick does nothing to the cache but drop past hours. When no past spot prices are kept, a cycle
reads nothing from the cache before it has dropped past hours itself, other than what is known from
the current hour on. So it goes side by side with a cycle that starts without some of the past hours
(`Cycle.abreast_refresh`), and a run with ticks has the same cycles as one without, as long as no
tick overflows (`cyclesOf_serve_eq_of_ticks`).
-/

namespace HourlyPrices

open Activity

variable {c : Config} {d e f : Cache} {k : Component} {v : View} {t u : Instant}

theorem Series.hours_filterHours (s : Series) (keep : Instant → Bool) :
    (s.filterHours keep).hours = s.hours.filter keep := by
  simp only [hours, filterHours, List.filter_map]
  rfl

/-- Tests that pass from an instant on alone count the same hours. -/
theorem Series.countHours_filterHours {s : Series} {p : Instant → Bool} (h : ∀ x, p x → t ≤ x) :
    (s.filterHours (t ≤ ·)).countHours p = s.countHours p := by
  rw [countHours, countHours, hours_filterHours, List.countP_filter]
  refine List.countP_congr fun x _ => ?_
  simpa using h x

namespace Cache

/-- Two caches have the same prices from the hour of an instant on. -/
def SameFrom (t : Instant) (d e : Cache) : Prop :=
  ∀ k, (d.get k).filterHours (t.hourStart ≤ ·) = (e.get k).filterHours (t.hourStart ≤ ·)

namespace SameFrom

theorem refl (t : Instant) (d : Cache) : SameFrom t d d := fun _ => rfl

theorem trans (h : SameFrom t d e) (h' : SameFrom t e f) : SameFrom t d f :=
  fun k => (h k).trans (h' k)

theorem later (h : SameFrom t d e) (htu : t ≤ u) : SameFrom u d e := by
  intro k
  have hlatest := Instant.latest_of_le (Instant.hourStart_mono htu)
  have hfrom := Series.filterHours_from_from (t := t.hourStart) (u := u.hourStart)
  rw [hlatest] at hfrom
  rw [← hfrom, h k, hfrom]

theorem put (h : SameFrom t d e) (k : Component) (s : Series) :
    SameFrom t (d.put k s) (e.put k s) := by
  intro l
  rw [get_put, get_put]
  split
  · rfl
  · exact h l

theorem countHours_eq (h : SameFrom t d e) (k : Component) {p : Instant → Bool}
    (hp : ∀ x, p x → t.hourStart ≤ x) : (d.get k).countHours p = (e.get k).countHours p := by
  rw [← Series.countHours_filterHours hp, h k, Series.countHours_filterHours hp]

theorem coversTomorrow_eq (h : SameFrom t d e) (k : Component) :
    d.coversTomorrow k t = e.coversTomorrow k t := by
  simp only [coversTomorrow]
  rw [h.countHours_eq k fun x hx => (of_decide_eq_true hx).1]

end SameFrom

/-- Dropping past hours changes nothing from then on. -/
theorem sameFrom_cleanup (h : d.cleanup c.cache t = .ok e) (htu : t ≤ u) : SameFrom u e d := by
  intro k
  rw [(cleanup_eq_ok_iff.1 h).2 k, Series.filterHours_from_from,
    Instant.latest_of_le (Instant.le_trans (c.cache.keptFrom_le_hourStart k t)
      (Instant.hourStart_mono htu))]

end Cache

section NoHistory

variable (hkeep : c.cache.keepHistoricSpot = false)
include hkeep

theorem Retention.keptFrom_of_not_keep (k : Component) (now : Instant) :
    c.cache.keptFrom k now = now.hourStart := if_neg fun h => by simp [hkeep] at h

/-- When past hours are dropped from caches that are the same from now on, the same is left. -/
theorem Cache.SameFrom.cleanup_eq (h : Cache.SameFrom t d e) :
    ∃ f, d.cleanup c.cache t = .ok f ∧ e.cleanup c.cache t = .ok f := by
  have hin : c.cache.Representable t := fun hkept => by simp [hkeep] at hkept
  obtain ⟨f, hf⟩ := (Cache.exists_cleanup_iff_representable d).2 hin
  refine ⟨f, hf, Cache.cleanup_eq_ok_iff.2 ⟨hin, fun k => ?_⟩⟩
  rw [(Cache.cleanup_eq_ok_iff.1 hf).2 k, Retention.keptFrom_of_not_keep hkeep, h k]

theorem Config.wantsHistory_of_not_keep (d : Cache) (now : Instant) :
    c.wantsHistory d now = .ok false := by
  rw [wantsHistory, if_neg (by simp [hkeep])]

theorem Cache.SameFrom.needsDownload_eq (h : Cache.SameFrom t d e) (k : Component) :
    ∃ due, c.needsDownload d k t = .ok due ∧ c.needsDownload e k t = .ok due := by
  refine ⟨!d.coversTomorrow k t, ?_⟩
  by_cases hk : k = .spotPrice
  · subst hk
    rw [Config.needsDownload_spotPrice (Config.wantsHistory_of_not_keep hkeep d t),
      Config.needsDownload_spotPrice (Config.wantsHistory_of_not_keep hkeep e t),
      h.coversTomorrow_eq]
    exact ⟨rfl, rfl⟩
  · rw [Config.needsDownload_of_ne hk, Config.needsDownload_of_ne hk, h.coversTomorrow_eq]
    exact ⟨rfl, rfl⟩

end NoHistory

/-! ## Cycles side by side -/

namespace Cycle

/-- Two activities show the same, while the time does not go back. -/
def inTime : Pairing where
  follows v w := v.now ≤ w.now
  shows _ _ _ x y := x = y
  breaks := False

/-- Two activities have come to the same, with caches that are the same from now on. -/
def Alike {α : Type} (v : View) (d e : Cache) (x y : α) : Prop := d.SameFrom v.now e ∧ x = y

variable (hkeep : c.cache.keepHistoricSpot = false) (h : d.SameFrom v.now e)
include hkeep h

theorem abreast_spot : Abreast inTime Alike v (Download.spot c) d (Download.spot c) e := by
  unfold Download.spot
  apply Abreast.cached_bind
  apply Abreast.view_bind
  intro v' hv
  have hhistory (d : Cache) := Config.wantsHistory_of_not_keep hkeep d v'.now
  apply Abreast.lift_bind (hhistory d) (hhistory e)
  apply Abreast.ask_bind rfl
  intro answer
  cases answer with
  | error fault => exact .done ⟨h.later hv, rfl⟩
  | ok records =>
    obtain ⟨received, hreceived⟩ :=
      SpotRecord.exists_seriesPerKwh records (c.spotQuery false).currency
    apply Abreast.lift_bind hreceived hreceived
    apply Abreast.view_bind
    intro v'' hv'
    apply Abreast.cached_bind
    apply Abreast.log_bind rfl
    simp only [hkeep, Bool.false_and, Bool.false_eq_true, if_false]
    apply Abreast.store_bind
    exact .done ⟨(h.later (Instant.le_trans hv hv')).put _ _, rfl⟩

omit hkeep in
theorem abreast_tariff (k : Component) :
    Abreast inTime Alike v (Download.tariff c k) d (Download.tariff c k) e := by
  unfold Download.tariff
  cases c.tariffQuery? k with
  | none => exact Abreast.log_bind rfl (.done ⟨h, rfl⟩)
  | some query =>
    apply Abreast.view_bind
    intro v' hv
    apply Abreast.ask_bind rfl
    intro answer
    cases answer with
    | error fault => exact .done ⟨h.later hv, rfl⟩
    | ok records =>
      apply Abreast.log_bind rfl
      apply Abreast.cached_bind
      apply Abreast.store_bind
      exact .done ⟨(h.later hv).put _ _, rfl⟩

theorem abreast_component (k : Component) :
    Abreast inTime Alike v (Download.component c k) d (Download.component c k) e := by
  unfold Download.component
  split
  · exact abreast_spot hkeep h
  · exact abreast_tariff h k

theorem abreast_attempt (context : LogContext) (k : Component) :
    Abreast inTime Alike v (attempt c context k) d (attempt c context k) e := by
  unfold attempt
  apply Abreast.view_bind
  intro v' hv
  have h' := h.later hv
  dsimp only
  split
  · exact .done ⟨h', rfl⟩
  · obtain ⟨due, hd, he⟩ := h'.needsDownload_eq hkeep k
    apply Abreast.cached_bind
    apply Abreast.lift_bind hd he
    split
    · exact Abreast.log_bind rfl (.done ⟨h', rfl⟩)
    · apply (abreast_component hkeep h' k).bind
      rintro w d e answer _ ⟨hsame, rfl⟩
      cases answer with
      | ok n => exact Abreast.log_bind rfl (.done ⟨hsame, rfl⟩)
      | error fault => exact Abreast.log_bind rfl (.done ⟨hsame, rfl⟩)

theorem abreast_downloads (context : LogContext) (ks : List Component) :
    Abreast inTime Alike v (downloads c context ks) d (downloads c context ks) e := by
  induction ks generalizing v d e with
  | nil => exact .done ⟨h, rfl⟩
  | cons k ks ih =>
    rw [downloads_cons]
    apply (abreast_attempt hkeep h context k).bind
    rintro v d e faults _ ⟨h, rfl⟩
    apply (ih h).bind
    rintro v d e faults' _ ⟨h, rfl⟩
    exact .done ⟨h, rfl⟩

theorem abreast_download (context : LogContext) :
    Abreast inTime Alike v (download c context) d (download c context) e := by
  unfold download
  split
  · exact .done ⟨h, rfl⟩
  · apply (abreast_downloads hkeep h context _).bind
    rintro v d e faults _ ⟨h, rfl⟩
    exact .done ⟨h, rfl⟩

/-- Cycles from caches that are the same from now on show the same, and leave the same cache. -/
theorem abreast_refresh (s : Schedule) (name : String) (draw : Nat) :
    Abreast inTime (fun _ d e x y => d = e ∧ x = y) v (refresh c s name draw) d
      (refresh c s name draw) e := by
  rw [refresh_eq]
  apply Abreast.log_bind rfl
  apply (abreast_download hkeep h _).bind
  rintro v d e result _ ⟨h, rfl⟩
  apply Abreast.cached_bind
  apply Abreast.view_bind
  intro v' hv
  obtain ⟨f, hd, he⟩ := (h.later hv).cleanup_eq hkeep
  apply Abreast.lift_bind hd he
  apply Abreast.store_bind
  -- From here on the caches are equal.
  exact Abreast.refl (.of_forall (fun _ => trivial) _) (fun _ _ _ _ => rfl) _ _

end Cycle

/-! ## Runs -/

theorem Cycle.outcome_eq_of_agree {α : Type} {p q : Performance α}
    (h : inTime.Agree (fun _ d e x y => d = e ∧ x = y) p q) : p.outcome = q.outcome := by
  have heffects {ss ss' : List Sight} (hs : List.Forall₂ inTime.Matches ss ss') :
      ss.map (·.effect) = ss'.map (·.effect) := by
    induction hs with
    | nil => rfl
    | cons hm _ ih => rw [List.map_cons, List.map_cons, ih, hm.2]
  cases h with
  | ended hs h =>
    obtain ⟨rfl, rfl⟩ := h
    exact congrArg (Outcome.mk · _ _) (heffects hs)
  | overflow hs => exact congrArg (Outcome.mk · _ _) (heffects hs)
  | left h => exact h.elim
  | right h => exact h.elim

theorem Activity.Quiet.play_cache {α : Type} {a : Activity α} (h : a.Quiet) (w : Outside) (v : View)
    (d : Cache) : (play w v a d).cache = d := by
  induction a generalizing w v with
  | done _ | overflow _ => rfl
  | look next ih => exact ih _ (h _) _ _
  | read next ih => exact ih d (h d) w v
  | write e rest _ => exact h.elim
  | tell x rest ih => exact ih h.2 w v
  | fetch r next _ => exact h.elim

namespace Standing

variable {σ τ : Standing} {x : Occasion} {xs : List Occasion}

/-- What a tick leaves is the same from then on. -/
theorem sameFrom_perform_tick (htick : x.errand = .tick) (hle : (x.outside.view 0).now ≤ u) :
    (σ.perform c x).cache.SameFrom u σ.cache := by
  have hperform : σ.perform c x = play x.outside.looked (x.outside.view 0) (do
      .store (← .lift (σ.cache.cleanup c.cache (x.outside.view 0).now))
      Cycle.publishPrices c
      return Errand.Result.none) σ.cache := by
    rw [perform, htick]
    simp only [Errand.activity, Cycle.tick, bind_assoc]
    rfl
  rw [hperform]
  cases hclean : σ.cache.cleanup c.cache (x.outside.view 0).now with
  | error o => exact .refl _ _
  | ok e =>
    have hquiet : (do Cycle.publishPrices c; return Errand.Result.none : Activity _).Quiet :=
      (Cycle.publishPrices_quiet c).bind fun _ => .pure _
    change Cache.SameFrom u (play x.outside.looked (x.outside.view 0)
      (do Cycle.publishPrices c; return Errand.Result.none) e).cache σ.cache
    rw [hquiet.play_cache]
    exact Cache.sameFrom_cleanup hclean hle

/-- What a cycle shows and leaves is not changed by what past hours are in the cache. -/
theorem outcome_perform_cycle (hkeep : c.cache.keepHistoricSpot = false)
    (hcycle : x.errand.isCycle) (hforward : x.outside.Forward) (hschedule : σ.schedule = τ.schedule)
    (h : σ.cache.SameFrom (x.outside.view 0).now τ.cache) :
    (σ.perform c x).outcome = (τ.perform c x).outcome := by
  obtain ⟨errand, w⟩ := x
  cases errand with
  | cycle name draw =>
    have hw : Cycle.inTime.Admits (w.view 0) w := ⟨Instant.le_refl _, hforward⟩
    apply Cycle.outcome_eq_of_agree
    rw [perform, perform, ← hschedule]
    apply Abreast.play _ hw
    apply (Cycle.abreast_refresh hkeep h σ.schedule name draw).bind
    rintro v d _ out _ ⟨rfl, rfl⟩
    exact .done ⟨rfl, rfl⟩
  | tick => cases hcycle
  | question q => cases hcycle

/-- Errands with the same outcome leave the same behind, and both end the run or neither does. -/
theorem after_eq_of_outcome (hschedule : σ.schedule = τ.schedule)
    (h : (σ.perform c x).outcome = (τ.perform c x).outcome) :
    x.ends (σ.perform c x) = x.ends (τ.perform c x) ∧
      σ.after x (σ.perform c x) = τ.after x (τ.perform c x) := by
  have hcache : (σ.perform c x).cache = (τ.perform c x).cache := congrArg Outcome.cache h
  have hvalue : (σ.perform c x).value = (τ.perform c x).value := congrArg Outcome.value h
  constructor
  · rw [Occasion.ends, Occasion.ends, hvalue]
  · simp only [after, hcache, hvalue, hschedule]

end Standing

/-- No tick of a run keeps a cycle from being run: each comes to an end, or no cycle stands behind
the last one. -/
def TicksPass (c : Config) (σ : Standing) (xs : List Occasion) : Prop :=
  (∀ r ∈ serve c σ xs, r.1.errand = .tick → r.2.value.isOk) ∨
    ∀ x ∈ xs.drop (serve c σ xs).length, ¬ x.errand.isCycle

section

variable {σ : Standing} {x : Occasion} {xs : List Occasion}

theorem ticksPass_of_ok (h : ∀ r ∈ serve c σ xs, r.2.value.isOk) : TicksPass c σ xs :=
  .inl fun r hr _ => h r hr

theorem ticksPass_nil : TicksPass c σ [] := .inl fun _ hr => absurd hr List.not_mem_nil

theorem ticksPass_of_ends_cycle (hcycle : x.errand.isCycle) (hends : x.ends (σ.perform c x)) :
    TicksPass c σ (x :: xs) := by
  rw [TicksPass, serve_cons, if_pos hends]
  refine .inl fun r hr htick => ?_
  obtain rfl := List.mem_singleton.1 hr
  rw [htick] at hcycle
  cases hcycle

theorem ticksPass_cons_iff_of_ends_tick (htick : x.errand = .tick)
    (hends : x.ends (σ.perform c x)) :
    TicksPass c σ (x :: xs) ↔ ∀ y ∈ xs, ¬ y.errand.isCycle := by
  have hover : ¬ (σ.perform c x).value.isOk := fun h => Occasion.not_ends_of_ok h hends
  rw [TicksPass, serve_cons, if_pos hends]
  simp [htick, hover]

theorem ticksPass_cons_iff (hends : ¬ x.ends (σ.perform c x)) (hq : x.errand.isQuestion = false) :
    TicksPass c σ (x :: xs) ↔ TicksPass c (σ.after x (σ.perform c x)) xs := by
  have hok : (σ.perform c x).value.isOk := by simpa [Occasion.ends, hq] using hends
  rw [TicksPass, TicksPass, serve_cons, if_neg hends, List.forall_mem_cons, List.length_cons,
    List.drop_succ_cons, and_iff_right fun _ => hok]

theorem cyclesOf_serve_filter_eq_nil_iff {τ : Standing} :
    cyclesOf (serve c τ (xs.filter (·.errand.isCycle))) = [] ↔ ∀ y ∈ xs, ¬ y.errand.isCycle := by
  rw [← List.filter_eq_nil_iff]
  cases hcycles : xs.filter (·.errand.isCycle) with
  | nil => exact iff_of_true rfl rfl
  | cons y ys =>
    have hmem : y ∈ xs.filter (·.errand.isCycle) := hcycles ▸ List.mem_cons_self
    have hy := (List.mem_filter.1 hmem).2
    rw [cyclesOf_serve_of_cycle hy]
    exact iff_of_false nofun nofun

end

/-- The cycles of a run with ticks begin those of the run without them. They are all of these unless
a tick keeps one from being run. -/
theorem cyclesOf_serve_filter (hkeep : c.cache.keepHistoricSpot = false) {xs : List Occasion}
    (hxs : Chronological xs) (hq : ∀ x ∈ xs, x.errand.isQuestion = false) {σ τ : Standing}
    (hschedule : σ.schedule = τ.schedule)
    (h : ∀ x ∈ xs, ∀ n, σ.cache.SameFrom (x.outside.view n).now τ.cache) :
    cyclesOf (serve c σ xs) <+: cyclesOf (serve c τ (xs.filter (·.errand.isCycle))) ∧
      (cyclesOf (serve c σ xs) = cyclesOf (serve c τ (xs.filter (·.errand.isCycle))) ↔
        TicksPass c σ xs) := by
  induction xs generalizing σ τ with
  | nil => exact ⟨List.prefix_refl _, iff_of_true rfl ticksPass_nil⟩
  | cons x xs ih =>
    obtain ⟨hbefore, hbetween⟩ := List.pairwise_cons.1 hxs.between
    obtain ⟨hqx, hqs⟩ := List.forall_mem_cons.1 hq
    obtain ⟨hx, hrest⟩ := List.forall_mem_cons.1 h
    replace ih := @ih ⟨fun y hy => hxs.within y (.tail x hy), hbetween⟩ hqs
    by_cases hcycle : x.errand.isCycle
    · have hout := Standing.outcome_perform_cycle hkeep hcycle (hxs.within x (.head xs)) hschedule
        (hx 0)
      obtain ⟨hends, hafter⟩ := Standing.after_eq_of_outcome hschedule hout
      rw [List.filter_cons, if_pos hcycle, cyclesOf_serve_of_cycle hcycle,
        cyclesOf_serve_of_cycle hcycle, hout, ← hends, ← hafter]
      by_cases hend : x.ends (σ.perform c x)
      · rw [if_pos hend, if_pos hend]
        exact ⟨List.prefix_refl _, iff_of_true rfl (ticksPass_of_ends_cycle hcycle hend)⟩
      · obtain ⟨hbegins, heq⟩ := ih rfl fun _ _ _ => .refl _ _
        rw [if_neg hend, if_neg hend, ticksPass_cons_iff hend hqx, List.cons_inj_right, heq]
        exact ⟨(List.prefix_cons_inj _).2 hbegins, Iff.rfl⟩
    · have htick : x.errand = .tick := by
        cases herrand : x.errand with
        | cycle _ _ => simp [herrand, Errand.isCycle] at hcycle
        | tick => rfl
        | question _ => simp [herrand, Errand.isQuestion] at hqx
      rw [List.filter_cons, if_neg hcycle, cyclesOf_serve_of_not_cycle hcycle]
      by_cases hend : x.ends (σ.perform c x)
      · rw [if_pos hend, eq_comm, cyclesOf_serve_filter_eq_nil_iff,
          ticksPass_cons_iff_of_ends_tick htick hend]
        refine ⟨?_, Iff.rfl⟩
        exact List.nil_prefix
      · rw [if_neg hend, ticksPass_cons_iff hend hqx]
        apply ih
        · simp only [Standing.after, htick, hschedule]
        · intro y hy n
          exact (Standing.sameFrom_perform_tick htick (hbefore y hy 0 n)).trans (hrest y hy n)

/-- When no past spot prices are kept, the cycles of a run with ticks begin those of the run without
them: each makes the same requests, shows the same and comes to the same outcome, and leaves the
same cache. They are all of these exactly when no tick overflows ahead of a cycle. So two runs with
the same cycles, and with any ticks between them that do not overflow, have the same cycles. The
clock is taken to be ahead of the last two days of the calendar. -/
theorem cyclesOf_serve_eq_of_ticks (c : Config) (hkeep : c.cache.keepHistoricSpot = false)
    (σ : Standing) (xs ys : List Occasion) (hxs : Chronological xs) (hys : Chronological ys)
    (_ : ∀ x ∈ xs, ∀ n, marketZone.dayAt (x.outside.view n).now + 2 ≤ Zone.lastDay)
    (hxq : ∀ x ∈ xs, x.errand.isQuestion = false) (hyq : ∀ y ∈ ys, y.errand.isQuestion = false)
    (h : xs.filter (·.errand.isCycle) = ys.filter (·.errand.isCycle)) :
    cyclesOf (serve c σ xs) <+: cyclesOf (serve c σ (xs.filter (·.errand.isCycle))) ∧
    (cyclesOf (serve c σ xs) = cyclesOf (serve c σ (xs.filter (·.errand.isCycle))) ↔
      TicksPass c σ xs) ∧
    (TicksPass c σ xs → TicksPass c σ ys → cyclesOf (serve c σ xs) = cyclesOf (serve c σ ys)) := by
  obtain ⟨hbegins, hiff⟩ := cyclesOf_serve_filter (σ := σ) (τ := σ) hkeep hxs hxq rfl
    fun _ _ _ => .refl _ _
  obtain ⟨-, hiff'⟩ := cyclesOf_serve_filter (σ := σ) (τ := σ) hkeep hys hyq rfl
    fun _ _ _ => .refl _ _
  exact ⟨hbegins, hiff, fun hpx hpy => by rw [hiff.2 hpx, hiff'.2 hpy, h]⟩

/-- A tick at one o'clock drops the hour from noon before a cycle at two would. -/
theorem cyclesOf_serve_eq_of_ticks_noon : ∃ (σ : Standing) (x t y : Occasion),
    x.errand.isCycle ∧ t.errand = .tick ∧ y.errand.isCycle ∧
      cyclesOf (serve {} σ [x, t, y]) = cyclesOf (serve {} σ [x, y]) := by
  refine ⟨⟨Cache.empty.put .spotPrice (.flat (.ofSeconds 1675512000) 4 .one), .start {}⟩,
    ⟨.cycle "A" 0, .still ⟨.ofSeconds 1675512000, Channel.all, none⟩ fun _ => .error (.empty "")⟩,
    ⟨.tick, .still ⟨.ofSeconds 1675515600, Channel.all, none⟩ fun _ => .error (.empty "")⟩,
    ⟨.cycle "B" 0, .still ⟨.ofSeconds 1675519200, Channel.all, none⟩ fun _ => .error (.empty "")⟩,
    rfl, rfl, rfl, ?_⟩
  refine (cyclesOf_serve_eq_of_ticks {} rfl _ _ _
    (.of_still [(.cycle "A" 0, ⟨.ofSeconds 1675512000, Channel.all, none⟩, _),
      (.tick, ⟨.ofSeconds 1675515600, Channel.all, none⟩, _),
      (.cycle "B" 0, ⟨.ofSeconds 1675519200, Channel.all, none⟩, _)] (by decide))
    (.of_still [(.cycle "A" 0, ⟨.ofSeconds 1675512000, Channel.all, none⟩, _),
      (.cycle "B" 0, ⟨.ofSeconds 1675519200, Channel.all, none⟩, _)] (by decide))
    (forall_view_of_still (P := fun v => marketZone.dayAt v.now + 2 ≤ Zone.lastDay)
      [(.cycle "A" 0, ⟨.ofSeconds 1675512000, Channel.all, none⟩, _),
        (.tick, ⟨.ofSeconds 1675515600, Channel.all, none⟩, _),
        (.cycle "B" 0, ⟨.ofSeconds 1675519200, Channel.all, none⟩, _)] (by decide))
    (by decide) (by decide) rfl).2.2 ?_ ?_
  · exact ticksPass_of_ok (by decide +kernel)
  · exact ticksPass_of_ok (by decide +kernel)

/-- A price that overflows with value added tax at one o'clock alone ends the run with a tick in
that hour. Without the tick there is a cycle at two. -/
theorem cyclesOf_serve_ne_of_overflow : ∃ (c : Config) (σ : Standing) (x t y : Occasion),
    c.validate = .ok () ∧ c.cache.keepHistoricSpot = false ∧ Chronological [x, t, y] ∧
    x.errand.isCycle ∧ t.errand = .tick ∧ y.errand.isCycle ∧
    (cyclesOf (serve c σ [x, t, y])).length = 1 ∧ (cyclesOf (serve c σ [x, y])).length = 2 := by
  refine ⟨{ vat := { includeVat := [.spotPrice] } },
    ⟨Cache.empty.put .spotPrice (.ofList [(.ofSeconds 1675512000, .one),
      (.ofSeconds 1675515600, { num := 79228162514264337593543950335, scale := 0 }),
      (.ofSeconds 1675519200, .one)]), .start {}⟩,
    ⟨.cycle "A" 0, .still ⟨.ofSeconds 1675512000, Channel.all, none⟩ fun _ => .error (.empty "")⟩,
    ⟨.tick, .still ⟨.ofSeconds 1675515600, Channel.all, none⟩ fun _ => .error (.empty "")⟩,
    ⟨.cycle "B" 0, .still ⟨.ofSeconds 1675519200, Channel.all, none⟩ fun _ => .error (.empty "")⟩,
    by rfl, rfl, ?_, rfl, rfl, rfl, by decide +kernel, by decide +kernel⟩
  exact .of_still [(.cycle "A" 0, ⟨.ofSeconds 1675512000, Channel.all, none⟩, _),
    (.tick, ⟨.ofSeconds 1675515600, Channel.all, none⟩, _),
    (.cycle "B" 0, ⟨.ofSeconds 1675519200, Channel.all, none⟩, _)] (by decide)

end HourlyPrices
