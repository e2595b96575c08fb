import HourlyPrices.Proofs.Service.HourKeys
import HourlyPrices.Proofs.Service.Isolation
import HourlyPrices.Proofs.Service.SpotWindow
import HourlyPrices.Proofs.Service.Completion
import HourlyPrices.Proofs.Service.Reading

/-!
# The window of past spot prices

A download asks for the window of past hours only when the first known hour lies behind its start.
So prices that have run out during an outage leave a gap in the window: the hours from the last
known one to the hour of the next download are not asked for any more. When the source answers
without gaps, there is a price at each hour of the window after each download of a run exactly when
each either asked for past hours or came in time, with the hour before the current one still known
(`Chronicle.complete_iff`).
-/

namespace HourlyPrices

open Activity

variable {c : Config} {d : Cache} {v : View} {source : Source} {now t u stop : Instant}
  {s s' : Series} {history : Bool}

namespace Series

/-- Each clock hour between two hours of the series has a price. -/
def Unbroken (s : Series) : Prop :=
  ∀ a ∈ s.hours, ∀ b ∈ s.hours, ∀ t, t.IsHour → a ≤ t → t ≤ b → t ∈ s.hours

theorem unbroken_empty : empty.Unbroken := fun _ h => by cases h

theorem Unbroken.filterFrom (h : s.Unbroken) (u : Instant) :
    (s.filterHours (u ≤ ·)).Unbroken := by
  intro a ha b hb t ht hat htb
  rw [mem_hours_filterHours] at ha hb ⊢
  have hua : u ≤ a := of_decide_eq_true ha.1
  exact ⟨decide_eq_true (Instant.le_trans hua hat), h a ha.2 b hb.2 t ht hat htb⟩

theorem HourKeyed.filterHours (h : s.HourKeyed) (keep : Instant → Bool) :
    (s.filterHours keep).HourKeyed := by
  intro t p hp
  rw [get?_filterHours] at hp
  split at hp
  · exact h t p hp
  · cases hp

end Series

/-! ## Requests for spot prices -/

theorem Config.exists_hour_of_not_wantsHistory (hkeep : c.cache.keepHistoricSpot)
    (h : c.wantsHistory d now = .ok false) :
    ∃ a ∈ (d.get .spotPrice).hours, a ≤ c.cache.keptFrom .spotPrice now := by
  have hnot := (wantsHistory_eq_ok_iff.1 h).2
  rw [Retention.keptFrom, if_pos ⟨rfl, hkeep⟩]
  simpa [hkeep] using hnot

/-- The hour from which on prices are requested. -/
def Config.requestedFrom (c : Config) (history : Bool) (now : Instant) : Instant :=
  if history then c.cache.keptFrom .spotPrice now else now.hourStart

theorem Config.requestedFrom_le (c : Config) (history : Bool) (now : Instant) :
    c.requestedFrom history now ≤ now.hourStart := by
  unfold requestedFrom
  split
  · exact c.cache.keptFrom_le_hourStart _ _
  · exact Instant.le_refl _

theorem Config.isHour_requestedFrom (c : Config) (history : Bool) (now : Instant) :
    (c.requestedFrom history now).IsHour := by
  have hhour := Instant.isHour_hourStart now
  unfold requestedFrom Retention.keptFrom
  split
  · split
    · obtain ⟨-, hseconds⟩ := hhour
      refine ⟨rfl, ?_⟩
      simp only [Instant.ofSeconds, secondsPerHour] at hseconds ⊢
      omega
    · exact hhour
  · exact hhour

theorem Config.spotQuery_injective (c : Config) {a b : Bool} (h : c.spotQuery a = c.spotQuery b) :
    a = b := by
  cases a <;> cases b <;> simp [spotQuery, spotStart] at h ⊢

theorem Retention.keptFrom_of_zero {r : Retention} (h : r.historicHours = 0) (k : Component)
    (now : Instant) : r.keptFrom k now = now.hourStart := by
  unfold keptFrom
  split
  · simp [h, Instant.hourStart, Instant.ofSeconds]
  · rfl

theorem Instant.le_hourBefore (ht : t.IsHour) (hu : u.IsHour) (h : t < u) :
    t ≤ u.shift (Span.ofHours (-1)) := by
  rw [shift_ofHours hu.nanos_lt]
  simp only [IsHour, lt_def, le_def, secondsPerHour] at ht hu h ⊢
  omega

theorem Instant.hourBefore_lt (hu : u.IsHour) : u.shift (Span.ofHours (-1)) < u := by
  rw [shift_ofHours hu.nanos_lt]
  simp only [lt_def, secondsPerHour]
  omega

theorem Retention.keptFrom_le_hourBefore {r : Retention} (hkeep : r.keepHistoricSpot)
    (h : r.historicHours ≠ 0) (now : Instant) :
    r.keptFrom .spotPrice now ≤ now.hourStart.shift (Span.ofHours (-1)) := by
  rw [keptFrom, if_pos ⟨rfl, hkeep⟩, Instant.shift_ofHours (Instant.isHour_hourStart now).nanos_lt]
  simp only [Instant.ofSeconds, Instant.le_def, secondsPerHour]
  omega

/-- A source that has a price for each clock hour from the requested one on, up to some hour after
the current one. -/
def Source.Gapless (source : Source) (c : Config) (now : Instant) : Prop :=
  ∀ history records, source (.spot (c.spotQuery history)) = .ok records →
    ∃ stop, now.hourStart < stop ∧ ∀ t, t ∈ SpotRecord.pricedHours records c.service.currency ↔
      t.IsHour ∧ c.requestedFrom history now ≤ t ∧ t < stop

/-- A source that has a price of one for each clock hour from the requested one up to `stop`. -/
def Source.until (c : Config) (now stop : Instant) : Source
  | .spot q => .ok ((hoursBetween (c.requestedFrom (q = c.spotQuery true) now) stop).map fun h =>
      { hour := h, dkk := some .one, eur := some .one })
  | .tariffs _ _ => .ok []

theorem SpotRecord.pricedHours_flat (hs : List Instant) (currency : Currency) :
    pricedHours (hs.map fun h => { hour := h, dkk := some .one, eur := some .one }) currency = hs := by
  induction hs with
  | nil => rfl
  | cons h hs ih =>
    unfold pricedHours at ih ⊢
    cases currency <;> simpa [price?] using ih

theorem Source.gapless_until (h : now.hourStart < stop) : (Source.until c now stop).Gapless c now := by
  rintro history _ ⟨⟩
  have hquery : decide (c.spotQuery history = c.spotQuery true) = history := by
    cases history <;> simp [Config.spotQuery, Config.spotStart]
  refine ⟨stop, h, fun t => ?_⟩
  rw [SpotRecord.pricedHours_flat, hquery, mem_hoursBetween (c.isHour_requestedFrom history now)]

namespace Cycle

theorem mem_component_of_attempt {context : LogContext} {k : Component} {r : Request}
    (h : .request r ∈ (run v source (attempt c context k) d).effects) :
    .request r ∈ (run v source (Download.component c k) d).effects := by
  simp only [attempt, run_view_bind] at h
  split at h
  · simp at h
  · simp only [run_cached_bind] at h
    cases hdue : c.needsDownload d k v.now with
    | error o => simp [hdue] at h
    | ok due =>
      simp only [hdue, run_lift_ok_bind] at h
      split at h
      · simp [-bind_pure_comp] at h
      · rw [run_seq] at h
        generalize run v source (Download.component c k) d = o at h ⊢
        obtain ⟨es, e, _ | _ | n⟩ := o <;> simpa [Outcome.bind, -bind_pure_comp] using h

end Cycle

theorem Download.eq_of_mem_component {r : Request}
    (h : .request r ∈ (run v source (Download.component c .spotPrice) d).effects) :
    ∃ history, c.wantsHistory d v.now = .ok history ∧ r = .spot (c.spotQuery history) := by
  rw [component, if_pos rfl, run_spot] at h
  split at h
  · cases h
  · rename_i history hhistory
    refine ⟨history, hhistory, ?_⟩
    split at h
    · simpa using h
    · split at h <;> simpa using h

namespace Cycle

/-- The downloads of a cycle request the spot price with past hours when they are wanted. -/
theorem eq_spot_of_download {context : LogContext} {r : Request}
    (hr : .request r ∈ (run v source (download c context) d).effects)
    (hk : r.component = .spotPrice) :
    ∃ history, c.wantsHistory d v.now = .ok history ∧ r = .spot (c.spotQuery history) := by
  rcases run_download_cases v source c context d with
    ⟨f, -, hrun⟩ | ⟨-, -, -, hrun⟩ | ⟨-, -, -, -, heffects⟩
  · simp [hrun] at hr
  · simp [hrun] at hr
  · have hattempt := (heffects r).1 hr
    rw [hk] at hattempt
    obtain ⟨history, hhistory, hr⟩ :=
      Download.eq_of_mem_component (mem_component_of_attempt hattempt)
    exact ⟨history, Config.wantsHistory_congr (d.get_alone .spotPrice) v.now ▸ hhistory, hr⟩

/-- What a cycle leaves of the spot price when its request is answered. -/
theorem mem_hours_refresh_of_answer (schedule : Schedule) (name : String) (draw : Nat)
    {q : SpotQuery} {records : List SpotRecord}
    (hreq : .request (.spot q) ∈ (run v source (refresh c schedule name draw) d).effects)
    (hanswer : source (.spot q) = .ok records) :
    ∃ history, c.wantsHistory d v.now = .ok history ∧ q = c.spotQuery history ∧
      ∀ t, t ∈ ((run v source (refresh c schedule name draw) d).cache.get .spotPrice).hours ↔
        c.cache.keptFrom .spotPrice v.now ≤ t ∧
          (t ∈ SpotRecord.pricedHours records c.service.currency ∨
            Download.KeepsPast c history v.now (d.get .spotPrice) t) := by
  have hdownload := (request_mem_refresh_iff ..).1 hreq
  obtain ⟨history, hhistory, hq⟩ := eq_spot_of_download hdownload rfl
  cases hq
  refine ⟨history, hhistory, rfl, fun t => ?_⟩
  have hkept : (run v source (download c (namedContext c name)) d).cache.get .spotPrice =
      (run v source (Download.component c .spotPrice) (d.alone .spotPrice)).cache.get .spotPrice :=
    get_download_of_request hdownload rfl
  have halone := Config.wantsHistory_congr (c := c) (d.get_alone .spotPrice) v.now
  rw [get_refresh (Config.wantsHistory_eq_ok_iff.1 hhistory).1, hkept,
    Series.mem_hours_filterHours, Download.mem_hours_run_spotPrice (halone.trans hhistory) hanswer]
  simp only [Cache.get_alone, decide_eq_true_eq]

end Cycle

/-! ## Downloads of a run -/

/-- A successful download of spot prices in a cycle, with the series before and after the cycle. -/
structure SpotFetch where
  now : Instant
  query : SpotQuery
  before : Series
  after : Series

/-- The successful downloads of spot prices in what comes of a cycle that finds `d` in the cache. -/
def SpotFetch.ofOutcome (source : Source) (now : Instant) (d : Cache) (o : Outcome CycleOutcome) :
    List SpotFetch :=
  o.effects.filterMap fun
    | .request (.spot q) => match source (.spot q) with
      | .ok _ => some ⟨now, q, d.get .spotPrice, o.cache.get .spotPrice⟩
      | .error _ => none
    | _ => none

namespace SpotFetch

variable {f : SpotFetch}

/-- There is a price at each clock hour of the window of past hours, and at the current hour. -/
def Complete (c : Config) (f : SpotFetch) : Prop :=
  ∀ t, t.IsHour → c.cache.keptFrom .spotPrice f.now ≤ t → t ≤ f.now.hourStart → t ∈ f.after.hours

/-- The download asks for past hours, or is to keep none, or comes when the hour before the current
one is still known. -/
def InTime (c : Config) (f : SpotFetch) : Prop :=
  f.query = c.spotQuery true ∨ c.cache.historicHours = 0 ∨
    f.now.hourStart.shift (Span.ofHours (-1)) ∈ f.before.hours

/-- The download has been answered without gaps: what is there after it is the answer from the
requested hour up to `stop`, and past hours that were there before. -/
structure Answered (c : Config) (f : SpotFetch) (history : Bool) (stop : Instant) : Prop where
  query : f.query = c.spotQuery history
  ahead : f.now.hourStart < stop
  reaches : history = false → ∃ a ∈ f.before.hours, a ≤ c.cache.keptFrom .spotPrice f.now
  mem_hours : ∀ t, t ∈ f.after.hours ↔ c.cache.keptFrom .spotPrice f.now ≤ t ∧
    ((t.IsHour ∧ c.requestedFrom history f.now ≤ t ∧ t < stop) ∨
      history = false ∧ t < f.now.hourStart ∧ t ∈ f.before.hours)

/-- With past hours that are unbroken, a download in time leaves no gap. -/
theorem Answered.complete_of_inTime (h : f.Answered c history stop) (hbefore : f.before.Unbroken)
    (hf : f.InTime c) : f.Complete c := by
  intro t ht hW htH
  have hstop : t < stop := Instant.lt_of_le_of_lt htH h.ahead
  refine (h.mem_hours t).2 ⟨hW, ?_⟩
  cases history with
  | true => exact .inl ⟨ht, hW, hstop⟩
  | false =>
    by_cases hlt : t < f.now.hourStart
    · right
      obtain ⟨a, ha, haW⟩ := h.reaches rfl
      refine ⟨rfl, hlt, ?_⟩
      rcases hf with hquery | hzero | hlast
      · rw [h.query] at hquery
        cases c.spotQuery_injective hquery
      · rw [Retention.keptFrom_of_zero hzero] at hW
        exact absurd hlt (Instant.not_lt.2 hW)
      · exact hbefore a ha _ hlast t ht (Instant.le_trans haW hW)
          (Instant.le_hourBefore ht (Instant.isHour_hourStart _) hlt)
    · exact .inl ⟨ht, Instant.not_lt.1 hlt, hstop⟩

theorem Answered.inTime_of_complete (h : f.Answered c history stop)
    (hkeep : c.cache.keepHistoricSpot) (hf : f.Complete c) : f.InTime c := by
  cases history with
  | true => exact .inl h.query
  | false =>
    by_cases hzero : c.cache.historicHours = 0
    · exact .inr (.inl hzero)
    · have hhour := Instant.isHour_hourStart f.now
      have hlt := Instant.hourBefore_lt hhour
      have hlast := hf _ (Instant.isHour_shift_ofHours hhour (-1))
        (Retention.keptFrom_le_hourBefore hkeep hzero f.now) (Instant.le_of_lt hlt)
      rcases ((h.mem_hours _).1 hlast).2 with ⟨-, hle, -⟩ | ⟨-, -, hmem⟩
      · exact absurd hlt (Instant.not_lt.2 hle)
      · exact .inr (.inr hmem)

/-- After a download that has left no gap the hours go from the start of the window to the end of
the answer. -/
theorem Answered.mem_hours_of_complete (h : f.Answered c history stop)
    (hkeyed : f.before.HourKeyed) (hf : f.Complete c) :
    t ∈ f.after.hours ↔ t.IsHour ∧ c.cache.keptFrom .spotPrice f.now ≤ t ∧ t < stop := by
  constructor
  · intro ht
    obtain ⟨hW, ⟨hhour, -, hstop⟩ | ⟨-, hlt, hmem⟩⟩ := (h.mem_hours t).1 ht
    · exact ⟨hhour, hW, hstop⟩
    · exact ⟨Series.hourKeyed_iff_hours.1 hkeyed t hmem, hW, Instant.lt_trans hlt h.ahead⟩
  · rintro ⟨hhour, hW, hstop⟩
    by_cases hle : t ≤ f.now.hourStart
    · exact hf t hhour hW hle
    · have hfrom : c.requestedFrom history f.now ≤ t :=
        Instant.le_trans (c.requestedFrom_le history f.now) (Instant.le_of_lt (Instant.not_le.1 hle))
      exact (h.mem_hours t).2 ⟨hW, .inl ⟨hhour, hfrom, hstop⟩⟩

theorem Answered.whole_of_complete (h : f.Answered c history stop) (hkeyed : f.before.HourKeyed)
    (hf : f.Complete c) : f.after.HourKeyed ∧ f.after.Unbroken := by
  have hmem (t : Instant) := h.mem_hours_of_complete (t := t) hkeyed hf
  constructor
  · exact Series.hourKeyed_iff_hours.2 fun t ht => ((hmem t).1 ht).1
  · intro a ha b hb t ht hat htb
    obtain ⟨-, hW, -⟩ := (hmem a).1 ha
    obtain ⟨-, -, hstop⟩ := (hmem b).1 hb
    exact (hmem t).2 ⟨ht, Instant.le_trans hW hat, Instant.lt_of_le_of_lt htb hstop⟩

end SpotFetch

/-- What the service can come to from the empty cache by cycles and ticks, as the clock goes on,
with the successful downloads of spot prices on the way, the latest first. In each cycle the source
may fail, and answers without gaps if it does not. -/
inductive Chronicle (c : Config) : List SpotFetch → Instant → Cache → Prop
  | start (now : Instant) : Chronicle c [] now .empty
  | wait {fs t u d} (h : Chronicle c fs t d) (htu : t ≤ u) : Chronicle c fs u d
  | tick {fs d} (v : View) (source : Source) (h : Chronicle c fs v.now d) :
    Chronicle c fs v.now (run v source (Cycle.tick c) d).cache
  | cycle {fs d} (s : Schedule) (name : String) (draw : Nat) (v : View) (source : Source)
    (hsource : source.Gapless c v.now) (h : Chronicle c fs v.now d) :
    Chronicle c
      (SpotFetch.ofOutcome source v.now d (run v source (Cycle.refresh c s name draw) d) ++ fs)
      v.now (run v source (Cycle.refresh c s name draw) d).cache

theorem SpotFetch.mem_ofOutcome {f : SpotFetch} {o : Outcome CycleOutcome} :
    f ∈ ofOutcome source now d o ↔ ∃ q records, .request (.spot q) ∈ o.effects ∧
      source (.spot q) = .ok records ∧
      f = ⟨now, q, d.get .spotPrice, o.cache.get .spotPrice⟩ := by
  simp only [ofOutcome, List.mem_filterMap]
  constructor
  · rintro ⟨x, hx, hf⟩
    split at hf
    · rename_i q
      split at hf
      · rename_i records hanswer
        exact ⟨q, records, hx, hanswer, (Option.some.inj hf).symm⟩
      · cases hf
    · cases hf
  · rintro ⟨q, records, hreq, hanswer, rfl⟩
    exact ⟨_, hreq, by simp only [hanswer]⟩

/-- A download of a cycle has been answered without gaps. -/
theorem SpotFetch.answered_of_mem {f : SpotFetch} {s : Schedule} {name : String} {draw : Nat}
    (hkeep : c.cache.keepHistoricSpot) (hsource : source.Gapless c v.now)
    (hf : f ∈ ofOutcome source v.now d (run v source (Cycle.refresh c s name draw) d)) :
    f.before = d.get .spotPrice ∧
      f.after = (run v source (Cycle.refresh c s name draw) d).cache.get .spotPrice ∧
      ∃ history stop, f.Answered c history stop := by
  obtain ⟨q, records, hreq, hanswer, rfl⟩ := mem_ofOutcome.1 hf
  obtain ⟨history, hhistory, rfl, hmem⟩ := Cycle.mem_hours_refresh_of_answer s name draw hreq hanswer
  obtain ⟨stop, hahead, hpriced⟩ := hsource history records hanswer
  refine ⟨rfl, rfl, history, stop, rfl, hahead, ?_, ?_⟩
  · rintro rfl
    exact Config.exists_hour_of_not_wantsHistory hkeep hhistory
  · intro t
    rw [hmem t, hpriced t]
    simp only [Download.KeepsPast, hkeep, true_and]

/-- Without a successful download a cycle only drops past hours of the spot price. -/
theorem Cycle.trimmed_refresh_of_no_fetch {s : Schedule} {name : String} {draw : Nat}
    (h : SpotFetch.ofOutcome source v.now d (run v source (refresh c s name draw) d) = []) :
    Series.Trimmed (c.cache.keptFrom .spotPrice v.now) (d.get .spotPrice)
      ((run v source (refresh c s name draw) d).cache.get .spotPrice) := by
  have hkept : (run v source (download c (namedContext c name)) d).cache.get .spotPrice =
      d.get .spotPrice := by
    refine get_download_of_unanswered fun r hr hk => ?_
    obtain ⟨history, -, rfl⟩ := eq_spot_of_download hr hk
    cases hanswer : source (.spot (c.spotQuery history)) with
    | error f => exact ⟨f, rfl⟩
    | ok records =>
      -- The request would have been answered, and be among the downloads.
      have hreq := (request_mem_refresh_iff source s name draw d _).2 hr
      have hmem : _ ∈ SpotFetch.ofOutcome source v.now d _ :=
        SpotFetch.mem_ofOutcome.2 ⟨_, records, hreq, hanswer, rfl⟩
      rw [h] at hmem
      cases hmem
  exact hkept ▸ get_refresh_eq_or_filterHours source s name draw d .spotPrice

/-! ## Runs -/

/-- What holds of a run in which each download came in time: no gap has been left, and none is
cached. -/
structure Chronicle.Sound (c : Config) (fs : List SpotFetch) (s : Series) : Prop where
  complete : ∀ f ∈ fs, f.Complete c
  keyed : s.HourKeyed
  unbroken : s.Unbroken

theorem Chronicle.Sound.trimmed {fs : List SpotFetch} (h : Sound c fs s)
    (ht : Series.Trimmed t s s') : Sound c fs s' := by
  rcases ht with rfl | rfl
  · exact h
  · exact ⟨h.complete, h.keyed.filterHours _, h.unbroken.filterFrom t⟩

/-- A cycle whose downloads come in time leaves no gap. -/
theorem Chronicle.Sound.cycle {fs : List SpotFetch} (h : Sound c fs (d.get .spotPrice)) (s : Schedule)
    (name : String) (draw : Nat) (hkeep : c.cache.keepHistoricSpot)
    (hsource : source.Gapless c v.now)
    (hnew : ∀ f ∈ SpotFetch.ofOutcome source v.now d (run v source (Cycle.refresh c s name draw) d),
      f.InTime c) :
    Sound c (SpotFetch.ofOutcome source v.now d (run v source (Cycle.refresh c s name draw) d) ++ fs)
      ((run v source (Cycle.refresh c s name draw) d).cache.get .spotPrice) := by
  have hcomplete : ∀ f ∈ SpotFetch.ofOutcome source v.now d
      (run v source (Cycle.refresh c s name draw) d), f.Complete c := by
    intro f hf
    obtain ⟨hbefore, -, history, stop, hanswered⟩ := SpotFetch.answered_of_mem hkeep hsource hf
    exact hanswered.complete_of_inTime (hbefore ▸ h.unbroken) (hnew f hf)
  cases hfetches : SpotFetch.ofOutcome source v.now d
      (run v source (Cycle.refresh c s name draw) d) with
  | nil => exact h.trimmed (Cycle.trimmed_refresh_of_no_fetch hfetches)
  | cons f fs' =>
    have hf := hfetches ▸ List.mem_cons_self
    obtain ⟨hbefore, hafter, history, stop, hanswered⟩ := SpotFetch.answered_of_mem hkeep hsource hf
    obtain ⟨hkeyed, hunbroken⟩ :=
      hanswered.whole_of_complete (hbefore ▸ h.keyed) (hcomplete f hf)
    rw [← hfetches]
    exact ⟨List.forall_mem_append.2 ⟨hcomplete, h.complete⟩, hafter ▸ hkeyed, hafter ▸ hunbroken⟩

theorem Cycle.trimmed_tick (v : View) (source : Source) (c : Config) (d : Cache) (k : Component) :
    Series.Trimmed (c.cache.keptFrom k v.now) (d.get k)
      ((run v source (tick c) d).cache.get k) := by
  rw [run_tick]
  cases hclean : d.cleanup c.cache v.now with
  | error o => exact .inl rfl
  | ok e =>
    right
    dsimp only
    rw [(publishPrices_quiet c).run_cache]
    exact (Cache.cleanup_eq_ok_iff.1 hclean).2 k

namespace Chronicle

variable {fs : List SpotFetch}

theorem sound_of_inTime (h : Chronicle c fs now d) (hkeep : c.cache.keepHistoricSpot)
    (hfs : ∀ f ∈ fs, f.InTime c) : Sound c fs (d.get .spotPrice) := by
  induction h with
  | start now => exact ⟨by simp, Series.hourKeyed_empty, Series.unbroken_empty⟩
  | wait _ _ ih => exact ih hfs
  | tick v source _ ih => exact (ih hfs).trimmed (Cycle.trimmed_tick ..)
  | cycle s name draw v source hsource _ ih =>
    obtain ⟨hnew, hold⟩ := List.forall_mem_append.1 hfs
    exact (ih hold).cycle s name draw hkeep hsource hnew

theorem inTime_of_complete (h : Chronicle c fs now d) (hkeep : c.cache.keepHistoricSpot)
    (hfs : ∀ f ∈ fs, f.Complete c) : ∀ f ∈ fs, f.InTime c := by
  induction h with
  | start now => simp
  | wait _ _ ih => exact ih hfs
  | tick v source _ ih => exact ih hfs
  | cycle s name draw v source hsource _ ih =>
    obtain ⟨hnew, hold⟩ := List.forall_mem_append.1 hfs
    refine List.forall_mem_append.2 ⟨fun f hf => ?_, ih hold⟩
    obtain ⟨-, -, history, stop, hanswered⟩ := SpotFetch.answered_of_mem hkeep hsource hf
    exact hanswered.inTime_of_complete hkeep (hnew f hf)

/-- When past hours are kept and the source answers without gaps, the downloads of a run all leave a
price at each clock hour from the start of the window of past hours to the current one exactly when
each of them asks for past hours, is to keep none, or comes when the hour before the current one is
still known. -/
theorem complete_iff (c : Config) (hkeep : c.cache.keepHistoricSpot) (fs : List SpotFetch)
    (now : Instant) (d : Cache) (h : Chronicle c fs now d) :
    (∀ f ∈ fs, f.Complete c) ↔ ∀ f ∈ fs, f.InTime c :=
  ⟨h.inTime_of_complete hkeep, fun hfs => (h.sound_of_inTime hkeep hfs).complete⟩

/-- The window of past hours is two hours deep. -/
def twoHours : Config := { cache := { historicHours := 2, keepHistoricSpot := true } }

instance (c : Config) (f : SpotFetch) : Decidable (f.InTime c) :=
  inferInstanceAs (Decidable (_ ∨ _ ∨ _))

/-- Prices are known up to three o'clock, and downloaded again shortly after. -/
theorem complete_iff_threeOClock : ∃ fs d, Chronicle twoHours fs (.ofSeconds 1675523400) d ∧
    fs.length = 2 ∧ ∀ f ∈ fs, f.Complete twoHours := by
  have hfirst := Chronicle.cycle (.start twoHours) "A" 0
    { now := .ofSeconds 1675513800, subscribed := [.current .spotPrice] }
    (.until twoHours (.ofSeconds 1675513800) (.ofSeconds 1675522800))
    (Source.gapless_until (by decide)) (.start _)
  have hsecond := Chronicle.cycle (.start twoHours) "B" 0
    { now := .ofSeconds 1675523400, subscribed := [.current .spotPrice] }
    (.until twoHours (.ofSeconds 1675523400) (.ofSeconds 1675533600))
    (Source.gapless_until (by decide)) (hfirst.wait (by decide))
  refine ⟨_, _, hsecond, ?_, (complete_iff twoHours rfl _ _ _ hsecond).2 ?_⟩
  · decide +kernel
  · decide +kernel

/-- Prices are known up to two o'clock, and downloaded again at half past three: the hour from two
o'clock is missing. -/
theorem not_complete_of_outage : ∃ fs now d, Chronicle twoHours fs now d ∧
    ∃ f ∈ fs, ¬ f.Complete twoHours := by
  have hfirst := Chronicle.cycle (.start twoHours) "A" 0
    { now := .ofSeconds 1675513800, subscribed := [.current .spotPrice] }
    (.until twoHours (.ofSeconds 1675513800) (.ofSeconds 1675519200))
    (Source.gapless_until (by decide)) (.start _)
  have hsecond := Chronicle.cycle (.start twoHours) "B" 0
    { now := .ofSeconds 1675524600, subscribed := [.current .spotPrice] }
    (.until twoHours (.ofSeconds 1675524600) (.ofSeconds 1675533600))
    (Source.gapless_until (by decide)) (hfirst.wait (by decide))
  refine ⟨_, _, _, hsecond, ?_⟩
  by_contra hall
  push Not at hall
  have hinTime := hsecond.inTime_of_complete rfl hall
  exact absurd hinTime (by decide +kernel)

end Chronicle

end HourlyPrices
