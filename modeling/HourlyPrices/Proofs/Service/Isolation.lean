import HourlyPrices.Proofs.Cache.Coverage
import HourlyPrices.Proofs.Cache.Retention
import HourlyPrices.Proofs.Service.Cycle

/-!
# Components do not disturb each other

What a cycle leaves in the cache for a component is determined by the series that was there before
and by the answer to the request for that component (`Cycle.refresh_isolated`). The downloads of a
cycle are attempts in a row; each of them comes to the same as if it had been made on the series of
its component alone (`Cycle.run_downloads`). Two things concern all components: a configuration that
is not valid, and a window of past hours that starts out of range (`Cycle.run_download_cases`,
`Cycle.refresh_of_not_representable`).
-/

namespace HourlyPrices.Cycle

open Activity

variable {v : View} {source source' : Source} {c : Config} {context : LogContext}
  {k : Component} {ks : List Component} {d : Cache}

/-! ## One attempt -/

theorem attempt_frame {l : Component} (h : l ≠ k) :
    (run v source (attempt c context k) d).cache.get l = d.get l := by
  rw [run_attempt_alone]
  exact Cache.get_put_of_ne h _ _

theorem attempt_get_alone :
    (run v source (attempt c context k) d).cache.get k =
      (run v source (attempt c context k) (d.alone k)).cache.get k := by
  rw [run_attempt_alone]
  exact Cache.get_put_self _ _ _

theorem attempt_effects_alone :
    (run v source (attempt c context k) d).effects =
      (run v source (attempt c context k) (d.alone k)).effects := by
  rw [run_attempt_alone]
  rfl

/-- An attempt ends, unless it needs a window of past hours that starts out of range. -/
theorem exists_attempt_value (source : Source) (context : LogContext) (d : Cache)
    (h : k = .spotPrice → v.needs .spotPrice → c.cache.Representable v.now) :
    ∃ faults, (run v source (attempt c context k) d).value = .ok faults := by
  rcases run_attempt_cases v source c context k d with
    ⟨o, hk, hn, hcut, -⟩ | ⟨-, es, hrun⟩ | ⟨-, r, es, faults, -, hrun, -⟩
  · exact absurd (h hk hn) (Cache.not_representable_of_cutoff hcut)
  · exact ⟨[], by rw [hrun]⟩
  · exact ⟨faults, by rw [hrun]⟩

theorem component_of_attempt_request {r : Request}
    (h : .request r ∈ (run v source (attempt c context k) d).effects) : r.component = k := by
  rcases run_attempt_cases v source c context k d with
    ⟨o, -, -, -, hrun⟩ | ⟨-, es, hrun⟩ | ⟨-, r', es, faults, hr, hrun, -⟩
  · simp [hrun] at h
  · simp [hrun] at h
  · obtain rfl : r = r' := by simpa [hrun] using h
    exact hr

/-- An attempt makes a request exactly when its component is due. -/
theorem exists_attempt_request_iff (source : Source) (context : LogContext)
    (h : k = .spotPrice → v.needs .spotPrice → c.cache.Representable v.now) :
    (∃ r, .request r ∈ (run v source (attempt c context k) d).effects) ↔ Due c v d k := by
  rcases run_attempt_cases v source c context k d with
    ⟨o, hk, hn, hcut, -⟩ | ⟨hdue, es, hrun⟩ | ⟨hdue, r, es, faults, -, hrun, -⟩
  · exact absurd (h hk hn) (Cache.not_representable_of_cutoff hcut)
  · simp [hrun, hdue]
  · simp only [hrun, hdue, iff_true]
    exact ⟨r, by simp⟩

theorem due_alone : Due c v (d.alone k) k ↔ Due c v d k := by
  have hneeds := Config.needsDownload_congr (c := c) (d.get_alone k) v.now
  constructor
  · intro h
    exact ⟨h.needed, hneeds ▸ h.uncovered, h.askable⟩
  · intro h
    exact ⟨h.needed, hneeds ▸ h.uncovered, h.askable⟩

/-- An attempt keeps the series unless its request is answered. -/
theorem attempt_get_of_unanswered
    (h : ∀ r, .request r ∈ (run v source (attempt c context k) d).effects →
      ∃ f, source r = .error f) :
    (run v source (attempt c context k) d).cache = d := by
  rcases run_attempt_cases v source c context k d with
    ⟨o, -, -, -, hrun⟩ | ⟨-, es, hrun⟩ | ⟨-, r, es, faults, -, hrun, ⟨-, hd⟩ | ⟨records, ha, -⟩⟩
  · rw [hrun]
  · rw [hrun]
  · rw [hrun]
    exact hd
  · obtain ⟨f, hf⟩ := h r (by simp [hrun])
    rw [ha] at hf
    cases hf

/-- An attempt that makes a request leaves what the download leaves. -/
theorem attempt_cache_of_request {r : Request}
    (h : .request r ∈ (run v source (attempt c context k) d).effects) :
    (run v source (attempt c context k) d).cache =
      (run v source (Download.component c k) d).cache := by
  rcases run_attempt_cases v source c context k d with
    ⟨o, -, -, -, hrun⟩ | ⟨-, es, hrun⟩ | ⟨-, r', es, faults, hr, hrun, -⟩
  · simp [hrun] at h
  · simp [hrun] at h
  · rw [hrun]

/-! ## All attempts -/

/-- The downloads of some components come to an end. Each of them leaves what its attempt leaves of
its series alone, and makes the requests of that attempt. -/
theorem run_downloads (source : Source) (context : LogContext) (hks : ks.Nodup)
    (hin : .spotPrice ∈ ks → v.needs .spotPrice → c.cache.Representable v.now) (d : Cache) :
    (∃ faults, (run v source (downloads c context ks) d).value = .ok faults) ∧
    (∀ k, (run v source (downloads c context ks) d).cache.get k =
      if k ∈ ks then (run v source (attempt c context k) (d.alone k)).cache.get k else d.get k) ∧
    ∀ r, .request r ∈ (run v source (downloads c context ks) d).effects ↔
      r.component ∈ ks ∧ .request r ∈
        (run v source (attempt c context r.component) (d.alone r.component)).effects := by
  induction ks generalizing d with
  | nil => exact ⟨⟨[], rfl⟩, fun k => by simp [downloads], fun r => by simp [downloads]⟩
  | cons k ks ih =>
    obtain ⟨hk, hks⟩ := List.nodup_cons.1 hks
    obtain ⟨faults, hv⟩ := exists_attempt_value (k := k) source context d fun he hn =>
      hin (by simp [he]) hn
    generalize hd' : (run v source (attempt c context k) d).cache = d'
    obtain ⟨⟨faults', hv'⟩, hcache, hreq⟩ := ih hks (fun hm hn => hin (by simp [hm]) hn) d'
    have halone : ∀ l ∈ ks, d'.alone l = d.alone l := by
      intro l hl
      have hne : l ≠ k := fun he => hk (he ▸ hl)
      rw [Cache.alone, Cache.alone, ← hd', attempt_frame hne]
    have hrun : run v source (downloads c context (k :: ks)) d =
        ⟨(run v source (attempt c context k) d).effects ++
            (run v source (downloads c context ks) d').effects,
          (run v source (downloads c context ks) d').cache, .ok (faults ++ faults')⟩ := by
      rw [downloads_cons, run_seq, Outcome.bind_of_ok hv, run_seq, hd', Outcome.bind_of_ok hv']
      simp
    rw [hrun]
    refine ⟨⟨_, rfl⟩, fun l => ?_, fun r => ?_⟩
    · simp only [hcache, List.mem_cons]
      by_cases hl : l ∈ ks
      · simp [hl, halone l hl]
      · by_cases hlk : l = k
        · subst hlk
          simp [hl, ← hd', ← attempt_get_alone]
        · simp [hl, hlk, ← hd', attempt_frame hlk]
    · simp only [List.mem_append, hreq, List.mem_cons, attempt_effects_alone (d := d)]
      constructor
      · rintro (hr | ⟨hm, hr⟩)
        · have hc := component_of_attempt_request hr
          exact ⟨.inl hc, hc ▸ hr⟩
        · exact ⟨.inr hm, halone _ hm ▸ hr⟩
      · rintro ⟨hc | hm, hr⟩
        · exact .inl (hc ▸ hr)
        · exact .inr ⟨hm, (halone _ hm).symm ▸ hr⟩

/-! ## The downloads of a cycle -/

theorem run_download_of_valid (h : c.validate = .ok ()) :
    run v source (download c context) d =
      (run v source (downloads c context Component.all) d).bind fun faults e =>
        ⟨[], e, .ok (reported faults)⟩ := by
  rw [download, h]
  exact run_seq ..

/-- A needed window that starts out of range ends the cycle before its first request. -/
theorem run_download_of_outOfRange (h : c.validate = .ok ()) (hn : v.needs .spotPrice)
    (hout : ¬ c.cache.Representable v.now) :
    run v source (download c context) d = ⟨[], d, .error .time⟩ := by
  have hcut := Cache.cutoff_of_not_representable hout
  have hattempt : run v source (attempt c context .spotPrice) d = ⟨[], d, .error .time⟩ := by
    simp [attempt, hn, Config.needsDownload_eq_error_iff.2 ⟨rfl, hcut⟩]
  rw [run_download_of_valid h, Component.all, downloads_cons, run_seq, hattempt]
  rfl

/-- The downloads of a cycle as a whole: each leaves what its attempt leaves of its series alone,
and makes the requests of that attempt. -/
theorem run_download_of_inRange (h : c.validate = .ok ())
    (hin : v.needs .spotPrice → c.cache.Representable v.now) (source : Source)
    (context : LogContext) (d : Cache) :
    (∃ result, (run v source (download c context) d).value = .ok result) ∧
    (∀ k, (run v source (download c context) d).cache.get k =
      (run v source (attempt c context k) (d.alone k)).cache.get k) ∧
    ∀ r, .request r ∈ (run v source (download c context) d).effects ↔ .request r ∈
      (run v source (attempt c context r.component) (d.alone r.component)).effects := by
  obtain ⟨⟨faults, hv⟩, hcache, hreq⟩ := run_downloads source context
    (by decide : Component.all.Nodup) (fun _ => hin) d
  rw [run_download_of_valid h, Outcome.bind_of_ok hv]
  refine ⟨⟨_, rfl⟩, fun k => ?_, fun r => ?_⟩
  · simp [hcache, Component.mem_all]
  · simp [hreq, Component.mem_all]

/-- What the downloads of a cycle come to. A configuration that is not valid is a fault, and a
needed window that starts out of range an overflow; neither requests anything. Otherwise all
components are attempted, each on its own. -/
theorem run_download_cases (v : View) (source : Source) (c : Config) (context : LogContext)
    (d : Cache) :
    (∃ f, c.validate = .error f ∧
      run v source (download c context) d = ⟨[], d, .ok (.error f)⟩) ∨
    (c.validate = .ok () ∧ v.needs .spotPrice ∧ ¬ c.cache.Representable v.now ∧
      run v source (download c context) d = ⟨[], d, .error .time⟩) ∨
    (c.validate = .ok () ∧ (v.needs .spotPrice → c.cache.Representable v.now) ∧
      (∃ result, (run v source (download c context) d).value = .ok result) ∧
      (∀ k, (run v source (download c context) d).cache.get k =
        (run v source (attempt c context k) (d.alone k)).cache.get k) ∧
      ∀ r, .request r ∈ (run v source (download c context) d).effects ↔ .request r ∈
        (run v source (attempt c context r.component) (d.alone r.component)).effects) := by
  cases hvalid : c.validate with
  | error f => exact .inl ⟨f, rfl, by simp [download, hvalid]⟩
  | ok u =>
    by_cases hin : v.needs .spotPrice → c.cache.Representable v.now
    · exact .inr (.inr ⟨rfl, hin, run_download_of_inRange hvalid hin source context d⟩)
    · obtain ⟨hn, hout⟩ := Classical.not_imp.1 hin
      exact .inr (.inl ⟨rfl, hn, hout, run_download_of_outOfRange hvalid hn hout⟩)

theorem exists_download_value (source : Source) (context : LogContext) (d : Cache)
    (h : v.needs .spotPrice → c.cache.Representable v.now) :
    ∃ result, (run v source (download c context) d).value = .ok result := by
  rcases run_download_cases v source c context d with
    ⟨f, -, hrun⟩ | ⟨-, hn, hout, -⟩ | ⟨-, -, hvalue, -⟩
  · exact ⟨.error f, by rw [hrun]⟩
  · exact absurd (h hn) hout
  · exact hvalue

/-! ## The whole cycle -/

theorem run_refresh (v : View) (source : Source) (c : Config) (s : Schedule) (name : String)
    (draw : Nat) (d : Cache) :
    run v source (refresh c s name draw) d =
      ((run v source (download c (namedContext c name)) d).bind fun result e =>
        match e.cleanup c.cache v.now with
        | .error o => ⟨[], e, .error o⟩
        | .ok e' => run v source (conclude c s (namedContext c name) draw result) e').after
          (.log ((namedContext c name).event .debug "Refresh cycle started")) := by
  rw [refresh_eq, run_log_bind, run_seq]
  congr 2
  funext result e
  simp only [run_cached_bind, run_view_bind]
  cases e.cleanup c.cache v.now <;> rfl

/-- After its downloads a cycle makes no more requests. -/
theorem request_mem_refresh_iff (source : Source) (s : Schedule) (name : String) (draw : Nat)
    (d : Cache) (r : Request) :
    .request r ∈ (run v source (refresh c s name draw) d).effects ↔
      .request r ∈ (run v source (download c (namedContext c name)) d).effects := by
  rw [run_refresh]
  cases hv : (run v source (download c (namedContext c name)) d).value with
  | error o => simp [Outcome.bind_of_error hv]
  | ok result =>
    rw [Outcome.bind_of_ok hv]
    cases (run v source (download c (namedContext c name)) d).cache.cleanup c.cache v.now with
    | error o => simp
    | ok e => simp [(conclude_quiet c s (namedContext c name) draw result).not_request r]

/-- After its downloads a cycle drops past hours. -/
theorem get_refresh (hin : c.cache.Representable v.now) (source : Source) (s : Schedule)
    (name : String) (draw : Nat) (d : Cache) (k : Component) :
    (run v source (refresh c s name draw) d).cache.get k =
      ((run v source (download c (namedContext c name)) d).cache.get k).filterHours
        (c.cache.keptFrom k v.now ≤ ·) := by
  obtain ⟨result, hv⟩ := exists_download_value source (namedContext c name) d fun _ => hin
  rw [run_refresh, Outcome.bind_of_ok hv]
  generalize (run v source (download c (namedContext c name)) d).cache = e
  obtain ⟨e', he'⟩ := (Cache.exists_cleanup_iff_representable e).2 hin
  simp only [he']
  rw [← (Cache.cleanup_eq_ok_iff.1 he').2 k]
  exact congrArg (·.get k) (conclude_quiet c s (namedContext c name) draw result).run_cache

/-- With a window of past hours that starts out of range a cycle ends, without an outcome, with its
downloads, or before them when the spot price is needed. -/
theorem refresh_of_not_representable (hout : ¬ c.cache.Representable v.now) (source : Source)
    (s : Schedule) (name : String) (draw : Nat) (d : Cache) :
    (run v source (refresh c s name draw) d).value = .error .time ∧
      (run v source (refresh c s name draw) d).cache =
        (run v source (download c (namedContext c name)) d).cache := by
  have hclean (e : Cache) : e.cleanup c.cache v.now = .error .time := by
    rw [Cache.cleanup, Cache.cutoff_of_not_representable hout]
    rfl
  rw [run_refresh]
  rcases run_download_cases v source c (namedContext c name) d with
    ⟨f, -, hrun⟩ | ⟨-, -, -, hrun⟩ | ⟨-, -, ⟨result, hv⟩, -⟩
  · rw [hrun, Outcome.bind_of_ok rfl]
    simp [hclean]
  · rw [hrun]
    exact ⟨rfl, rfl⟩
  · rw [Outcome.bind_of_ok hv]
    simp [hclean]

/-- After its downloads a cycle does nothing to a series but drop past hours. -/
theorem get_refresh_eq_or_filterHours (source : Source) (s : Schedule) (name : String) (draw : Nat)
    (d : Cache) (k : Component) :
    (run v source (refresh c s name draw) d).cache.get k =
        (run v source (download c (namedContext c name)) d).cache.get k ∨
      (run v source (refresh c s name draw) d).cache.get k =
        ((run v source (download c (namedContext c name)) d).cache.get k).filterHours
          (c.cache.keptFrom k v.now ≤ ·) := by
  by_cases hin : c.cache.Representable v.now
  · exact .inr (get_refresh hin ..)
  · exact .inl (congrArg (·.get k) (refresh_of_not_representable hin source s name draw d).2)

/-- A cycle requests the components that are due, unless the configuration is not valid, or the spot
price is needed and its window of past hours starts out of range. -/
theorem exists_request_iff (source : Source) (s : Schedule) (name : String) (draw : Nat)
    (d : Cache) (k : Component) :
    (∃ r, .request r ∈ (run v source (refresh c s name draw) d).effects ∧ r.component = k) ↔
      c.validate = .ok () ∧ (v.needs .spotPrice → c.cache.Representable v.now) ∧ Due c v d k := by
  simp only [request_mem_refresh_iff]
  rcases run_download_cases v source c (namedContext c name) d with
    ⟨f, hvalid, hrun⟩ | ⟨-, hn, hout, hrun⟩ | ⟨hvalid, hin, -, -, hreq⟩
  · simp [hrun, hvalid]
  · simp [hrun, hn, hout]
  · rw [← due_alone, ← exists_attempt_request_iff source (namedContext c name) fun _ => hin]
    simp only [hreq, hvalid, true_and]
    constructor
    · rintro ⟨r, hr, rfl⟩
      exact ⟨hin, r, hr⟩
    · rintro ⟨-, r, hr⟩
      have hk := component_of_attempt_request hr
      exact ⟨r, hk.symm ▸ hr, hk⟩

/-- The downloads of a cycle leave the series of a component that is not requested, or not
answered. -/
theorem get_download_of_unanswered
    (h : ∀ r, .request r ∈ (run v source (download c context) d).effects → r.component = k →
      ∃ f, source r = .error f) :
    (run v source (download c context) d).cache.get k = d.get k := by
  rcases run_download_cases v source c context d with
    ⟨f, -, hrun⟩ | ⟨-, -, -, hrun⟩ | ⟨-, -, -, hcache, hreq⟩
  · rw [hrun]
  · rw [hrun]
  · rw [hcache, attempt_get_of_unanswered, Cache.get_alone]
    intro r hr
    have hk := component_of_attempt_request hr
    exact h r ((hreq r).2 (hk.symm ▸ hr)) hk

/-- Of a component that is requested, the downloads of a cycle leave what its own download makes of
its series. -/
theorem get_download_of_request {r : Request}
    (hr : .request r ∈ (run v source (download c context) d).effects) (hk : r.component = k) :
    (run v source (download c context) d).cache.get k =
      (run v source (Download.component c k) (d.alone k)).cache.get k := by
  rcases run_download_cases v source c context d with
    ⟨f, -, hrun⟩ | ⟨-, -, -, hrun⟩ | ⟨-, -, -, hcache, hreq⟩
  · simp [hrun] at hr
  · simp [hrun] at hr
  · subst hk
    rw [hcache, attempt_cache_of_request ((hreq r).1 hr)]

/-- What the downloads of a cycle leave of a component depends on the answers to its requests
alone. -/
theorem get_download_congr (h : ∀ r, r.component = k → source r = source' r) :
    (run v source (download c context) d).cache.get k =
      (run v source' (download c context) d).cache.get k := by
  cases hvalid : c.validate with
  | error f => simp [download, hvalid]
  | ok u =>
    by_cases hin : v.needs .spotPrice → c.cache.Representable v.now
    · rw [(run_download_of_inRange hvalid hin source context d).2.1,
        (run_download_of_inRange hvalid hin source' context d).2.1, run_attempt_congr h]
    · obtain ⟨hn, hout⟩ := Classical.not_imp.1 hin
      rw [run_download_of_outOfRange hvalid hn hout, run_download_of_outOfRange hvalid hn hout]

/-- What a cycle does for a component depends on its own series and its own answer alone. When past
hours can be dropped, they are dropped from the series that was there if the component was not
requested, or its request failed, and from what its download makes of that series if it was
requested; and it is requested when the configuration is valid and it is due, whatever the source
answers for others. A window of past hours that starts out of range makes every cycle overflow:
before its first request when the spot price is needed, and otherwise after its downloads, of which
nothing is dropped. -/
theorem refresh_isolated (c : Config) (s : Schedule) (name : String) (draw : Nat) (v : View)
    (_ : marketZone.dayAt v.now + 2 ≤ Zone.lastDay) (source : Source) (d : Cache) (k : Component) :
    (∀ source' : Source, (∀ r, r.component = k → source r = source' r) →
      (run v source (refresh c s name draw) d).cache.get k =
        (run v source' (refresh c s name draw) d).cache.get k) ∧
    (c.cache.Representable v.now →
      ((∀ r, .request r ∈ (run v source (refresh c s name draw) d).effects → r.component = k →
          ∃ f, source r = .error f) →
        (run v source (refresh c s name draw) d).cache.get k =
          (d.get k).filterHours (c.cache.keptFrom k v.now ≤ ·)) ∧
      (∀ r, .request r ∈ (run v source (refresh c s name draw) d).effects → r.component = k →
        (run v source (refresh c s name draw) d).cache.get k =
          ((run v source (Download.component c k) (d.alone k)).cache.get k).filterHours
            (c.cache.keptFrom k v.now ≤ ·)) ∧
      ((∃ r, .request r ∈ (run v source (refresh c s name draw) d).effects ∧ r.component = k) ↔
        c.validate = .ok () ∧ Due c v d k)) ∧
    (¬ c.cache.Representable v.now →
      (run v source (refresh c s name draw) d).value = .error .time ∧
      ((∀ r, .request r ∈ (run v source (refresh c s name draw) d).effects → r.component = k →
          ∃ f, source r = .error f) →
        (run v source (refresh c s name draw) d).cache.get k = d.get k) ∧
      (∀ r, .request r ∈ (run v source (refresh c s name draw) d).effects → r.component = k →
        (run v source (refresh c s name draw) d).cache.get k =
          (run v source (Download.component c k) (d.alone k)).cache.get k) ∧
      ((∃ r, .request r ∈ (run v source (refresh c s name draw) d).effects ∧ r.component = k) ↔
        c.validate = .ok () ∧ ¬ v.needs .spotPrice ∧ Due c v d k)) := by
  refine ⟨fun source' hs => ?_, fun hin => ⟨fun h => ?_, fun r hr hk => ?_, ?_⟩,
    fun hout => ⟨(refresh_of_not_representable hout source s name draw d).1, fun h => ?_,
      fun r hr hk => ?_, ?_⟩⟩
  · by_cases hin : c.cache.Representable v.now
    · rw [get_refresh hin, get_refresh hin, get_download_congr hs]
    · rw [(refresh_of_not_representable hin source s name draw d).2,
        (refresh_of_not_representable hin source' s name draw d).2, get_download_congr hs]
  · simp only [request_mem_refresh_iff] at h
    rw [get_refresh hin, get_download_of_unanswered h]
  · rw [get_refresh hin, get_download_of_request ((request_mem_refresh_iff ..).1 hr) hk]
  · simp [exists_request_iff, hin]
  · simp only [request_mem_refresh_iff] at h
    rw [(refresh_of_not_representable hout source s name draw d).2, get_download_of_unanswered h]
  · rw [(refresh_of_not_representable hout source s name draw d).2,
      get_download_of_request ((request_mem_refresh_iff ..).1 hr) hk]
  · simp [exists_request_iff, hout]

/-- At noon the source is down. The system tariff is requested nevertheless, and of the spot prices
from eleven on that of the current hour is kept. -/
theorem refresh_isolated_noon :
    (∃ r, .request r ∈ (run
      { now := .ofSeconds 1675512000, subscribed := [.current .spotPrice, .current .systemTariff] }
      (fun _ => .error (.empty "No records")) (refresh {} (.start {}) "cycle" 0)
      (.put .empty .spotPrice (.flat (.ofSeconds 1675508400) 2 .one))).effects ∧
      r.component = .systemTariff) ∧
    (run
      { now := .ofSeconds 1675512000, subscribed := [.current .spotPrice, .current .systemTariff] }
      (fun _ => .error (.empty "No records")) (refresh {} (.start {}) "cycle" 0)
      (.put .empty .spotPrice (.flat (.ofSeconds 1675508400) 2 .one))).cache.get .spotPrice =
      .flat (.ofSeconds 1675512000) 1 .one := by
  have hspec := fun k => refresh_isolated {} (.start {}) "cycle" 0
    { now := .ofSeconds 1675512000, subscribed := [.current .spotPrice, .current .systemTariff] }
    (by decide) (fun _ => .error (.empty "No records"))
    (.put .empty .spotPrice (.flat (.ofSeconds 1675508400) 2 .one)) k
  have hin : ({} : Config).cache.Representable (.ofSeconds 1675512000) :=
    fun h => absurd h (by decide)
  constructor
  · exact ((hspec .systemTariff).2.1 hin).2.2.2 ⟨rfl, by decide, rfl, .inr rfl⟩
  · rw [((hspec .spotPrice).2.1 hin).1 fun _ _ _ => ⟨_, rfl⟩]
    decide +kernel

/-- A valid configuration may keep a window of past hours that reaches back beyond the first
instant. Then a cycle that needs the spot price requests no tariff either, though it is due, and
drops no past hours, in the year 2023. -/
theorem refresh_deepHistory_keeps :
    ({ cache := { historicHours := 4294967295, keepHistoricSpot := true } } : Config).validate =
      .ok () ∧
    Due { cache := { historicHours := 4294967295, keepHistoricSpot := true } }
      { now := .ofSeconds 1675512000, subscribed := [.current .spotPrice, .current .systemTariff] }
      (.put .empty .systemTariff (.flat (.ofSeconds 1675504800) 4 .one)) .systemTariff ∧
    (∀ r, .request r ∉ (run
      { now := .ofSeconds 1675512000, subscribed := [.current .spotPrice, .current .systemTariff] }
      (fun _ => .error (.empty "No records"))
      (refresh { cache := { historicHours := 4294967295, keepHistoricSpot := true } }
        { policy := .initial (.ofSeconds 15) } "cycle" 0)
      (.put .empty .systemTariff (.flat (.ofSeconds 1675504800) 4 .one))).effects) ∧
    (run
      { now := .ofSeconds 1675512000, subscribed := [.current .spotPrice, .current .systemTariff] }
      (fun _ => .error (.empty "No records"))
      (refresh { cache := { historicHours := 4294967295, keepHistoricSpot := true } }
        { policy := .initial (.ofSeconds 15) } "cycle" 0)
      (.put .empty .systemTariff (.flat (.ofSeconds 1675504800) 4 .one))).cache.get .systemTariff =
      .flat (.ofSeconds 1675504800) 4 .one := by
  refine ⟨by rfl, ⟨by decide, by rfl, .inr rfl⟩, fun r hr => ?_, by rfl⟩
  have hout : ¬ ({ cache := { historicHours := 4294967295, keepHistoricSpot := true } } :
      Config).cache.Representable (.ofSeconds 1675512000) := by
    unfold Retention.Representable
    decide
  exact hout (((exists_request_iff ..).1 ⟨r, hr, rfl⟩).2.1 (by decide))

end HourlyPrices.Cycle
