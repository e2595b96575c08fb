import HourlyPrices.Proofs.Component
import HourlyPrices.Proofs.Service.Reading
import HourlyPrices.Proofs.Service.Serving
import HourlyPrices.Proofs.Service.SpotWindow

/-!
# What a query leaves

A query takes its components one after the other. On its turn a component whose series is empty is
requested once, and nothing else is requested (`Query.Turn`). A request that succeeds replaces the
series of its component and drops past hours everywhere, so what one turn does decides what the next
one finds; `Query.Asked` is what is true of them all.
-/

namespace HourlyPrices

open Activity

/-- The series that the records of an answer make. -/
def Request.made (now : Instant) : (r : Request) → List r.Record → Except Overflow Series
  | spot query, records => SpotRecord.seriesPerKwh records query.currency
  | tariffs _ _, records =>
    let hour := marketZone.localTime now.hourStart
    .ok (hourly marketZone (records.filter (·.endsAfter hour)) now)

namespace Cache

variable {r : Retention} {now : Instant} {d d' d'' e : Cache}

/-- All series have lost at most hours that are not kept any more. -/
def Trimmed (r : Retention) (now : Instant) (d d' : Cache) : Prop :=
  ∀ k, (d.get k).Trimmed (r.keptFrom k now) (d'.get k)

theorem Trimmed.refl (r : Retention) (now : Instant) (d : Cache) : d.Trimmed r now d :=
  fun _ => .refl ..

theorem trimmed_cleanup (h : d.cleanup r now = .ok e) : d.Trimmed r now e :=
  fun k => .inr ((cleanup_eq_ok_iff.1 h).2 k)

end Cache

namespace Download

variable {v : View} {source : Source} {c : Config} {k : Component} {d : Cache}

/-- A download of spot prices where there are none keeps no past hours besides those of the
answer. -/
theorem spotSeries_of_isEmpty (hempty : (d.get .spotPrice).isEmpty) {history : Bool}
    (h : c.wantsHistory d v.now = .ok history) (received : Series) :
    spotSeries c history v.now received (d.get .spotPrice) = received := by
  have hhours := Series.isEmpty_iff_hours.1 hempty
  have hhistory : history ↔ c.cache.keepHistoricSpot := by
    simpa [hhours] using (Config.wantsHistory_eq_ok_iff.1 h).2
  rw [spotSeries, if_neg]
  simp [hhistory]

/-- A download where there is no series: it makes at most one request, and puts what the records
make into the cache. -/
theorem run_component_of_isEmpty (hempty : (d.get k).isEmpty) (v : View) (source : Source)
    (c : Config) :
    (∃ o, run v source (component c k) d = ⟨[], d, .error o⟩) ∨
    (∃ e, run v source (component c k) d = ⟨[.log e], d, .ok (.ok 0)⟩) ∨
    ∃ r, r.component = k ∧
      ((∃ f, source r = .error f ∧
        run v source (component c k) d = ⟨[.request r], d, .ok (.error f)⟩) ∨
      ∃ records s e n, source r = .ok records ∧ r.made v.now records = .ok s ∧
        run v source (component c k) d = ⟨[.request r, .log e], d.put k s, .ok (.ok n)⟩) := by
  unfold component
  split
  · rename_i hk
    subst hk
    have hrun := run_spot v source c d
    cases hh : c.wantsHistory d v.now with
    | error o =>
      rw [hh] at hrun
      exact .inl ⟨o, hrun⟩
    | ok history =>
      refine .inr (.inr ⟨.spot (c.spotQuery history), rfl, ?_⟩)
      cases ha : source (.spot (c.spotQuery history)) with
      | error f =>
        simp only [hh, ha] at hrun
        exact .inl ⟨f, rfl, hrun⟩
      | ok records =>
        obtain ⟨s, hs⟩ := SpotRecord.exists_seriesPerKwh records c.service.currency
        simp only [hh, ha, hs, spotSeries_of_isEmpty hempty hh] at hrun
        exact .inr ⟨records, s, _, _, rfl, hs, hrun⟩
  · have hrun := run_tariff v source c k d
    cases hq : c.tariffQuery? k with
    | none =>
      rw [hq] at hrun
      exact .inr (.inl ⟨_, hrun⟩)
    | some query =>
      refine .inr (.inr ⟨.tariffs k query, rfl, ?_⟩)
      cases ha : source (.tariffs k query) with
      | error f =>
        simp only [hq, ha] at hrun
        exact .inl ⟨f, rfl, hrun⟩
      | ok records =>
        simp only [hq, ha] at hrun
        exact .inr ⟨records, _, _, _, rfl, rfl, hrun⟩

end Download

namespace Query

variable {v : View} {source : Source} {c : Config} {k l : Component} {ks : List Component}
  {d d' e : Cache} {rs : List Request} {s : Series}

/-- A series is what the records of a request have made, but for hours that are not kept any more.
-/
def ComesFrom (c : Config) (now : Instant) (source : Source) (r : Request) (s : Series) : Prop :=
  ∃ records made, source r = .ok records ∧ r.made now records = .ok made ∧
    made.Trimmed (c.cache.keptFrom r.component now) s

/-- What can be done on the turn of a component: what is requested, and the cache after it. -/
inductive Turn (c : Config) (now : Instant) (source : Source) (k : Component) (d : Cache) :
    List Request → Cache → Prop
  | quiet {d' : Cache} (h : d.Trimmed c.cache now d') : Turn c now source k d [] d'
  | failed {r : Request} {f : Fault} (hempty : (d.get k).isEmpty) (hr : r.component = k)
    (hf : source r = .error f) : Turn c now source k d [r] d
  | fetched {r : Request} {records : List r.Record} {s : Series} {d' : Cache}
    (hempty : (d.get k).isEmpty) (hr : r.component = k) (hok : source r = .ok records)
    (hs : r.made now records = .ok s)
    (h : (d.put k s).Trimmed c.cache now d') : Turn c now source k d [r] d'

/-- Reading a series is a turn. -/
theorem run_series_turn (v : View) (source : Source) (c : Config) (k : Component) (d : Cache) :
    Turn c v.now source k d (run v source (series c k) d).requests
      (run v source (series c k) d).cache := by
  rw [run_series]
  by_cases hempty : (d.get k).isEmpty
  · rw [if_pos hempty]
    obtain ⟨o, hrun⟩ | ⟨x, hrun⟩ | ⟨r, hr, ⟨f, hf, hrun⟩ | ⟨records, s, x, n, hok, hs, hrun⟩⟩ :=
      Download.run_component_of_isEmpty hempty v source c
    · rw [hrun, Outcome.bind_of_error rfl]
      exact .quiet (.refl _ _ _)
    · rw [hrun, Outcome.bind_of_ok rfl]
      cases hclean : d.cleanup c.cache v.now with
      | error o => exact .quiet (.refl _ _ _)
      | ok e => exact .quiet (Cache.trimmed_cleanup hclean)
    · rw [hrun, Outcome.bind_of_ok rfl]
      exact .failed hempty hr hf
    · rw [hrun, Outcome.bind_of_ok rfl]
      -- An overflow of the window of past hours leaves the whole of the new series.
      cases hclean : (d.put k s).cleanup c.cache v.now with
      | error o => exact .fetched hempty hr hok hs (.refl _ _ _)
      | ok e => exact .fetched hempty hr hok hs (Cache.trimmed_cleanup hclean)
  · rw [if_neg hempty]
    exact .quiet (.refl _ _ _)

namespace Turn

theorem sublist (h : Turn c v.now source k d rs d') : (rs.map (·.component)).Sublist [k] := by
  cases h with
  | quiet _ => exact List.nil_sublist _
  | failed _ hr _ | fetched _ hr _ _ _ => exact hr ▸ .refl _

theorem isEmpty (h : Turn c v.now source k d rs d') {r : Request} (hr : r ∈ rs) :
    r.component = k ∧ (d.get k).isEmpty := by
  cases h with
  | quiet _ => cases hr
  | failed hempty hk _ | fetched hempty hk _ _ _ =>
    obtain rfl := List.mem_singleton.1 hr
    exact ⟨hk, hempty⟩

theorem cache_of_error (h : Turn c v.now source k d rs d') {r : Request} (hr : r ∈ rs) {f : Fault}
    (hf : source r = .error f) : d' = d := by
  cases h with
  | quiet _ => cases hr
  | failed _ _ _ => rfl
  | fetched _ _ hok _ _ =>
    obtain rfl := List.mem_singleton.1 hr
    rw [hf] at hok
    cases hok

theorem comesFrom (h : Turn c v.now source k d rs d') {r : Request} (hr : r ∈ rs)
    {records : List r.Record} (hok : source r = .ok records) :
    ComesFrom c v.now source r (d'.get r.component) := by
  cases h with
  | quiet _ => cases hr
  | failed _ _ hf =>
    obtain rfl := List.mem_singleton.1 hr
    rw [hok] at hf
    cases hf
  | fetched _ hk hok hs htrim =>
    obtain rfl := List.mem_singleton.1 hr
    subst hk
    have hl := htrim r.component
    rw [Cache.get_put_self] at hl
    exact ⟨_, _, hok, hs, hl⟩

/-- A turn trims each series, or replaces it by what a request has made. -/
theorem kept (h : Turn c v.now source k d rs d') (l : Component) :
    (d.get l).Trimmed (c.cache.keptFrom l v.now) (d'.get l) ∨
      ∃ r ∈ rs, r.component = l ∧ ComesFrom c v.now source r (d'.get l) := by
  cases h with
  | quiet htrim => exact .inl (htrim l)
  | failed _ _ _ => exact .inl (.refl ..)
  | @fetched r records s _ hempty hk hok hs htrim =>
    by_cases hl : l = k
    · subst hl
      have hfrom := (fetched hempty hk hok hs htrim).comesFrom List.mem_cons_self hok
      exact .inr ⟨r, List.mem_cons_self, hk, hk ▸ hfrom⟩
    · have htl := htrim l
      rw [Cache.get_put_of_ne hl] at htl
      exact .inl htl

end Turn

/-! ## All turns -/

/-- The cache after some components have been read. -/
def cacheAfter (c : Config) (v : View) (source : Source) (ks : List Component) (d : Cache) :
    Cache :=
  (run v source (ks.mapM (series c)) d).cache

/-- What is true of the requests of a query for some components, and of the cache that it leaves. -/
structure Asked (c : Config) (v : View) (source : Source) (ks : List Component) (d : Cache)
    (rs : List Request) (d' : Cache) : Prop where
  /-- Requests are in the order of the components, one for each at most. -/
  sublist : (rs.map (·.component)).Sublist ks
  /-- A component is requested if its series is empty when the ones before it have been read. If
  that fails no series is changed. -/
  turn : ∀ r ∈ rs, ∃ front back, ks = front ++ r.component :: back ∧
    ((cacheAfter c v source front d).get r.component).isEmpty ∧
    ∀ f, source r = .error f → cacheAfter c v source (front ++ [r.component]) d =
      cacheAfter c v source front d
  /-- Each series is as it was or comes from a request. -/
  kept : ∀ k, (d.get k).Trimmed (c.cache.keptFrom k v.now) (d'.get k) ∨
    ∃ r ∈ rs, r.component = k ∧ ComesFrom c v.now source r (d'.get k)
  /-- A series for which there was a request that succeeded comes from it. -/
  fetched : ∀ r ∈ rs, ∀ records, source r = .ok records →
    ComesFrom c v.now source r (d'.get r.component)

theorem cacheAfter_cons (hs : (run v source (series c k) d).value = .ok s) (ks : List Component) :
    cacheAfter c v source (k :: ks) d =
      cacheAfter c v source ks (run v source (series c k) d).cache := by
  rw [cacheAfter, run_mapM_cons, Outcome.bind_of_ok hs, cacheAfter]
  cases hss : (run v source (ks.mapM (series c)) (run v source (series c k) d).cache).value with
  | ok ss => rw [Outcome.bind_of_ok hss]
  | error o => rw [Outcome.bind_of_error hss]

theorem cacheAfter_singleton (c : Config) (v : View) (source : Source) (k : Component) (d : Cache) :
    cacheAfter c v source [k] d = (run v source (series c k) d).cache := by
  cases hs : (run v source (series c k) d).value with
  | ok s => exact cacheAfter_cons hs []
  | error o => rw [cacheAfter, run_mapM_cons, Outcome.bind_of_error hs]

theorem ComesFrom.trimmed {r : Request} {now : Instant} {s' : Series}
    (h : ComesFrom c now source r s) (ht : s.Trimmed (c.cache.keptFrom r.component now) s') :
    ComesFrom c now source r s' := by
  obtain ⟨records, made, hok, hmade, hs⟩ := h
  exact ⟨records, made, hok, hmade, hs.trans ht⟩

namespace Asked

theorem nil (c : Config) (v : View) (source : Source) (ks : List Component) (d : Cache) :
    Asked c v source ks d [] d where
  sublist := List.nil_sublist _
  turn _ hr := by cases hr
  kept _ := .inl (.refl ..)
  fetched _ hr := by cases hr

/-- A query that has read nothing but its first component. -/
theorem first (c : Config) (v : View) (source : Source) (k : Component) (ks : List Component)
    (d : Cache) : Asked c v source (k :: ks) d (run v source (series c k) d).requests
      (run v source (series c k) d).cache := by
  have hturn := run_series_turn v source c k d
  constructor
  · exact hturn.sublist.trans (List.singleton_sublist.2 List.mem_cons_self)
  · intro r hr
    obtain ⟨rfl, hempty⟩ := hturn.isEmpty hr
    refine ⟨[], ks, rfl, hempty, fun f hf => ?_⟩
    exact (cacheAfter_singleton ..).trans (hturn.cache_of_error hr hf)
  · exact hturn.kept
  · intro r hr records hok
    exact hturn.comesFrom hr hok

/-- A query that goes on after its first component. -/
theorem cons (hk : k ∉ ks) (hs : (run v source (series c k) d).value = .ok s)
    (h : Asked c v source ks (run v source (series c k) d).cache rs d') :
    Asked c v source (k :: ks) d ((run v source (series c k) d).requests ++ rs) d' := by
  have hturn := run_series_turn v source c k d
  have hfirst := first c v source k ks d
  have hlater : ∀ r ∈ rs, r.component ∈ ks :=
    fun r hr => h.sublist.subset (List.mem_map_of_mem hr)
  constructor
  · rw [List.map_append]
    exact hturn.sublist.append h.sublist
  · intro r hr
    obtain hr | hr := List.mem_append.1 hr
    · exact hfirst.turn r hr
    · obtain ⟨front, back, rfl, hempty, herror⟩ := h.turn r hr
      refine ⟨k :: front, back, rfl, ?_, fun f hf => ?_⟩
      · rw [cacheAfter_cons hs]
        exact hempty
      · rw [List.cons_append, cacheAfter_cons hs, cacheAfter_cons hs]
        exact herror f hf
  · intro l
    obtain htrim' | ⟨r, hr, hl, hfrom⟩ := h.kept l
    · obtain htrim | ⟨r, hr, hl, hfrom⟩ := hturn.kept l
      · exact .inl (htrim.trans htrim')
      · exact .inr ⟨r, List.mem_append_left _ hr, hl, hfrom.trimmed (hl ▸ htrim')⟩
    · exact .inr ⟨r, List.mem_append_right _ hr, hl, hfrom⟩
  · intro r hr records hok
    obtain hr | hr := List.mem_append.1 hr
    · -- The component has no turn any more, so later turns can only trim its series.
      obtain ⟨hrk, -⟩ := hturn.isEmpty hr
      obtain htrim | ⟨r', hr', hl, -⟩ := h.kept r.component
      · exact (hturn.comesFrom hr hok).trimmed htrim
      · exact absurd (hl ▸ hlater r' hr') (hrk ▸ hk)
    · exact h.fetched r hr records hok

end Asked

/-- However far a sum of components comes, it takes them by turns. -/
theorem asked_sumFrom (hks : ks.Nodup) (total : Series) (d : Cache) :
    Asked c v source ks d (run v source (sumFrom c total ks) d).requests
      (run v source (sumFrom c total ks) d).cache := by
  induction ks generalizing total d with
  | nil => exact .nil c v source [] d
  | cons k ks ih =>
    obtain ⟨hk, hks⟩ := List.nodup_cons.1 hks
    rw [run_sumFrom_cons]
    cases hs : (run v source (series c k) d).value with
    | error o =>
      rw [Outcome.requests_bind_of_error hs, Outcome.bind_of_error hs]
      exact .first c v source k ks d
    | ok s =>
      rw [Outcome.requests_bind_of_ok hs, Outcome.bind_of_ok hs]
      cases total.addAll s.entries with
      | error o => exact .cons hk hs (.nil ..)
      | ok total' => exact .cons hk hs (ih hks total' _)

theorem asked_sum (hks : ks.Nodup) (d : Cache) :
    Asked c v source ks d (run v source (sum c ks) d).requests
      (run v source (sum c ks) d).cache := by
  unfold sum
  split
  · exact .nil c v source ks d
  · exact asked_sumFrom hks .empty d

theorem asked_sumNamed (names : String) (d : Cache) :
    Asked c v source (Component.selected names) d (run v source (sumNamed c names) d).requests
      (run v source (sumNamed c names) d).cache := by
  unfold sumNamed
  split
  · rename_i hblank
    rw [Component.selected_of_isBlankText hblank]
    exact asked_sum (by decide) d
  · rename_i hblank
    by_cases h : Component.Understood names
    · rw [Component.selection_eq_ok hblank h]
      exact asked_sum (Component.nodup_selected names) d
    · obtain ⟨n, hn⟩ := Component.selection_eq_error h
      rw [hn]
      exact .nil ..

end Query

namespace Activity

variable {α β : Type} {v : View} {source : Source} {d : Cache}

/-- Requests and changes of the cache come from the part that is not quiet. -/
theorem run_seq_quiet (v : View) (source : Source) (d : Cache) (a : Activity α)
    {f : α → Activity β} (hf : ∀ x, (f x).Quiet) :
    (run v source (a >>= f) d).requests = (run v source a d).requests ∧
      (run v source (a >>= f) d).cache = (run v source a d).cache := by
  rw [run_seq]
  cases ha : (run v source a d).value with
  | ok x =>
    rw [Outcome.requests_bind_of_ok ha, (hf x).requests, List.append_nil, Outcome.bind_of_ok ha]
    exact ⟨rfl, (hf x).run_cache⟩
  | error e =>
    rw [Outcome.requests_bind_of_error ha, Outcome.bind_of_error ha]
    exact ⟨rfl, rfl⟩

end Activity

namespace Query.Asked

variable {α β : Type} {v : View} {source : Source} {c : Config} {ks : List Component} {d : Cache}
  {a : Activity α} {f : α → Activity β}

/-- What comes after the turns neither requests nor changes anything. -/
theorem quiet (h : Asked c v source ks d (run v source a d).requests (run v source a d).cache)
    (hf : ∀ x, (f x).Quiet) : Asked c v source ks d (run v source (a >>= f) d).requests
      (run v source (a >>= f) d).cache := by
  obtain ⟨hrequests, hcache⟩ := run_seq_quiet v source d a hf
  rw [hrequests, hcache]
  exact h

end Query.Asked

namespace Question

open Query

/-- The components that a question is about. -/
def selected : Question → List Component
  | series k => [k]
  | sum ks => ks
  | sumNamed names => Component.selected names
  | cost _ _ _ => Component.all

theorem asked (c : Config) (v : View) (source : Source) {q : Question} (hq : q.selected.Nodup)
    (d : Cache) : Asked c v source q.selected d (run v source (q.result c) d).requests
      (run v source (q.result c) d).cache := by
  cases q with
  | series k => exact (Asked.first c v source k [] d).quiet fun _ => .pure _
  | sum ks => exact (asked_sum hq d).quiet fun _ => .pure _
  | sumNamed names => exact (asked_sumNamed names d).quiet fun _ => .pure _
  | cost start stop watts =>
    refine Asked.quiet (Asked.quiet (asked_sum hq d) fun prices => ?_) fun _ => .pure _
    apply Quiet.bind (.lift _)
    intro amount
    dsimp only
    split
    · exact ⟨fun _ => Effect.noConfusion, trivial⟩
    · exact .pure _

end Question

namespace Standing

open Query

/-- A question requests each of its components at most once, and only if its series is empty when
the ones before it have been read. Afterwards each series is the one before or the one that its
request has made, but for hours that are not kept any more. A request that fails changes no series,
and a series without a request that succeeds is the one before. The schedule stays as it is. This is
so too when the question overflows on the way. -/
theorem after_question (c : Config) (σ : Standing) (v : View) (source : Source) {q : Question}
    (hq : q.selected.Nodup) :
    let x : Occasion := ⟨.question q, .still v source⟩
    let o := (σ.perform c x).outcome
    let σ' := σ.after x (σ.perform c x)
    (∀ k, (o.requests.map (·.component)).count k ≤ 1) ∧
    (∀ r ∈ o.requests, ∃ front back, q.selected = front ++ r.component :: back ∧
      ((cacheAfter c v source front σ.cache).get r.component).isEmpty ∧
      ∀ f, source r = .error f → cacheAfter c v source (front ++ [r.component]) σ.cache =
        cacheAfter c v source front σ.cache) ∧
    (∀ r ∈ o.requests, ∀ records, source r = .ok records →
      ComesFrom c v.now source r (σ'.cache.get r.component)) ∧
    (∀ k, (∀ r ∈ o.requests, r.component = k → ∃ f, source r = .error f) →
      (σ.cache.get k).Trimmed (c.cache.keptFrom k v.now) (σ'.cache.get k)) ∧
    σ'.schedule = σ.schedule := by
  intro x o σ'
  have ho : o = run v source (q.result c) σ.cache := outcome_play_still ..
  have hasked : Asked c v source q.selected σ.cache o.requests σ'.cache := by
    have h := Question.asked c v source hq σ.cache
    rw [← ho] at h
    exact h
  have hnodup := hasked.sublist.nodup hq
  refine ⟨List.nodup_iff_count_le_one.1 hnodup, hasked.turn, hasked.fetched, ?_, rfl⟩
  intro k hfailed
  obtain htrim | ⟨r, hr, hk, records, made, hok, -⟩ := hasked.kept k
  · exact htrim
  · obtain ⟨f, hf⟩ := hfailed r hr hk
    rw [hok] at hf
    cases hf

/-- The sum of the spot price and the system tariff, when the tariff is not to be had: the spot
price is what its request has made, and there is no tariff. -/
theorem after_question_withoutTariff :
    let source : Source := .answering
      (.ok [{ hour := .ofSeconds 1675512000, dkk := some { num := 1000, scale := 0 } }])
      (.error (.empty "No records"))
    let q : Question := .sum [.spotPrice, .systemTariff]
    let σ : Standing := ⟨.empty, .start {}⟩
    let x : Occasion := ⟨.question q, .still { now := .ofSeconds 1675512000 } source⟩
    let σ' := σ.after x (σ.perform {} x)
    q.selected.Nodup ∧
    ComesFrom {} (.ofSeconds 1675512000) source (.spot (Config.spotQuery {} false))
      (σ'.cache.get .spotPrice) ∧
    Series.empty.Trimmed (.ofSeconds 1675512000) (σ'.cache.get .systemTariff) ∧
    σ'.schedule = .start {} := by
  intro source q σ x σ'
  have hq : q.selected.Nodup := by decide
  have hspot : .spot (Config.spotQuery {} false) ∈ (σ.perform {} x).outcome.requests := by decide
  obtain ⟨-, -, hfetched, hkept, hschedule⟩ :=
    after_question {} σ { now := .ofSeconds 1675512000 } source hq
  refine ⟨hq, hfetched _ hspot _ rfl, hkept .systemTariff fun r hr hk => ?_, hschedule⟩
  cases r with
  | spot query => cases hk
  | tariffs k query => exact ⟨_, rfl⟩

end Standing

end HourlyPrices
