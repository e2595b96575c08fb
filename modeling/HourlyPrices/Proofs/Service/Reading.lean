import HourlyPrices.Proofs.Cache.Coverage
import HourlyPrices.Proofs.Cache.Retention
import HourlyPrices.Proofs.Series.Sum
import HourlyPrices.Proofs.Service.Downloads
import HourlyPrices.Service.Query

/-!
# Reading series

A query reads the series of its components one after the other. One that has prices is read as it
is; one that has none is downloaded, and after that past hours are dropped from the whole cache
(`Query.Reads`). So a series that was read before may lose its past hours to a later download of the
same query, and nothing else (`Query.ReadsAll.forall₂_trimmed`). The sum of components is the sum of
the series that were read (`Query.sumFrom_eq_ok_iff`).
-/

namespace HourlyPrices

open Activity

/-- A series has lost at most its hours before an instant. -/
def Series.Trimmed (t : Instant) (s s' : Series) : Prop := s' = s ∨ s' = s.filterHours (t ≤ ·)

namespace Series

variable {t : Instant} {s s' s'' : Series}

theorem Trimmed.refl (t : Instant) (s : Series) : Trimmed t s s := .inl rfl

theorem Trimmed.trans (h : Trimmed t s s') (h' : Trimmed t s' s'') : Trimmed t s s'' := by
  rcases h' with rfl | rfl
  · exact h
  · rcases h with rfl | rfl
    · exact .inr rfl
    · rw [filterHours_from_from, Instant.latest, if_pos (Instant.le_refl t)]
      exact .inr rfl

end Series

/-- When past hours have been dropped, all hours are kept ones. -/
theorem Cache.keptFrom_le_of_cleanup {d e : Cache} {r : Retention} {now u : Instant}
    {k : Component} (h : d.cleanup r now = .ok e) (hu : u ∈ (e.get k).hours) :
    r.keptFrom k now ≤ u := by
  rw [(cleanup_eq_ok_iff.1 h).2 k, Series.mem_hours_filterHours] at hu
  exact of_decide_eq_true hu.1

namespace Query

variable {v : View} {source : Source} {c : Config} {k l : Component} {ks : List Component}
  {d d' : Cache} {s : Series} {now h : Instant}

/-! ## One series -/

theorem run_series (v : View) (source : Source) (c : Config) (k : Component) (d : Cache) :
    run v source (series c k) d =
      if (d.get k).isEmpty then
        (run v source (Download.component c k) d).bind fun x d' => match x with
          | .error f => ⟨[.log (c.serviceContext.event .warn
              s!"Error retrieving {k.name}: {f.message}")], d', .ok (d'.get k)⟩
          | .ok _ => match d'.cleanup c.cache v.now with
            | .error o => ⟨[], d', .error o⟩
            | .ok e => ⟨[], e, .ok (e.get k)⟩
      else ⟨[], d, .ok (d.get k)⟩ := by
  unfold series
  simp only [run_cached_bind]
  by_cases h : (d.get k).isEmpty
  · simp only [h, if_true, run_seq (Download.component c k)]
    congr 1
    funext x d'
    cases x with
    | error f => rfl
    | ok n =>
      simp only [run_cached_bind, run_view_bind]
      cases d'.cleanup c.cache v.now <;> rfl
  · simp only [h]
    rfl

/-- How a series is read: from the cache when it has prices there, and otherwise after a download,
which may have failed. -/
inductive Reads (c : Config) (now : Instant) (k : Component) (d : Cache) : Cache → Series → Prop
  | cached (h : ¬ (d.get k).isEmpty) : Reads c now k d d (d.get k)
  | failed (h : (d.get k).isEmpty) : Reads c now k d d .empty
  | downloaded {s e} (h : (d.get k).isEmpty) (he : (d.put k s).cleanup c.cache now = .ok e) :
    Reads c now k d e (e.get k)

/-- A download overflows, or leaves the cache to a fault, or has changed at most its series. -/
theorem run_component_put (v : View) (source : Source) (c : Config) (k : Component) (d : Cache) :
    (∃ o, Cache.cutoff c.cache .spotPrice v.now = .error o ∧
      run v source (Download.component c k) d = ⟨[], d, .error o⟩) ∨
    (∃ es f, run v source (Download.component c k) d = ⟨es, d, .ok (.error f)⟩) ∨
    ∃ es s n, run v source (Download.component c k) d = ⟨es, d.put k s, .ok (.ok n)⟩ := by
  obtain ⟨o, -, hcut, hrun⟩ | ⟨e, -, -, hrun⟩ | ⟨r, -, -, ⟨f, -, hrun⟩ | ⟨_, e, s, n, -, hrun⟩⟩ :=
    Download.run_component_cases v source c k d
  · exact .inl ⟨o, hcut, hrun⟩
  · exact .inr (.inr ⟨_, d.get k, 0, by rw [Cache.put_get_self]; exact hrun⟩)
  · exact .inr (.inl ⟨_, f, hrun⟩)
  · exact .inr (.inr ⟨_, s, n, hrun⟩)

/-- A series is read in one of these ways, unless the window of past hours starts out of range. -/
theorem run_series_reads (v : View) (source : Source) (c : Config) (k : Component) (d : Cache) :
    (∃ o, (run v source (series c k) d).value = .error o ∧ ¬ c.cache.Representable v.now) ∨
    ∃ s, (run v source (series c k) d).value = .ok s ∧
      Reads c v.now k d (run v source (series c k) d).cache s := by
  rw [run_series]
  by_cases hempty : (d.get k).isEmpty
  · rw [if_pos hempty]
    obtain ⟨o, hcut, hrun⟩ | ⟨es, f, hrun⟩ | ⟨es, s, n, hrun⟩ :=
      run_component_put v source c k d
    · rw [hrun]
      exact .inl ⟨o, rfl, Cache.not_representable_of_cutoff hcut⟩
    · rw [hrun]
      refine .inr ⟨.empty, ?_, .failed hempty⟩
      exact congrArg Except.ok (Series.isEmpty_iff.1 hempty)
    · rw [hrun, Outcome.bind_of_ok rfl]
      cases hclean : (d.put k s).cleanup c.cache v.now with
      | error o =>
        refine .inl ⟨o, by rfl, fun hin => ?_⟩
        obtain ⟨e, he⟩ := (Cache.exists_cleanup_iff_representable (d.put k s)).2 hin
        rw [hclean] at he
        cases he
      | ok e =>
        exact .inr ⟨_, rfl, .downloaded hempty hclean⟩
  · rw [if_neg hempty]
    exact .inr ⟨_, rfl, .cached hempty⟩

namespace Reads

theorem get_self (h : Reads c now k d d' s) : d'.get k = s := by
  cases h with
  | cached _ => rfl
  | failed h => exact Series.isEmpty_iff.1 h
  | downloaded _ _ => rfl

/-- Of the other series, at most past hours are dropped. -/
theorem trimmed (h : Reads c now k d d' s) (hl : l ≠ k) :
    (d.get l).Trimmed (c.cache.keptFrom l now) (d'.get l) := by
  cases h with
  | cached _ => exact .refl ..
  | failed _ => exact .refl ..
  | downloaded _ he =>
    right
    rw [(Cache.cleanup_eq_ok_iff.1 he).2 l, Cache.get_put_of_ne hl]

/-- Hours that come to a series are kept ones. -/
theorem mem_hours (h : Reads c now k d d' s) {u : Instant} (hu : u ∈ (d'.get l).hours) :
    u ∈ (d.get l).hours ∨ c.cache.keptFrom l now ≤ u := by
  cases h with
  | cached _ => exact .inl hu
  | failed _ => exact .inl hu
  | downloaded _ he => exact .inr (Cache.keptFrom_le_of_cleanup he hu)

end Reads

/-! ## Several series -/

/-- How the series of some components are read one after the other. -/
inductive ReadsAll (c : Config) (now : Instant) : List Component → Cache → Cache → List Series → Prop
  | nil (d : Cache) : ReadsAll c now [] d d []
  | cons {k : Component} {ks d d₁ d' s ss} (h : Reads c now k d d₁ s) (hs : ReadsAll c now ks d₁ d' ss) :
    ReadsAll c now (k :: ks) d d' (s :: ss)

theorem run_mapM_nil : run v source (List.mapM (series c) []) d = ⟨[], d, .ok []⟩ := rfl

theorem run_mapM_cons : run v source ((k :: ks).mapM (series c)) d =
    (run v source (series c k) d).bind fun s d₁ =>
      (run v source (ks.mapM (series c)) d₁).bind fun ss d₂ => ⟨[], d₂, .ok (s :: ss)⟩ := by
  rw [List.mapM_cons, run_seq]
  congr 1
  funext s d₁
  rw [run_seq]
  rfl

theorem run_mapM_reads (v : View) (source : Source) (c : Config) (ks : List Component) (d : Cache) :
    (∃ o, (run v source (ks.mapM (series c)) d).value = .error o ∧
      ¬ c.cache.Representable v.now) ∨
    ∃ ss, (run v source (ks.mapM (series c)) d).value = .ok ss ∧
      ReadsAll c v.now ks d (run v source (ks.mapM (series c)) d).cache ss := by
  induction ks generalizing d with
  | nil => exact .inr ⟨[], rfl, .nil d⟩
  | cons k ks ih =>
    rw [run_mapM_cons]
    obtain ⟨o, ho, hout⟩ | ⟨s, hs, hreads⟩ := run_series_reads v source c k d
    · exact .inl ⟨o, by rw [Outcome.bind_of_error ho], hout⟩
    · rw [Outcome.bind_of_ok hs]
      obtain ⟨o, ho, hout⟩ | ⟨ss, hss, hall⟩ := ih (run v source (series c k) d).cache
      · exact .inl ⟨o, by rw [Outcome.bind_of_error ho], hout⟩
      · rw [Outcome.bind_of_ok hss]
        exact .inr ⟨s :: ss, rfl, .cons hreads hall⟩

theorem readsAll_of_run {ss : List Series}
    (hss : (run v source (ks.mapM (series c)) d).value = .ok ss) :
    ReadsAll c v.now ks d (run v source (ks.mapM (series c)) d).cache ss := by
  obtain ⟨o, ho, -⟩ | ⟨ss', hss', hreads⟩ := run_mapM_reads v source c ks d
  · rw [hss] at ho
    cases ho
  · obtain rfl : ss = ss' := Except.ok.inj (hss.symm.trans hss')
    exact hreads

namespace ReadsAll

variable {ss : List Series}

/-- Hours that come to a series are kept ones. -/
theorem mem_hours (h : ReadsAll c now ks d d' ss) {u : Instant} (hu : u ∈ (d'.get l).hours) :
    u ∈ (d.get l).hours ∨ c.cache.keptFrom l now ≤ u := by
  induction h with
  | nil => exact .inl hu
  | cons h _ ih =>
    obtain hu | hle := ih hu
    · exact h.mem_hours hu
    · exact .inr hle

/-- An hour that is read was cached before or is a kept one. -/
theorem mem_hours_of_mem (h : ReadsAll c now ks d d' ss) (hs : s ∈ ss) {u : Instant}
    (hu : u ∈ s.hours) : ∃ k ∈ ks, u ∈ (d.get k).hours ∨ c.cache.keptFrom k now ≤ u := by
  induction h with
  | nil => cases hs
  | @cons k ks d d₁ d' s' ss h _ ih =>
    obtain rfl | hs := List.mem_cons.1 hs
    · rw [← h.get_self] at hu
      exact ⟨k, List.mem_cons_self, h.mem_hours hu⟩
    · obtain ⟨l, hl, hu | hle⟩ := ih hs
      · exact ⟨l, List.mem_cons_of_mem _ hl, h.mem_hours hu⟩
      · exact ⟨l, List.mem_cons_of_mem _ hl, .inr hle⟩

/-- Of series that are not read, at most past hours are dropped. -/
theorem trimmed (h : ReadsAll c now ks d d' ss) (hl : l ∉ ks) :
    (d.get l).Trimmed (c.cache.keptFrom l now) (d'.get l) := by
  induction h with
  | nil => exact .refl ..
  | cons h _ ih =>
    obtain ⟨hlk, hlks⟩ := not_or.1 (mt List.mem_cons.2 hl)
    exact (h.trimmed hlk).trans (ih hlks)

/-- Of series that have been read, at most past hours are dropped after that. -/
theorem forall₂_trimmed (h : ReadsAll c now ks d d' ss) (hks : ks.Nodup) :
    ks.Forall₂ (fun k s => s.Trimmed (c.cache.keptFrom k now) (d'.get k)) ss := by
  induction h with
  | nil => exact .nil
  | cons h hs ih =>
    obtain ⟨hk, hks⟩ := List.nodup_cons.1 hks
    exact .cons (h.get_self ▸ hs.trimmed hk) (ih hks)

end ReadsAll

/-! ## Sums -/

theorem run_sumFrom_cons (t : Series) : run v source (sumFrom c t (k :: ks)) d =
    (run v source (series c k) d).bind fun s d₁ => match t.addAll s.entries with
      | .error o => ⟨[], d₁, .error o⟩
      | .ok u => run v source (sumFrom c u ks) d₁ := by
  rw [sumFrom, run_seq]
  congr 1
  funext s d₁
  cases t.addAll s.entries <;> rfl

/-- The sum of components is that of the series that are read. -/
theorem sumFrom_eq_ok_iff {t t' : Series} {es : List Effect} :
    run v source (sumFrom c t ks) d = ⟨es, d', .ok t'⟩ ↔
      ∃ ss, run v source (ks.mapM (series c)) d = ⟨es, d', .ok ss⟩ ∧ t.totalFrom ss = .ok t' := by
  -- A sum that overflows leaves the rest unread, so only runs that come to a value agree.
  induction ks generalizing t d es with
  | nil =>
    rw [run_mapM_nil]
    change (⟨[], d, .ok t⟩ : Outcome Series) = _ ↔ _
    constructor
    · intro h
      cases h
      exact ⟨[], rfl, rfl⟩
    · rintro ⟨ss, h, ht⟩
      cases h
      cases ht
      rfl
  | cons k ks ih =>
    simp only [run_mapM_cons, run_sumFrom_cons, Outcome.bind_eq_ok_iff]
    constructor
    · rintro ⟨es₁, d₁, s, es₂, hs, hrest, rfl⟩
      cases hadd : t.addAll s.entries with
      | error o =>
        rw [hadd] at hrest
        cases hrest
      | ok u =>
        rw [hadd] at hrest
        obtain ⟨ss, hss, htotal⟩ := ih.1 hrest
        refine ⟨s :: ss, ⟨es₁, d₁, s, es₂, hs, ⟨es₂, d', ss, [], hss, rfl, ?_⟩, rfl⟩, ?_⟩
        · exact (List.append_nil _).symm
        · rw [Series.totalFrom_cons, hadd]
          exact htotal
    · rintro ⟨_, ⟨es₁, d₁, s, es₂, hs, ⟨es₃, d₂, ss, es₄, hss, hnil, rfl⟩, rfl⟩, htotal⟩
      cases hnil
      rw [Series.totalFrom_cons] at htotal
      cases hadd : t.addAll s.entries with
      | error o =>
        rw [hadd] at htotal
        cases htotal
      | ok u =>
        rw [hadd] at htotal
        refine ⟨es₁, d₁, s, es₃, hs, ?_, ?_⟩
        · rw [hadd]
          exact ih.2 ⟨ss, hss, htotal⟩
        · rw [List.append_nil]

end Query

end HourlyPrices
