import HourlyPrices.Proofs.Service.Expiry
import HourlyPrices.Proofs.Service.Reading

/-!
# Past hours in answers

A query drops past hours only after a download. So a series that it reads has past hours exactly
when the cached one has, and past hours in a sum come from the cache too
(`Query.unexpired_iff_cached`). A cycle or a tick leaves none, so there are none in answers for the
rest of that hour, unless they are put into the cache again.
-/

namespace HourlyPrices

open Activity

variable {c : Config} {v : View} {source : Source} {d : Cache} {k : Component}
  {ks : List Component} {s : Series} {now t : Instant}

namespace Retention

/-- A series of a component has no hour that is not kept any more. -/
def Unexpired (r : Retention) (k : Component) (now : Instant) (s : Series) : Prop :=
  ∀ h ∈ s.hours, r.keptFrom k now ≤ h

theorem unexpired_empty (r : Retention) (k : Component) (now : Instant) :
    r.Unexpired k now .empty := by
  intro h hh
  cases hh

theorem keptFrom_hourStart (r : Retention) (k : Component) (now : Instant) :
    r.keptFrom k now.hourStart = r.keptFrom k now := by
  unfold keptFrom
  rw [Instant.hourStart_of_isHour (Instant.isHour_hourStart now)]

/-- What is kept depends on the hour alone. -/
theorem keptFrom_le_of_hourStart_le (r : Retention) (k : Component)
    (h : now.hourStart ≤ t.hourStart) : r.keptFrom k now ≤ r.keptFrom k t := by
  rw [← keptFrom_hourStart r k now, ← keptFrom_hourStart r k t]
  exact keptFrom_mono r k h

end Retention

namespace Query

theorem Reads.unexpired_iff {d' : Cache} (h : Reads c now k d d' s) :
    c.cache.Unexpired k now s ↔ c.cache.Unexpired k now (d.get k) := by
  cases h with
  | cached _ => rfl
  | failed h => rw [Series.isEmpty_iff.1 h]
  | downloaded h he =>
    apply iff_of_true
    · intro u hu
      exact Cache.keptFrom_le_of_cleanup he hu
    · rw [Series.isEmpty_iff.1 h]
      exact Retention.unexpired_empty _ _ _

/-- While a series is read, time may pass and others may use the cache. It is answered as it is cached
if it has prices; otherwise past hours have been dropped at the end, unless the download has
failed. -/
theorem unexpired_of_course {v' : View} {d' : Cache}
    (h : (series c k).Course v d v' d' (.ok s)) :
    s = d.get k ∨ c.cache.Unexpired k v'.now s ∨
      ∃ f, (Download.component c k).Course v d v' d' (.ok (.error f)) := by
  unfold series at h
  rw [course_cached_bind] at h
  by_cases hempty : (d.get k).isEmpty
  · simp only [hempty, if_true] at h
    obtain ⟨w, e, x, hdown, hrest⟩ := course_seq_iff.1 h
    cases x with
    | error f =>
      right; right
      rw [course_log_bind, course_cached_bind] at hrest
      cases hrest
      exact ⟨f, hdown⟩
    | ok n =>
      right; left
      rw [course_cached_bind, course_view_bind, course_lift_bind] at hrest
      obtain ⟨o, -, -, -, ho⟩ | ⟨e', hclean, hrest⟩ := hrest
      · cases ho
      · rw [course_store_bind, course_cached_bind] at hrest
        cases hrest
        intro u hu
        exact Cache.keptFrom_le_of_cleanup hclean hu
  · simp only [hempty] at h
    cases h with
    | read h =>
      cases h
      exact .inl rfl

/-- An hour of a sum was cached for one of the components, or is kept of one. -/
theorem mem_hours_of_sum {total : Series}
    (htotal : (run v source (sum c ks) d).value = .ok total) {h : Instant} (hh : h ∈ total.hours) :
    ∃ k ∈ ks, h ∈ (d.get k).hours ∨ c.cache.keptFrom k v.now ≤ h := by
  unfold sum at htotal
  split at htotal
  · cases htotal
    cases hh
  · obtain ⟨ss, hss, hsum⟩ := sumFrom_eq_ok_iff.1 (Outcome.eq_of_value htotal)
    have hpriced := (Series.total_eq_ok_iff.1 hsum).priced h
    obtain ⟨s, hs, hsome⟩ := hpriced.1 (Series.mem_hours_iff.1 hh)
    exact (readsAll_of_run (by rw [hss])).mem_hours_of_mem hs (Series.mem_hours_iff.2 hsome)

theorem mem_hours_of_sumNamed {names : String} {total : Series}
    (htotal : (run v source (sumNamed c names) d).value = .ok total) {h : Instant}
    (hh : h ∈ total.hours) : ∃ k, h ∈ (d.get k).hours ∨ c.cache.keptFrom k v.now ≤ h := by
  unfold sumNamed at htotal
  split at htotal
  · obtain ⟨k, -, hk⟩ := mem_hours_of_sum htotal hh
    exact ⟨k, hk⟩
  · split at htotal
    · obtain ⟨k, -, hk⟩ := mem_hours_of_sum htotal hh
      exact ⟨k, hk⟩
    · cases htotal
      cases hh

/-- In any session, the series of a component is answered with past hours exactly when it is cached
with them. When time passes during its download, they are dropped at the end of it unless it fails.
A past hour in a sum is one of a cached series of its components. After a cycle or a tick no cached
series has any, until the hour in which it ended is over. -/
theorem unexpired_iff_cached (c : Config) (σ : Session) (hσ : Session.Reachable c σ) (v : View)
    (source : Source) :
    (∀ k s, (run v source (series c k) σ.cache).value = .ok s →
      (c.cache.Unexpired k v.now s ↔ c.cache.Unexpired k v.now (σ.cache.get k))) ∧
    (∀ k v' d' s, (series c k).Course v σ.cache v' d' (.ok s) →
      s = σ.cache.get k ∨ c.cache.Unexpired k v'.now s ∨
        ∃ f, (Download.component c k).Course v σ.cache v' d' (.ok (.error f))) ∧
    (∀ ks total, (run v source (sum c ks) σ.cache).value = .ok total → ∀ h ∈ total.hours,
      ∃ k ∈ ks, h ∈ (σ.cache.get k).hours ∨ c.cache.keptFrom k v.now ≤ h) ∧
    (∀ names total, (run v source (sumNamed c names) σ.cache).value = .ok total →
      ∀ h ∈ total.hours, ∃ k, h ∈ (σ.cache.get k).hours ∨ c.cache.keptFrom k v.now ≤ h) ∧
    ∀ t, σ.cleanedAt = some t → v.now.hourStart ≤ t.hourStart →
      ∀ k, c.cache.Unexpired k v.now (σ.cache.get k) := by
  refine ⟨?_, fun _ _ _ _ => unexpired_of_course, ?_, ?_, ?_⟩
  · intro k s hs
    obtain ⟨o, ho, -⟩ | ⟨s', hs', hreads⟩ := run_series_reads v source c k σ.cache
    · rw [hs] at ho
      cases ho
    · obtain rfl : s = s' := Except.ok.inj (hs.symm.trans hs')
      exact hreads.unexpired_iff
  · intro ks total htotal h hh
    exact mem_hours_of_sum htotal hh
  · intro names total htotal h hh
    exact mem_hours_of_sumNamed htotal hh
  · intro t ht hle k h hh
    obtain ⟨p, hp⟩ := Option.isSome_iff_exists.1 (Series.mem_hours_iff.1 hh)
    exact Instant.le_trans (c.cache.keptFrom_le_of_hourStart_le k hle) (hσ.kept ht hp)

/-- After a tick at half past one, the spot price is answered without past hours at a quarter to
two. -/
theorem unexpired_iff_cached_tick : ∃ σ, Session.Reachable {} σ ∧
    σ.cleanedAt = some (.ofSeconds 1675517400) ∧
    ∀ source s, (run { now := .ofSeconds 1675518300 } source (series {} .spotPrice)
      σ.cache).value = .ok s →
        ({} : Retention).Unexpired .spotPrice (.ofSeconds 1675518300) s := by
  have htick := Activity.course_run (Cycle.tick {}) { now := .ofSeconds 1675517400 }
    (fun _ => .error (.empty "No records"))
    (Cache.empty.put .spotPrice (.flat (.ofSeconds 1675512000) 3 .one))
  have hσ := Session.Reachable.between (.between .start (.put .spotPrice _)) (.tick htick)
  refine ⟨_, hσ, rfl, ?_⟩
  intro source s hs
  obtain ⟨hseries, -, -, -, hcached⟩ :=
    unexpired_iff_cached {} _ hσ { now := .ofSeconds 1675518300 } source
  exact (hseries .spotPrice s hs).2 (hcached _ rfl (by decide) .spotPrice)

/-- At half past one, the spot price of the hour from noon is answered to a query, when it has been
downloaded at noon. -/
theorem series_of_cached_expired : ∃ (σ : Session) (source : Source) (s : Series),
    Session.Reachable {} σ ∧
    (run { now := .ofSeconds 1675517400 } source (series {} .spotPrice) σ.cache).value = .ok s ∧
    .ofSeconds 1675512000 ∈ s.hours ∧
    .ofSeconds 1675512000 < ({} : Retention).keptFrom .spotPrice (.ofSeconds 1675517400) := by
  have hquestion := Activity.course_run (Question.answer {} (.series .spotPrice))
    { now := .ofSeconds 1675512000 }
    (.answering (.ok
        [{ hour := .ofSeconds 1675512000, dkk := some { num := 1000, scale := 0 } },
          { hour := .ofSeconds 1675515600, dkk := some { num := 1000, scale := 0 } }])
      (.ok [])) .empty
  refine ⟨_, fun _ => .error (.empty "No records"), _, .between .start (.question hquestion), rfl,
    ?_, by decide⟩
  decide

end Query

end HourlyPrices
