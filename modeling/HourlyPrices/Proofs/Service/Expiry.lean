import HourlyPrices.Proofs.Cache.Retention
import HourlyPrices.Proofs.Service.Session

/-!
# Past hours are dropped in time

Whatever has been put into the cache, and however the clock has moved, no series holds a past hour
when a cycle or an hourly tick has ended (`Session.Reachable.kept`).
-/

namespace HourlyPrices.Session

variable {c : Config} {σ : Session} {now : Instant}

/-- What a cycle or a tick leaves in the cache is what dropping past hours leaves. -/
theorem Reachable.exists_cleanup (h : Reachable c σ) (hnow : σ.cleanedAt = some now) :
    ∃ d : Cache, d.cleanup c.cache now = .ok σ.cache := by
  cases h with
  | start => cases hnow
  | @between σ d t _ hd =>
    cases hd with
    | put _ _ | download _ | question _ | overflow _ => cases hnow
    | @tick _ _ _ x hcourse =>
      cases x with
      | error o => cases hnow
      | ok u =>
        cases hnow
        obtain ⟨rfl, hclean⟩ := Cycle.cleanup_of_course_tick hcourse
        exact ⟨σ.cache, hclean⟩
  | cycle _ hp =>
    cases hnow
    obtain ⟨e, -, hclean⟩ := hp.cleaned
    exact ⟨e, hclean⟩

theorem Reachable.kept (h : Reachable c σ) (hnow : σ.cleanedAt = some now) {k : Component}
    {u : Instant} {p : Decimal} (hu : (σ.cache.get k).get? u = some p) :
    c.cache.keptFrom k now ≤ u := by
  obtain ⟨d, hclean⟩ := h.exists_cleanup hnow
  exact ((Cache.get?_cleanup hclean k u p).1 hu).2

/-- Where the window of past hours starts in range, dropping past hours leaves exactly the entries
from the first hour that is kept on, with their prices. To drop them again, with the same reading of
the clock or an earlier one, changes nothing; to drop them later comes to the same as if they had
not been dropped before. In any session, after a cycle or a tick, no entry lies before the first
hour that is kept. -/
theorem cleanup_exact (c : Config) (now : Instant) (hin : c.cache.Representable now) :
    (∀ d : Cache, ∃ e, d.cleanup c.cache now = .ok e ∧
      (∀ k u p, (e.get k).get? u = some p ↔
        (d.get k).get? u = some p ∧ c.cache.keptFrom k now ≤ u) ∧
      (∀ t ≤ now, c.cache.Representable t → e.cleanup c.cache t = .ok e) ∧
      ∀ t, now ≤ t → e.cleanup c.cache t = d.cleanup c.cache t) ∧
    ∀ σ, Reachable c σ → σ.cleanedAt = some now → ∀ k u p,
      (σ.cache.get k).get? u = some p → c.cache.keptFrom k now ≤ u := by
  constructor
  · intro d
    obtain ⟨e, he⟩ := (Cache.exists_cleanup_iff_representable d).2 hin
    refine ⟨e, he, Cache.get?_cleanup he, ?_, ?_⟩
    · exact fun t ht hin' => Cache.cleanup_of_cleanup he ht hin'
    · exact fun t ht => Cache.cleanup_cleanup he ht
  · exact fun σ hσ hnow k u p hu => hσ.kept hnow hu

/-- A tick with a window of one past hour, of three spot prices that have been put into the
cache. -/
theorem cleanup_exact_tick :
    ({ historicHours := 1, keepHistoricSpot := true } : Retention).Representable
      (.ofSeconds 1675512000) ∧
    ∃ σ, Reachable { cache := { historicHours := 1, keepHistoricSpot := true } } σ ∧
      (σ.cache.get .spotPrice).hours = [.ofSeconds 1675508400, .ofSeconds 1675512000] ∧
      ∀ u p, (σ.cache.get .spotPrice).get? u = some p →
        ({ historicHours := 1, keepHistoricSpot := true } : Retention).keptFrom .spotPrice
          (.ofSeconds 1675512000) ≤ u := by
  have hin : ({ historicHours := 1, keepHistoricSpot := true } : Retention).Representable
      (.ofSeconds 1675512000) := fun _ => by decide
  have htick := Activity.course_run
    (Cycle.tick { cache := { historicHours := 1, keepHistoricSpot := true } })
    { now := .ofSeconds 1675512000 } (fun _ => .error (.empty "No records"))
    (Cache.empty.put .spotPrice (.ofList [(.ofSeconds 1675508399, { num := 1, scale := 0 }),
      (.ofSeconds 1675508400, { num := 2, scale := 0 }),
      (.ofSeconds 1675512000, { num := 3, scale := 0 })]))
  refine ⟨hin, _, .between (.between .start (.put .spotPrice _)) (.tick htick), rfl,
    fun u p hu => ?_⟩
  exact (cleanup_exact { cache := { historicHours := 1, keepHistoricSpot := true } }
    (.ofSeconds 1675512000) hin).2 _
    (.between (.between .start (.put .spotPrice _)) (.tick htick)) rfl _ u p hu

end HourlyPrices.Session
