import HourlyPrices.Proofs.Retry.Draws
import HourlyPrices.Proofs.Service.Completion
import HourlyPrices.Proofs.Service.Course

/-!
# Sessions

Between its activities the service holds a cache and a schedule. Cycles change both; ticks, queries,
downloads and whoever else puts series into the cache change the cache alone (`Between`).
`Session.Reachable` is what any number of them, in any order, can come to. A session also records
what the cycles have decided, and when past hours were dropped if that was done last.
-/

namespace HourlyPrices

open Activity

namespace Cycle

variable {c : Config} {s : Schedule} {name : String} {draw : Nat} {v v' : View} {d d' : Cache}
  {result : Except Fault Unit} {out : CycleOutcome}

/-- A cycle comes to an outcome: the downloads come to a result, past hours are dropped from the
cache, and the cycle concludes. -/
structure Passes (c : Config) (s : Schedule) (name : String) (draw : Nat) (v : View) (d : Cache)
    (result : Except Fault Unit) (v' : View) (d' : Cache) (out : CycleOutcome) : Prop where
  cleaned : ∃ e, (download c (namedContext c name)).Course v d v' e (.ok result) ∧
    e.cleanup c.cache v'.now = .ok d'
  concluded : (conclude c s (namedContext c name) draw result).Course v' d' v' d' (.ok out)

/-- Whatever happens while a cycle waits, it comes to an outcome in this way only. -/
theorem course_refresh_iff : (refresh c s name draw).Course v d v' d' (.ok out) ↔
    ∃ result, Passes c s name draw v d result v' d' out := by
  have hquiet := conclude_quiet c s (namedContext c name) draw
  rw [refresh_eq, course_log_bind, course_seq_iff]
  simp only [course_cached_bind, course_view_bind, course_lift_bind, course_store_bind]
  constructor
  · rintro ⟨w, e, result, hdown, ⟨o, -, -, -, ho⟩ | ⟨d'', hclean, hconc⟩⟩
    · cases ho
    · obtain ⟨rfl, rfl, -⟩ := ((hquiet result).course_iff fun _ => .ok []).1 hconc
      exact ⟨result, ⟨e, hdown, hclean⟩, hconc⟩
  · rintro ⟨result, ⟨e, hdown, hclean⟩, hconc⟩
    exact ⟨v', e, result, hdown, .inr ⟨d', hclean, hconc⟩⟩

theorem Passes.nextCall_eq (h : Passes c s name draw v d result v' d' out) :
    nextCall v'.now (delayAfter c s draw v' d' result).1 = .ok out.nextCall ∧
      out = outcomeAfter c s draw v' d' result out.nextCall := by
  have hconc := ((conclude_quiet ..).course_iff fun _ => .ok []).1 h.concluded
  exact (conclude_value_eq_ok_iff.1 hconc.2.2.symm).2

/-- A tick that ends well has dropped past hours, and nothing else has happened to the cache. -/
theorem cleanup_of_course_tick (h : (tick c).Course v d v' d' (.ok ())) :
    v' = v ∧ d.cleanup c.cache v.now = .ok d' := by
  rw [tick, course_cached_bind, course_view_bind, course_lift_bind] at h
  obtain ⟨o, -, -, -, ho⟩ | ⟨e, hclean, h⟩ := h
  · cases ho
  · rw [course_store_bind] at h
    obtain ⟨rfl, rfl, -⟩ := ((publishPrices_quiet c).course_iff fun _ => .ok []).1 h
    exact ⟨rfl, hclean⟩

end Cycle

/-! ## What cycles decide -/

/-- What a cycle decides on: the policy that was in force, the one that its outcome asks for, and
the instant. -/
structure Decision where
  former : RetryPolicy
  candidate : RetryPolicy
  now : Instant

namespace Decision

/-- The candidate is installed unless it differs from the policy in force at most in the number of
delays that have been drawn. -/
def installs (x : Decision) : Bool := x.candidate.rule ≠ x.former.rule

/-- The policy in force when the delay is found. -/
def inForce (x : Decision) : RetryPolicy := if x.installs then x.candidate else x.former

/-- Whether the delay is drawn from a back-off. -/
def draws (x : Decision) : Bool := (x.inForce.drawn? x.now).isSome

/-- The number of delays that have been drawn since the policy in force was installed. The decisions
are in order, the latest one first. -/
def drawsInForce : List Decision → Nat
  | [] => 0
  | x :: xs => (if x.installs then 0 else drawsInForce xs) + (if x.draws then 1 else 0)

end Decision

/-- The decision of a cycle. -/
def Cycle.decision (c : Config) (s : Schedule) (v : View) (d : Cache)
    (result : Except Fault Unit) : Decision where
  former := s.policy
  candidate := candidate c d v s.bootstrapped result
  now := v.now

/-! ## Sessions -/

/-- What consumers ask for between cycles. -/
inductive Question where
  | series (k : Component)
  | sum (ks : List Component)
  | sumNamed (names : String)
  | cost (start stop : Instant) (watts : Decimal)

/-- Answers a question. -/
def Question.answer (c : Config) : Question → Activity Unit
  | series k => discard (Query.series c k)
  | sum ks => discard (Query.sum c ks)
  | sumNamed names => discard (Query.sumNamed c names)
  | cost start stop watts => discard (Query.cost c start stop watts)

/-- What can happen to the cache without a cycle that comes to an outcome. When it is a tick that
ends well, past hours have been dropped at its instant. An overflow in a cycle leaves the schedule
as it was, also one at the instant of the next cycle: by then the policy has been replaced and the
delay drawn, but the loop ends with the cycle, so that no other cycle goes by that schedule. -/
inductive Between (c : Config) (d : Cache) : Cache → Option Instant → Prop
  | put (k : Component) (s : Series) : Between c d (d.put k s) none
  | download {k v v' d' x} (h : (Download.component c k).Course v d v' d' x) : Between c d d' none
  | question {q v v' d' x} (h : (Question.answer c q).Course v d v' d' x) : Between c d d' none
  | overflow {s name draw v v' d' o}
      (h : (Cycle.refresh c s name draw).Course v d v' d' (.error o)) : Between c d d' none
  | tick {v v' d' x} (h : (Cycle.tick c).Course v d v' d' x) :
      Between c d d' (x.toOption.map fun _ => v'.now)

/-- The service between its activities. -/
structure Session where
  cache : Cache
  schedule : Schedule
  /-- What the cycles have decided, the latest first. -/
  decisions : List Decision
  /-- The instant at which past hours were dropped by a cycle or a tick that has just ended. -/
  cleanedAt : Option Instant

namespace Session

/-- The service before its first cycle. -/
def start (c : Config) : Session where
  cache := .empty
  schedule := .start c
  decisions := []
  cleanedAt := none

/-- The session that a cycle leaves. -/
def afterCycle (σ : Session) (c : Config) (v : View) (d : Cache) (result : Except Fault Unit)
    (out : CycleOutcome) : Session where
  cache := d
  schedule := out.schedule
  decisions := Cycle.decision c σ.schedule v d result :: σ.decisions
  cleanedAt := some v.now

/-- What a session can come to. -/
inductive Reachable (c : Config) : Session → Prop
  | start : Reachable c (start c)
  | between {σ d t} (h : Reachable c σ) (hd : Between c σ.cache d t) :
      Reachable c { σ with cache := d, cleanedAt := t }
  | cycle {σ name draw v v' d result out} (h : Reachable c σ)
      (hp : Cycle.Passes c σ.schedule name draw v σ.cache result v' d out) :
      Reachable c (σ.afterCycle c v' d result out)

end Session

end HourlyPrices
