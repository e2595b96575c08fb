import HourlyPrices.Proofs.Service.Abreast
import HourlyPrices.Proofs.Service.Session

/-!
# Runs of the service

The service runs cycles, ticks and queries one after the other (`serve`). Each of them starts from
the cache and the schedule that the ones before have left. Cycles and ticks are turns of one loop:
when one of them overflows, the run ends. A query that overflows fails on its own, and the service
goes on with what it leaves of the cache.
-/

namespace HourlyPrices

open Activity

/-- What the service is asked to do. -/
inductive Errand where
  | cycle (name : String) (draw : Nat)
  | tick
  | question (q : Question)

/-- What comes back from an errand. -/
inductive Errand.Result where
  | outcome (o : CycleOutcome)
  | none
  | series (s : Series)
  | amount (d : Decimal)

/-- Answers a question with its value. -/
def Question.result (c : Config) : Question → Activity Errand.Result
  | series k => do return .series (← Query.series c k)
  | sum ks => do return .series (← Query.sum c ks)
  | sumNamed names => do return .series (← Query.sumNamed c names)
  | cost start stop watts => do return .amount (← Query.cost c start stop watts)

namespace Errand

/-- What is done for an errand. -/
def activity (c : Config) (s : Schedule) : Errand → Activity Result
  | cycle name draw => do return .outcome (← Cycle.refresh c s name draw)
  | tick => do
    Cycle.tick c
    return .none
  | question q => q.result c

def isCycle : Errand → Bool
  | cycle _ _ => true
  | _ => false

def isQuestion : Errand → Bool
  | question _ => true
  | _ => false

end Errand

/-- An errand, and what the service meets while it is about it. -/
structure Occasion where
  errand : Errand
  outside : Outside

/-- What the service has between its errands. -/
structure Standing where
  cache : Cache
  schedule : Schedule

namespace Standing

variable (c : Config) (σ : Standing)

/-- What the service does on an occasion. -/
def perform (x : Occasion) : Performance Errand.Result :=
  play x.outside (x.outside.view 0) (x.errand.activity c σ.schedule) σ.cache

/-- What the service has afterwards. Only a cycle changes the schedule. -/
def after (x : Occasion) (p : Performance Errand.Result) : Standing where
  cache := p.cache
  schedule := match x.errand, p.value with
    | .cycle _ _, .ok (.outcome o) => o.schedule
    | _, _ => σ.schedule

end Standing

/-- Whether the run ends with an errand: it does when a cycle or a tick overflows. -/
def Occasion.ends (x : Occasion) (p : Performance Errand.Result) : Bool :=
  !x.errand.isQuestion && !p.value.isOk

/-- Runs the service on one occasion after the other, and lists what it does. -/
def serve (c : Config) : Standing → List Occasion → List (Occasion × Performance Errand.Result)
  | _, [] => []
  | σ, x :: xs =>
    let p := σ.perform c x
    (x, p) :: if x.ends p then [] else serve c (σ.after x p) xs

theorem Occasion.not_ends_of_ok {x : Occasion} {p : Performance Errand.Result} (h : p.value.isOk) :
    ¬ x.ends p := by simp [ends, h]

theorem serve_cons (c : Config) (σ : Standing) (x : Occasion) (xs : List Occasion) :
    serve c σ (x :: xs) = (x, σ.perform c x) ::
      if x.ends (σ.perform c x) then [] else serve c (σ.after x (σ.perform c x)) xs := rfl

/-- The cycles of a run, without what was seen on the way. -/
def cyclesOf (rs : List (Occasion × Performance Errand.Result)) :
    List (Occasion × Outcome Errand.Result) :=
  (rs.filter (·.1.errand.isCycle)).map fun r => (r.1, r.2.outcome)

section

variable {c : Config} {σ : Standing} {x : Occasion} {xs : List Occasion}

theorem cyclesOf_serve_of_cycle (h : x.errand.isCycle) : cyclesOf (serve c σ (x :: xs)) =
    (x, (σ.perform c x).outcome) ::
      if x.ends (σ.perform c x) then [] else cyclesOf (serve c (σ.after x (σ.perform c x)) xs) := by
  rw [serve_cons, cyclesOf, List.filter_cons, if_pos h, List.map_cons]
  split <;> rfl

theorem cyclesOf_serve_of_not_cycle (h : ¬ x.errand.isCycle) : cyclesOf (serve c σ (x :: xs)) =
    if x.ends (σ.perform c x) then [] else cyclesOf (serve c (σ.after x (σ.perform c x)) xs) := by
  rw [serve_cons, cyclesOf, List.filter_cons, if_neg h]
  split <;> rfl

end

/-- The time does not go back from one look to the next. -/
def Outside.Forward (w : Outside) : Prop := ∀ n, (w.view n).now ≤ (w.view (n + 1)).now

/-- Occasions in the order of time. -/
structure Chronological (xs : List Occasion) : Prop where
  within : ∀ x ∈ xs, x.outside.Forward
  between : xs.Pairwise fun x y => ∀ m n, (x.outside.view m).now ≤ (y.outside.view n).now

/-- Errands that take no time are chronological when each begins not before the one ahead of it. -/
theorem Chronological.of_still (xs : List (Errand × View × Source))
    (h : xs.Pairwise fun x y => x.2.1.now ≤ y.2.1.now) :
    Chronological (xs.map fun x => ⟨x.1, .still x.2.1 x.2.2⟩) := by
  constructor
  · intro x hx n
    obtain ⟨y, -, rfl⟩ := List.mem_map.1 hx
    exact Instant.le_refl _
  · exact List.pairwise_map.2 (h.imp fun hle _ _ => hle)

/-- What holds at the beginning of errands that take no time holds throughout. -/
theorem forall_view_of_still {P : View → Prop} (xs : List (Errand × View × Source))
    (h : ∀ x ∈ xs, P x.2.1) :
    ∀ x ∈ xs.map fun x => (⟨x.1, .still x.2.1 x.2.2⟩ : Occasion), ∀ n, P (x.outside.view n) := by
  intro x hx n
  obtain ⟨y, hy, rfl⟩ := List.mem_map.1 hx
  exact h y hy

end HourlyPrices
