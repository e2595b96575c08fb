import HourlyPrices.Proofs.Service.Session

/-!
# How back-offs make progress

In a session the policy in force carries in its back-off how many delays it has given since it was
installed, and nothing but the decisions of cycles tells on it (`Session.Reachable.progress`). So a
delay that comes from a back-off is the minimum, doubled as often as the cycles before, back to the
last one with a different outcome, have drawn delays (`Session.delay_of_backoff`).
-/

namespace HourlyPrices

open Activity

namespace Decision

variable {x : Decision} {xs : List Decision}

theorem installs_iff : x.installs ↔ x.candidate.rule ≠ x.former.rule := decide_eq_true_iff

theorem not_installs_iff : ¬ x.installs ↔ x.candidate.rule = x.former.rule := by
  rw [installs_iff, ne_eq, Decidable.not_not]

theorem rule_inForce (x : Decision) : x.inForce.rule = x.candidate.rule := by
  unfold inForce
  split
  · rfl
  · rename_i h
    exact (not_installs_iff.1 h).symm

theorem replacedBy_eq_inForce (x : Decision) : x.former.replacedBy x.candidate = x.inForce := by
  unfold RetryPolicy.replacedBy inForce
  by_cases h : x.candidate.rule = x.former.rule
  · rw [if_pos (RetryPolicy.sameRule_iff.2 h), if_neg (not_installs_iff.2 h)]
  · rw [if_neg (mt RetryPolicy.sameRule_iff.1 h), if_pos (installs_iff.2 h)]

/-- Each decision was between the policy that the decision before had put in force and a
candidate. -/
def Linked (xs : List Decision) : Prop := xs.IsChain fun x y => x.former.rule = y.candidate.rule

/-- The policy in force was installed by the first of the latest decisions for its rule, so these
have drawn its delays. A candidate that is installed has another rule, and starts from none. -/
theorem drawn_eq_countP (h : Linked (x :: xs)) :
    (if x.installs then 0 else drawsInForce xs) =
      (xs.takeWhile (·.candidate.rule = x.candidate.rule)).countP draws := by
  induction xs generalizing x with
  | nil => simp [drawsInForce]
  | cons y ys ih =>
    obtain ⟨hxy, hys⟩ := List.isChain_cons_cons.1 h
    by_cases hi : x.installs
    · have hy : y.candidate.rule ≠ x.candidate.rule := hxy ▸ (installs_iff.1 hi).symm
      rw [if_pos hi, List.takeWhile_cons_of_neg (by simpa using hy), List.countP_nil]
    · have hy : y.candidate.rule = x.candidate.rule := hxy ▸ (not_installs_iff.1 hi).symm
      rw [if_neg hi, List.takeWhile_cons_of_pos (by simpa using hy), List.countP_cons, ← hy,
        ← ih hys, drawsInForce]

end Decision

/-! ## Candidates -/

namespace RetrySettings

/-- The back-off after a fault is at its first attempt. It is bounded by whole seconds, and it has
the jitter of the settings, if it has one. -/
theorem backoff?_faultPolicy (r : RetrySettings) (f : Fault) (anchor : TimeOfDay) (zone : Zone) :
    ∃ m n jitter, (r.faultPolicy f anchor zone).backoff? =
      some { minimum := .ofSeconds m, maximum := .ofSeconds n, jitterPercent := jitter } ∧
        (jitter = 0 ∨ jitter = r.jitterPercent) := by
  unfold faultPolicy
  cases f.kind with
  | configuration => exact ⟨_, _, _, rfl, .inl rfl⟩
  | dataIncomplete => exact ⟨_, _, _, rfl, .inr rfl⟩
  | communication | parse | cancelled =>
    simp only
    split
    · exact ⟨_, _, _, rfl, .inr rfl⟩
    · exact ⟨_, _, _, rfl, .inr rfl⟩

end RetrySettings

namespace Cycle

variable {c : Config} {d : Cache} {v : View} {boot : Bool} {result : Except Fault Unit}

/-- The candidate of a cycle is the policy after a fault, the initial one, or the wait for the
publication or for midnight. -/
theorem candidate_cases (c : Config) (d : Cache) (v : View) (boot : Bool)
    (result : Except Fault Unit) :
    (∃ f, candidate c d v boot result = c.retry.faultPolicy f (publicationTime c) marketZone) ∨
      candidate c d v boot result = c.retry.initialPolicy ∨
      candidate c d v boot result = .fixedDailyAnchor (publicationTime c) marketZone ∨
      candidate c d v boot result = .fixedDailyAnchor .midnight (publicationZone c) := by
  unfold candidate
  split
  · rename_i f
    exact .inl ⟨f, rfl⟩
  · split
    · split
      · rename_i f _
        exact .inl ⟨f, rfl⟩
      · exact .inr (.inr (.inl rfl))
    · split
      · exact .inr (.inl rfl)
      · exact .inr (.inr (.inr rfl))

/-- A candidate with a back-off is the policy after a fault. -/
theorem eq_faultPolicy_of_backoff? {b : Backoff}
    (h : (candidate c d v boot result).backoff? = some b) :
    ∃ f, candidate c d v boot result = c.retry.faultPolicy f (publicationTime c) marketZone := by
  obtain hfault | hnone | hnone | hnone := candidate_cases c d v boot result
  · exact hfault
  · rw [hnone] at h
    cases h
  · rw [hnone] at h
    cases h
  · rw [hnone] at h
    cases h

theorem attempts_candidate : (candidate c d v boot result).attempts = 0 := by
  rw [RetryPolicy.attempts]
  cases hb : (candidate c d v boot result).backoff? with
  | none => rfl
  | some b =>
    obtain ⟨f, hf⟩ := eq_faultPolicy_of_backoff? hb
    obtain ⟨m, n, jitter, hb', -⟩ :=
      c.retry.backoff?_faultPolicy f (publicationTime c) marketZone
    rw [hf, hb'] at hb
    cases hb
    rfl

theorem steady_candidate (h : c.retry.jitterPercent = 0) :
    (candidate c d v boot result).Steady := by
  intro b hb
  obtain ⟨f, hf⟩ := eq_faultPolicy_of_backoff? hb
  obtain ⟨m, n, jitter, hb', hjitter⟩ :=
    c.retry.backoff?_faultPolicy f (publicationTime c) marketZone
  rw [hf, hb'] at hb
  cases hb
  refine ⟨?_, ⟨m, rfl⟩, ⟨n, rfl⟩⟩
  rcases hjitter with hjitter | hjitter
  · exact hjitter
  · exact hjitter.trans h

/-- A cycle that runs against a source that answers at once. -/
theorem passes_of_run {s : Schedule} (name : String) (draw : Nat) (v : View) (source : Source)
    {d' : Cache} {out : CycleOutcome}
    (hr : (run v source (download c (namedContext c name)) d).value = .ok result)
    (hclean : (run v source (download c (namedContext c name)) d).cache.cleanup c.cache v.now =
      .ok d')
    (hout : (run v source (conclude c s (namedContext c name) draw result) d').value = .ok out) :
    Passes c s name draw v d result v d' out where
  cleaned := ⟨_, hr ▸ course_run .., hclean⟩
  concluded := ((conclude_quiet ..).course_iff source).2 ⟨rfl, rfl, hout.symm⟩

/-- The delay and the policy after a cycle come from the policy that its decision puts in force. -/
theorem Passes.policy_eq {s : Schedule} {name : String} {draw : Nat} {v' : View} {d' : Cache}
    {out : CycleOutcome} (h : Passes c s name draw v d result v' d' out) :
    out.delay = ((decision c s v' d' result).inForce.next v'.now draw).1 ∧
      out.schedule.policy = ((decision c s v' d' result).inForce.next v'.now draw).2 := by
  rw [h.nextCall_eq.2, ← Decision.replacedBy_eq_inForce]
  exact ⟨rfl, rfl⟩

end Cycle

/-! ## Sessions -/

namespace Session

variable {c : Config} {σ : Session}

/-- The policy in force follows the rule of the latest decision, and its back-off knows how many
delays have been drawn since it was installed. -/
structure Progress (σ : Session) : Prop where
  rule : ∀ x, σ.decisions.head? = some x → x.candidate.rule = σ.schedule.policy.rule
  attempts : σ.schedule.policy.attempts =
    min (Decision.drawsInForce σ.decisions) Backoff.maxAttempt
  linked : Decision.Linked σ.decisions

/-- The policy that a decision puts in force knows how many delays have been drawn since it was
installed, which are none if it has been installed just now. -/
theorem Progress.attempts_inForce (h : σ.Progress) (v : View) (d : Cache)
    (result : Except Fault Unit) {x : Decision}
    (hx : x = Cycle.decision c σ.schedule v d result) :
    x.inForce.attempts =
      min (if x.installs then 0 else Decision.drawsInForce σ.decisions) Backoff.maxAttempt := by
  unfold Decision.inForce
  split
  · have hfresh : x.candidate.attempts = 0 := hx ▸ Cycle.attempts_candidate
    rw [hfresh, Nat.zero_min]
  · have hformer : x.former = σ.schedule.policy := hx ▸ rfl
    rw [hformer, h.attempts]

/-- A cycle counts the delay that it draws. -/
theorem Progress.afterCycle (h : σ.Progress) {name : String} {draw : Nat} {v v' : View}
    {d' : Cache} {result : Except Fault Unit} {out : CycleOutcome}
    (hp : Cycle.Passes c σ.schedule name draw v σ.cache result v' d' out) :
    (σ.afterCycle c v' d' result out).Progress := by
  have hpolicy := hp.policy_eq.2
  have hbefore := h.attempts_inForce (c := c) v' d' result rfl
  have hformer : (Cycle.decision c σ.schedule v' d' result).former = σ.schedule.policy := rfl
  have hnow : (Cycle.decision c σ.schedule v' d' result).now = v'.now := rfl
  unfold Session.afterCycle
  generalize Cycle.decision c σ.schedule v' d' result = x at hpolicy hbefore hformer hnow
  refine ⟨fun y hy => ?_, ?_, ?_⟩
  · cases hy
    rw [hpolicy, RetryPolicy.rule_next, Decision.rule_inForce]
  · rw [hpolicy, RetryPolicy.attempts_next, Decision.drawsInForce, Decision.draws, hnow, hbefore]
    split <;> omega
  · unfold Decision.Linked
    cases hd : σ.decisions with
    | nil => exact .singleton x
    | cons y ys =>
      refine List.isChain_cons_cons.2 ⟨?_, hd ▸ h.linked⟩
      rw [hformer, h.rule y (by rw [hd]; rfl)]

theorem Reachable.progress (h : Reachable c σ) : σ.Progress := by
  induction h with
  | start => exact ⟨fun _ hx => (by cases hx), rfl, .nil⟩
  | between _ _ ih => exact ⟨ih.rule, ih.attempts, ih.linked⟩
  | cycle _ hp ih => exact ih.afterCycle hp

/-- In any session a cycle keeps the policy in force unless its candidate differs from it in more
than the number of delays drawn, and otherwise installs the candidate. A delay that comes from a
back-off is its minimum, doubled for each delay that was drawn by the cycles before, back to the
last one that asked for a different policy, up to sixteen times and to the maximum, but never below
a second. -/
theorem delay_of_backoff (c : Config) (hjitter : c.retry.jitterPercent = 0) (σ : Session)
    (hσ : Reachable c σ) {name : String} {draw : Nat} {v v' : View} {d : Cache}
    {result : Except Fault Unit} {out : CycleOutcome}
    (hp : Cycle.Passes c σ.schedule name draw v σ.cache result v' d out) (x : Decision)
    (hx : x = Cycle.decision c σ.schedule v' d result) (k : Nat)
    (hk : k = if x.installs then 0 else Decision.drawsInForce σ.decisions) :
    out.schedule.policy = (x.inForce.next v'.now draw).2 ∧
    k = (σ.decisions.takeWhile (·.candidate.rule = x.candidate.rule)).countP Decision.draws ∧
    ∀ b, x.inForce.drawn? v'.now = some b →
      min (b.minimum.nanos * 2 ^ min k 16) b.maximum.nanos <
        UInt64.size * Duration.nanosPerMilli →
      out.delay.nanos =
        max nanosPerSecond (min (b.minimum.nanos * 2 ^ min k 16) b.maximum.nanos) := by
  obtain ⟨hdelay, hpolicy⟩ := hp.policy_eq
  have hprogress := hσ.progress
  have hsteady : x.inForce.Steady := by
    have hcandidate : x.candidate.Steady := hx ▸ Cycle.steady_candidate hjitter
    exact hcandidate.of_rule x.rule_inForce
  rw [← hx] at hdelay hpolicy
  have hlinked : Decision.Linked (x :: σ.decisions) := hx ▸ (hprogress.afterCycle hp).linked
  refine ⟨hpolicy, hk.trans (Decision.drawn_eq_countP hlinked), fun b hb hfits => ?_⟩
  have hattempt : min b.attempt Backoff.maxDoublings = min k 16 := by
    rw [← RetryPolicy.attempts_of_drawn? hb, hprogress.attempts_inForce v' d result hx, ← hk,
      Backoff.maxDoublings, Backoff.maxAttempt, UInt32.size]
    omega
  have hsteady := hsteady b (RetryPolicy.backoff?_of_drawn? hb)
  rw [hdelay, RetryPolicy.delay_of_drawn? hb]
  simp only [Duration.longer, hsteady.delay_nanos draw (hattempt ▸ hfits), hattempt,
    RetryPolicy.shortestDelay, Duration.ofSeconds]
  omega

/-- After a first failure and a tick, a second failure waits for twice as long. -/
theorem delay_of_backoff_twice : ∃ σ result out,
    Reachable { retry := { jitterPercent := 0 } } σ ∧
    Cycle.Passes { retry := { jitterPercent := 0 } } σ.schedule "second" 0
      { now := .ofSeconds 1675512060, subscribed := [.current .spotPrice] } σ.cache result
      { now := .ofSeconds 1675512060, subscribed := [.current .spotPrice] } .empty out ∧
    out.delay.nanos =
      max nanosPerSecond (min (60 * nanosPerSecond * 2 ^ min 1 16) (3600 * nanosPerSecond)) := by
  have hsecond : ∃ σ : Session, Reachable { retry := { jitterPercent := 0 } } σ ∧
      ∃ out, Cycle.Passes { retry := { jitterPercent := 0 } } σ.schedule "second" 0
        { now := .ofSeconds 1675512060, subscribed := [.current .spotPrice] } σ.cache
        (.error (.empty "No records"))
        { now := .ofSeconds 1675512060, subscribed := [.current .spotPrice] } .empty out ∧
      σ.schedule.policy = .fromFailure .transient
        { minimum := .ofSeconds 60, maximum := .ofSeconds 3600, jitterPercent := 0, attempt := 1 } ∧
      Decision.drawsInForce σ.decisions = 1 :=
    ⟨_, .between (.cycle .start (Cycle.passes_of_run "first" 0
        { now := .ofSeconds 1675512000, subscribed := [.current .spotPrice] }
        (fun _ => .error (.empty "No records")) rfl rfl rfl))
      (.tick (course_run _ { now := .ofSeconds 1675512030 } (fun _ => .error (.empty "")) _)),
      _, Cycle.passes_of_run _ _ _ (fun _ => .error (.empty "No records")) rfl rfl rfl, rfl, rfl⟩
  obtain ⟨σ, hσ, out, hp, hpolicy, hdraws⟩ := hsecond
  refine ⟨σ, _, out, hσ, hp, ?_⟩
  have hkeeps : ¬ (Cycle.decision { retry := { jitterPercent := 0 } } σ.schedule
      { now := .ofSeconds 1675512060, subscribed := [.current .spotPrice] } .empty
      (.error (.empty "No records"))).installs := by
    apply Decision.not_installs_iff.2
    rw [show (Cycle.decision _ σ.schedule _ _ _).former = _ from hpolicy]
    rfl
  refine (delay_of_backoff { retry := { jitterPercent := 0 } } rfl σ hσ hp _ rfl 1 ?_).2.2
    { minimum := .ofSeconds 60, maximum := .ofSeconds 3600, jitterPercent := 0, attempt := 1 } ?_ ?_
  · rw [if_neg hkeeps, hdraws]
  · rw [Decision.inForce, if_neg hkeeps]
    rw [show (Cycle.decision _ σ.schedule _ _ _).former = _ from hpolicy]
    rfl
  · decide

end Session

end HourlyPrices
