import HourlyPrices.Retry.Policy

/-!
# Policies

A policy waits for at least a second, and drawing a delay does not change its rule. The policy in
force after a candidate has been chosen follows the rule of the candidate.
-/

namespace HourlyPrices

theorem Backoff.sameRule_refl (b : Backoff) : b.sameRule b := by
  simp [sameRule]

theorem Backoff.sameRule_next (a b : Backoff) : a.sameRule b.next = a.sameRule b := rfl

namespace RetryPolicy

theorem sameRule_refl (p : RetryPolicy) : p.sameRule p := by
  cases p <;> simp [sameRule, Backoff.sameRule_refl]

theorem sameRule_next (p q : RetryPolicy) (now : Instant) (draw : Nat) :
    p.sameRule (q.next now draw).2 = p.sameRule q := by
  cases q with
  | expectedDataMissing anchor zone b =>
    simp only [next]
    split
    · cases p <;> simp [sameRule, Backoff.sameRule_next]
    · rfl
  | fromFailure failure b =>
    simp only [next]
    cases p <;> simp [sameRule, Backoff.sameRule_next]
  | initial d | fixedDailyAnchor time zone => rfl

theorem sameRule_replacedBy (p candidate : RetryPolicy) :
    candidate.sameRule (p.replacedBy candidate) := by
  unfold replacedBy
  split
  · assumption
  · exact sameRule_refl candidate

theorem shortestDelay_le_next (p : RetryPolicy) (now : Instant) (draw : Nat) :
    shortestDelay.nanos ≤ (p.next now draw).1.nanos := by
  unfold next
  exact Nat.le_max_right _ _

end RetryPolicy

end HourlyPrices
