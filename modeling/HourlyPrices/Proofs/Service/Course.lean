import HourlyPrices.Proofs.Service.Run

/-!
# Courses of activities

A run against a source that answers at once is one of the courses that an activity can take. In
general time passes while it waits for an answer, and others use the cache meanwhile;
`Activity.Course` leaves open what they make of it. Quiet activities take the course of their run
(`Activity.Quiet.course_iff`).
-/

namespace HourlyPrices.Activity

variable {α β : Type} {v v' : View} {d d' : Cache} {source : Source} {x : Except Overflow α}

/-- A course of an activity: it begins with a view and a cache, and ends with others and with its
value or an overflow. What is to be seen and the cache may be different after each wait. -/
inductive Course : Activity α → View → Cache → View → Cache → Except Overflow α → Prop
  | done {a v d} : Course (done a) v d v d (.ok a)
  | overflow {o v d} : Course (overflow o) v d v d (.error o)
  | look {next v d v' d' x} (h : Course (next v) v d v' d' x) : Course (look next) v d v' d' x
  | read {next v d v' d' x} (h : Course (next d) v d v' d' x) : Course (read next) v d v' d' x
  | write {e rest v d v' d' x} (h : Course rest v e v' d' x) : Course (write e rest) v d v' d' x
  | tell {e rest v d v' d' x} (h : Course rest v d v' d' x) : Course (tell e rest) v d v' d' x
  | fetch {r next v d w e v' d' x} (answer : r.Answer) (h : Course (next answer) w e v' d' x) :
      Course (fetch r next) v d v' d' x

/-- A run is a course. -/
theorem course_run (a : Activity α) (v : View) (source : Source) (d : Cache) :
    Course a v d v (run v source a d).cache (run v source a d).value := by
  induction a generalizing d with
  | done a => exact .done
  | overflow o => exact .overflow
  | look next ih => exact .look (ih v d)
  | read next ih => exact .read (ih d d)
  | write e rest ih => exact .write (ih e)
  | tell e rest ih => exact .tell (ih d)
  | fetch r next ih => exact .fetch (source r) (ih (source r) d)

theorem Course.bind {a : Activity α} {f : α → Activity β} {w : View} {e : Cache} {a' : α}
    {y : Except Overflow β} (ha : Course a v d w e (.ok a')) (hf : Course (f a') w e v' d' y) :
    Course (a >>= f) v d v' d' y := by
  change Course (a.bind f) v d v' d' y
  generalize hx : (.ok a' : Except Overflow α) = x at ha
  induction ha with
  | done =>
    cases hx
    exact hf
  | overflow => cases hx
  | look _ ih => exact .look (ih hf hx)
  | read _ ih => exact .read (ih hf hx)
  | write _ ih => exact .write (ih hf hx)
  | tell _ ih => exact .tell (ih hf hx)
  | fetch answer _ ih => exact .fetch answer (ih hf hx)

/-- A course of two parts in sequence that comes to a value is one of each. -/
theorem course_seq_iff {a : Activity α} {f : α → Activity β} {b : β} :
    Course (a >>= f) v d v' d' (.ok b) ↔
      ∃ w e a', Course a v d w e (.ok a') ∧ Course (f a') w e v' d' (.ok b) := by
  refine ⟨fun h => ?_, fun ⟨w, e, a', ha, hf⟩ => ha.bind hf⟩
  change Course (a.bind f) v d v' d' (.ok b) at h
  induction a generalizing v d with
  | done a => exact ⟨v, d, a, .done, h⟩
  | overflow o => cases h
  | look next ih =>
    cases h with
    | look h =>
      obtain ⟨w, e, a', ha, hf⟩ := ih v h
      exact ⟨w, e, a', .look ha, hf⟩
  | read next ih =>
    cases h with
    | read h =>
      obtain ⟨w, e, a', ha, hf⟩ := ih d h
      exact ⟨w, e, a', .read ha, hf⟩
  | write c rest ih =>
    cases h with
    | write h =>
      obtain ⟨w, e, a', ha, hf⟩ := ih h
      exact ⟨w, e, a', .write ha, hf⟩
  | tell x rest ih =>
    cases h with
    | tell h =>
      obtain ⟨w, e, a', ha, hf⟩ := ih h
      exact ⟨w, e, a', .tell ha, hf⟩
  | fetch r next ih =>
    cases h with
    | fetch answer h =>
      obtain ⟨w, e, a', ha, hf⟩ := ih answer h
      exact ⟨w, e, a', .fetch answer ha, hf⟩

/-! ## Parts that do not wait -/

@[simp] theorem course_view_bind {f : View → Activity α} :
    Course (view >>= f) v d v' d' x ↔ Course (f v) v d v' d' x := by
  refine ⟨fun h => ?_, .look⟩
  cases h
  assumption

@[simp] theorem course_cached_bind {f : Cache → Activity α} :
    Course (cached >>= f) v d v' d' x ↔ Course (f d) v d v' d' x := by
  refine ⟨fun h => ?_, .read⟩
  cases h
  assumption

@[simp] theorem course_store_bind {e : Cache} {f : Unit → Activity α} :
    Course (store e >>= f) v d v' d' x ↔ Course (f ()) v e v' d' x := by
  refine ⟨fun h => ?_, .write⟩
  cases h
  assumption

@[simp] theorem course_log_bind {l : LogContext} {level : LogLevel} {message : String}
    {f : Unit → Activity α} :
    Course (log l level message >>= f) v d v' d' x ↔ Course (f ()) v d v' d' x := by
  refine ⟨fun h => ?_, .tell⟩
  cases h
  assumption

/-- A value that overflows ends the course. -/
theorem course_lift_bind {e : Except Overflow β} {f : β → Activity α} :
    Course (lift e >>= f) v d v' d' x ↔
      (∃ o, e = .error o ∧ v' = v ∧ d' = d ∧ x = .error o) ∨
        ∃ b, e = .ok b ∧ Course (f b) v d v' d' x := by
  cases e with
  | ok b =>
    simp only [reduceCtorEq, false_and, exists_false, false_or, Except.ok.injEq, exists_eq_left']
    exact Iff.rfl
  | error o =>
    simp only [Except.error.injEq, exists_eq_left', reduceCtorEq, false_and, exists_false, or_false]
    refine ⟨fun h => ?_, fun ⟨hv, hd, hx⟩ => hv ▸ hd ▸ hx ▸ .overflow⟩
    cases h
    exact ⟨rfl, rfl, rfl⟩

/-- A quiet activity does not wait: its only course is that of its run. -/
theorem Quiet.course_iff {a : Activity α} (h : a.Quiet) (source : Source) :
    Course a v d v' d' x ↔ v' = v ∧ d' = d ∧ x = (run v source a d).value := by
  refine ⟨fun hc => ?_, ?_⟩
  · induction hc with
    | done | overflow => exact ⟨rfl, rfl, rfl⟩
    | @look next v _ _ _ _ _ ih => exact ih (h v)
    | @read next _ d _ _ _ _ ih => exact ih (h d)
    | write _ _ => exact h.elim
    | tell _ ih => exact ih h.2
    | fetch _ _ _ => exact h.elim
  · rintro ⟨rfl, rfl, rfl⟩
    have hrun := course_run a v' source d'
    rwa [h.run_cache] at hrun

end HourlyPrices.Activity
