import HourlyPrices.Proofs.Service.Unpublished
import HourlyPrices.Service.Loop

/-!
# Runs of the loop

Whatever happens to the loop and whenever, it runs cycles and ticks one after the other
(`Loop.Serial`), and each of them finds the cache and the schedule that the ones before have left.
At most the last cycle is not over: it waits for an answer, has published nothing yet, and no tick
runs meanwhile (`Loop.Account`). A shutdown leaves no series and ends the loop for good; so does an
overflow, which leaves the series.
-/

namespace HourlyPrices

namespace Activity

variable {α β : Type} {v : View} {d e : Cache} {es : List Effect}

/-! ## Activities in stages -/

/-- How far an activity has come from a cache on: what has been seen of it, the cache as it leaves
it, and where it stands. Nobody else uses the cache while it waits. -/
inductive Partway (a : Activity α) (d : Cache) : List Effect → Cache → Stage α → Prop
  | begun {v : View} {es e s} (h : advance v a d = (es, e, s)) : Partway a d es e s
  | resumed {v : View} {es e r next es' e' s} (h : Partway a d es e (.waiting r next))
    (answer : r.Answer) (hs : advance v (next answer) e = (es', e', s)) :
    Partway a d (es ++ es') e' s

/-- A quiet activity comes to its end without waiting. -/
theorem Quiet.advance {a : Activity α} (h : a.Quiet) (v : View) (d : Cache) :
    ∃ es x, advance v a d = (es, d, .ended x) := by
  induction a with
  | done a => exact ⟨[], .ok a, rfl⟩
  | overflow o => exact ⟨[], .error o, rfl⟩
  | look next ih => exact ih v (h v)
  | read next ih => exact ih d (h d)
  | write e rest _ => exact h.elim
  | tell x rest ih =>
    obtain ⟨es, y, hy⟩ := ih h.2
    exact ⟨x :: es, y, by rw [Activity.advance, hy]⟩
  | fetch r next _ => exact h.elim

/-- An activity that publishes nothing before its last request. -/
def Withholds : Activity α → Prop
  | done _ => True
  | overflow _ => True
  | look next => ∀ v, (next v).Withholds
  | read next => ∀ d, (next d).Withholds
  | write _ rest => rest.Withholds
  | tell x rest => (x.Unpublished ∨ rest.Quiet) ∧ rest.Withholds
  | fetch _ next => ∀ answer, (next answer).Withholds

namespace Withholds

theorem of_quiet {a : Activity α} (h : a.Quiet) : a.Withholds := by
  induction a with
  | done _ | overflow _ => trivial
  | look next ih => exact fun v => ih v (h v)
  | read next ih => exact fun d => ih d (h d)
  | write e rest _ => exact h.elim
  | tell x rest ih => exact ⟨.inr h.2, ih h.2⟩
  | fetch r next _ => exact h.elim

theorem bind {a : Activity α} {f : α → Activity β} (h : a.Emits Effect.Unpublished)
    (hf : ∀ x, (f x).Withholds) : (a >>= f).Withholds := by
  change (a.bind f).Withholds
  induction a with
  | done a => exact hf a
  | overflow o => trivial
  | look next ih => exact fun v => ih v (h v)
  | read next ih => exact fun d => ih d (h d)
  | write e rest ih => exact ih h
  | tell x rest ih => exact ⟨.inl h.1, ih h.2⟩
  | fetch r next ih => exact fun answer => ih answer (h.2 answer)

theorem advance {a : Activity α} (h : a.Withholds) {r : Request} {next : r.Answer → Activity α}
    (ha : advance v a d = (es, e, .waiting r next)) :
    (∀ x ∈ es, x.Unpublished) ∧ ∀ answer, (next answer).Withholds := by
  induction a generalizing d es with
  | done a => cases ha
  | overflow o => cases ha
  | look f ih => exact ih v (h v) ha
  | read f ih => exact ih d (h d) ha
  | write e' rest ih => exact ih h ha
  | tell x rest ih =>
    obtain ⟨hx, hrest⟩ := h
    generalize hp : Activity.advance v rest d = p at ha
    obtain ⟨es', e', s⟩ := p
    rw [Activity.advance, hp] at ha
    cases ha
    obtain ⟨hes, hnext⟩ := ih hrest hp
    refine ⟨List.forall_mem_cons.2 ⟨?_, hes⟩, hnext⟩
    -- A publication is followed by no request, so the activity would not wait.
    refine hx.resolve_right fun hquiet => ?_
    obtain ⟨es'', y, hy⟩ := hquiet.advance v d
    rw [hp] at hy
    cases hy
  | fetch r' f ih =>
    cases ha
    exact ⟨List.forall_mem_singleton.2 (Effect.unpublished_request r), h⟩

/-- As long as it waits, it has published nothing. -/
theorem partway {a : Activity α} (h : a.Withholds) {r : Request} {next : r.Answer → Activity α}
    (ha : Partway a d es e (.waiting r next)) :
    (∀ x ∈ es, x.Unpublished) ∧ ∀ answer, (next answer).Withholds := by
  generalize hs : Stage.waiting r next = s at ha
  induction ha generalizing r with
  | begun ha =>
    subst hs
    exact h.advance ha
  | resumed _ answer ha ih =>
    subst hs
    obtain ⟨hes, hnext⟩ := ih rfl
    obtain ⟨hes', hnext'⟩ := (hnext answer).advance ha
    exact ⟨List.forall_mem_append.2 ⟨hes, hes'⟩, hnext'⟩

end Withholds

end Activity

open Activity

namespace Cycle

/-- A cycle publishes nothing before its last request. -/
theorem refresh_withholds (c : Config) (s : Schedule) (name : String) (draw : Nat) :
    (refresh c s name draw).Withholds := by
  rw [refresh_eq]
  refine ⟨.inl (Effect.unpublished_log _), ?_⟩
  apply Withholds.bind (emits_download c _)
  intro result d v
  change (lift (d.cleanup c.cache v.now) >>= fun e => store e >>= fun _ =>
    conclude c s (namedContext c name) draw result).Withholds
  cases d.cleanup c.cache v.now with
  | error o => trivial
  | ok e => exact Withholds.of_quiet (a := conclude c s _ draw result) (conclude_quiet ..)

/-- A tick does not wait. -/
theorem advance_tick (c : Config) (v : View) (d : Cache) :
    ∃ es e x, advance v (tick c) d = (es, e, .ended x) := by
  change ∃ es e x, advance v (lift (d.cleanup c.cache v.now) >>= fun e => store e >>= fun _ =>
    publishPrices c) d = (es, e, .ended x)
  cases d.cleanup c.cache v.now with
  | error o => exact ⟨[], d, .error o, rfl⟩
  | ok e =>
    obtain ⟨es, x, hx⟩ := (publishPrices_quiet c).advance v e
    exact ⟨es, e, x, hx⟩

end Cycle

namespace Loop

variable {c : Config} {l l' : Loop} {m : Moment} {es es' : List Effect} {d e : Cache}

/-- Lets one thing after the other happen to the loop. -/
def steps (c : Config) (l : Loop) : List (Moment × Signal) → List Effect × Loop
  | [] => ([], l)
  | (m, x) :: xs =>
    let p := l.step c m x
    let q := p.2.steps c xs
    (p.1 ++ q.1, q.2)

/-- A run of the loop from its start on. -/
def ofSignals (c : Config) (m : Moment) (xs : List (Moment × Signal)) : List Effect × Loop :=
  let p := start c m
  let q := p.2.steps c xs
  (p.1 ++ q.1, q.2)

/-- Cycles and ticks one after the other from the start of the loop: what is seen of them, and the
cache and the schedule that the last one leaves. -/
inductive Serial (c : Config) : List Effect → Cache → Schedule → Prop
  | start : Serial c [event c .info "Refresh orchestrator started"] .empty (.start c)
  | cycle {es d s name draw es' e out} (h : Serial c es d s)
    (hc : Partway (Cycle.refresh c s name draw) d es' e (.ended (.ok out))) :
    Serial c (es ++ es') e out.schedule
  | tick {es d s v es' e} (h : Serial c es d s)
    (ht : advance v (Cycle.tick c) d = (es', e, .ended (.ok ()))) : Serial c (es ++ es') e s

/-- What the loop has done so far. -/
inductive Account (c : Config) : List Effect → Loop → Prop
  | idle {es l t} (h : Serial c es l.cache l.schedule) (hp : l.phase = .idle t) : Account c es l
  /-- A cycle waits. It has published nothing, and the schedule is the one it has begun with. -/
  | fetching {es d es' l name draw r next} (h : Serial c es d l.schedule)
    (hc : Partway (Cycle.refresh c l.schedule name draw) d es' l.cache (.waiting r next))
    (hes : ∀ x ∈ es', x.Unpublished) (hp : l.phase = .fetching r next) : Account c (es ++ es') l
  | stopped {es l x y} (h : Account c es l) (hl : ¬ l.isFinished) :
    Account c (es ++ [.log x, .log y]) { l with cache := .empty, phase := .stopped }
  | cycleFailed {es d es' l name draw o} (h : Serial c es d l.schedule)
    (hc : Partway (Cycle.refresh c l.schedule name draw) d es' l.cache (.ended (.error o)))
    (hp : l.phase = .failed o) : Account c (es ++ es') l
  | tickFailed {es d es' l v o} (h : Serial c es d l.schedule)
    (ht : advance v (Cycle.tick c) d = (es', l.cache, .ended (.error o)))
    (hp : l.phase = .failed o) : Account c (es ++ es') l
  /-- The time of the next cycle or tick overflows. -/
  | timerFailed {es l o} (h : Serial c es l.cache l.schedule) (hp : l.phase = .failed o) :
    Account c es l

theorem account_start (c : Config) (m : Moment) : Account c (start c m).1 (start c m).2 := by
  unfold start
  cases nextTick m with
  | ok t => exact .idle .start rfl
  | error o => exact .timerFailed .start rfl

/-- A cycle goes on until it waits or ends. -/
theorem account_cycleTo {name : String} {draw : Nat} {es'' : List Effect}
    {s : Stage CycleOutcome} (h : Serial c es d l.schedule)
    (hc : Partway (Cycle.refresh c l.schedule name draw) d (es' ++ es'') e s) (m : Moment) :
    Account c (es ++ (es' ++ (cycleTo l m (es'', e, s)).1)) (cycleTo l m (es'', e, s)).2 := by
  cases s with
  | waiting r next => exact .fetching h hc ((Cycle.refresh_withholds ..).partway hc).1 rfl
  | ended x =>
    cases x with
    | error o => exact .cycleFailed h hc rfl
    | ok out =>
      simp only [cycleTo]
      cases after m.elapsed out.delay with
      | ok t => exact .idle (h.cycle hc) rfl
      | error o => exact .timerFailed (h.cycle hc) rfl

theorem account_refresh (h : Serial c es l.cache l.schedule) (m : Moment) :
    Account c (es ++ (l.refresh c m).1) (l.refresh c m).2 := by
  unfold refresh
  generalize hp : advance m.view _ l.cache = p
  obtain ⟨es', e, s⟩ := p
  have hc : Partway (Cycle.refresh c l.schedule m.cycleName m.draw) l.cache ([] ++ es') e s :=
    .begun hp
  exact account_cycleTo h hc m

theorem account_answer {name : String} {draw : Nat} {r : Request}
    {next : r.Answer → Activity CycleOutcome} (h : Serial c es d l.schedule)
    (hc : Partway (Cycle.refresh c l.schedule name draw) d es' l.cache (.waiting r next))
    (answer : r.Answer) (m : Moment) :
    Account c (es ++ (es' ++ (cycleTo l m (advance m.view (next answer) l.cache)).1))
      (cycleTo l m (advance m.view (next answer) l.cache)).2 := by
  generalize hp : advance m.view (next answer) l.cache = p
  obtain ⟨es'', e, s⟩ := p
  exact account_cycleTo h (hc.resumed answer hp) m

theorem account_tick (h : Serial c es l.cache l.schedule) (hp : ∃ t, l.phase = .idle t)
    (m : Moment) : Account c (es ++ (l.tick c m).1) (l.tick c m).2 := by
  obtain ⟨t, hp⟩ := hp
  obtain ⟨es', e, x, ht⟩ := Cycle.advance_tick c m.view l.cache
  unfold Loop.tick
  rw [ht]
  cases x with
  | error o => exact .tickFailed h ht rfl
  | ok u =>
    cases nextTick m with
    | ok t' => exact .idle (h.tick ht) hp
    | error o => exact .timerFailed (h.tick ht) rfl

/-- A loop that has ended does nothing more. -/
theorem step_of_isFinished (hl : l.isFinished) (m : Moment) (x : Signal) :
    l.step c m x = ([], l) := by
  unfold isFinished at hl
  cases hp : l.phase with
  | idle t => simp [hp] at hl
  | fetching r next => simp [hp] at hl
  | stopped | failed o => cases x <;> simp only [step, hp]

theorem steps_of_isFinished (hl : l.isFinished) (xs : List (Moment × Signal)) :
    l.steps c xs = ([], l) := by
  induction xs with
  | nil => rfl
  | cons x xs ih =>
    rw [steps, step_of_isFinished hl]
    simp only [ih, List.append_nil]

namespace Account

theorem serial_of_idle (h : Account c es l) {t : Duration} (hp : l.phase = .idle t) :
    Serial c es l.cache l.schedule := by
  cases h with
  | idle h _ => exact h
  | fetching _ _ _ hp' | cycleFailed _ _ hp' | tickFailed _ _ hp' | timerFailed _ hp' =>
    rw [hp] at hp'
    cases hp'
  | stopped _ _ => cases hp

theorem exists_of_fetching (h : Account c es l) {r : Request}
    {next : r.Answer → Activity CycleOutcome} (hp : l.phase = .fetching r next) :
    ∃ es₀ d es' name draw, es = es₀ ++ es' ∧ Serial c es₀ d l.schedule ∧
      Partway (Cycle.refresh c l.schedule name draw) d es' l.cache (.waiting r next) ∧
      ∀ x ∈ es', x.Unpublished := by
  cases h with
  | @fetching es d es' l name draw r' next' hserial hc hes hp' =>
    rw [hp] at hp'
    cases hp'
    exact ⟨es, d, es', name, draw, rfl, hserial, hc, hes⟩
  | idle _ hp' | cycleFailed _ _ hp' | tickFailed _ _ hp' | timerFailed _ hp' =>
    rw [hp] at hp'
    cases hp'
  | stopped _ _ => cases hp

/-- What the loop does when something happens is accounted for. -/
theorem step (h : Account c es l) (m : Moment) (x : Signal) :
    Account c (es ++ (l.step c m x).1) (l.step c m x).2 := by
  have hnothing : Account c (es ++ []) l := by rwa [List.append_nil]
  by_cases hl : l.isFinished
  · rw [step_of_isFinished hl]
    exact hnothing
  · cases hp : l.phase with
    | idle t =>
      have hserial := h.serial_of_idle hp
      cases x with
      | refreshTimer =>
        simp only [Loop.step, hp]
        split
        · exact account_refresh hserial m
        · exact hnothing
      | tickTimer =>
        simp only [Loop.step, hp]
        split
        · exact account_tick hserial ⟨t, hp⟩ m
        · exact hnothing
      | answer source =>
        simp only [Loop.step, hp]
        exact hnothing
      | shutdown =>
        simp only [Loop.step, hp]
        exact h.stopped hl
    | fetching r next =>
      obtain ⟨es₀, d, es', name, draw, rfl, hserial, hc, -⟩ := h.exists_of_fetching hp
      cases x with
      | refreshTimer | tickTimer =>
        simp only [Loop.step, hp]
        exact hnothing
      | answer source =>
        simp only [Loop.step, hp]
        rw [List.append_assoc]
        exact account_answer hserial hc (source r) m
      | shutdown =>
        simp only [Loop.step, hp]
        exact h.stopped hl
    | stopped | failed o => simp [isFinished, hp] at hl

theorem steps (h : Account c es l) (xs : List (Moment × Signal)) :
    Account c (es ++ (l.steps c xs).1) (l.steps c xs).2 := by
  induction xs generalizing es l with
  | nil => rwa [Loop.steps, List.append_nil]
  | cons x xs ih =>
    rw [Loop.steps]
    simp only
    rw [← List.append_assoc]
    exact ih (h.step x.1 x.2)

theorem ofSignals (c : Config) (m : Moment) (xs : List (Moment × Signal)) :
    Account c (ofSignals c m xs).1 (ofSignals c m xs).2 :=
  (account_start c m).steps xs

theorem isEmpty_of_stopped (h : Account c es l) (hp : l.phase = .stopped) (k : Component) :
    (l.cache.get k).isEmpty := by
  cases h with
  | stopped _ _ =>
    rw [Cache.get_empty]
    rfl
  | idle _ hp' | fetching _ _ _ hp' | cycleFailed _ _ hp' | tickFailed _ _ hp'
  | timerFailed _ hp' =>
    rw [hp] at hp'
    cases hp'

end Account

/-- Whatever happens to the loop, it runs cycles and ticks one after the other. While one cycle
waits for an answer nothing else is begun. A shutdown ends the loop: it only logs, keeps the
schedule and empties the cache. A loop that has ended does nothing more, and holds no series unless
an overflow has ended it. -/
theorem ofSignals_accounted (c : Config) (m : Moment) (xs : List (Moment × Signal)) :
    let es := (ofSignals c m xs).1
    let l := (ofSignals c m xs).2
    Account c es l ∧
    (l.pending?.isSome → ∀ m, l.step c m .refreshTimer = ([], l) ∧
      l.step c m .tickTimer = ([], l)) ∧
    (¬ l.isFinished → ∀ m, ∃ x y, l.step c m .shutdown =
      ([.log x, .log y], { l with cache := .empty, phase := .stopped })) ∧
    (l.isFinished → ∀ ys, l.steps c ys = ([], l)) ∧
    (l.isFinished → l.phase = .stopped ∨ ∃ o, l.phase = .failed o) ∧
    (l.phase = .stopped → ∀ k, (l.cache.get k).isEmpty) := by
  intro es l
  have haccount : Account c es l := .ofSignals c m xs
  refine ⟨haccount, ?_, ?_, steps_of_isFinished, ?_, haccount.isEmpty_of_stopped⟩
  · intro hpending m
    cases hp : l.phase with
    | fetching r next => exact ⟨by simp only [step, hp], by simp only [step, hp]⟩
    | idle t | stopped | failed o => simp [pending?, hp] at hpending
  · intro hl m
    cases hp : l.phase with
    | idle t | fetching r next =>
      simp only [step, hp]
      exact ⟨_, _, rfl⟩
    | stopped | failed o => simp [isFinished, hp] at hl
  · intro hl
    cases hp : l.phase with
    | stopped => exact .inl rfl
    | failed o => exact .inr ⟨o, rfl⟩
    | idle t | fetching r next => simp [isFinished, hp] at hl

/-- A shutdown while the first cycle waits for spot prices. -/
theorem ofSignals_accounted_interrupted :
    let c : Config := { service := { gridCompanyGln := "5790000610099" } }
    let m : Moment := ⟨.ofMillis 0, ⟨.ofSeconds 1675512000, [.current .spotPrice], none⟩, "A", 0⟩
    let l := (ofSignals c m [(m, .refreshTimer)]).2
    l.pending?.isSome ∧ ¬ l.isFinished ∧
    ∃ x y l', l.step c m .shutdown = ([.log x, .log y], l') ∧ l'.schedule = l.schedule ∧
      l'.phase = .stopped ∧ l'.cache = .empty := by
  intro c m l
  obtain ⟨-, -, hstop, -⟩ := ofSignals_accounted c m [(m, .refreshTimer)]
  have hrunning : ¬ l.isFinished := by decide
  obtain ⟨x, y, hxy⟩ := hstop hrunning m
  exact ⟨by decide, hrunning, x, y, _, hxy, rfl, rfl, rfl⟩

/-- A tariff that overflows with value added tax ends the first cycle while it publishes, and stays
cached. -/
theorem ofSignals_not_empty_of_overflow : ∃ (c : Config) (m : Moment) (source : Source),
    let l := (ofSignals c m [(m, .refreshTimer), (m, .answer source), (m, .shutdown)]).2
    l.isFinished ∧ ¬ (l.cache.get .systemTariff).isEmpty := by
  refine ⟨{ service := { gridCompanyGln := "5790000610099" },
            vat := { includeVat := [.systemTariff] } },
    ⟨.ofMillis 0, ⟨.ofSeconds 1675512000, [.current .systemTariff], none⟩, "A", 0⟩,
    .answering (.ok []) (.ok [{
      validFrom := .ofDay 19358 .midnight
      validTo := none
      code := "C"
      prices := [some { num := 79228162514264337593543950335, scale := 0 }]
      trimmed := by simp }]), ?_⟩
  decide

end Loop

end HourlyPrices
