import HourlyPrices.Proofs.Service.Downloads
import HourlyPrices.Service.Cycle

/-!
# The parts of a cycle

A cycle is a sequence of attempts to download, one for each component (`Cycle.run_downloads_cons`),
then drops past hours, and then concludes without touching the cache or the source again
(`Cycle.run_refresh`, `Cycle.conclude_quiet`). An attempt does nothing unless its component is due
(`Cycle.run_attempt_cases`).
-/

namespace HourlyPrices.Cycle

open Activity

variable {v : View} {source source' : Source} {c : Config} {context : LogContext} {k : Component}
  {d : Cache}

/-! ## Attempts -/

/-- Downloads a component if it has to be, and gives the fault, if there is one. -/
def attempt (c : Config) (context : LogContext) (k : Component) : Activity (List Fault) := do
  let v ← .view
  if !v.needs k then return []
  else
    let context' := context.withField "price_component" k.name
    if !(← .lift (c.needsDownload (← .cached) k v.now)) then
      .log context' .debug "Cached series still valid, skipping download"
      return []
    else
      match ← Download.component c k with
      | .ok n =>
        .log context' .debug s!"Downloaded {n} records"
        return []
      | .error f =>
        .log context' .warn s!"Download of {k.name} failed: {f.message}"
        return [f]

/-- A component is due when it is needed and not known as far as it should be, and there is a party
to ask for it. -/
structure Due (c : Config) (v : View) (d : Cache) (k : Component) : Prop where
  needed : v.needs k
  uncovered : c.needsDownload d k v.now = .ok true
  askable : k = .spotPrice ∨ (c.tariffQuery? k).isSome

/-- The downloads of some components are attempts one after the other, whatever they give. -/
theorem downloads_cons (c : Config) (context : LogContext) (k : Component) (ks : List Component) :
    downloads c context (k :: ks) = (do
      let faults ← attempt c context k
      return faults ++ (← downloads c context ks)) := by
  rw [downloads, attempt]
  simp only [bind_assoc]
  congr 1
  funext v
  split
  · simp
  · simp only [bind_assoc]
    congr 1
    funext d
    congr 1
    funext due
    split
    · simp
    · simp only [bind_assoc]
      congr 1
      funext result
      cases result <;> simp

/-- What an attempt can do: overflow at the window of past hours, nothing but log, or download the
component. A download that fails gives its fault, and leaves the cache as it is. -/
theorem run_attempt_cases (v : View) (source : Source) (c : Config) (context : LogContext)
    (k : Component) (d : Cache) :
    (∃ o, k = .spotPrice ∧ v.needs .spotPrice ∧
      Cache.cutoff c.cache .spotPrice v.now = .error o ∧
      run v source (attempt c context k) d = ⟨[], d, .error o⟩) ∨
    (¬ Due c v d k ∧ ∃ es : List LogEvent,
      run v source (attempt c context k) d = ⟨es.map .log, d, .ok []⟩) ∨
    (Due c v d k ∧ ∃ (r : Request) (es : List LogEvent) (faults : List Fault), r.component = k ∧
      run v source (attempt c context k) d =
        ⟨.request r :: es.map .log, (run v source (Download.component c k) d).cache, .ok faults⟩ ∧
      ((∃ f, source r = .error f ∧ faults = [f]) ∧
          (run v source (Download.component c k) d).cache = d ∨
        ∃ records, source r = .ok records ∧ faults = [])) := by
  simp only [attempt, run_view_bind]
  by_cases hn : v.needs k
  · simp only [hn, Bool.not_true, Bool.false_eq_true, if_false, run_cached_bind]
    cases hd : c.needsDownload d k v.now with
    | error o =>
      obtain ⟨rfl, hcut⟩ := Config.needsDownload_eq_error_iff.1 hd
      exact .inl ⟨o, rfl, hn, hcut, rfl⟩
    | ok due =>
      simp only [run_lift_ok_bind]
      cases due with
      | false => exact .inr (.inl ⟨fun h => by simpa [hd] using h.uncovered, [_], rfl⟩)
      | true =>
        simp only [Bool.not_true, Bool.false_eq_true, if_false, run_seq]
        rcases Download.run_component_cases v source c k d with
          ⟨o, hk, hcut, -⟩ | ⟨e, hk, hq, hrun⟩ |
          ⟨r, hask, hr, ⟨f, ha, hrun⟩ | ⟨records, e, s, n, ha, hrun⟩⟩
        · rw [Config.needsDownload_eq_error_iff.2 ⟨hk, hcut⟩] at hd
          cases hd
        · refine .inr (.inl ⟨fun h => ?_, [e, _], by rw [hrun]; rfl⟩)
          simpa [hk, hq] using h.askable
        · exact .inr (.inr ⟨⟨hn, hd, hask⟩, r, [_], [f], hr, by rw [hrun]; rfl,
            .inl ⟨⟨f, ha, rfl⟩, by rw [hrun]⟩⟩)
        · exact .inr (.inr ⟨⟨hn, hd, hask⟩, r, [e, _], [], hr, by rw [hrun]; rfl,
            .inr ⟨records, ha, rfl⟩⟩)
  · refine .inr (.inl ⟨fun h => hn h.needed, [], ?_⟩)
    simp [hn]

/-- An attempt runs on the series of its component alone. -/
theorem run_attempt_alone (v : View) (source : Source) (c : Config) (context : LogContext)
    (k : Component) (d : Cache) :
    run v source (attempt c context k) d =
      (run v source (attempt c context k) (d.alone k)).within d k := by
  simp only [attempt, run_view_bind]
  split
  · simp [Outcome.within]
  · simp only [run_cached_bind, Config.needsDownload_congr (d.get_alone k)]
    cases c.needsDownload d k v.now with
    | error o => simp [Outcome.within]
    | ok due =>
      simp only [run_lift_ok_bind]
      split
      · simp [Outcome.within, Outcome.after, -bind_pure_comp]
      · rw [run_seq, run_seq, Download.run_component_alone]
        generalize run v source (Download.component c k) (d.alone k) = o
        obtain ⟨es, e, _ | _ | n⟩ := o <;>
          simp [Outcome.within, Outcome.bind, -bind_pure_comp]

/-- An attempt heeds the answers to requests for its component only. -/
theorem run_attempt_congr (h : ∀ r, r.component = k → source r = source' r) (v : View)
    (c : Config) (context : LogContext) (d : Cache) :
    run v source (attempt c context k) d = run v source' (attempt c context k) d := by
  simp only [attempt, run_view_bind]
  split
  · rfl
  · simp only [run_cached_bind]
    cases c.needsDownload d k v.now with
    | error o => rfl
    | ok due =>
      simp only [run_lift_ok_bind]
      split
      · rfl
      · rw [run_seq, run_seq, Download.run_component_congr h]
        generalize run v source' (Download.component c k) d = o
        obtain ⟨es, e, _ | _ | n⟩ := o <;> rfl

/-! ## After the downloads -/

/-- Logs the fault of a cycle. -/
def noteFault (context : LogContext) : Except Fault Unit → Activity Unit
  | .ok () => pure ()
  | .error f => .log context .warn s!"Refresh failed: {f.message}"

/-- Logs what is missing after a cycle without a fault. -/
def noteShortage (c : Config) (result : Except Fault Unit) (cache : Cache) (v : View) :
    Activity Unit :=
  match result, shortage? c cache v with
  | .ok (), some f => .log (Cycle.context c) .debug f.message
  | _, _ => pure ()

/-- Decides when the next cycle is due, and publishes it. -/
def plan (c : Config) (s : Schedule) (context : LogContext) (draw : Nat)
    (result : Except Fault Unit) (v : View) (cache : Cache) : Activity CycleOutcome := do
  let (delay, schedule) :=
    reschedule s (candidate c cache v s.bootstrapped result) result.isOk v.now draw
  let next ← .lift (nextCall v.now delay)
  publishProperties (properties c v.usage next)
  let policy := schedule.policy.name
  .log context .debug
    s!"Refresh job rescheduled in {delay.seconds} seconds ({policy}): {next.readableText}"
  return { status := ServiceStatus.ofResult result, delay, nextCall := next, schedule }

/-- What a cycle does when past hours have been dropped. -/
def conclude (c : Config) (s : Schedule) (context : LogContext) (draw : Nat)
    (result : Except Fault Unit) : Activity CycleOutcome := do
  noteFault context result
  .publish (.status (ServiceStatus.ofResult result))
  publishPrices c
  let v ← .view
  let cache ← .cached
  noteShortage c result cache v
  plan c s context draw result v cache

/-- The context of one cycle in the log. -/
def namedContext (c : Config) (name : String) : LogContext := (Cycle.context c).forCycle name

/-- A cycle downloads, drops past hours and concludes. -/
theorem refresh_eq (c : Config) (s : Schedule) (name : String) (draw : Nat) :
    refresh c s name draw = (do
      .log (namedContext c name) .debug "Refresh cycle started"
      let result ← download c (namedContext c name)
      .store (← .lift ((← .cached).cleanup c.cache (← .view).now))
      conclude c s (namedContext c name) draw result) := by
  refine bind_congr fun _ => bind_congr fun result => bind_congr fun _ => bind_congr fun _ =>
    bind_congr fun _ => bind_congr fun _ => ?_
  -- Each branch of the cycle logs before it goes on; the parts log on their own.
  cases result with
  | error f => simp only [conclude, noteFault, noteShortage, plan, namedContext, pure_bind]
  | ok u =>
    simp only [conclude, noteFault, noteShortage, plan, namedContext, pure_bind]
    refine bind_congr fun _ => bind_congr fun _ => bind_congr fun v => bind_congr fun d => ?_
    cases shortage? c d v <;> simp only [pure_bind]

/-! ## Quiet parts -/

theorem publishCurrent_quiet (c : Config) (ks : List Component) : (publishCurrent c ks).Quiet := by
  induction ks with
  | nil => exact .pure _
  | cons k ks ih =>
    rw [publishCurrent]
    refine Quiet.view.bind fun v => ?_
    dsimp only
    split
    · exact Quiet.cached.bind fun _ => (Quiet.lift _).bind fun _ =>
        (Quiet.publish _).bind fun _ => ih
    · exact ih

theorem publishPrices_quiet (c : Config) : (publishPrices c).Quiet := by
  refine (publishCurrent_quiet c _).bind fun _ => Quiet.view.bind fun v => ?_
  split
  · exact Quiet.cached.bind fun _ => Quiet.publish _
  · exact .pure _

theorem publishProperties_quiet (ps : List (String × String)) : (publishProperties ps).Quiet := by
  induction ps with
  | nil => exact .pure _
  | cons p ps ih => exact (Quiet.publish _).bind fun _ => ih

theorem noteFault_quiet (context : LogContext) (result : Except Fault Unit) :
    (noteFault context result).Quiet := by
  cases result with
  | ok _ => exact .pure _
  | error _ => exact .log ..

theorem noteShortage_quiet (c : Config) (result : Except Fault Unit) (d : Cache) (v : View) :
    (noteShortage c result d v).Quiet := by
  unfold noteShortage
  split
  · exact .log ..
  · exact .pure _

theorem plan_quiet (c : Config) (s : Schedule) (context : LogContext) (draw : Nat)
    (result : Except Fault Unit) (v : View) (d : Cache) :
    (plan c s context draw result v d).Quiet :=
  (Quiet.lift _).bind fun _ => (publishProperties_quiet _).bind fun _ =>
    (Quiet.log ..).bind fun _ => .pure _

theorem conclude_quiet (c : Config) (s : Schedule) (context : LogContext) (draw : Nat)
    (result : Except Fault Unit) : (conclude c s context draw result).Quiet :=
  (noteFault_quiet _ _).bind fun _ => (Quiet.publish _).bind fun _ =>
    (publishPrices_quiet c).bind fun _ => Quiet.view.bind fun _ => Quiet.cached.bind fun _ =>
      (noteShortage_quiet ..).bind fun _ => plan_quiet ..

end HourlyPrices.Cycle
