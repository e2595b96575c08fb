import HourlyPrices.Service.Activity

/-!
# Runs of activities

Activities are a lawful monad. What the parts of an activity do when it is run is stated as
rewriting rules for the parts in sequence, and so is what they have requested
(`Activity.Outcome.requests`); activities that leave the cache and the source alone are
`Activity.Quiet`.
-/

namespace HourlyPrices

/-- The request that an effect is. -/
def Effect.request? : Effect → Option Request
  | request r => some r
  | publication _ | log _ => none

namespace Activity

variable {α β : Type} {v : View} {source : Source} {c : Cache}

theorem bind_done (a : Activity α) : a.bind done = a := by
  induction a with
  | done _ | overflow _ => rfl
  | look next ih => exact congrArg look (funext ih)
  | read next ih => exact congrArg read (funext ih)
  | write d rest ih => exact congrArg (write d) ih
  | tell e rest ih => exact congrArg (tell e) ih
  | fetch r next ih => exact congrArg (fetch r) (funext ih)

theorem bind_bind {γ : Type} (a : Activity α) (f : α → Activity β) (g : β → Activity γ) :
    (a.bind f).bind g = a.bind fun x => (f x).bind g := by
  induction a with
  | done _ | overflow _ => rfl
  | look next ih => exact congrArg look (funext ih)
  | read next ih => exact congrArg read (funext ih)
  | write d rest ih => exact congrArg (write d) ih
  | tell e rest ih => exact congrArg (tell e) ih
  | fetch r next ih => exact congrArg (fetch r) (funext ih)

instance : LawfulMonad Activity :=
  .mk' Activity bind_done (fun _ _ => rfl) bind_bind

/-! ## Outcomes -/

@[simp] theorem Outcome.after_effects (e : Effect) (o : Outcome α) :
    (o.after e).effects = e :: o.effects := rfl

@[simp] theorem Outcome.after_cache (e : Effect) (o : Outcome α) :
    (o.after e).cache = o.cache := rfl

@[simp] theorem Outcome.after_value (e : Effect) (o : Outcome α) :
    (o.after e).value = o.value := rfl

theorem Outcome.bind_of_ok {o : Outcome α} {a : α} (h : o.value = .ok a)
    (f : α → Cache → Outcome β) :
    o.bind f = ⟨o.effects ++ (f a o.cache).effects, (f a o.cache).cache, (f a o.cache).value⟩ := by
  simp only [Outcome.bind, h]

theorem Outcome.bind_of_error {o : Outcome α} {e : Overflow} (h : o.value = .error e)
    (f : α → Cache → Outcome β) : o.bind f = ⟨o.effects, o.cache, .error e⟩ := by
  simp only [Outcome.bind, h]

theorem Outcome.bind_value_eq_ok_iff {o : Outcome α} {f : α → Cache → Outcome β} {b : β} :
    (o.bind f).value = .ok b ↔ ∃ a, o.value = .ok a ∧ (f a o.cache).value = .ok b := by
  cases h : o.value with
  | ok a => simp [Outcome.bind_of_ok h]
  | error e => simp [Outcome.bind_of_error h]

theorem Outcome.eq_of_value {o : Outcome α} {a : α} (h : o.value = .ok a) :
    o = ⟨o.effects, o.cache, .ok a⟩ := by
  rw [← h]

/-- An outcome of two parts in sequence that comes to a value is an outcome of each. -/
theorem Outcome.bind_eq_ok_iff {o : Outcome α} {f : α → Cache → Outcome β} {es : List Effect}
    {d : Cache} {b : β} : o.bind f = ⟨es, d, .ok b⟩ ↔
      ∃ es₁ d₁ a es₂, o = ⟨es₁, d₁, .ok a⟩ ∧ f a d₁ = ⟨es₂, d, .ok b⟩ ∧ es = es₁ ++ es₂ := by
  obtain ⟨es₁, d₁, x⟩ := o
  cases x with
  | error e =>
    rw [Outcome.bind_of_error rfl]
    apply iff_of_false
    · intro h
      cases h
    · rintro ⟨_, _, _, _, h, -⟩
      cases h
  | ok a =>
    rw [Outcome.bind_of_ok rfl]
    constructor
    · intro h
      obtain ⟨h₁, h₂, h₃⟩ := Outcome.mk.inj h
      refine ⟨es₁, d₁, a, (f a d₁).effects, rfl, ?_, h₁.symm⟩
      rw [← h₂, ← h₃]
    · rintro ⟨_, _, _, es₂, h, hf, rfl⟩
      cases h
      rw [hf]

theorem Outcome.mem_effects_bind {o : Outcome α} {f : α → Cache → Outcome β} {e : Effect} :
    e ∈ (o.bind f).effects ↔ e ∈ o.effects ∨ ∃ a, o.value = .ok a ∧ e ∈ (f a o.cache).effects := by
  cases hv : o.value with
  | ok a => simp [Outcome.bind_of_ok hv]
  | error x => simp [Outcome.bind_of_error hv]

theorem Outcome.mem_effects_bind_left {o : Outcome α} {e : Effect} (h : e ∈ o.effects)
    (f : α → Cache → Outcome β) : e ∈ (o.bind f).effects :=
  Outcome.mem_effects_bind.2 (.inl h)

theorem Outcome.mem_effects_bind_right {o : Outcome α} {a : α} {e : Effect}
    {f : α → Cache → Outcome β} (hv : o.value = .ok a) (h : e ∈ (f a o.cache).effects) :
    e ∈ (o.bind f).effects :=
  Outcome.mem_effects_bind.2 (.inr ⟨a, hv, h⟩)

/-- What an activity has requested, in order. -/
def Outcome.requests (o : Outcome α) : List Request := o.effects.filterMap (·.request?)

theorem Outcome.requests_bind_of_ok {o : Outcome α} {a : α} (h : o.value = .ok a)
    (f : α → Cache → Outcome β) : (o.bind f).requests = o.requests ++ (f a o.cache).requests := by
  rw [bind_of_ok h]
  exact List.filterMap_append

theorem Outcome.requests_bind_of_error {o : Outcome α} {e : Overflow} (h : o.value = .error e)
    (f : α → Cache → Outcome β) : (o.bind f).requests = o.requests := by
  rw [bind_of_error h]
  rfl

/-! ## Parts in sequence -/

theorem run_seq (a : Activity α) (f : α → Activity β) : run v source (a >>= f) c =
    (run v source a c).bind fun x => run v source (f x) := run_bind v source a f c

@[simp] theorem run_pure (a : α) : run v source (pure a) c = ⟨[], c, .ok a⟩ := rfl

@[simp] theorem run_view_bind (f : View → Activity β) :
    run v source (view >>= f) c = run v source (f v) c := rfl

@[simp] theorem run_cached_bind (f : Cache → Activity β) :
    run v source (cached >>= f) c = run v source (f c) c := rfl

@[simp] theorem run_publish_bind (p : Publication) (f : Unit → Activity β) :
    run v source (publish p >>= f) c = (run v source (f ()) c).after (.publication p) := rfl

@[simp] theorem run_log_bind (x : LogContext) (level : LogLevel) (message : String)
    (f : Unit → Activity β) :
    run v source (log x level message >>= f) c =
      (run v source (f ()) c).after (.log (x.event level message)) := rfl

@[simp] theorem run_ask_bind (r : Request) (f : r.Answer → Activity β) :
    run v source (ask r >>= f) c = (run v source (f (source r)) c).after (.request r) := rfl

@[simp] theorem run_lift_ok_bind (a : α) (f : α → Activity β) :
    run v source (lift (.ok a) >>= f) c = run v source (f a) c := rfl

@[simp] theorem run_lift_error_bind (o : Overflow) (f : α → Activity β) :
    run v source (lift (.error o) >>= f) c = ⟨[], c, .error o⟩ := rfl

/-! ## Quiet activities -/

/-- An activity that neither replaces the cache nor requests records. -/
def Quiet : Activity α → Prop
  | done _ => True
  | overflow _ => True
  | look next => ∀ v, (next v).Quiet
  | read next => ∀ c, (next c).Quiet
  | write _ _ => False
  | tell e rest => (∀ r, e ≠ .request r) ∧ rest.Quiet
  | fetch _ _ => False

namespace Quiet

theorem run_cache {a : Activity α} (h : a.Quiet) : (run v source a c).cache = c := by
  induction a with
  | done _ | overflow _ => rfl
  | look next ih => exact ih v (h v)
  | read next ih => exact ih c (h c)
  | write d rest _ => exact h.elim
  | tell e rest ih => exact ih h.2
  | fetch r next _ => exact h.elim

theorem not_request {a : Activity α} (h : a.Quiet) (r : Request) :
    .request r ∉ (run v source a c).effects := by
  induction a with
  | done _ | overflow _ => exact List.not_mem_nil
  | look next ih => exact ih v (h v)
  | read next ih => exact ih c (h c)
  | write d rest _ => exact h.elim
  | tell e rest ih =>
    rw [run, Outcome.after_effects, List.mem_cons]
    rintro (he | hr)
    · exact h.1 r he.symm
    · exact ih h.2 hr
  | fetch r next _ => exact h.elim

theorem requests {a : Activity α} (h : a.Quiet) : (run v source a c).requests = [] := by
  rw [Outcome.requests, List.filterMap_eq_nil_iff]
  intro e he
  cases e with
  | request r => exact absurd he (h.not_request r)
  | publication p => rfl
  | log x => rfl

theorem bind {a : Activity α} {f : α → Activity β} (h : a.Quiet) (hf : ∀ x, (f x).Quiet) :
    (a >>= f).Quiet := by
  change (a.bind f).Quiet
  induction a with
  | done x => exact hf x
  | overflow _ => trivial
  | look next ih => exact fun v => ih v (h v)
  | read next ih => exact fun c => ih c (h c)
  | write d rest _ => exact h.elim
  | tell e rest ih => exact ⟨h.1, ih h.2⟩
  | fetch r next _ => exact h.elim

theorem pure (a : α) : (Pure.pure a : Activity α).Quiet := trivial

theorem view : Activity.view.Quiet := fun _ => trivial

theorem cached : Activity.cached.Quiet := fun _ => trivial

theorem publish (p : Publication) : (Activity.publish p).Quiet :=
  ⟨fun _ => Effect.noConfusion, trivial⟩

theorem log (x : LogContext) (level : LogLevel) (message : String) :
    (Activity.log x level message).Quiet := ⟨fun _ => Effect.noConfusion, trivial⟩

theorem lift (e : Except Overflow α) : (Activity.lift e).Quiet := by
  cases e <;> trivial

end Quiet

end Activity

end HourlyPrices
