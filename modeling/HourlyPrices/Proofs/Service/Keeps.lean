import HourlyPrices.Proofs.Service.Session

/-!
# Invariants of the cache

The service can have several activities under way that share the cache, and each of them may go a
step on at any time (`Pool.Reachable`). An activity keeps an invariant of the cache
(`Activity.Keeps`) when it replaces the cache only by caches that have it, as long as the caches
that it sees have it and the answers that it gets are as expected. What downloads and the dropping
of past hours keep, all activities of the service keep (`Activity.Kept.of_serves`), so that it holds
however their steps are mixed (`Pool.Reachable.invariant`).
-/

namespace HourlyPrices

namespace Activity

variable {α β : Type} {P : Cache → Prop} {A : (r : Request) → r.Answer → Prop} {d d' : Cache}

/-- A step of an activity, with the cache before and after it. The view may be any, and an answer
any that is expected. -/
inductive Step (A : (r : Request) → r.Answer → Prop) :
    Activity α → Cache → Activity α → Cache → Prop
  | look {next d} (v : View) : Step A (look next) d (next v) d
  | read {next d} : Step A (read next) d (next d) d
  | write {e rest d} : Step A (write e rest) d rest e
  | tell {e rest d} : Step A (tell e rest) d rest d
  | fetch {r next d} (answer : r.Answer) (h : A r answer) : Step A (fetch r next) d (next answer) d

/-- An activity that keeps an invariant, given what is expected of answers. -/
def Keeps (P : Cache → Prop) (A : (r : Request) → r.Answer → Prop) : Activity α → Prop
  | done _ => True
  | overflow _ => True
  | look next => ∀ v, (next v).Keeps P A
  | read next => ∀ d, P d → (next d).Keeps P A
  | write d rest => P d ∧ rest.Keeps P A
  | tell _ rest => rest.Keeps P A
  | fetch r next => ∀ answer, A r answer → (next answer).Keeps P A

namespace Keeps

/-- After a step the cache has the invariant, and the rest of the activity keeps it. -/
theorem step {a a' : Activity α} (h : a.Keeps P A) (hd : P d) (hstep : Step A a d a' d') :
    P d' ∧ a'.Keeps P A := by
  cases hstep with
  | look v => exact ⟨hd, h v⟩
  | read => exact ⟨hd, h d hd⟩
  | write => exact h
  | tell => exact ⟨hd, h⟩
  | fetch answer hanswer => exact ⟨hd, h answer hanswer⟩

/-! ## Parts in sequence -/

theorem bind {a : Activity α} {f : α → Activity β} (h : a.Keeps P A)
    (hf : ∀ b, (f b).Keeps P A) : (a >>= f).Keeps P A := by
  change (a.bind f).Keeps P A
  induction a with
  | done a => exact hf a
  | overflow o => trivial
  | look next ih => exact fun v => ih v (h v)
  | read next ih => exact fun d hd => ih d (h d hd)
  | write d rest ih => exact ⟨h.1, ih h.2⟩
  | tell e rest ih => exact ih h
  | fetch r next ih => exact fun answer ha => ih answer (h answer ha)

theorem pure (a : α) : (Pure.pure a : Activity α).Keeps P A := trivial

theorem lift_bind {e : Except Overflow β} {f : β → Activity α}
    (hf : ∀ b, e = .ok b → (f b).Keeps P A) : (lift e >>= f).Keeps P A := by
  cases e with
  | ok b => exact hf b rfl
  | error o => trivial

theorem view_bind {f : View → Activity α} (hf : ∀ v, (f v).Keeps P A) :
    (view >>= f).Keeps P A := hf

theorem cached_bind {f : Cache → Activity α} (hf : ∀ d, P d → (f d).Keeps P A) :
    (cached >>= f).Keeps P A := hf

theorem ask_bind {r : Request} {f : r.Answer → Activity α}
    (hf : ∀ answer, A r answer → (f answer).Keeps P A) : (ask r >>= f).Keeps P A := hf

theorem store_bind {f : Unit → Activity α} (hd : P d) (hf : (f ()).Keeps P A) :
    (store d >>= f).Keeps P A := ⟨hd, hf⟩

theorem emit_bind {e : Effect} {f : Unit → Activity α} (hf : (f ()).Keeps P A) :
    (emit e >>= f).Keeps P A := hf

theorem log_bind {l : LogContext} {level : LogLevel} {message : String} {f : Unit → Activity α}
    (hf : (f ()).Keeps P A) : (log l level message >>= f).Keeps P A := hf

/-- A quiet activity keeps every invariant. -/
theorem of_quiet {a : Activity α} (h : a.Quiet) : a.Keeps P A := by
  induction a with
  | done _ | overflow _ => trivial
  | look next ih => exact fun v => ih v (h v)
  | read next ih => exact fun d _ => ih d (h d)
  | write d rest _ => exact h.elim
  | tell e rest ih => exact ih h.2
  | fetch r next _ => exact h.elim

end Keeps

/-! ## The service -/

/-- What the service does with its cache. -/
inductive Serves (c : Config) : {α : Type} → Activity α → Prop
  | download (k : Component) : Serves c (Download.component c k)
  | question (q : Question) : Serves c (Question.answer c q)
  | cycle (s : Schedule) (name : String) (draw : Nat) : Serves c (Cycle.refresh c s name draw)
  | tick : Serves c (Cycle.tick c)

/-- An invariant that downloads keep, and that is left when past hours are dropped. -/
structure Kept (c : Config) (P : Cache → Prop) (A : (r : Request) → r.Answer → Prop) : Prop where
  download : ∀ k, (Download.component c k).Keeps P A
  cleanup : ∀ d now e, P d → d.cleanup c.cache now = .ok e → P e

namespace Kept

variable {c : Config}

theorem clean (h : Kept c P A) {rest : Activity α} (hrest : rest.Keeps P A) :
    Keeps P A (do
      .store (← .lift ((← .cached).cleanup c.cache (← .view).now))
      rest) := by
  apply Keeps.cached_bind
  intro d hd
  apply Keeps.view_bind
  intro v
  apply Keeps.lift_bind
  intro e he
  exact Keeps.store_bind (h.cleanup d _ e hd he) hrest

theorem series (h : Kept c P A) (k : Component) : (Query.series c k).Keeps P A := by
  unfold Query.series
  apply Keeps.cached_bind
  intro d hd
  dsimp only
  split
  · apply (h.download k).bind
    intro result
    cases result with
    | error f => exact Keeps.log_bind (Keeps.cached_bind fun _ _ => Keeps.pure _)
    | ok n => exact h.clean (Keeps.cached_bind fun _ _ => Keeps.pure _)
  · exact Keeps.cached_bind fun _ _ => Keeps.pure _

theorem sumFrom (h : Kept c P A) (total : Series) (ks : List Component) :
    (Query.sumFrom c total ks).Keeps P A := by
  induction ks generalizing total with
  | nil => exact Keeps.pure _
  | cons k ks ih =>
    rw [Query.sumFrom]
    apply (h.series k).bind
    intro s
    apply Keeps.lift_bind
    intro total' _
    exact ih total'

theorem sum (h : Kept c P A) (ks : List Component) : (Query.sum c ks).Keeps P A := by
  unfold Query.sum
  split
  · exact Keeps.log_bind (Keeps.pure _)
  · exact h.sumFrom _ ks

theorem sumNamed (h : Kept c P A) (names : String) : (Query.sumNamed c names).Keeps P A := by
  unfold Query.sumNamed
  split
  · exact h.sum _
  · split
    · exact h.sum _
    · exact Keeps.log_bind (Keeps.pure _)

theorem cost (h : Kept c P A) (start stop : Instant) (watts : Decimal) :
    (Query.cost c start stop watts).Keeps P A := by
  unfold Query.cost
  apply (h.sum _).bind
  intro prices
  apply Keeps.lift_bind
  intro amount _
  dsimp only
  split
  · exact Keeps.emit_bind (Keeps.pure _)
  · exact Keeps.pure _

theorem answer (h : Kept c P A) (q : Question) : (Question.answer c q).Keeps P A := by
  cases q with
  | series k => exact (h.series k).bind fun _ => Keeps.pure _
  | sum ks => exact (h.sum ks).bind fun _ => Keeps.pure _
  | sumNamed names => exact (h.sumNamed names).bind fun _ => Keeps.pure _
  | cost start stop watts => exact (h.cost start stop watts).bind fun _ => Keeps.pure _

theorem attempt (h : Kept c P A) (context : LogContext) (k : Component) :
    (Cycle.attempt c context k).Keeps P A := by
  unfold Cycle.attempt
  apply Keeps.view_bind
  intro v
  dsimp only
  split
  · exact Keeps.pure _
  · apply Keeps.cached_bind
    intro d _
    apply Keeps.lift_bind
    intro needed _
    split
    · exact Keeps.log_bind (Keeps.pure _)
    · apply (h.download k).bind
      intro result
      cases result with
      | ok n => exact Keeps.log_bind (Keeps.pure _)
      | error f => exact Keeps.log_bind (Keeps.pure _)

theorem downloads (h : Kept c P A) (context : LogContext) (ks : List Component) :
    (Cycle.downloads c context ks).Keeps P A := by
  induction ks with
  | nil => exact Keeps.pure _
  | cons k ks ih =>
    rw [Cycle.downloads_cons]
    exact (h.attempt context k).bind fun _ => ih.bind fun _ => Keeps.pure _

theorem refresh (h : Kept c P A) (s : Schedule) (name : String) (draw : Nat) :
    (Cycle.refresh c s name draw).Keeps P A := by
  rw [Cycle.refresh_eq]
  apply Keeps.log_bind
  apply Keeps.bind
  · unfold Cycle.download
    split
    · exact Keeps.pure _
    · exact (h.downloads _ _).bind fun _ => Keeps.pure _
  · intro result
    exact h.clean (Keeps.of_quiet (Cycle.conclude_quiet ..))

theorem tick (h : Kept c P A) : (Cycle.tick c).Keeps P A :=
  h.clean (Keeps.of_quiet (Cycle.publishPrices_quiet c))

theorem of_serves (h : Kept c P A) {a : Activity α} (ha : Serves c a) : a.Keeps P A := by
  cases ha with
  | download k => exact h.download k
  | question q => exact h.answer q
  | cycle s name draw => exact h.refresh s name draw
  | tick => exact h.tick

end Kept

end Activity

open Activity

/-- The activities that are under way, and the cache that they share. -/
structure Pool where
  cache : Cache
  tasks : List ((α : Type) × Activity α)

namespace Pool

variable {c : Config} {P : Cache → Prop} {A : (r : Request) → r.Answer → Prop}

/-- What the service can come to from the empty cache, when answers are as expected. Activities begin
at any time, and at any time one of those that are under way takes a step. -/
inductive Reachable (c : Config) (A : (r : Request) → r.Answer → Prop) : Pool → Prop
  | start : Reachable c A ⟨.empty, []⟩
  | begin {d : Cache} {tasks} {α : Type} {a : Activity α} (h : Reachable c A ⟨d, tasks⟩)
      (ha : Serves c a) : Reachable c A ⟨d, ⟨α, a⟩ :: tasks⟩
  | step {d d' : Cache} (front : List ((α : Type) × Activity α)) {back} {α : Type}
      {a a' : Activity α} (h : Reachable c A ⟨d, front ++ ⟨α, a⟩ :: back⟩) (hstep : Step A a d a' d') :
      Reachable c A ⟨d', front ++ ⟨α, a'⟩ :: back⟩

/-- The cache has an invariant, and all activities that are under way keep it. -/
structure Invariant (P : Cache → Prop) (A : (r : Request) → r.Answer → Prop) (σ : Pool) : Prop where
  cache : P σ.cache
  tasks : ∀ t ∈ σ.tasks, t.2.Keeps P A

theorem Reachable.invariant {σ : Pool} (h : Reachable c A σ) (hkept : Kept c P A)
    (hempty : P .empty) : σ.Invariant P A := by
  induction h with
  | start => exact ⟨hempty, fun _ ht => by cases ht⟩
  | begin _ ha ih =>
    refine ⟨ih.cache, ?_⟩
    intro t ht
    obtain rfl | ht := List.mem_cons.1 ht
    · exact hkept.of_serves ha
    · exact ih.tasks t ht
  | step _ _ hstep ih =>
    -- The others keep the invariant as before: what they keep depends on no cache they have seen.
    have htask := ih.tasks _ (List.mem_append_right _ List.mem_cons_self)
    obtain ⟨hcache, hrest⟩ := htask.step ih.cache hstep
    refine ⟨hcache, ?_⟩
    intro t ht
    obtain ht | ht := List.mem_append.1 ht
    · exact ih.tasks t (List.mem_append_left _ ht)
    · obtain rfl | ht := List.mem_cons.1 ht
      · exact hrest
      · exact ih.tasks t (List.mem_append_right _ (List.mem_cons_of_mem _ ht))

/-- An activity may run to its end against a source, while the others wait. -/
theorem Reachable.run {d : Cache} {tasks} {α : Type} {a : Activity α}
    (h : Reachable c A ⟨d, ⟨α, a⟩ :: tasks⟩) {source : Source} (hsource : ∀ r, A r (source r))
    (v : View) : ∃ a', Reachable c A ⟨(run v source a d).cache, ⟨α, a'⟩ :: tasks⟩ := by
  induction a generalizing d with
  | done a => exact ⟨_, h⟩
  | overflow o => exact ⟨_, h⟩
  | look next ih => exact ih v (h.step [] (.look v))
  | read next ih => exact ih d (h.step [] .read)
  | write e rest ih => exact ih (h.step [] .write)
  | tell e rest ih => exact ih (h.step [] .tell)
  | fetch r next ih => exact ih _ (h.step [] (.fetch (source r) (hsource r)))

end Pool

end HourlyPrices
