import HourlyPrices.Proofs.Service.Serving
import HourlyPrices.Service.Loop

/-!
# Activities in turn

Several activities can be under way. One of them runs at a time, until it waits for an answer or
ends (`Activity.Stretch`), and the clock does not go back (`Traffic.Step`). To watch over the series
of one component is to see to it that a property of it lasts: an activity upholds the property when
it leaves it and does not request the component as long as it finds it (`Activity.Upholds`). What is
under way may have begun before the property held; such an activity resumes well when it upholds the
property after each wait for another component (`Activity.Resumes`).
-/

namespace HourlyPrices

/-- A property of the series of a component that lasts with time, as long as the clock is within
some bounds. -/
structure Watch where
  component : Component
  within : Instant → Prop
  holds : Instant → Series → Prop
  convex : ∀ {t u t'}, t ≤ u → u ≤ t' → within t → within t' → within u
  later : ∀ {t t' s}, t ≤ t' → holds t s → holds t' s

namespace Watch

/-- The property holds in a cache. -/
def HoldsIn (w : Watch) (t : Instant) (d : Cache) : Prop := w.holds t (d.get w.component)

/-- An effect requests another component, if any. -/
def Spares (w : Watch) (x : Effect) : Prop := ∀ r, x = .request r → r.component ≠ w.component

variable {w : Watch} {t t' : Instant} {d : Cache} {k : Component}

theorem HoldsIn.later (h : w.HoldsIn t d) (ht : t ≤ t') : w.HoldsIn t' d := w.later ht h

theorem HoldsIn.put (h : w.HoldsIn t d) (hk : k ≠ w.component) (s : Series) :
    w.HoldsIn t (d.put k s) := by
  unfold HoldsIn
  rw [Cache.get_put_of_ne hk.symm]
  exact h

end Watch

namespace Activity

variable {α β : Type} {w : Watch} {t t' : Instant} {d d' : Cache} {es : List Effect} {s : Stage α}

/-- A stretch of an activity, from a reading of the clock and a cache on: what is seen of it, the
last reading of the clock, the cache as it leaves it, and where it stands then. -/
inductive Stretch : Activity α → Instant → Cache → List Effect → Instant → Cache → Stage α → Prop
  | done {a t d} : Stretch (done a) t d [] t d (.ended (.ok a))
  | overflow {o t d} : Stretch (overflow o) t d [] t d (.ended (.error o))
  | look {next t d es t' d' s} (v : View) (hv : t ≤ v.now)
    (h : Stretch (next v) v.now d es t' d' s) : Stretch (look next) t d es t' d' s
  | read {next t d es t' d' s} (h : Stretch (next d) t d es t' d' s) :
    Stretch (read next) t d es t' d' s
  | write {e rest t d es t' d' s} (h : Stretch rest t e es t' d' s) :
    Stretch (write e rest) t d es t' d' s
  | tell {x rest t d es t' d' s} (h : Stretch rest t d es t' d' s) :
    Stretch (tell x rest) t d (x :: es) t' d' s
  | fetch {r next t d} : Stretch (fetch r next) t d [.request r] t d (.waiting r next)

theorem Stretch.le {a : Activity α} (h : Stretch a t d es t' d' s) : t ≤ t' := by
  induction h with
  | done | overflow | fetch => exact Instant.le_refl _
  | look _ hv _ ih => exact Instant.le_trans hv ih
  | read _ ih | write _ ih | tell _ ih => exact ih

/-- What an activity does while the clock stands still is a stretch. -/
theorem stretch_advance (a : Activity α) (v : View) (d : Cache) :
    Stretch a v.now d (advance v a d).1 v.now (advance v a d).2.1 (advance v a d).2.2 := by
  induction a generalizing d with
  | done a => exact .done
  | overflow o => exact .overflow
  | look next ih => exact .look v (Instant.le_refl _) (ih v d)
  | read next ih => exact .read (ih d d)
  | write e rest ih => exact .write (ih e)
  | tell x rest ih => exact .tell (ih d)
  | fetch r next _ => exact .fetch

/-! ## What is upheld -/

/-- An activity upholds a property, from a reading of the clock and a cache on: it ends and waits
with it, does not request its component, and goes on like this after each wait through which the
property has lasted. -/
def Upholds (w : Watch) : Activity α → Instant → Cache → Prop
  | done _, t, d => w.HoldsIn t d
  | overflow _, t, d => w.HoldsIn t d
  | look next, t, d => ∀ v, t ≤ v.now → w.within v.now → (next v).Upholds w v.now d
  | read next, t, d => (next d).Upholds w t d
  | write e rest, t, _ => rest.Upholds w t e
  | tell x rest, t, d => w.Spares x ∧ rest.Upholds w t d
  | fetch r next, t, d => r.component ≠ w.component ∧ w.HoldsIn t d ∧
    ∀ answer t d, w.within t → w.HoldsIn t d → (next answer).Upholds w t d

/-- After each wait for another component an activity upholds a property that holds then. -/
def Resumes (w : Watch) : Activity α → Prop
  | done _ => True
  | overflow _ => True
  | look next => ∀ v, (next v).Resumes w
  | read next => ∀ d, (next d).Resumes w
  | write _ rest => rest.Resumes w
  | tell _ rest => rest.Resumes w
  | fetch r next =>
    (r.component ≠ w.component → ∀ answer t d, w.within t → w.HoldsIn t d →
      (next answer).Upholds w t d) ∧
    ∀ answer, (next answer).Resumes w

/-- However it goes on, a property that holds then is upheld. -/
def Sustains (w : Watch) (f : β → Activity α) : Prop :=
  ∀ x t d, w.within t → w.HoldsIn t d → (f x).Upholds w t d

/-- An activity upholds a property that holds when it begins, and resumes well in any case. -/
structure Minds (w : Watch) (a : Activity α) : Prop where
  upholds : ∀ t d, w.within t → w.HoldsIn t d → a.Upholds w t d
  resumes : a.Resumes w

theorem Upholds.bind {a : Activity α} {f : α → Activity β} (h : a.Upholds w t d)
    (ht : w.within t) (hf : Sustains w f) : (a >>= f).Upholds w t d := by
  change (a.bind f).Upholds w t d
  induction a generalizing t d with
  | done x => exact hf x t d ht h
  | overflow o => exact h
  | look next ih => exact fun v hv hw => ih v (h v hv hw) hw
  | read next ih => exact ih d h ht
  | write e rest ih => exact ih h ht
  | tell x rest ih => exact ⟨h.1, ih h.2 ht⟩
  | fetch r next ih =>
    exact ⟨h.1, h.2.1, fun answer t d hw hd => ih answer (h.2.2 answer t d hw hd) hw⟩

theorem Upholds.of_quiet {a : Activity α} (h : a.Quiet) (hd : w.HoldsIn t d) :
    a.Upholds w t d := by
  induction a generalizing t with
  | done _ | overflow _ => exact hd
  | look next ih => exact fun v hv _ => ih v (h v) (hd.later hv)
  | read next ih => exact ih d (h d) hd
  | write e rest _ => exact h.elim
  | tell x rest ih => exact ⟨fun r hr => absurd hr (h.1 r), ih h.2 hd⟩
  | fetch r next _ => exact h.elim

theorem Resumes.bind {a : Activity α} {f : α → Activity β} (h : a.Resumes w)
    (hf : ∀ x, (f x).Minds w) : (a >>= f).Resumes w := by
  change (a.bind f).Resumes w
  induction a with
  | done x => exact (hf x).resumes
  | overflow o => trivial
  | look next ih => exact fun v => ih v (h v)
  | read next ih => exact fun d => ih d (h d)
  | write e rest ih => exact ih h
  | tell x rest ih => exact ih h
  | fetch r next ih =>
    refine ⟨fun hr answer t d hw hd => ?_, fun answer => ih answer (h.2 answer)⟩
    exact (h.1 hr answer t d hw hd).bind hw fun x => (hf x).upholds

theorem Resumes.of_quiet {a : Activity α} (h : a.Quiet) : a.Resumes w := by
  induction a with
  | done _ | overflow _ => trivial
  | look next ih => exact fun v => ih v (h v)
  | read next ih => exact fun d => ih d (h d)
  | write e rest _ => exact h.elim
  | tell x rest ih => exact ih h.2
  | fetch r next _ => exact h.elim

namespace Minds

theorem bind {a : Activity α} {f : α → Activity β} (h : a.Minds w) (hf : ∀ x, (f x).Minds w) :
    (a >>= f).Minds w where
  upholds t d hw hd := (h.upholds t d hw hd).bind hw fun x => (hf x).upholds
  resumes := h.resumes.bind hf

theorem of_quiet {a : Activity α} (h : a.Quiet) : a.Minds w where
  upholds _ _ _ hd := .of_quiet h hd
  resumes := .of_quiet h

theorem pure (x : α) : (Pure.pure x : Activity α).Minds w := of_quiet (.pure x)

theorem view_bind {f : View → Activity α} (hf : ∀ v, (f v).Minds w) : (view >>= f).Minds w where
  upholds _ d _ hd v hv hw := (hf v).upholds v.now d hw (hd.later hv)
  resumes v := (hf v).resumes

theorem cached_bind {f : Cache → Activity α} (hf : ∀ d, (f d).Minds w) :
    (cached >>= f).Minds w where
  upholds t d hw hd := (hf d).upholds t d hw hd
  resumes d := (hf d).resumes

theorem ask_bind {r : Request} {f : r.Answer → Activity α} (hr : r.component ≠ w.component)
    (hf : ∀ answer, (f answer).Minds w) : (ask r >>= f).Minds w where
  upholds _ _ _ hd := ⟨hr, hd, fun answer => (hf answer).upholds⟩
  resumes := ⟨fun _ answer => (hf answer).upholds, fun answer => (hf answer).resumes⟩

theorem lift_bind {x : Except Overflow β} {f : β → Activity α} (hf : ∀ b, (f b).Minds w) :
    (lift x >>= f).Minds w := (of_quiet (.lift x)).bind hf

theorem log_bind {l : LogContext} {level : LogLevel} {message : String} {f : Unit → Activity α}
    (hf : (f ()).Minds w) : (log l level message >>= f).Minds w :=
  (of_quiet (.log ..)).bind fun _ => hf

end Minds

/-! ## Stretches -/

variable {r : Request} {next : r.Answer → Activity α}

/-- In a stretch an activity upholds a property to its end, and requests other components only. -/
theorem Upholds.stretch {a : Activity α} (h : a.Upholds w t d) (hs : Stretch a t d es t' d' s)
    (ht : w.within t) (ht' : w.within t') : w.HoldsIn t' d' ∧ ∀ x ∈ es, w.Spares x := by
  induction hs with
  | done | overflow => exact ⟨h, fun _ hx => by cases hx⟩
  | look v hv hs ih =>
    have hw := w.convex hv hs.le ht ht'
    exact ih (h v hv hw) hw ht'
  | read _ ih => exact ih h ht ht'
  | write _ ih => exact ih h ht ht'
  | tell _ ih =>
    obtain ⟨hd, hes⟩ := ih h.2 ht ht'
    exact ⟨hd, List.forall_mem_cons.2 ⟨h.1, hes⟩⟩
  | fetch =>
    refine ⟨h.2.1, List.forall_mem_singleton.2 fun r hr => ?_⟩
    cases hr
    exact h.1

/-- When the stretch ends with a wait, the activity upholds the property afterwards. -/
theorem Upholds.waiting {a : Activity α} (h : a.Upholds w t d)
    (hs : Stretch a t d es t' d' (.waiting r next)) (ht : w.within t) (ht' : w.within t') :
    r.component ≠ w.component ∧ Sustains w next := by
  generalize hstage : Stage.waiting r next = s at hs
  induction hs with
  | done | overflow => cases hstage
  | look v hv hs ih =>
    have hw := w.convex hv hs.le ht ht'
    exact ih (h v hv hw) hw ht' hstage
  | read _ ih => exact ih h ht ht' hstage
  | write _ ih => exact ih h ht ht' hstage
  | tell _ ih => exact ih h.2 ht ht' hstage
  | fetch =>
    cases hstage
    exact ⟨h.1, h.2.2⟩

theorem Resumes.waiting {a : Activity α} (h : a.Resumes w)
    (hs : Stretch a t d es t' d' (.waiting r next)) :
    (r.component ≠ w.component → Sustains w next) ∧ ∀ answer, (next answer).Resumes w := by
  generalize hstage : Stage.waiting r next = s at hs
  induction hs with
  | done | overflow => cases hstage
  | look v _ _ ih => exact ih (h v) hstage
  | @read _ _ d _ _ _ _ _ ih => exact ih (h d) hstage
  | write _ ih => exact ih h hstage
  | tell _ ih => exact ih h hstage
  | fetch =>
    cases hstage
    exact h

end Activity

open Activity

/-! ## Traffic -/

/-- An errand that waits for an answer. -/
structure Pending where
  request : Request
  next : request.Answer → Activity Errand.Result

/-- What is left to wait for after a stretch. -/
def Activity.Stage.pending : Stage Errand.Result → List Pending
  | .ended _ => []
  | .waiting r next => [⟨r, next⟩]

namespace Activity

variable {w : Watch} {t t' : Instant} {d d' : Cache} {es : List Effect} {s : Stage Errand.Result}
  {a : Activity Errand.Result}

theorem Upholds.pending (h : a.Upholds w t d) (hs : Stretch a t d es t' d' s) (ht : w.within t)
    (ht' : w.within t') :
    ∀ p ∈ s.pending, p.request.component ≠ w.component ∧ Sustains w p.next := by
  cases s with
  | ended _ => exact List.forall_mem_nil _
  | waiting r next => exact List.forall_mem_singleton.2 (h.waiting hs ht ht')

theorem Resumes.pending (h : a.Resumes w) (hs : Stretch a t d es t' d' s) :
    ∀ p ∈ s.pending, (p.request.component ≠ w.component → Sustains w p.next) ∧
      ∀ answer, (p.next answer).Resumes w := by
  cases s with
  | ended _ => exact List.forall_mem_nil _
  | waiting r next => exact List.forall_mem_singleton.2 (h.waiting hs)

end Activity

/-- The errands that are under way, the cache that they share, and the clock. -/
structure Traffic where
  now : Instant
  cache : Cache
  waiting : List Pending

namespace Traffic

variable {c : Config} {w : Watch} {σ σ' : Traffic} {es : List Effect}

/-- What can happen, and what is seen of it: time passes, an errand begins, one gets its answer and
goes on, or it is given up while it waits. -/
inductive Step (c : Config) : Traffic → List Effect → Traffic → Prop
  | wait {σ t} (h : σ.now ≤ t) : Step c σ [] { σ with now := t }
  | begin {σ es t d s} (x : Errand) (schedule : Schedule)
    (h : Stretch (x.activity c schedule) σ.now σ.cache es t d s) :
    Step c σ es ⟨t, d, s.pending ++ σ.waiting⟩
  | resume {now d es t d' s} (front : List Pending) {p : Pending} {back : List Pending}
    (answer : p.request.Answer) (h : Stretch (p.next answer) now d es t d' s) :
    Step c ⟨now, d, front ++ p :: back⟩ es ⟨t, d', front ++ s.pending ++ back⟩
  | giveUp {now d} (front : List Pending) {p : Pending} {back : List Pending} :
    Step c ⟨now, d, front ++ p :: back⟩ [] ⟨now, d, front ++ back⟩

/-- What can come of some steps, and what is seen of them. -/
inductive Reaches (c : Config) (σ : Traffic) : List Effect → Traffic → Prop
  | refl : Reaches c σ [] σ
  | step {es σ' es' σ''} (h : Reaches c σ es σ') (hs : Step c σ' es' σ'') :
    Reaches c σ (es ++ es') σ''

/-- The errand that waits first gets its answer, and the clock stands still. -/
theorem Step.resume_head (h : σ.waiting ≠ []) (v : View) (hv : v.now = σ.now)
    (answer : (σ.waiting.head h).request.Answer) :
    let p := advance v ((σ.waiting.head h).next answer) σ.cache
    Step c σ p.1 ⟨σ.now, p.2.1, p.2.2.pending ++ σ.waiting.tail⟩ := by
  obtain ⟨now, d, waiting⟩ := σ
  obtain rfl : v.now = now := hv
  cases waiting with
  | nil => exact absurd rfl h
  | cons p back => exact .resume [] answer (stretch_advance _ v d)

/-- A step leaves the cache alone, or is a stretch of an errand that begins or goes on. -/
theorem Step.cases (h : Step c σ es σ') :
    (es = [] ∧ σ'.cache = σ.cache ∧ σ'.waiting ⊆ σ.waiting) ∨
    ∃ (a : Activity Errand.Result) (s : Stage Errand.Result),
      ((∃ (x : Errand) (schedule : Schedule), a = x.activity c schedule) ∨
        ∃ p ∈ σ.waiting, ∃ answer, a = p.next answer) ∧
      Stretch a σ.now σ.cache es σ'.now σ'.cache s ∧ σ'.waiting ⊆ s.pending ++ σ.waiting := by
  cases h with
  | wait _ => exact .inl ⟨rfl, rfl, fun _ => id⟩
  | begin x schedule hs => exact .inr ⟨_, _, .inl ⟨x, schedule, rfl⟩, hs, fun _ => id⟩
  | resume front answer hs =>
    refine .inr ⟨_, _, .inr ⟨_, List.mem_append_right _ List.mem_cons_self, answer, rfl⟩, hs, ?_⟩
    intro q hq
    simp only [List.mem_append, List.mem_cons] at hq ⊢
    tauto
  | giveUp front =>
    refine .inl ⟨rfl, rfl, fun q hq => ?_⟩
    simp only [List.mem_append, List.mem_cons] at hq ⊢
    tauto

theorem Step.le (h : Step c σ es σ') : σ.now ≤ σ'.now := by
  cases h with
  | wait h => exact h
  | begin _ _ h => exact h.le
  | resume _ _ h => exact h.le
  | giveUp _ => exact Instant.le_refl _

theorem Reaches.le (h : Reaches c σ es σ') : σ.now ≤ σ'.now := by
  induction h with
  | refl => exact Instant.le_refl _
  | step _ hs ih => exact Instant.le_trans ih hs.le

/-- Whatever waits resumes well. -/
def Resumable (w : Watch) (σ : Traffic) : Prop :=
  ∀ p ∈ σ.waiting, (p.request.component ≠ w.component → Sustains w p.next) ∧
    ∀ answer, (p.next answer).Resumes w

/-- A property holds, and whatever waits upholds it. -/
structure Upheld (w : Watch) (σ : Traffic) : Prop where
  holds : w.HoldsIn σ.now σ.cache
  waiting : ∀ p ∈ σ.waiting, p.request.component ≠ w.component ∧ Sustains w p.next

/-- All errands mind a property. -/
def Minded (c : Config) (w : Watch) : Prop :=
  ∀ (x : Errand) (s : Schedule), (x.activity c s).Minds w

theorem Resumable.step (h : σ.Resumable w) (hc : Minded c w) (hs : Step c σ es σ') :
    σ'.Resumable w := by
  obtain ⟨-, -, hsub⟩ | ⟨a, s, ha, hs, hsub⟩ := hs.cases
  · exact fun p hp => h p (hsub hp)
  · have hresumes : a.Resumes w := by
      obtain ⟨x, schedule, rfl⟩ | ⟨p, hp, answer, rfl⟩ := ha
      · exact (hc x schedule).resumes
      · exact (h p hp).2 answer
    intro p hp
    obtain hp | hp := List.mem_append.1 (hsub hp)
    · exact hresumes.pending hs p hp
    · exact h p hp

theorem Upheld.step (h : σ.Upheld w) (hc : Minded c w) (hs : Step c σ es σ')
    (ht : w.within σ.now) (ht' : w.within σ'.now) : σ'.Upheld w ∧ ∀ x ∈ es, w.Spares x := by
  obtain ⟨rfl, hcache, hsub⟩ | ⟨a, s, ha, hstretch, hsub⟩ := hs.cases
  · exact ⟨⟨hcache ▸ h.holds.later hs.le, fun p hp => h.waiting p (hsub hp)⟩,
      fun _ hx => by cases hx⟩
  · have hup : a.Upholds w σ.now σ.cache := by
      obtain ⟨x, schedule, rfl⟩ | ⟨p, hp, answer, rfl⟩ := ha
      · exact (hc x schedule).upholds _ _ ht h.holds
      · exact (h.waiting p hp).2 answer _ _ ht h.holds
    obtain ⟨hholds, hes⟩ := hup.stretch hstretch ht ht'
    refine ⟨⟨hholds, fun p hp => ?_⟩, hes⟩
    obtain hp | hp := List.mem_append.1 (hsub hp)
    · exact hup.pending hstretch ht ht' p hp
    · exact h.waiting p hp

theorem Reaches.resumable (h : Reaches c σ es σ') (hc : Minded c w) (hσ : σ.Resumable w) :
    σ'.Resumable w := by
  induction h with
  | refl => exact hσ
  | step _ hs ih => exact ih.step hc hs

/-- A property that holds lasts as long as the clock is within its bounds, and its component is not
requested meanwhile. -/
theorem Reaches.upheld (h : Reaches c σ es σ') (hc : Minded c w) (hσ : σ.Upheld w)
    (ht : w.within σ.now) (ht' : w.within σ'.now) : σ'.Upheld w ∧ ∀ x ∈ es, w.Spares x := by
  induction h with
  | refl => exact ⟨hσ, fun _ hx => by cases hx⟩
  | step h hs ih =>
    have hw := w.convex h.le hs.le ht ht'
    obtain ⟨hup, hes⟩ := ih hw
    obtain ⟨hup', hes'⟩ := hup.step hc hs hw ht'
    exact ⟨hup', List.forall_mem_append.2 ⟨hes, hes'⟩⟩

end Traffic

end HourlyPrices
