import HourlyPrices.Proofs.Service.Run
import Mathlib.Data.List.Forall2

/-!
# Activities side by side

While an activity runs the clock moves on, and each request may find the source in another state.
`Activity.play` runs an activity against such an `Outside`, and keeps with each effect what had been
seen last and what was in the cache when it came about. Two activities go side by side
(`Activity.Abreast`) when each look, request and effect of one has its counterpart in the other;
then they do so wherever they are (`Abreast.play`).
-/

namespace HourlyPrices

/-- What an activity meets: what it sees each time it looks, and the source that answers each of its
requests. -/
structure Outside where
  view : Nat → View
  source : Nat → Source

namespace Outside

/-- What is left after a look. -/
def looked (w : Outside) : Outside := { w with view := fun n => w.view (n + 1) }

/-- What is left after a request. -/
def answered (w : Outside) : Outside := { w with source := fun n => w.source (n + 1) }

/-- Nothing changes. -/
def still (v : View) (source : Source) : Outside := ⟨fun _ => v, fun _ => source⟩

end Outside

/-- An effect, with what had been seen last and the cache when it came about. -/
structure Sight where
  view : View
  cache : Cache
  effect : Effect

namespace Activity

variable {α β γ : Type}

/-- What comes of an activity. -/
structure Performance (α : Type) where
  sights : List Sight
  cache : Cache
  value : Except Overflow α

/-- Puts a sight before a performance. -/
def Performance.after (s : Sight) (p : Performance α) : Performance α :=
  { p with sights := s :: p.sights }

/-- What is left of a performance without what was seen on the way. -/
def Performance.outcome (p : Performance α) : Outcome α := ⟨p.sights.map (·.effect), p.cache, p.value⟩

/-- Runs an activity, where `v` has been seen last. -/
def play : Outside → View → Activity α → Cache → Performance α
  | _, _, done a, d => ⟨[], d, .ok a⟩
  | _, _, overflow o, d => ⟨[], d, .error o⟩
  | w, _, look next, d => play w.looked (w.view 0) (next (w.view 0)) d
  | w, v, read next, d => play w v (next d) d
  | w, v, write e rest, _ => play w v rest e
  | w, v, tell x rest, d => (play w v rest d).after ⟨v, d, x⟩
  | w, v, fetch r next, d =>
    (play w.answered v (next (w.source 0 r)) d).after ⟨v, d, .request r⟩

/-- Where nothing changes an activity does what it does against a source that answers at once. -/
theorem outcome_play_still (v : View) (source : Source) (a : Activity α) (d : Cache) :
    (play (.still v source) v a d).outcome = run v source a d := by
  induction a generalizing d with
  | done a => rfl
  | overflow o => rfl
  | look next ih => exact ih v d
  | read next ih => exact ih d d
  | write e rest ih => exact ih e
  | tell x rest ih => exact congrArg (Outcome.after x) (ih d)
  | fetch r next ih => exact congrArg (Outcome.after (.request r)) (ih (source r) d)

/-! ## What is shown -/

/-- All effects of an activity have a property, whatever it sees and is answered. -/
def Emits (P : Effect → Prop) : Activity α → Prop
  | done _ => True
  | overflow _ => True
  | look next => ∀ v, (next v).Emits P
  | read next => ∀ d, (next d).Emits P
  | write _ rest => rest.Emits P
  | tell x rest => P x ∧ rest.Emits P
  | fetch r next => P (.request r) ∧ ∀ answer, (next answer).Emits P

namespace Emits

variable {P : Effect → Prop} {a : Activity α} {f : α → Activity β}

theorem of_forall (h : ∀ x, P x) (a : Activity α) : a.Emits P := by
  induction a with
  | done _ | overflow _ => trivial
  | look next ih => exact ih
  | read next ih => exact ih
  | write e rest ih => exact ih
  | tell x rest ih => exact ⟨h x, ih⟩
  | fetch r next ih => exact ⟨h _, ih⟩

theorem mono {Q : Effect → Prop} (h : a.Emits P) (hPQ : ∀ x, P x → Q x) : a.Emits Q := by
  induction a with
  | done _ | overflow _ => trivial
  | look next ih => exact fun v => ih v (h v)
  | read next ih => exact fun d => ih d (h d)
  | write e rest ih => exact ih h
  | tell x rest ih => exact ⟨hPQ x h.1, ih h.2⟩
  | fetch r next ih => exact ⟨hPQ _ h.1, fun answer => ih answer (h.2 answer)⟩

theorem bind (h : a.Emits P) (hf : ∀ x, (f x).Emits P) : (a >>= f).Emits P := by
  change (a.bind f).Emits P
  induction a with
  | done x => exact hf x
  | overflow _ => trivial
  | look next ih => exact fun v => ih v (h v)
  | read next ih => exact fun d => ih d (h d)
  | write e rest ih => exact ih h
  | tell x rest ih => exact ⟨h.1, ih h.2⟩
  | fetch r next ih => exact ⟨h.1, fun answer => ih answer (h.2 answer)⟩

theorem pure (x : α) : (Pure.pure x : Activity α).Emits P := trivial

theorem view_bind {f : View → Activity α} (hf : ∀ v, (f v).Emits P) : (view >>= f).Emits P := hf

theorem cached_bind {f : Cache → Activity α} (hf : ∀ d, (f d).Emits P) :
    (cached >>= f).Emits P := hf

theorem store_bind {d : Cache} {f : Unit → Activity α} (hf : (f ()).Emits P) :
    (store d >>= f).Emits P := hf

theorem emit_bind {x : Effect} {f : Unit → Activity α} (hx : P x) (hf : (f ()).Emits P) :
    (emit x >>= f).Emits P := ⟨hx, hf⟩

theorem log_bind {l : LogContext} {level : LogLevel} {message : String} {f : Unit → Activity α}
    (hx : P (.log (l.event level message))) (hf : (f ()).Emits P) :
    (log l level message >>= f).Emits P := ⟨hx, hf⟩

theorem ask_bind {r : Request} {f : r.Answer → Activity α} (hr : P (.request r))
    (hf : ∀ answer, (f answer).Emits P) : (ask r >>= f).Emits P := ⟨hr, hf⟩

theorem lift_bind {x : Except Overflow α} (hf : ∀ z, (f z).Emits P) :
    (lift x >>= f).Emits P := by
  cases x with
  | ok z => exact hf z
  | error o => trivial

end Emits

/-! ## Side by side -/

/-- What two activities that go side by side may do. -/
structure Pairing where
  /-- Which view may be seen after which. -/
  follows : View → View → Prop
  /-- Which effects correspond, given what was seen last and both caches. -/
  shows : View → Cache → Cache → Effect → Effect → Prop
  /-- Whether one of the two may overflow alone. -/
  breaks : Prop

/-- Two activities that, from a view and a cache of each on, go side by side until they end with
values in a given relation. -/
inductive Abreast (p : Pairing) (Q : View → Cache → Cache → α → β → Prop) :
    View → Activity α → Cache → Activity β → Cache → Prop
  | done {v a d b e} (h : Q v d e a b) : Abreast p Q v (done a) d (done b) e
  | overflow {v o d} : Abreast p Q v (overflow o) d (overflow o) d
  | left {v o d b e} (h : p.breaks) : Abreast p Q v (overflow o) d b e
  | right {v a d o e} (h : p.breaks) : Abreast p Q v a d (overflow o) e
  | look {v f d g e} (h : ∀ w, p.follows v w → Abreast p Q w (f w) d (g w) e) :
    Abreast p Q v (look f) d (look g) e
  | read {v f d g e} (h : Abreast p Q v (f d) d (g e) e) : Abreast p Q v (read f) d (read g) e
  | write {v a d d' b e e'} (h : Abreast p Q v a d' b e') :
    Abreast p Q v (write d' a) d (write e' b) e
  | tell {v x a d y b e} (hshows : p.shows v d e x y) (h : Abreast p Q v a d b e) :
    Abreast p Q v (tell x a) d (tell y b) e
  | fetch {v r f d g e} (hshows : p.shows v d e (.request r) (.request r))
    (h : ∀ answer, Abreast p Q v (f answer) d (g answer) e) :
    Abreast p Q v (fetch r f) d (fetch r g) e

namespace Pairing

variable (p : Pairing)

/-- The views may follow one upon the other, from a given one on. -/
structure Admits (v : View) (w : Outside) : Prop where
  first : p.follows v (w.view 0)
  next : ∀ n, p.follows (w.view n) (w.view (n + 1))

/-- Two sights correspond. -/
def Matches (s s' : Sight) : Prop :=
  s.view = s'.view ∧ p.shows s.view s.cache s'.cache s.effect s'.effect

/-- Two performances correspond. -/
inductive Agree (Q : View → Cache → Cache → α → β → Prop) : Performance α → Performance β → Prop
  | ended {ss ss' v d e a b} (hs : List.Forall₂ p.Matches ss ss') (h : Q v d e a b) :
    Agree Q ⟨ss, d, .ok a⟩ ⟨ss', e, .ok b⟩
  | overflow {ss ss' d o} (hs : List.Forall₂ p.Matches ss ss') :
    Agree Q ⟨ss, d, .error o⟩ ⟨ss', d, .error o⟩
  | left {x y o} (h : p.breaks) (hx : x.value = .error o) : Agree Q x y
  | right {x y o} (h : p.breaks) (hy : y.value = .error o) : Agree Q x y

variable {p} {Q : View → Cache → Cache → α → β → Prop}

theorem Admits.looked {v : View} {w : Outside} (h : p.Admits v w) :
    p.Admits (w.view 0) w.looked := ⟨h.next 0, fun n => h.next (n + 1)⟩

theorem Admits.answered {v : View} {w : Outside} (h : p.Admits v w) : p.Admits v w.answered :=
  ⟨h.first, h.next⟩

theorem Agree.after {s s' : Sight} {x : Performance α} {y : Performance β} (hs : p.Matches s s')
    (h : p.Agree Q x y) : p.Agree Q (x.after s) (y.after s') := by
  cases h with
  | ended hss h => exact .ended (.cons hs hss) h
  | overflow hss => exact .overflow (.cons hs hss)
  | left h hx => exact .left h hx
  | right h hy => exact .right h hy

end Pairing

namespace Abreast

variable {p : Pairing} {Q : View → Cache → Cache → α → β → Prop} {v : View} {d e : Cache}
  {a : Activity α} {b : Activity β}

/-- Activities that go side by side do so wherever the views may follow one another. -/
theorem play (h : Abreast p Q v a d b e) {w : Outside} (hw : p.Admits v w) :
    p.Agree Q (play w v a d) (play w v b e) := by
  induction h generalizing w with
  | done h => exact .ended .nil h
  | overflow => exact .overflow .nil
  | left h => exact .left h rfl
  | right h => exact .right h rfl
  | look _ ih => exact ih _ hw.first hw.looked
  | read _ ih => exact ih hw
  | write _ ih => exact ih hw
  | tell hshows _ ih => exact (ih hw).after ⟨rfl, hshows⟩
  | fetch hshows _ ih => exact (ih _ hw.answered).after ⟨rfl, hshows⟩

/-- Parts in sequence go side by side when the first do, and then the second from wherever the first
may end. -/
theorem bind {γ δ : Type} {R : View → Cache → Cache → γ → δ → Prop} {f : α → Activity γ}
    {g : β → Activity δ} (h : Abreast p Q v a d b e)
    (hfg : ∀ v d e x y, Q v d e x y → Abreast p R v (f x) d (g y) e) :
    Abreast p R v (a >>= f) d (b >>= g) e := by
  change Abreast p R v (a.bind f) d (b.bind g) e
  induction h with
  | done h => exact hfg _ _ _ _ _ h
  | overflow => exact .overflow
  | left h => exact .left h
  | right h => exact .right h
  | look _ ih => exact .look ih
  | read _ ih => exact .read ih
  | write _ ih => exact .write ih
  | tell hshows _ ih => exact .tell hshows ih
  | fetch hshows _ ih => exact .fetch hshows ih

/-- An activity goes side by side with itself, from the same cache, if its effects correspond to
themselves. -/
theorem refl {P : Effect → Prop} (ha : a.Emits P) (hshows : ∀ v d x, P x → p.shows v d d x x)
    (v : View) (d : Cache) : Abreast p (fun _ d e x y => d = e ∧ x = y) v a d a d := by
  induction a generalizing v d with
  | done a => exact .done ⟨rfl, rfl⟩
  | overflow o => exact .overflow
  | look next ih => exact .look fun w _ => ih w (ha w) w d
  | read next ih => exact .read (ih d (ha d) v d)
  | write e rest ih => exact .write (ih ha v e)
  | tell x rest ih => exact .tell (hshows v d x ha.1) (ih ha.2 v d)
  | fetch r next ih => exact .fetch (hshows v d _ ha.1) fun answer => ih answer (ha.2 answer) v d

/-! ## Parts in sequence -/

variable {f : γ → Activity α} {g : γ → Activity β}

theorem view_bind {f : View → Activity α} {g : View → Activity β}
    (h : ∀ w, p.follows v w → Abreast p Q w (f w) d (g w) e) :
    Abreast p Q v (view >>= f) d (view >>= g) e := .look h

theorem cached_bind {f : Cache → Activity α} {g : Cache → Activity β}
    (h : Abreast p Q v (f d) d (g e) e) : Abreast p Q v (cached >>= f) d (cached >>= g) e := .read h

theorem store_bind {d' e' : Cache} {f : Unit → Activity α} {g : Unit → Activity β}
    (h : Abreast p Q v (f ()) d' (g ()) e') :
    Abreast p Q v (store d' >>= f) d (store e' >>= g) e := .write h

theorem emit_bind {x y : Effect} {f : Unit → Activity α} {g : Unit → Activity β}
    (hshows : p.shows v d e x y) (h : Abreast p Q v (f ()) d (g ()) e) :
    Abreast p Q v (emit x >>= f) d (emit y >>= g) e := .tell hshows h

theorem log_bind {l : LogContext} {level : LogLevel} {message : String} {f : Unit → Activity α}
    {g : Unit → Activity β}
    (hshows : p.shows v d e (.log (l.event level message)) (.log (l.event level message)))
    (h : Abreast p Q v (f ()) d (g ()) e) :
    Abreast p Q v (log l level message >>= f) d (log l level message >>= g) e := .tell hshows h

theorem ask_bind {r : Request} {f : r.Answer → Activity α} {g : r.Answer → Activity β}
    (hshows : p.shows v d e (.request r) (.request r))
    (h : ∀ answer, Abreast p Q v (f answer) d (g answer) e) :
    Abreast p Q v (ask r >>= f) d (ask r >>= g) e := .fetch hshows h

theorem lift_bind {x y : Except Overflow γ} {z : γ} (hx : x = .ok z) (hy : y = .ok z)
    (h : Abreast p Q v (f z) d (g z) e) : Abreast p Q v (lift x >>= f) d (lift y >>= g) e := by
  subst hx hy
  exact h

end Abreast

end Activity

end HourlyPrices
