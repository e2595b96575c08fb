import HourlyPrices.Proofs.Cache.Coverage
import HourlyPrices.Proofs.Service.Unpublished

/-!
# Value added tax

Value added tax is part of the current values that are published, and of nothing else. So two
services that differ in their settings of it alone go side by side: they make the same requests,
keep the same series, come to the same outcomes and give the same answers, and show the same but for
those values (`serve_vat`).
-/

namespace HourlyPrices

open Activity

variable {α : Type} {c : Config} {t t' : VatSettings} {v : View} {d : Cache}

/-- A value as it is published: the one that is cached, once with value added tax if it is to be
included. -/
def VatSettings.Applied (t : VatSettings) (k : Component) : Option Decimal → Option Decimal → Prop
  | none, x => x = none
  | some p, x =>
    if k ∈ t.includeVat then ∃ q, p.mul? (vatFactor t.country) = some q ∧ x = some q
    else x = some p

/-- An effect other than the publication of a current value. -/
def Effect.Plain (x : Effect) : Prop := ∀ k y, x ≠ .publication (.currentValue k y)

/-- Effects with the settings `t` and `t'`: current values are published with either, and all else
is the same. -/
inductive VatSettings.Shows (t t' : VatSettings) (v : View) (d : Cache) : Effect → Effect → Prop
  | current {k x x'} (hx : t.Applied k (d.valueAt? k v.now) x)
    (hx' : t'.Applied k (d.valueAt? k v.now) x') :
    Shows t t' v d (.publication (.currentValue k x)) (.publication (.currentValue k x'))
  | plain {x} (h : x.Plain) : Shows t t' v d x x

/-- What is seen with the settings `t` and `t'` at the same point of two runs. -/
structure VatSettings.Corresponds (t t' : VatSettings) (s s' : Sight) : Prop where
  view : s.view = s'.view
  cache : s.cache = s'.cache
  effect : t.Shows t' s.view s.cache s.effect s'.effect

theorem Config.applied_of_currentValue {k : Component} {now : Instant} {x : Option Decimal}
    (h : c.currentValue d k now = .ok x) : c.vat.Applied k (d.valueAt? k now) x := by
  unfold currentValue at h
  cases hvalue : d.valueAt? k now with
  | none =>
    rw [hvalue] at h
    exact (Except.ok.inj h).symm
  | some p =>
    rw [hvalue] at h
    simp only [VatSettings.Applied] at h ⊢
    split at h
    · rename_i hk
      rw [if_pos hk]
      cases hq : p.mul? (vatFactor c.vat.country) with
      | none =>
        rw [hq] at h
        cases h
      | some q =>
        rw [hq] at h
        exact ⟨q, rfl, (Except.ok.inj h).symm⟩
    · rename_i hk
      rw [if_neg hk]
      exact (Except.ok.inj h).symm

/-! ## Parts that publish no current value -/

namespace Effect

theorem plain_log (e : LogEvent) : (log e).Plain := nofun

theorem plain_status (s : ServiceStatus) : (publication (.status s)).Plain := nofun

end Effect

open Effect

/-- An activity that publishes nothing publishes no current value. -/
theorem Activity.Emits.plain {a : Activity α} (h : a.Emits Unpublished) : a.Emits Plain :=
  h.mono fun _ hx k y => hx (.currentValue k y)

namespace Cycle

theorem emits_publishProperties (ps : List (String × String)) :
    (publishProperties ps).Emits Plain := by
  induction ps with
  | nil => exact .pure _
  | cons p ps ih => exact Emits.emit_bind nofun ih

theorem emits_plan (c : Config) (s : Schedule) (context : LogContext) (draw : Nat)
    (result : Except Fault Unit) (v : View) (d : Cache) :
    (plan c s context draw result v d).Emits Plain := by
  apply Emits.lift_bind
  intro next
  apply (emits_publishProperties _).bind
  intro _
  exact Emits.log_bind (plain_log _) (.pure _)

end Cycle

/-! ## Side by side -/

/-- The configuration with other settings of value added tax. -/
def Config.withVat (c : Config) (t : VatSettings) : Config := { c with vat := t }

/-- Two activities that come to the same, and show the same but for current values. -/
def VatSettings.pairing (t t' : VatSettings) : Pairing where
  follows _ _ := True
  shows v d e x y := d = e ∧ t.Shows t' v d x y
  breaks := True

/-- Two activities have come to the same, with the same cache. -/
def Activity.Same (_ : View) (d e : Cache) (x y : α) : Prop := d = e ∧ x = y

theorem VatSettings.shows_of_plain {x : Effect} (h : x.Plain) : (t.pairing t').shows v d d x x :=
  ⟨rfl, .plain h⟩

theorem Activity.Emits.abreast {a : Activity α} (h : a.Emits Plain) :
    Abreast (t.pairing t') Same v a d a d :=
  Abreast.refl h (fun _ _ _ => VatSettings.shows_of_plain) v d

namespace Cycle

theorem abreast_publishCurrent (ks : List Component) :
    Abreast (c.vat.pairing t) Same v (publishCurrent c ks) d (publishCurrent (c.withVat t) ks) d := by
  induction ks generalizing v d with
  | nil => exact .done ⟨rfl, rfl⟩
  | cons k ks ih =>
    rw [publishCurrent, publishCurrent]
    apply Abreast.view_bind
    intro v _
    dsimp only
    split
    · apply Abreast.cached_bind
      cases hx : c.currentValue d k v.now with
      | error o => exact .left trivial
      | ok x =>
        cases hx' : (c.withVat t).currentValue d k v.now with
        | error o => exact .right trivial
        | ok x' =>
          have happlied := Config.applied_of_currentValue hx
          have happlied' := Config.applied_of_currentValue hx'
          exact Abreast.emit_bind ⟨rfl, .current happlied happlied'⟩ ih
    · exact ih

theorem abreast_publishPrices :
    Abreast (c.vat.pairing t) Same v (publishPrices c) d (publishPrices (c.withVat t)) d := by
  apply (abreast_publishCurrent Component.all).bind
  rintro v d _ _ _ ⟨rfl, -⟩
  apply Abreast.view_bind
  intro v _
  split
  · exact Abreast.cached_bind
      (Abreast.emit_bind (VatSettings.shows_of_plain nofun) (.done ⟨rfl, rfl⟩))
  · exact .done ⟨rfl, rfl⟩

theorem abreast_conclude (s : Schedule) (context : LogContext) (draw : Nat)
    (result : Except Fault Unit) : Abreast (c.vat.pairing t) Same v
      (conclude c s context draw result) d (conclude (c.withVat t) s context draw result) d := by
  unfold conclude
  apply (emits_noteFault context result).plain.abreast.bind
  rintro v d _ _ _ ⟨rfl, -⟩
  apply Abreast.emit_bind (VatSettings.shows_of_plain (plain_status _))
  apply abreast_publishPrices.bind
  rintro v d _ _ _ ⟨rfl, -⟩
  apply Abreast.view_bind
  intro v _
  apply Abreast.cached_bind
  apply (emits_noteShortage c result d v).plain.abreast.bind
  rintro v' d _ _ _ ⟨rfl, -⟩
  exact (emits_plan c s context draw result v _).abreast

theorem downloads_withVat (context : LogContext) (ks : List Component) :
    downloads (c.withVat t) context ks = downloads c context ks := by
  induction ks with
  | nil => rfl
  | cons k ks ih =>
    rw [downloads_cons, downloads_cons, ih]
    rfl

theorem download_withVat (context : LogContext) :
    download (c.withVat t) context = download c context := by
  unfold download
  simp only [downloads_withVat]
  rfl

theorem abreast_refresh_withVat (s : Schedule) (name : String) (draw : Nat) :
    Abreast (c.vat.pairing t) Same v (refresh c s name draw) d (refresh (c.withVat t) s name draw)
      d := by
  rw [refresh_eq, refresh_eq]
  apply Abreast.log_bind (VatSettings.shows_of_plain (plain_log _))
  rw [download_withVat]
  apply (emits_download c (namedContext c name)).plain.abreast.bind
  rintro v d _ result _ ⟨rfl, rfl⟩
  apply Abreast.cached_bind
  apply Abreast.view_bind
  intro v _
  cases hclean : d.cleanup c.cache v.now with
  | error o => exact .left trivial
  | ok e => exact Abreast.lift_bind rfl hclean (Abreast.store_bind (abreast_conclude ..))

theorem abreast_tick_withVat :
    Abreast (c.vat.pairing t) Same v (tick c) d (tick (c.withVat t)) d := by
  apply Abreast.cached_bind
  apply Abreast.view_bind
  intro v _
  cases hclean : d.cleanup c.cache v.now with
  | error o => exact .left trivial
  | ok e => exact Abreast.lift_bind rfl hclean (Abreast.store_bind abreast_publishPrices)

end Cycle

theorem Query.sumFrom_withVat (total : Series) (ks : List Component) :
    sumFrom (c.withVat t) total ks = sumFrom c total ks := by
  induction ks generalizing total with
  | nil => rfl
  | cons k ks ih =>
    simp only [sumFrom, ih]
    rfl

theorem Query.sum_withVat (ks : List Component) : sum (c.withVat t) ks = sum c ks := by
  simp only [sum, sumFrom_withVat]
  rfl

theorem Question.result_withVat (q : Question) : q.result (c.withVat t) = q.result c := by
  cases q with
  | series k => rfl
  | sum ks => simp only [result, Query.sum_withVat]
  | sumNamed names => simp only [result, Query.sumNamed, Query.sum_withVat]
  | cost start stop watts => simp only [result, Query.cost, Query.sum_withVat]

/-! ## Runs -/

theorem Errand.abreast_activity (s : Schedule) (x : Errand) :
    Abreast (c.vat.pairing t) Same v (x.activity c s) d (x.activity (c.withVat t) s) d := by
  cases x with
  | cycle name draw =>
    apply (Cycle.abreast_refresh_withVat s name draw).bind
    rintro v d _ out _ ⟨rfl, rfl⟩
    exact .done ⟨rfl, rfl⟩
  | tick =>
    apply Cycle.abreast_tick_withVat.bind
    rintro v d _ _ _ ⟨rfl, -⟩
    exact .done ⟨rfl, rfl⟩
  | question q =>
    rw [activity, activity, Question.result_withVat]
    exact (q.emits_result c).plain.abreast

/-- Two performances, with the settings `t` and `t'`, that come to the same. -/
structure VatSettings.Agree (t t' : VatSettings) (p q : Performance Errand.Result) : Prop where
  sights : List.Forall₂ (t.Corresponds t') p.sights q.sights
  cache : p.cache = q.cache
  value : p.value = q.value

theorem VatSettings.agree_of_ok {p q : Performance Errand.Result}
    (hagree : (t.pairing t').Agree Same p q) (hp : p.value.isOk) (hq : q.value.isOk) :
    t.Agree t' p q := by
  cases hagree with
  | ended hs hsame =>
    obtain ⟨rfl, rfl⟩ := hsame
    exact ⟨hs.imp fun s s' ⟨hview, hcache, hshows⟩ => ⟨hview, hcache, hshows⟩, rfl, rfl⟩
  | overflow hs => cases hp
  | left _ hx =>
    rw [hx] at hp
    cases hp
  | right _ hy =>
    rw [hy] at hq
    cases hq

theorem Standing.agree_perform {σ : Standing} {x : Occasion} (h : (σ.perform c x).value.isOk)
    (h' : (σ.perform (c.withVat t) x).value.isOk) :
    c.vat.Agree t (σ.perform c x) (σ.perform (c.withVat t) x) :=
  VatSettings.agree_of_ok
    ((x.errand.abreast_activity σ.schedule).play ⟨trivial, fun _ => trivial⟩) h h'

/-- Two services that differ in their settings of value added tax alone, and are given the same
errands in the same circumstances, do the same as long as neither overflows: they meet and show the
same, but for the current values that are published, each of which is the cached one with value
added tax as the service has to include it; they leave the same series; and the same comes back. -/
theorem serve_vat (c : Config) (t : VatSettings) (σ : Standing) (xs : List Occasion)
    (h : ∀ r ∈ serve c σ xs, r.2.value.isOk)
    (h' : ∀ r ∈ serve (c.withVat t) σ xs, r.2.value.isOk) :
    List.Forall₂ (fun r r' => r.1 = r'.1 ∧ c.vat.Agree t r.2 r'.2) (serve c σ xs)
      (serve (c.withVat t) σ xs) := by
  induction xs generalizing σ with
  | nil => exact .nil
  | cons x xs ih =>
    rw [serve_cons] at h h'
    obtain ⟨hx, hrest⟩ := List.forall_mem_cons.1 h
    obtain ⟨hx', hrest'⟩ := List.forall_mem_cons.1 h'
    have hagree := Standing.agree_perform hx hx'
    have hafter : σ.after x (σ.perform (c.withVat t) x) = σ.after x (σ.perform c x) := by
      simp only [Standing.after, hagree.cache, hagree.value]
    rw [if_neg (Occasion.not_ends_of_ok hx)] at hrest
    rw [if_neg (Occasion.not_ends_of_ok hx'), hafter] at hrest'
    rw [serve_cons, serve_cons, if_neg (Occasion.not_ends_of_ok hx),
      if_neg (Occasion.not_ends_of_ok hx'), hafter]
    exact .cons ⟨rfl, hagree⟩ (ih _ hrest hrest')

/-- At noon a cycle fails to download, which with value added tax on the spot price makes no other
difference than in the value that is published. -/
theorem serve_vat_noon : ∃ (σ : Standing) (x y : Occasion),
    x.errand.isCycle ∧ y.errand.isQuestion ∧
      List.Forall₂
        (fun r r' => r.1 = r'.1 ∧ VatSettings.Agree {} { includeVat := [.spotPrice] } r.2 r'.2)
        (serve {} σ [x, y]) (serve (Config.withVat {} { includeVat := [.spotPrice] }) σ [x, y]) := by
  refine ⟨⟨Cache.empty.put .spotPrice (.flat (.ofSeconds 1675512000) 4 .one), .start {}⟩,
    ⟨.cycle "A" 0, .still ⟨.ofSeconds 1675512000, Channel.all, none⟩ fun _ => .error (.empty "")⟩,
    ⟨.question (.series .spotPrice),
      .still ⟨.ofSeconds 1675512000, Channel.all, none⟩ fun _ => .error (.empty "")⟩, rfl, rfl, ?_⟩
  exact serve_vat {} { includeVat := [.spotPrice] } _ _ (by decide +kernel) (by decide +kernel)

end HourlyPrices
