import HourlyPrices.Proofs.Cost.Touched
import HourlyPrices.Proofs.Service.Reading

/-!
# Costs of what is priced

The cost of a draw is the cost at the sum of all components. An hour counts as priced as soon as one
component has a price there, and a component without one adds nothing to it: the cost is zero when
the interval touches an hour that no component has a price for, and otherwise that of the components
that do have prices (`Query.cost_of_priced_components`).
-/

namespace HourlyPrices.Query

open Activity

variable {v : View} {source : Source} {c : Config} {d : Cache} {start stop : Instant}
  {watts x : Decimal} {ss : List Series}

theorem sum_all (hc : c.service.currency.isPrimary) :
    sum c Component.all = sumFrom c .empty Component.all := by
  have hmixes : mixesCurrencies c Component.all = false := by simp [mixesCurrencies, hc]
  rw [sum, hmixes]
  rfl

theorem run_cost (v : View) (source : Source) (c : Config) (start stop : Instant)
    (watts : Decimal) (d : Cache) :
    run v source (cost c start stop watts) d =
      (run v source (sum c Component.all) d).bind fun total d' =>
        match Cost.ofInterval total start stop watts with
        | .error o => ⟨[], d', .error o⟩
        | .ok amount => ⟨((costEvent? amount).map .log).toList, d', .ok amount.value⟩ := by
  rw [cost, run_seq]
  congr 1
  funext total d'
  cases Cost.ofInterval total start stop watts with
  | error o => rfl
  | ok amount => cases amount <;> rfl

/-- A cost is found when all series are read, and then it is the cost at their sum. -/
theorem cost_eq_ok_iff (hc : c.service.currency.isPrimary) {d' : Cache} :
    (∃ es, run v source (cost c start stop watts) d = ⟨es, d', .ok x⟩) ↔
      ∃ es ss total amount,
        run v source (Component.all.mapM (series c)) d = ⟨es, d', .ok ss⟩ ∧
        Series.IsSum ss total ∧ Cost.ofInterval total start stop watts = .ok amount ∧
        x = amount.value := by
  rw [run_cost, sum_all hc]
  simp only [Outcome.bind_eq_ok_iff, sumFrom_eq_ok_iff]
  constructor
  · rintro ⟨_, es, d₁, total, es₂, ⟨ss, hss, htotal⟩, hcost, rfl⟩
    cases hamount : Cost.ofInterval total start stop watts with
    | error o =>
      rw [hamount] at hcost
      cases hcost
    | ok amount =>
      rw [hamount] at hcost
      cases hcost
      exact ⟨es, ss, total, amount, hss, Series.total_eq_ok_iff.1 htotal, hamount, rfl⟩
  · rintro ⟨es, ss, total, amount, hss, hsum, hamount, rfl⟩
    refine ⟨es ++ ((costEvent? amount).map .log).toList, es, d', total,
      ((costEvent? amount).map .log).toList, ⟨ss, hss, Series.total_eq_ok_iff.2 hsum⟩, ?_, rfl⟩
    rw [hamount]

theorem cost_value_eq_ok_iff (hc : c.service.currency.isPrimary) :
    (run v source (cost c start stop watts) d).value = .ok x ↔ ∃ ss total amount,
      (run v source (Component.all.mapM (series c)) d).value = .ok ss ∧
      (run v source (cost c start stop watts) d).cache =
        (run v source (Component.all.mapM (series c)) d).cache ∧
      Series.IsSum ss total ∧ Cost.ofInterval total start stop watts = .ok amount ∧
      x = amount.value := by
  constructor
  · intro hx
    obtain ⟨es, ss, total, amount, hss, hsum, hamount, hvalue⟩ :=
      (cost_eq_ok_iff hc).1 ⟨_, Outcome.eq_of_value hx⟩
    rw [hss]
    exact ⟨ss, total, amount, rfl, rfl, hsum, hamount, hvalue⟩
  · rintro ⟨ss, total, amount, hss, -, hsum, hamount, hvalue⟩
    obtain ⟨es, hcost⟩ := (cost_eq_ok_iff hc).2
      ⟨_, ss, total, amount, Outcome.eq_of_value hss, hsum, hamount, hvalue⟩
    rw [hcost]

/-- An hour has no price in a sum exactly when it has none in any of the series. -/
theorem get?_eq_none_iff {total : Series} (hsum : Series.IsSum ss total) (h : Instant) :
    total.get? h = none ↔ ∀ s ∈ ss, s.get? h = none := by
  rw [← Option.not_isSome_iff_eq_none, hsum.priced]
  simp

/-- A cost is found whenever the series can be read, their sums are in range, so is that of the
shares, and the interval does not reach into the last representable hour, unless an hour before is
without a price. It is zero when the interval touches an hour for which no price is read, and
otherwise the cost at the sum of the prices that are read for each hour. The cache is left with what
was read, except that past hours may have been dropped. -/
theorem cost_of_priced_components (c : Config) (hc : c.service.currency.isPrimary) (v : View)
    (source : Source) (d : Cache) (start stop : Instant) (hlt : start < stop) (watts : Decimal) :
    ((marketZone.localTime? v.now).isSome → c.cache.Representable v.now →
      ∃ ss, (run v source (Component.all.mapM (series c)) d).value = .ok ss) ∧
    ((∃ x, (run v source (cost c start stop watts) d).value = .ok x) ↔
      ∃ ss total, (run v source (Component.all.mapM (series c)) d).value = .ok ss ∧
        Series.IsSum ss total ∧ Cost.Fits total start stop watts ∧
        Cost.HoursEnd total start stop) ∧
    (start.inRange → ∀ ss total, Series.IsSum ss total →
      (Cost.HoursEnd total start stop ↔ stop ≤ .lastHour ∨
        ∃ t, start ≤ t ∧ t < .lastHour ∧ ∀ s ∈ ss, s.get? t.hourStart = none)) ∧
    ∀ x, (run v source (cost c start stop watts) d).value = .ok x →
      ∀ ss, (run v source (Component.all.mapM (series c)) d).value = .ok ss →
        Component.all.Forall₂ (fun k s => s.Trimmed (c.cache.keptFrom k v.now)
          ((run v source (cost c start stop watts) d).cache.get k)) ss ∧
        ((∃ h, Cost.Touches start stop h ∧ ∀ s ∈ ss, s.get? h = none) → x = .zero) ∧
        ((∀ h, Cost.Touches start stop h → ∃ s ∈ ss, (s.get? h).isSome) →
          ∃ total, Series.IsSum ss total ∧
            Cost.ofInterval total start stop watts = .ok (.amount x)) := by
  refine ⟨?_, ?_, ?_, ?_⟩
  · intro _ hin
    obtain ⟨o, -, hout⟩ | ⟨ss, hss, -⟩ := run_mapM_reads v source c Component.all d
    · exact absurd hin hout
    · exact ⟨ss, hss⟩
  · constructor
    · rintro ⟨x, hx⟩
      obtain ⟨ss, total, amount, hss, -, hsum, hamount, -⟩ := (cost_value_eq_ok_iff hc).1 hx
      exact ⟨ss, total, hss, hsum, (Cost.exists_ofInterval_iff hlt).1 ⟨amount, hamount⟩⟩
    · rintro ⟨ss, total, hss, hsum, hfits⟩
      obtain ⟨amount, hamount⟩ := (Cost.exists_ofInterval_iff hlt).2 hfits
      obtain ⟨es, hcost⟩ := (cost_eq_ok_iff hc).2
        ⟨_, ss, total, amount, Outcome.eq_of_value hss, hsum, hamount, rfl⟩
      exact ⟨amount.value, by rw [hcost]⟩
  · intro hstart ss total hsum
    rw [Cost.hoursEnd_iff hlt hstart]
    simp only [get?_eq_none_iff hsum]
  · intro x hx ss hss
    obtain ⟨ss', total, amount, hss', hcache, hsum, hamount, rfl⟩ :=
      (cost_value_eq_ok_iff hc).1 hx
    obtain rfl : ss = ss' := Except.ok.inj (hss.symm.trans hss')
    obtain ⟨hfits, hends⟩ := (Cost.exists_ofInterval_iff hlt).1 ⟨amount, hamount⟩
    refine ⟨?_, ?_, ?_⟩
    · rw [hcache]
      exact (readsAll_of_run hss).forall₂_trimmed (by decide)
    · rintro ⟨h, ht, hnone⟩
      obtain ⟨h', hh'⟩ := Cost.ofInterval_eq_priceMissing hlt hfits hends ht
        ((get?_eq_none_iff hsum h).2 hnone)
      rw [hh'] at hamount
      cases hamount
      rfl
    · intro hpriced
      obtain ⟨amount', ha'⟩ := Cost.ofInterval_eq_amount hlt hfits hends fun h ht =>
        (hsum.priced h).2 (hpriced h ht)
      rw [ha'] at hamount
      cases hamount
      exact ⟨total, hsum, ha'⟩

/-- At noon two hours of spot prices are cached, and no tariff is published. The cost of the first
of these hours is that of the spot price, and the cost of three hours is zero. -/
theorem cost_of_priced_components_spotPrice :
    (∃ total, Series.IsSum
        [.flat (.ofSeconds 1675512000) 2 .one, .empty, .empty, .empty, .empty] total ∧
      Cost.ofInterval total (.ofSeconds 1675512000) (.ofSeconds 1675515600)
        { num := 1000, scale := 0 } = .ok (.amount .one)) ∧
    ∀ x, (run { now := .ofSeconds 1675512000 }
        (.answering (.error (.empty "No records")) (.ok []))
        (cost {} (.ofSeconds 1675512000) (.ofSeconds 1675522800) { num := 1000, scale := 0 })
        (Cache.empty.put .spotPrice (.flat (.ofSeconds 1675512000) 2 .one))).value = .ok x →
      x = .zero := by
  obtain ⟨source, hsource⟩ : ∃ source : Source,
      source = .answering (.error (.empty "No records")) (.ok []) := ⟨_, rfl⟩
  have hreads : (run { now := .ofSeconds 1675512000 } source
      (Component.all.mapM (series {}))
      (Cache.empty.put .spotPrice (.flat (.ofSeconds 1675512000) 2 .one))).value =
        .ok [.flat (.ofSeconds 1675512000) 2 .one, .empty, .empty, .empty, .empty] := by
    subst hsource
    rfl
  obtain ⟨-, -, -, hshort⟩ := cost_of_priced_components {} rfl
    { now := .ofSeconds 1675512000 } source
    (Cache.empty.put .spotPrice (.flat (.ofSeconds 1675512000) 2 .one)) (.ofSeconds 1675512000)
    (.ofSeconds 1675515600) (by decide) { num := 1000, scale := 0 }
  obtain ⟨-, -, -, hlong⟩ := cost_of_priced_components {} rfl
    { now := .ofSeconds 1675512000 } source
    (Cache.empty.put .spotPrice (.flat (.ofSeconds 1675512000) 2 .one)) (.ofSeconds 1675512000)
    (.ofSeconds 1675522800) (by decide) { num := 1000, scale := 0 }
  rw [← hsource]
  constructor
  · refine (hshort .one (by subst hsource; rfl) _ hreads).2.2 fun h ht => ?_
    have hh : h ∈ Cost.touchedHours (.ofSeconds 1675512000) (.ofSeconds 1675515600) :=
      Cost.mem_touchedHours.2 ht
    obtain rfl : h = .ofSeconds 1675512000 := List.mem_singleton.1 hh
    exact ⟨_, List.mem_cons_self, rfl⟩
  · intro x hx
    refine (hlong x hx _ hreads).2.1 ⟨.ofSeconds 1675519200, ?_, by decide⟩
    exact Cost.mem_touchedHours.1 (by decide)

/-- With a charge owner for each tariff, a cost is found and is not zero although only the spot
price is known for the hour. -/
theorem cost_of_spotPrice_alone : ∃ (c : Config) (v : View) (source : Source) (d : Cache)
    (start stop h : Instant) (watts : Decimal),
    c.service.currency.isPrimary ∧ (∀ k, k ≠ .spotPrice → (c.tariffQuery? k).isSome) ∧
    start < stop ∧ Cost.Touches start stop h ∧
    (∀ k, k ≠ .spotPrice →
      ((run v source (cost c start stop watts) d).cache.get k).get? h = none) ∧
    (run v source (cost c start stop watts) d).value = .ok .one ∧ Decimal.one ≠ .zero := by
  refine ⟨{ service := { gridCompanyGln := "5790000610099" } }, { now := .ofSeconds 1675512000 },
    .answering (.error (.empty "No records")) (.ok []),
    Cache.empty.put .spotPrice (.flat (.ofSeconds 1675512000) 2 .one), .ofSeconds 1675512000,
    .ofSeconds 1675515600, .ofSeconds 1675512000, { num := 1000, scale := 0 }, rfl, ?_, by decide,
    Cost.mem_touchedHours.1 (by decide), ?_, rfl, by decide⟩
  · intro k hk
    cases k <;> first | contradiction | decide
  · intro k hk
    cases k <;> first | contradiction | rfl

end HourlyPrices.Query
