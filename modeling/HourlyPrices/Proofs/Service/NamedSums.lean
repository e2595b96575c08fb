import HourlyPrices.Proofs.Service.Freshness
import HourlyPrices.Proofs.Service.Turns

/-!
# Sums by name

A text of names is refused when one of them is unknown or the components that it selects come in
different currencies (`Query.Refused`). Otherwise the sum is that of the series which are read, and
these are the ones that the query leaves cached, but for past hours: a download drops past hours of
series that have been read before it (`Query.Left`).
-/

namespace HourlyPrices

open Activity

variable {v : View} {source : Source} {c : Config} {k l : Component} {ks : List Component}
  {d d' : Cache} {s s' t : Series} {ss : List Series} {now h : Instant} {names : String}

/-- A series without past hours has none to lose. -/
theorem Retention.Unexpired.eq_of_trimmed {r : Retention} (hs : r.Unexpired k now s)
    (h : s.Trimmed (r.keptFrom k now) s') : s' = s := by
  obtain rfl | rfl := h
  · rfl
  · refine Series.ext_get? fun u => ?_
    rw [Series.get?_filterHours]
    split
    · rfl
    · rename_i hu
      have hnot : u ∉ s.hours := fun hmem => hu (decide_eq_true (hs u hmem))
      rw [Series.mem_hours_iff, Option.not_isSome_iff_eq_none] at hnot
      exact hnot.symm

/-- From an instant on, a series that has lost hours before it is the same. -/
theorem Series.Trimmed.get?_of_le {t : Instant} (hs : s.Trimmed t s') (h : Instant) (ht : t ≤ h) :
    s'.get? h = s.get? h := by
  obtain rfl | rfl := hs
  · rfl
  · rw [get?_filterHours, if_pos (decide_eq_true ht)]

namespace Query

/-! ## What is left of the series that have been read -/

/-- The series that have been read and those that are left cached differ in past hours only. -/
structure Left (c : Config) (now : Instant) (ks : List Component) (d' : Cache)
    (ss : List Series) : Prop where
  trimmed : ks.Forall₂ (fun k s => s.Trimmed (c.cache.keptFrom k now) (d'.get k)) ss
  ahead : ∀ h, now.hourStart ≤ h → Series.pricesAt ss h = Series.pricesAt (ks.map d'.get) h

theorem pricesAt_of_trimmed
    (h : ks.Forall₂ (fun k s => s.Trimmed (c.cache.keptFrom k now) (d.get k)) ss) {u : Instant}
    (hu : now.hourStart ≤ u) : Series.pricesAt ss u = Series.pricesAt (ks.map d.get) u := by
  induction h with
  | nil => rfl
  | @cons k s ks ss hs _ ih =>
    have hget := hs.get?_of_le u (Instant.le_trans (c.cache.keptFrom_le_hourStart k now) hu)
    rw [Series.pricesAt, Series.pricesAt] at ih
    rw [List.map_cons, Series.pricesAt, Series.pricesAt, List.filterMap_cons, List.filterMap_cons,
      hget, ih]

/-- After a read either nothing has changed or no past hours are left. -/
theorem Reads.eq_or_unexpired (h : Reads c now k d d' s) :
    d' = d ∨ ∀ l, c.cache.Unexpired l now (d'.get l) := by
  cases h with
  | cached _ | failed _ => exact .inl rfl
  | downloaded _ he => exact .inr fun l u hu => Cache.keptFrom_le_of_cleanup he hu

/-- Where none is empty, all series are read as they are cached. -/
theorem ReadsAll.eq_of_not_isEmpty (h : ReadsAll c now ks d d' ss)
    (hks : ∀ k ∈ ks, ¬ (d.get k).isEmpty) : d' = d := by
  induction h with
  | nil => rfl
  | cons h _ ih =>
    obtain ⟨hk, hks⟩ := List.forall_mem_cons.1 hks
    cases h with
    | cached _ => exact ih hks
    | failed hempty | downloaded hempty _ => exact absurd hempty hk

/-- The series that have been read are left as they are if none of them has past hours and is read
before an empty one. -/
theorem ReadsAll.eq_map_get (h : ReadsAll c now ks d d' ss) (hks : ks.Nodup)
    (hw : ks.Pairwise fun k l => (d.get l).isEmpty → c.cache.Unexpired k now (d.get k)) :
    ss = ks.map d'.get := by
  induction h with
  | nil => rfl
  | @cons k ks d d₁ d' s ss h hs ih =>
    obtain ⟨hk, hks⟩ := List.nodup_cons.1 hks
    obtain ⟨hfirst, hw⟩ := List.pairwise_cons.1 hw
    have htrim := hs.trimmed hk
    obtain rfl := h.get_self
    have hrest : ss = ks.map d'.get := by
      refine ih hks ?_
      obtain rfl | hclean := h.eq_or_unexpired
      · exact hw
      · exact List.pairwise_of_forall fun k l _ => hclean k
    rw [List.map_cons, ← hrest]
    congr 1
    by_cases hempty : ∃ l ∈ ks, (d₁.get l).isEmpty
    · obtain ⟨l, hl, hempty⟩ := hempty
      have hclean : c.cache.Unexpired k now (d₁.get k) := by
        obtain rfl | hclean := h.eq_or_unexpired
        · exact hfirst l hl hempty
        · exact hclean k
      exact (hclean.eq_of_trimmed htrim).symm
    · rw [hs.eq_of_not_isEmpty fun l hl hl' => hempty ⟨l, hl, hl'⟩]

theorem ReadsAll.left (h : ReadsAll c now ks d d' ss) (hks : ks.Nodup) : Left c now ks d' ss where
  trimmed := h.forall₂_trimmed hks
  ahead _ hu := pricesAt_of_trimmed (h.forall₂_trimmed hks) hu

/-! ## Texts that are refused -/

/-- There is no sum for a text when a name is unknown, or when it selects the spot price in another
currency than that of tariffs together with a tariff. -/
def Refused (c : Config) (names : String) : Prop :=
  ¬ Component.Understood names ∨
    .spotPrice ∈ Component.selected names ∧ (∃ k ∈ Component.selected names, k ≠ .spotPrice) ∧
      c.service.currency ≠ .dkk

theorem mixesCurrencies_iff (hks : ks.Nodup) : mixesCurrencies c ks ↔
    .spotPrice ∈ ks ∧ (∃ k ∈ ks, k ≠ .spotPrice) ∧ c.service.currency ≠ .dkk := by
  have hlength : .spotPrice ∈ ks → (1 < ks.length ↔ ∃ k ∈ ks, k ≠ .spotPrice) := by
    intro hspot
    constructor
    · intro hlt
      by_contra hall
      have hreplicate : ks = List.replicate ks.length .spotPrice :=
        List.eq_replicate_of_mem fun k hk => by_contra fun hne => hall ⟨k, hk, hne⟩
      rw [hreplicate, List.nodup_replicate] at hks
      omega
    · rintro ⟨k, hk, hne⟩
      by_contra hle
      obtain ⟨l, rfl⟩ : ∃ l, ks = [l] :=
        List.length_eq_one_iff.1 (Nat.le_antisymm (by omega) (List.length_pos_of_mem hk))
      exact hne ((List.mem_singleton.1 hk).trans (List.mem_singleton.1 hspot).symm)
  simp only [mixesCurrencies, Currency.isPrimary, Bool.and_eq_true, List.contains_iff_mem,
    decide_eq_true_eq, Bool.not_eq_true', beq_eq_false_iff_ne, and_assoc]
  exact and_congr_right fun hspot => by rw [hlength hspot]

theorem sumNamed_of_understood (h : Component.Understood names) :
    sumNamed c names = sum c (Component.selected names) := by
  unfold sumNamed
  split
  · rename_i hblank
    rw [Component.selected_of_isBlankText hblank]
  · rename_i hblank
    rw [Component.selection_eq_ok hblank h]

theorem run_sumNamed_of_refused (h : Refused c names) (v : View) (source : Source) (d : Cache) :
    ∃ e, run v source (sumNamed c names) d = ⟨[.log e], d, .ok .empty⟩ := by
  by_cases hu : Component.Understood names
  · have hmixes := h.resolve_left (not_not_intro hu)
    rw [← mixesCurrencies_iff (Component.nodup_selected names)] at hmixes
    rw [sumNamed_of_understood hu, sum, if_pos hmixes]
    exact ⟨_, rfl⟩
  · obtain ⟨n, hn⟩ := Component.selection_eq_error hu
    rw [sumNamed, if_neg fun hblank => hu (.inl hblank), hn]
    exact ⟨_, rfl⟩

theorem sumNamed_of_not_refused (h : ¬ Refused c names) :
    sumNamed c names = sumFrom c .empty (Component.selected names) := by
  obtain ⟨hu, hmixes⟩ := not_or.1 h
  rw [← mixesCurrencies_iff (Component.nodup_selected names)] at hmixes
  rw [sumNamed_of_understood (not_not.1 hu), sum, if_neg hmixes]

/-- A blank text is not refused in the currency of tariffs. -/
theorem not_refused_of_isBlankText (hblank : Text.isBlankText names)
    (hc : c.service.currency = .dkk) : ¬ Refused c names :=
  not_or.2 ⟨not_not_intro (.inl hblank), fun hmixes => hmixes.2.2 hc⟩

/-- What a text is refused for does not depend on the order of the names. -/
theorem Refused.congr {names' : String} (h : Refused c names)
    (hsame : Component.SameNames names names') : Refused c names' := by
  refine h.imp (fun hu hu' => hu (hsame.symm.understood hu')) fun hmixes => ?_
  rwa [hsame.selected_eq] at hmixes

theorem sumFrom_value_eq_ok_iff {t t' : Series} :
    (run v source (sumFrom c t ks) d).value = .ok t' ↔
      ∃ ss, run v source (ks.mapM (series c)) d = ⟨(run v source (sumFrom c t ks) d).effects,
        (run v source (sumFrom c t ks) d).cache, .ok ss⟩ ∧ t.totalFrom ss = .ok t' := by
  rw [← sumFrom_eq_ok_iff]
  exact ⟨Outcome.eq_of_value, fun h => congrArg Outcome.value h⟩

theorem exists_sumFrom_empty_iff (hss : (run v source (ks.mapM (series c)) d).value = .ok ss) :
    (∃ t, (run v source (sumFrom c .empty ks) d).value = .ok t) ↔
      ∀ h, (Decimal.sum? (Series.pricesAt ss h)).isSome := by
  rw [← Series.exists_isSum_iff]
  refine exists_congr fun t => ?_
  rw [← Series.total_eq_ok_iff]
  constructor
  · intro ht
    obtain ⟨ss', hss', htotal⟩ := sumFrom_value_eq_ok_iff.1 ht
    rw [hss'] at hss
    cases hss
    exact htotal
  · intro htotal
    have hrun := sumFrom_eq_ok_iff.2 ⟨ss, Outcome.eq_of_value hss, htotal⟩
    rw [hrun]

/-- A text that is refused has no prices, and nothing is requested or changed for it. For any other
one there is a sum when the series of the selected components can be read and their prices can be
added up at every hour. It is the sum of the series that are read, each once. From the current hour
on these are the ones that are left cached, and altogether if none that is read before an empty one
has past hours. Texts with the same names come to the same. -/
theorem sumNamed_of_names (c : Config) (v : View) (source : Source) (d : Cache) (names : String) :
    let ks := Component.selected names
    let o := run v source (sumNamed c names) d
    (Refused c names → ∃ e, o = ⟨[.log e], d, .ok .empty⟩) ∧
    (¬ Refused c names →
      ((marketZone.localTime? v.now).isSome → c.cache.Representable v.now →
        ∃ ss, (run v source (ks.mapM (series c)) d).value = .ok ss) ∧
      (∀ ss, (run v source (ks.mapM (series c)) d).value = .ok ss →
        ((∃ t, o.value = .ok t) ↔ ∀ h, (Decimal.sum? (Series.pricesAt ss h)).isSome)) ∧
      ∀ t, o.value = .ok t →
        (∃ ss, run v source (ks.mapM (series c)) d = ⟨o.effects, o.cache, .ok ss⟩ ∧
          Series.IsSum ss t ∧ Left c v.now ks o.cache ss) ∧
        (ks.Pairwise (fun k l => (d.get l).isEmpty → c.cache.Unexpired k v.now (d.get k)) →
          Series.IsSum (ks.map o.cache.get) t)) ∧
    ∀ names', Component.SameNames names names' →
      let o' := run v source (sumNamed c names') d
      o'.value = o.value ∧ o'.cache = o.cache ∧ o'.requests = o.requests := by
  intro ks o
  have hks : ks.Nodup := Component.nodup_selected names
  refine ⟨fun h => run_sumNamed_of_refused h v source d, fun h => ⟨?_, ?_, ?_⟩, ?_⟩
  · intro _ hin
    obtain ⟨o, -, hout⟩ | ⟨ss, hss, -⟩ := run_mapM_reads v source c ks d
    · exact absurd hin hout
    · exact ⟨ss, hss⟩
  · intro ss hss
    rw [show o = _ from congrArg (run v source · d) (sumNamed_of_not_refused h)]
    exact exists_sumFrom_empty_iff hss
  · intro t ht
    rw [show o = _ from congrArg (run v source · d) (sumNamed_of_not_refused h)] at ht ⊢
    obtain ⟨ss, hss, htotal⟩ := sumFrom_value_eq_ok_iff.1 ht
    have hsum := Series.total_eq_ok_iff.1 htotal
    have hreads : ReadsAll c v.now ks d (run v source (sumFrom c .empty ks) d).cache ss := by
      have hreads := readsAll_of_run (d := d) (congrArg Outcome.value hss)
      rwa [hss] at hreads
    refine ⟨⟨ss, hss, hsum, hreads.left hks⟩, fun hw => ?_⟩
    rw [← hreads.eq_map_get hks hw]
    exact hsum
  · intro names' hsame o'
    by_cases h : Refused c names
    · obtain ⟨e, he⟩ := run_sumNamed_of_refused h v source d
      obtain ⟨e', he'⟩ := run_sumNamed_of_refused (h.congr hsame) v source d
      rw [show o = _ from he, show o' = _ from he']
      exact ⟨rfl, rfl, rfl⟩
    · have h' : ¬ Refused c names' := fun h' => h (h'.congr hsame.symm)
      have hoo' : o' = o := by
        rw [show o' = _ from congrArg (run v source · d) (sumNamed_of_not_refused h'),
          show o = _ from congrArg (run v source · d) (sumNamed_of_not_refused h),
          hsame.selected_eq]
      rw [hoo']
      exact ⟨rfl, rfl, rfl⟩

/-- After a tick there are no past hours in the cache: what is left of a query for all components
adds up to its answer. -/
theorem sumNamed_of_names_tick : ∃ (σ : Session) (source : Source) (t : Series),
    Session.Reachable {} σ ∧ ¬ Refused {} "" ∧
    (run { now := .ofSeconds 1675517400 } source (sumNamed {} "") σ.cache).value = .ok t ∧
    Series.IsSum ((Component.selected "").map
      (run { now := .ofSeconds 1675517400 } source (sumNamed {} "") σ.cache).cache.get) t := by
  have htick := Activity.course_run (Cycle.tick {}) { now := .ofSeconds 1675517400 }
    (fun _ => .error (.empty "No records"))
    (Cache.empty.put .spotPrice (.flat (.ofSeconds 1675512000) 3 .one))
  have hσ := Session.Reachable.between (.between .start (.put .spotPrice _)) (.tick htick)
  have hnot : ¬ Refused {} "" := not_refused_of_isBlankText (by decide) rfl
  obtain ⟨-, hsum, -⟩ := sumNamed_of_names {} { now := .ofSeconds 1675517400 }
    (.answering (.ok []) (.ok [])) _ ""
  refine ⟨_, .answering (.ok []) (.ok []), _, hσ, hnot, rfl, ((hsum hnot).2.2 _ rfl).2 ?_⟩
  refine List.pairwise_of_forall fun k _ _ u hu => ?_
  obtain ⟨p, hp⟩ := Option.isSome_iff_exists.1 (Series.mem_hours_iff.1 hu)
  exact hσ.kept rfl hp

/-- At half past one, the sum of all components has the hour from noon when the spot price has been
downloaded at noon, though that hour is no longer cached when all series have been read. -/
theorem sumNamed_of_cached_expired : ∃ (σ : Session) (source : Source) (t : Series),
    Session.Reachable {} σ ∧ ¬ Refused {} "" ∧
    (run { now := .ofSeconds 1675517400 } source (sumNamed {} "") σ.cache).value = .ok t ∧
    ¬ Series.IsSum ((Component.selected "").map
      (run { now := .ofSeconds 1675517400 } source (sumNamed {} "") σ.cache).cache.get) t := by
  have hquestion := Activity.course_run (Question.answer {} (.series .spotPrice))
    { now := .ofSeconds 1675512000 }
    (.answering (.ok
        [{ hour := .ofSeconds 1675512000, dkk := some { num := 1000, scale := 0 } },
          { hour := .ofSeconds 1675515600, dkk := some { num := 1000, scale := 0 } }])
      (.ok [])) .empty
  refine ⟨_, .answering (.ok []) (.ok []), _, .between .start (.question hquestion), ?_, rfl, ?_⟩
  · exact not_refused_of_isBlankText (by decide) rfl
  · intro hsum
    rw [Component.selected_of_isBlankText (by decide)] at hsum
    have hnoon := hsum.priced (.ofSeconds 1675512000)
    revert hnoon
    decide

end Query

end HourlyPrices
