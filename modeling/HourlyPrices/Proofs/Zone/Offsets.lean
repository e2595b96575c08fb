import HourlyPrices.Zone.Basic

/-!
# What the clocks of a zone show

An offset table whose changes are in order is searched exactly: `OffsetTable.showing` lists the
seconds at which the clock shows a time, the earliest first (`OffsetTable.mem_showing`,
`OffsetTable.showing_pairwise`). So `Zone.first?` is the first instant at which the clock of a zone
shows a local time, and there is one unless the clock never does.
-/

namespace HourlyPrices

namespace OffsetTable

variable {z : OffsetTable} {cs : List OffsetChange} {start : Option Int} {o l s t : Int}

/-- The changes take effect one after the other. -/
def Sorted (z : OffsetTable) : Prop := z.changes.Pairwise (fun a b => a.since < b.since)

theorem offsetFrom_cons_of_lt {c : OffsetChange} (h : s < c.since) :
    offsetFrom o (c :: cs) s = o := if_pos h

theorem offsetFrom_cons_of_le {c : OffsetChange} (h : c.since ≤ s) :
    offsetFrom o (c :: cs) s = offsetFrom c.offset cs s := if_neg (Int.not_lt.2 h)

/-- Two seconds on the same side of every change have the same offset. -/
theorem offsetFrom_congr (h : ∀ c ∈ cs, s < c.since ↔ t < c.since) :
    offsetFrom o cs s = offsetFrom o cs t := by
  induction cs generalizing o with
  | nil => rfl
  | cons c cs ih =>
    obtain ⟨hc, hcs⟩ := List.forall_mem_cons.1 h
    simp only [offsetFrom, hc, ih hcs]

/-- The offset is the initial one or that of a change. -/
theorem offsetFrom_mem (o : Int) (cs : List OffsetChange) (s : Int) :
    offsetFrom o cs s = o ∨ ∃ c ∈ cs, offsetFrom o cs s = c.offset := by
  induction cs generalizing o with
  | nil => exact .inl rfl
  | cons c cs ih =>
    rcases Int.lt_or_le s c.since with h | h
    · exact .inl (offsetFrom_cons_of_lt h)
    · rw [offsetFrom_cons_of_le h]
      rcases ih c.offset with hc | ⟨d, hd, he⟩
      · exact .inr ⟨c, List.mem_cons_self, hc⟩
      · exact .inr ⟨d, List.mem_cons_of_mem _ hd, he⟩

@[simp] theorem reaches_none (s : Int) : reaches none s = true := rfl

@[simp] theorem reaches_some : reaches (some t) s = true ↔ t ≤ s := decide_eq_true_iff

/-- From a start on that no change precedes, the clock shows `l` at the seconds that are listed. -/
theorem mem_showingFrom (hcs : cs.Pairwise (fun a b => a.since < b.since))
    (hstart : ∀ c ∈ cs, reaches start c.since) :
    s ∈ showingFrom start o cs l ↔ reaches start s ∧ s + offsetFrom o cs s = l := by
  induction cs generalizing start o with
  | nil =>
    simp only [showingFrom, offsetFrom, List.mem_ite_nil_right, List.mem_singleton]
    constructor
    · rintro ⟨h, rfl⟩
      exact ⟨h, Int.sub_add_cancel l o⟩
    · rintro ⟨h, rfl⟩
      rw [Int.add_sub_cancel]
      exact ⟨h, rfl⟩
  | cons c cs ih =>
    obtain ⟨hc, hcs⟩ := List.pairwise_cons.1 hcs
    have htail : s ∈ showingFrom (some c.since) c.offset cs l ↔
        reaches (some c.since) s ∧ s + offsetFrom c.offset cs s = l :=
      ih hcs fun d hd => reaches_some.2 (Int.le_of_lt (hc d hd))
    rw [showingFrom, List.mem_append, htail, reaches_some, List.mem_ite_nil_right,
      List.mem_singleton]
    rcases Int.lt_or_le s c.since with h | h
    · rw [offsetFrom_cons_of_lt h]
      constructor
      · rintro (⟨⟨hs, -⟩, rfl⟩ | ⟨hle, -⟩)
        · exact ⟨hs, Int.sub_add_cancel l o⟩
        · omega
      · rintro ⟨hs, rfl⟩
        rw [Int.add_sub_cancel]
        exact .inl ⟨⟨hs, h⟩, rfl⟩
    · have hs : reaches start s := by
        cases start with
        | none => rfl
        | some t => exact reaches_some.2 (Int.le_trans (reaches_some.1 (hstart c (by simp))) h)
      rw [offsetFrom_cons_of_le h]
      constructor
      · rintro (⟨⟨-, hlt⟩, rfl⟩ | ⟨-, heq⟩)
        · omega
        · exact ⟨hs, heq⟩
      · rintro ⟨-, heq⟩
        exact .inr ⟨h, heq⟩

theorem showingFrom_pairwise (hcs : cs.Pairwise (fun a b => a.since < b.since)) :
    (showingFrom start o cs l).Pairwise (· < ·) := by
  induction cs generalizing start o with
  | nil =>
    rw [showingFrom]
    split <;> simp
  | cons c cs ih =>
    obtain ⟨hc, hcs⟩ := List.pairwise_cons.1 hcs
    rw [showingFrom, List.pairwise_append]
    refine ⟨by split <;> simp, ih hcs, fun s hs t ht => ?_⟩
    obtain ⟨⟨-, hlt⟩, hs⟩ := List.mem_ite_nil_right.1 hs
    obtain rfl := List.mem_singleton.1 hs
    have hle := ((mem_showingFrom hcs fun d hd =>
      reaches_some.2 (Int.le_of_lt (hc d hd))).1 ht).1
    exact Int.lt_of_lt_of_le hlt (reaches_some.1 hle)

theorem mem_showing (hz : z.Sorted) : s ∈ z.showing l ↔ s + z.offsetAt s = l := by
  rw [showing, mem_showingFrom hz fun _ _ => rfl]
  exact and_iff_right rfl

theorem showing_pairwise (hz : z.Sorted) : (z.showing l).Pairwise (· < ·) :=
  showingFrom_pairwise hz

end OffsetTable

theorem LocalTime.ext_iff {a b : LocalTime} :
    a = b ↔ a.seconds = b.seconds ∧ a.nanos = b.nanos := by
  cases a
  cases b
  simp

theorem LocalTime.ofDay_day_timeOfDay (l : LocalTime) : ofDay l.day l.timeOfDay = l := by
  simp only [ext_iff, ofDay, day, timeOfDay, secondsPerDay, and_true]
  omega

namespace Zone

variable {z : Zone} {l : LocalTime} {t : Instant}

theorem localTime_eq_iff : z.localTime t = l ↔
    t.seconds + z.table.offsetAt t.seconds = l.seconds ∧ t.nanos = l.nanos := LocalTime.ext_iff

/-- The instant that is found is the first one at which the clock shows the time. -/
theorem first?_eq_some_iff (hz : z.table.Sorted) :
    z.first? l = some t ↔ z.localTime t = l ∧ ∀ u, z.localTime u = l → t ≤ u := by
  have hmem := fun s => OffsetTable.mem_showing (s := s) (l := l.seconds) hz
  have hsorted := OffsetTable.showing_pairwise (l := l.seconds) hz
  simp only [localTime_eq_iff, ← hmem]
  rw [first?]
  generalize z.table.showing l.seconds = shown at hsorted ⊢
  cases shown with
  | nil => simp
  | cons s ss =>
    have hle := (List.pairwise_cons.1 hsorted).1
    simp only [Option.some.injEq, Instant.ext_iff]
    constructor
    · rintro ⟨hs, hn⟩
      refine ⟨⟨hs ▸ List.mem_cons_self, hn.symm⟩, ?_⟩
      rintro u ⟨hu, hun⟩
      apply Instant.le_def.2
      rcases List.mem_cons.1 hu with hu | hu
      · omega
      · have := hle _ hu
        omega
    · rintro ⟨⟨ht, hn⟩, hfirst⟩
      have hs := Instant.le_def.1 (hfirst ⟨s, l.nanos, l.nanos_lt⟩ ⟨List.mem_cons_self, rfl⟩)
      rcases List.mem_cons.1 ht with ht | ht
      · exact ⟨ht.symm, hn.symm⟩
      · have := hle _ ht
        simp only at hs
        omega

/-- No instant is found for the times that the clock never shows. -/
theorem first?_eq_none_iff (hz : z.table.Sorted) :
    z.first? l = none ↔ ∀ t, z.localTime t ≠ l := by
  have hmem := fun s => OffsetTable.mem_showing (s := s) (l := l.seconds) hz
  simp only [ne_eq, localTime_eq_iff, ← hmem]
  rw [first?]
  cases z.table.showing l.seconds with
  | nil => simp
  | cons s ss =>
    refine iff_of_false (by simp) fun h => h ⟨s, l.nanos, l.nanos_lt⟩ ?_
    exact ⟨List.mem_cons_self, rfl⟩

end Zone

end HourlyPrices
