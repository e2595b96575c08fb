import HourlyPrices.Series
import Mathlib.Data.List.Induction

/-!
# Series made of lists

What a series holds after the prices of a list, or of another series, have been set one after the
other, and when a test passes all that it holds; and at which hours it holds a price at all. Of
several prices for one instant the last counts (`eq_some_iff_last`).
-/

namespace HourlyPrices

/-- What each element of a list puts in the place of what was there, unless it has nothing to give,
is what the last one that has something gives. -/
theorem eq_some_iff_last {α β : Type} {f : List α → Option β} (gives : α → β → Prop)
    (hnil : f [] = none)
    (hconcat : ∀ l a b, f (l ++ [a]) = some b ↔ gives a b ∨ (∀ b', ¬ gives a b') ∧ f l = some b)
    (l : List α) (b : β) :
    f l = some b ↔ ∃ before a after, l = before ++ a :: after ∧ gives a b ∧
      ∀ a' ∈ after, ∀ b', ¬ gives a' b' := by
  induction l using List.reverseRecOn with
  | nil => simp [hnil]
  | append_singleton l a ih =>
    rw [hconcat, ih]
    constructor
    · rintro (ha | ⟨ha, before, a', after, rfl, ha', hafter⟩)
      · exact ⟨l, a, [], rfl, ha, by simp⟩
      · refine ⟨before, a', after ++ [a], by simp, ha', ?_⟩
        simpa [or_imp, forall_and] using ⟨hafter, ha⟩
    · rintro ⟨before, a', after, heq, ha', hafter⟩
      rcases List.eq_nil_or_concat after with rfl | ⟨after, x, rfl⟩
      · obtain ⟨-, hlast⟩ := List.append_inj' heq rfl
        obtain rfl : a = a' := by simpa using hlast
        exact .inl ha'
      · rw [List.concat_eq_append, ← List.cons_append, ← List.append_assoc] at heq
        obtain ⟨rfl, hlast⟩ := List.append_inj' heq rfl
        obtain rfl : a = x := by simpa using hlast
        exact .inr ⟨hafter a (by simp), before, a', after, rfl, ha',
          fun c hc => hafter c (by simp [hc])⟩

namespace Series

@[simp] theorem insertAll_nil (s : Series) : s.insertAll [] = s := rfl

@[simp] theorem insertAll_cons (s : Series) (e : Instant × Decimal)
    (ps : List (Instant × Decimal)) :
    s.insertAll (e :: ps) = (s.insert e.1 e.2).insertAll ps := rfl

theorem insertAll_append (s : Series) (ps qs : List (Instant × Decimal)) :
    s.insertAll (ps ++ qs) = (s.insertAll ps).insertAll qs := by
  simp only [insertAll, List.foldl_append]

/-- Setting at each instant of a list the price that a function gives to it, if any. -/
theorem get?_insertAll_filterMap (s : Series) (hs : List Instant) (f : Instant → Option Decimal)
    (t : Instant) :
    (s.insertAll (hs.filterMap fun h => (f h).map (h, ·))).get? t =
      if t ∈ hs then (f t).or (s.get? t) else s.get? t := by
  induction hs generalizing s with
  | nil => simp
  | cons h hs ih =>
    rw [List.filterMap_cons]
    cases hf : f h with
    | none =>
      simp only [Option.map_none, ih, List.mem_cons]
      by_cases ht : t = h
      · subst ht; simp [hf]
      · simp [ht]
    | some p =>
      simp only [Option.map_some, insertAll_cons, ih, get?_insert, List.mem_cons]
      by_cases ht : t = h
      · subst ht; simp [hf]
      · simp [ht]

/-- Setting the prices of an ordered list. -/
private theorem get?_insertAll_of_ordered {es : List (Instant × Decimal)}
    (h : es.Pairwise fun a b => a.1 < b.1) (s : Series) (t : Instant) :
    (s.insertAll es).get? t = (es.lookup t).or (s.get? t) := by
  induction es generalizing s with
  | nil => rfl
  | cons e es ih =>
    obtain ⟨hfirst, hrest⟩ := List.pairwise_cons.1 h
    rw [insertAll_cons, ih hrest, get?_insert, lookup_entry]
    split
    · rename_i ht
      subst ht
      rw [lookup_eq_none_of_lt hfirst]
      rfl
    · rfl

/-- Setting all prices of a series over those of another. -/
theorem get?_insertAll_entries (s r : Series) (t : Instant) :
    (s.insertAll r.entries).get? t = (r.get? t).or (s.get? t) :=
  get?_insertAll_of_ordered r.ordered s t

theorem filterHours_eq_self {s : Series} {keep : Instant → Bool}
    (h : ∀ t p, s.get? t = some p → keep t) : s.filterHours keep = s := by
  refine ext_get? fun t => ?_
  rw [get?_filterHours]
  cases hp : s.get? t with
  | none => simp
  | some p => rw [if_pos (h t p hp)]

/-! ## The hours of a series -/

variable {s : Series} {t : Instant}

theorem mem_hours_iff : t ∈ s.hours ↔ (s.get? t).isSome := by
  rw [hours, List.mem_map, Option.isSome_iff_exists]
  constructor
  · rintro ⟨⟨u, p⟩, hm, rfl⟩
    exact ⟨p, mem_entries_iff.1 hm⟩
  · rintro ⟨p, hp⟩
    exact ⟨(t, p), mem_entries_iff.2 hp, rfl⟩

theorem isEmpty_iff_hours : s.isEmpty ↔ ∀ t, t ∉ s.hours := by
  rw [isEmpty, hours, List.isEmpty_iff, ← List.eq_nil_iff_forall_not_mem, List.map_eq_nil_iff]

theorem mem_hours_filterHours {keep : Instant → Bool} :
    t ∈ (s.filterHours keep).hours ↔ keep t ∧ t ∈ s.hours := by
  rw [mem_hours_iff, mem_hours_iff, get?_filterHours]
  cases keep t <;> simp

theorem mem_hours_insertAll {es : List (Instant × Decimal)} :
    t ∈ (s.insertAll es).hours ↔ t ∈ s.hours ∨ t ∈ es.map (·.1) := by
  induction es generalizing s with
  | nil => simp
  | cons e es ih =>
    rw [insertAll_cons, ih, mem_hours_iff, get?_insert, List.map_cons, List.mem_cons, mem_hours_iff]
    by_cases ht : t = e.1 <;> simp [ht]

/-- No price lies before the first one. -/
theorem firstHour?_any_le_iff : s.firstHour?.any (· ≤ t) ↔ ∃ u ∈ s.hours, u ≤ t := by
  obtain ⟨es, hes⟩ := s
  cases es with
  | nil => simp [firstHour?, hours]
  | cons e es =>
    simp only [firstHour?, hours, List.head?_cons, Option.map_some, Option.any_some,
      decide_eq_true_eq, List.map_cons, List.mem_cons]
    constructor
    · intro he
      exact ⟨e.1, .inl rfl, he⟩
    · rintro ⟨u, rfl | hu, hle⟩
      · exact hle
      · obtain ⟨a, ha, rfl⟩ := List.mem_map.1 hu
        exact Instant.le_trans (Instant.le_of_lt ((List.pairwise_cons.1 hes).1 a ha)) hle

theorem nodup_hours (s : Series) : s.hours.Nodup := by
  rw [hours, List.Nodup, List.pairwise_map]
  refine s.ordered.imp fun {a b} hab he => ?_
  rw [he] at hab
  exact Instant.lt_irrefl _ hab

end Series

end HourlyPrices
