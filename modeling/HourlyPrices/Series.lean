import HourlyPrices.Decimal.Basic
import HourlyPrices.Time.Instant

/-!
# Hourly series

A series holds at most one price per instant, in the order of time. It is determined by what it
holds at each instant (`Series.ext_get?`).
-/

namespace HourlyPrices

/-- Prices by the instant at which their hour starts, in strictly increasing order. -/
structure Series where
  entries : List (Instant × Decimal)
  ordered : entries.Pairwise (fun a b => a.1 < b.1)
  deriving DecidableEq

namespace Series

/-- The series without prices. -/
def empty : Series := ⟨[], .nil⟩

instance : Inhabited Series := ⟨empty⟩

/-- Whether there is no price. -/
def isEmpty (s : Series) : Bool := s.entries.isEmpty

/-- The number of prices. -/
def size (s : Series) : Nat := s.entries.length

/-- The price at an instant. -/
def get? (s : Series) (t : Instant) : Option Decimal := s.entries.lookup t

/-- The instants that have a price, in order. -/
def hours (s : Series) : List Instant := s.entries.map (·.1)

/-- The first instant that has a price. -/
def firstHour? (s : Series) : Option Instant := s.entries.head?.map (·.1)

/-- Sets the price at an instant in an ordered list. -/
def insertEntry (t : Instant) (p : Decimal) : List (Instant × Decimal) → List (Instant × Decimal)
  | [] => [(t, p)]
  | e :: es =>
    if t < e.1 then (t, p) :: e :: es
    else if e.1 < t then e :: insertEntry t p es
    else (t, p) :: es

theorem lt_of_mem_insertEntry {t u : Instant} {p : Decimal} {es : List (Instant × Decimal)}
    (ht : u < t) (h : ∀ e ∈ es, u < e.1) : ∀ e ∈ insertEntry t p es, u < e.1 := by
  induction es with
  | nil => simpa [insertEntry] using ht
  | cons e es ih =>
    simp only [List.mem_cons, forall_eq_or_imp] at h
    unfold insertEntry
    split
    · simpa [ht] using h
    · split
      · simpa [h.1] using fun a b hab => ih h.2 (a, b) hab
      · simpa [ht] using fun a b hab => h.2 (a, b) hab

theorem ordered_insertEntry (t : Instant) (p : Decimal) {es : List (Instant × Decimal)}
    (h : es.Pairwise (fun a b => a.1 < b.1)) :
    (insertEntry t p es).Pairwise (fun a b => a.1 < b.1) := by
  induction es with
  | nil => simp [insertEntry]
  | cons e es ih =>
    rw [List.pairwise_cons] at h
    unfold insertEntry
    split
    · rename_i hlt
      refine List.pairwise_cons.2 ⟨?_, List.pairwise_cons.2 h⟩
      intro a ha
      rcases List.mem_cons.1 ha with rfl | ha
      · exact hlt
      · exact Instant.lt_trans hlt (h.1 a ha)
    · split
      · rename_i hgt
        exact List.pairwise_cons.2 ⟨lt_of_mem_insertEntry hgt h.1, ih h.2⟩
      · rename_i h₁ h₂
        have : t = e.1 := Instant.eq_of_not_lt h₁ h₂
        exact List.pairwise_cons.2 ⟨fun a ha => this ▸ h.1 a ha, h.2⟩

/-- Sets the price at an instant. -/
def insert (s : Series) (t : Instant) (p : Decimal) : Series :=
  ⟨insertEntry t p s.entries, ordered_insertEntry t p s.ordered⟩

/-- Sets the prices of a list one after the other, so that of several at one instant the last
counts. -/
def insertAll (s : Series) (ps : List (Instant × Decimal)) : Series :=
  ps.foldl (fun s e => s.insert e.1 e.2) s

/-- The series of a list of prices, of which the last at each instant counts. -/
def ofList (ps : List (Instant × Decimal)) : Series := empty.insertAll ps

/-- The prices at the instants that pass a test. -/
def filterHours (s : Series) (keep : Instant → Bool) : Series :=
  ⟨s.entries.filter (fun e => keep e.1), s.ordered.sublist List.filter_sublist⟩

/-- The prices from an instant on. They are all there are, unless the first one lies before it. -/
def dropBefore (s : Series) (t : Instant) : Series :=
  if s.firstHour?.any (· < t) then s.filterHours (t ≤ ·) else s

/-- The number of prices at instants that pass a test. -/
def countHours (s : Series) (p : Instant → Bool) : Nat := s.hours.countP p

/-! ## What a series holds -/

theorem lookup_entry (e : Instant × Decimal) (es : List (Instant × Decimal)) (u : Instant) :
    (e :: es).lookup u = if u = e.1 then some e.2 else es.lookup u := by
  rw [show e = (e.1, e.2) from rfl, List.lookup_cons]
  by_cases h : u = e.1
  · simp [h]
  · simp [h, beq_eq_false_iff_ne.2 h]

theorem lookup_eq_none_of_lt {t : Instant} {es : List (Instant × Decimal)}
    (h : ∀ e ∈ es, t < e.1) : es.lookup t = none := by
  induction es with
  | nil => rfl
  | cons e es ih =>
    simp only [List.mem_cons, forall_eq_or_imp] at h
    have hne : t ≠ e.1 := by
      intro he
      exact Instant.lt_irrefl _ (he ▸ h.1)
    rw [lookup_entry, if_neg hne]
    exact ih h.2

theorem lookup_insertEntry {t u : Instant} {p : Decimal} {es : List (Instant × Decimal)}
    (h : es.Pairwise (fun a b => a.1 < b.1)) :
    (insertEntry t p es).lookup u = if u = t then some p else es.lookup u := by
  induction es with
  | nil => rw [insertEntry, lookup_entry]
  | cons e es ih =>
    rw [List.pairwise_cons] at h
    unfold insertEntry
    split
    · rw [lookup_entry]
    · split
      · rename_i hgt
        rw [lookup_entry, lookup_entry, ih h.2]
        by_cases hue : u = e.1
        · have : u ≠ t := by
            intro hut
            rw [← hue, hut] at hgt
            exact Instant.lt_irrefl t hgt
          simp [hue, hue ▸ this]
        · simp [hue]
      · rename_i h₁ h₂
        have he : t = e.1 := Instant.eq_of_not_lt h₁ h₂
        rw [lookup_entry, lookup_entry, ← he]
        by_cases hu : u = t <;> simp [hu]

@[simp] theorem get?_empty (t : Instant) : empty.get? t = none := rfl

theorem get?_insert (s : Series) (t u : Instant) (p : Decimal) :
    (s.insert t p).get? u = if u = t then some p else s.get? u :=
  lookup_insertEntry s.ordered

theorem mem_entries_iff {s : Series} {t : Instant} {p : Decimal} :
    (t, p) ∈ s.entries ↔ s.get? t = some p := by
  obtain ⟨es, h⟩ := s
  simp only [get?]
  induction es with
  | nil => simp
  | cons e es ih =>
    rw [List.pairwise_cons] at h
    rw [List.mem_cons, ih h.2, lookup_entry]
    by_cases he : t = e.1
    · have hn := lookup_eq_none_of_lt (fun a ha => he ▸ h.1 a ha)
      rw [if_pos he, hn]
      constructor
      · rintro (heq | hf)
        · rw [← heq]
        · exact absurd hf (by simp)
      · intro hp
        exact .inl (Prod.ext he (Option.some.inj hp).symm)
    · rw [if_neg he]
      constructor
      · rintro (heq | hm)
        · exact absurd (congrArg Prod.fst heq) he
        · exact hm
      · exact .inr

theorem get?_filterHours (s : Series) (keep : Instant → Bool) (t : Instant) :
    (s.filterHours keep).get? t = if keep t then s.get? t else none := by
  apply Option.ext
  intro p
  rw [← mem_entries_iff]
  simp only [filterHours, List.mem_filter, mem_entries_iff]
  by_cases h : keep t <;> simp [h]

/-- When the first price does not lie before an instant, no price does. -/
theorem dropBefore_eq (s : Series) (t : Instant) : s.dropBefore t = s.filterHours (t ≤ ·) := by
  unfold dropBefore
  split
  · rfl
  · rename_i h
    obtain ⟨es, hes⟩ := s
    cases es with
    | nil => rfl
    | cons e es =>
      have hfirst : t ≤ e.1 := by simpa [firstHour?, Instant.not_lt] using h
      have hall : ∀ a ∈ e :: es, decide (t ≤ a.1) := by
        intro a ha
        rcases List.mem_cons.1 ha with rfl | ha
        · exact decide_eq_true hfirst
        · exact decide_eq_true (Instant.le_of_lt
            (Instant.lt_of_le_of_lt hfirst ((List.pairwise_cons.1 hes).1 a ha)))
      simp only [filterHours, List.filter_eq_self.2 hall]

/-- Two ordered lists that hold the same entries are equal. -/
private theorem eq_of_mem_iff {as bs : List (Instant × Decimal)}
    (ha : as.Pairwise (fun a b => a.1 < b.1)) (hb : bs.Pairwise (fun a b => a.1 < b.1))
    (h : ∀ e, e ∈ as ↔ e ∈ bs) : as = bs := by
  induction as generalizing bs with
  | nil =>
    cases bs with
    | nil => rfl
    | cons b bs => exact absurd ((h b).2 (by simp)) (by simp)
  | cons a as ih =>
    cases bs with
    | nil => exact absurd ((h a).1 (by simp)) (by simp)
    | cons b bs =>
      rw [List.pairwise_cons] at ha hb
      have hab : a = b := by
        rcases List.mem_cons.1 ((h a).1 (by simp)) with h₁ | h₁
        · exact h₁
        · rcases List.mem_cons.1 ((h b).2 (by simp)) with h₂ | h₂
          · exact h₂.symm
          · exact absurd (Instant.lt_trans (hb.1 a h₁) (ha.1 b h₂)) (Instant.lt_irrefl _)
      subst hab
      congr 1
      refine ih ha.2 hb.2 fun e => ⟨fun he => ?_, fun he => ?_⟩
      · rcases List.mem_cons.1 ((h e).1 (by simp [he])) with rfl | h₁
        · exact absurd (ha.1 _ he) (Instant.lt_irrefl _)
        · exact h₁
      · rcases List.mem_cons.1 ((h e).2 (by simp [he])) with rfl | h₁
        · exact absurd (hb.1 _ he) (Instant.lt_irrefl _)
        · exact h₁

/-- A series is determined by what it holds. -/
theorem ext_get? {a b : Series} (h : ∀ t, a.get? t = b.get? t) : a = b := by
  have : a.entries = b.entries :=
    eq_of_mem_iff a.ordered b.ordered fun e => by
      rw [show e = (e.1, e.2) from rfl, mem_entries_iff, mem_entries_iff, h]
  obtain ⟨_, _⟩ := a
  obtain ⟨_, _⟩ := b
  cases this
  rfl

end Series

end HourlyPrices
