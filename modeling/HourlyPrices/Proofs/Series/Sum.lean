import HourlyPrices.Service.Query

/-!
# Sums of series

The sum of some series has a price at each hour at which one of them has one: the sum of those that
there are (`Series.total_eq_ok_iff`). A series without a price at an hour counts for nothing there.
Prices are added in order, and there is no sum of series when one at any hour overflows.
-/

namespace HourlyPrices

open Decimal

/-- Prices added one after the other to a first one. -/
def Decimal.sumFrom? (p : Decimal) (ps : List Decimal) : Option Decimal := ps.foldlM add? p

/-- The sum of some prices. -/
def Decimal.sum? (ps : List Decimal) : Option Decimal := sumFrom? .zero ps

namespace Series

variable {s t : Series} {ss : List Series} {h : Instant}

theorem isEmpty_iff : s.isEmpty ↔ s = empty := by
  obtain ⟨es, hes⟩ := s
  cases es with
  | nil => exact iff_of_true rfl rfl
  | cons e es => exact iff_of_false (by simp [isEmpty]) (fun he => by cases he)

/-! ## One series added to another -/

/-- The price at an hour when one is added to what is there, with none where it overflows. -/
def plus? (x : Option Decimal) : Option Decimal → Option (Option Decimal)
  | none => some x
  | some p => ((x.getD .zero).add? p).map some

theorem addAll_nil (s : Series) : s.addAll [] = .ok s := rfl

theorem addAll_cons (s : Series) (e : Instant × Decimal) (es : List (Instant × Decimal)) :
    s.addAll (e :: es) = match ((s.get? e.1).getD .zero).add? e.2 with
      | none => .error .decimal
      | some q => (s.insert e.1 q).addAll es := by
  simp only [addAll, List.foldlM_cons]
  cases ((s.get? e.1).getD .zero).add? e.2 <;> rfl

/-- The prices of an ordered list are added hour by hour. -/
theorem addAll_eq_ok_iff {es : List (Instant × Decimal)}
    (hes : es.Pairwise (fun a b => a.1 < b.1)) :
    s.addAll es = .ok t ↔ ∀ u, plus? (s.get? u) (es.lookup u) = some (t.get? u) := by
  induction es generalizing s with
  | nil =>
    simp only [addAll_nil, Except.ok.injEq, List.lookup_nil, plus?, Option.some.injEq]
    exact ⟨fun he u => he ▸ rfl, ext_get?⟩
  | cons e es ih =>
    obtain ⟨he, hes⟩ := List.pairwise_cons.1 hes
    have hnone := lookup_eq_none_of_lt he
    rw [addAll_cons]
    cases hq : ((s.get? e.1).getD .zero).add? e.2 with
    | none =>
      refine iff_of_false (fun hf => by cases hf) fun hall => ?_
      have hfirst := hall e.1
      rw [lookup_entry, if_pos rfl, plus?, hq] at hfirst
      cases hfirst
    | some q =>
      simp only [ih hes]
      refine forall_congr' fun u => ?_
      rw [get?_insert, lookup_entry]
      by_cases hu : u = e.1
      · rw [if_pos hu, if_pos hu, hu, hnone, plus?, plus?, hq]
        rfl
      · rw [if_neg hu, if_neg hu]

/-- A series can be added to another unless their sum overflows at some hour. -/
theorem exists_addAll_iff {es : List (Instant × Decimal)}
    (hes : es.Pairwise (fun a b => a.1 < b.1)) :
    (∃ t, s.addAll es = .ok t) ↔ ∀ u, (plus? (s.get? u) (es.lookup u)).isSome := by
  constructor
  · rintro ⟨t, ht⟩ u
    rw [(addAll_eq_ok_iff hes).1 ht u]
    rfl
  · intro hall
    induction es generalizing s with
    | nil => exact ⟨s, rfl⟩
    | cons e es ih =>
      obtain ⟨he, hes⟩ := List.pairwise_cons.1 hes
      have hnone := lookup_eq_none_of_lt he
      have hfirst := hall e.1
      rw [lookup_entry, if_pos rfl, plus?, Option.isSome_map] at hfirst
      obtain ⟨q, hq⟩ := Option.isSome_iff_exists.1 hfirst
      rw [addAll_cons, hq]
      refine ih hes fun u => ?_
      rw [get?_insert]
      split
      · rename_i hu
        rw [hu, hnone]
        rfl
      · rename_i hu
        simpa [lookup_entry, hu] using hall u

/-! ## All series together -/

/-- Some series added one after the other to a first one. -/
def totalFrom (s : Series) (ss : List Series) : Except Overflow Series :=
  ss.foldlM (fun total s => total.addAll s.entries) s

/-- The sum of some series. -/
def total (ss : List Series) : Except Overflow Series := totalFrom empty ss

/-- The prices that some series have at an hour. -/
def pricesAt (ss : List Series) (h : Instant) : List Decimal := ss.filterMap (·.get? h)

/-- What is there at an hour when the prices of some series have been added to it. -/
def sumAt? (x : Option Decimal) : List Decimal → Option (Option Decimal)
  | [] => some x
  | p :: ps => (sumFrom? (x.getD .zero) (p :: ps)).map some

theorem totalFrom_cons (s u : Series) (ss : List Series) :
    totalFrom s (u :: ss) = (s.addAll u.entries).bind (totalFrom · ss) := rfl

/-- To add one series more at the front is to add its price first. -/
theorem sumAt?_pricesAt_cons (x : Option Decimal) (u : Series) (ss : List Series) (h : Instant) :
    sumAt? x (pricesAt (u :: ss) h) =
      (plus? x (u.get? h)).bind (sumAt? · (pricesAt ss h)) := by
  rw [pricesAt, List.filterMap_cons]
  cases u.get? h with
  | none => rfl
  | some p =>
    simp only [sumAt?, sumFrom?, List.foldlM_cons, plus?]
    change _ = ((((x.getD .zero).add? p).map some).bind (sumAt? · (pricesAt ss h)))
    cases (x.getD .zero).add? p with
    | none => rfl
    | some q =>
      cases hps : pricesAt ss h with
      | nil => simp [sumAt?, show ss.filterMap (·.get? h) = [] from hps]
      | cons p' ps => simp [sumAt?, sumFrom?, show ss.filterMap (·.get? h) = p' :: ps from hps]

theorem totalFrom_eq_ok_iff :
    totalFrom s ss = .ok t ↔ ∀ h, sumAt? (s.get? h) (pricesAt ss h) = some (t.get? h) := by
  induction ss generalizing s with
  | nil =>
    change Except.ok s = .ok t ↔ ∀ h, some (s.get? h) = some (t.get? h)
    simp only [Except.ok.injEq, Option.some.injEq]
    exact ⟨fun he u => he ▸ rfl, ext_get?⟩
  | cons u ss ih =>
    simp only [sumAt?_pricesAt_cons, totalFrom_cons]
    cases ha : s.addAll u.entries with
    | ok s' =>
      have hplus := (addAll_eq_ok_iff u.ordered).1 ha
      simp only [get?, Except.bind] at hplus ⊢
      rw [ih]
      exact forall_congr' fun h => by rw [hplus h]; rfl
    | error o =>
      apply iff_of_false
      · intro hf
        cases hf
      · intro hall
        -- If each hour has a sum with the prices of the rest, it has one without them.
        have hplus : ∀ h, (plus? (s.get? h) (u.get? h)).isSome := by
          intro h
          have hh := hall h
          cases hp : plus? (s.get? h) (u.get? h) with
          | none => simp [hp] at hh
          | some y => rfl
        obtain ⟨s', hs'⟩ := (exists_addAll_iff u.ordered).2 hplus
        rw [ha] at hs'
        cases hs'

/-- Series can be added to a first one unless their sum overflows at some hour. -/
theorem exists_totalFrom_iff :
    (∃ t, totalFrom s ss = .ok t) ↔ ∀ h, (sumAt? (s.get? h) (pricesAt ss h)).isSome := by
  constructor
  · rintro ⟨t, ht⟩ h
    rw [totalFrom_eq_ok_iff.1 ht h]
    rfl
  · intro hall
    induction ss generalizing s with
    | nil => exact ⟨s, rfl⟩
    | cons u ss ih =>
      simp only [sumAt?_pricesAt_cons, Option.isSome_bind, Option.any_eq_true] at hall
      have hplus : ∀ h, (plus? (s.get? h) (u.get? h)).isSome := by
        intro h
        obtain ⟨x, hx, -⟩ := hall h
        rw [hx]
        rfl
      obtain ⟨s', hs'⟩ := (exists_addAll_iff u.ordered).2 hplus
      rw [totalFrom_cons, hs']
      refine ih fun h => ?_
      obtain ⟨x, hx, hrest⟩ := hall h
      obtain rfl : s'.get? h = x :=
        Option.some.inj (((addAll_eq_ok_iff u.ordered).1 hs' h).symm.trans hx)
      exact hrest

/-- A series is the sum of others when it has a price where one of them has one, and that is the sum
of the prices that they have there. -/
structure IsSum (ss : List Series) (t : Series) : Prop where
  priced : ∀ h, (t.get? h).isSome ↔ ∃ s ∈ ss, (s.get? h).isSome
  price : ∀ h p, t.get? h = some p → sum? (pricesAt ss h) = some p

theorem pricesAt_eq_nil_iff : pricesAt ss h = [] ↔ ∀ s ∈ ss, s.get? h = none :=
  List.filterMap_eq_nil_iff

theorem sumAt?_none_eq_some_iff {x : Option Decimal} : sumAt? none (pricesAt ss h) = some x ↔
    (x.isSome ↔ ∃ s ∈ ss, (s.get? h).isSome) ∧ ∀ p, x = some p → sum? (pricesAt ss h) = some p := by
  have hnil : (∃ s ∈ ss, (s.get? h).isSome) ↔ pricesAt ss h ≠ [] := by
    simp [pricesAt_eq_nil_iff, Option.isSome_iff_ne_none]
  rw [hnil]
  cases pricesAt ss h with
  | nil => cases x <;> simp [sumAt?]
  | cons p ps =>
    change (sum? (p :: ps)).map some = some x ↔ _
    cases x <;> simp

theorem total_eq_ok_iff : total ss = .ok t ↔ IsSum ss t := by
  rw [total, totalFrom_eq_ok_iff]
  simp only [get?_empty, sumAt?_none_eq_some_iff, forall_and]
  constructor
  · rintro ⟨hpriced, hprice⟩
    exact ⟨hpriced, hprice⟩
  · intro h
    exact ⟨h.priced, h.price⟩

/-- Some series have a sum unless their prices overflow at some hour. -/
theorem exists_isSum_iff : (∃ t, IsSum ss t) ↔ ∀ h, (sum? (pricesAt ss h)).isSome := by
  simp only [← total_eq_ok_iff, total, exists_totalFrom_iff, get?_empty]
  refine forall_congr' fun h => ?_
  cases pricesAt ss h with
  | nil => simp [sumAt?, sum?, sumFrom?]
  | cons p ps => simp [sumAt?, sum?]

end Series

end HourlyPrices
