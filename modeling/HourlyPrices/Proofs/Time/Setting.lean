import HourlyPrices.Time.Setting

/-!
# Times of day in settings

The patterns of times of day in settings have no fraction of a second, so what is read has whole
seconds or is the start of a leap second (`TimeOfDay.nanos_ofText`).
-/

namespace HourlyPrices

namespace Time

variable {f g : Fields} {cs rest : List Char} {items : List PatternItem}

/-- A part of a pattern that reads a value and then sets a field. -/
theorem eq_set_of_read {α : Type} {x : Except PatternFault (α × List Char)} (set : α → Fields)
    (h : (do let (n, r) ← x; pure (set n, r)) = Except.ok (g, rest)) : ∃ n, g = set n := by
  cases x with
  | error e => cases h
  | ok p =>
    cases h
    exact ⟨p.1, rfl⟩

/-- Only a fraction sets the nanoseconds. -/
theorem readItem_nanos {i : PatternItem} (hi : i ≠ .fraction)
    (h : readItem f cs i = .ok (g, rest)) : g.nanos = f.nanos := by
  cases i with
  | fraction => exact absurd rfl hi
  | year =>
    obtain ⟨n, rfl⟩ := eq_set_of_read (fun n => { f with year := some n }) h
    rfl
  | month =>
    obtain ⟨n, rfl⟩ := eq_set_of_read (fun n => { f with month := some n }) h
    rfl
  | day =>
    obtain ⟨n, rfl⟩ := eq_set_of_read (fun n => { f with day := some n }) h
    rfl
  | hour =>
    obtain ⟨n, rfl⟩ := eq_set_of_read (fun n => { f with hour := some n }) h
    rfl
  | minute =>
    obtain ⟨n, rfl⟩ := eq_set_of_read (fun n => { f with minute := some n }) h
    rfl
  | second =>
    obtain ⟨n, rfl⟩ := eq_set_of_read (fun n => { f with second := some n }) h
    rfl
  | literal c =>
    unfold readItem at h
    cases cs with
    | nil => cases h
    | cons d ds =>
      dsimp only at h
      split at h
      · cases h
        rfl
      · cases h
  | blanks =>
    cases h
    rfl

theorem readItems_nanos (hitems : .fraction ∉ items) (h : readItems f items cs = .ok g) :
    g.nanos = f.nanos := by
  induction items generalizing f cs with
  | nil =>
    cases cs with
    | nil =>
      cases h
      rfl
    | cons _ _ => cases h
  | cons i is ih =>
    rw [List.mem_cons, not_or] at hitems
    rw [readItems] at h
    cases hr : readItem f cs i with
    | error e =>
      rw [hr] at h
      cases h
    | ok p =>
      rw [hr] at h
      exact (ih hitems.2 h).trans (readItem_nanos (Ne.symm hitems.1) hr)

theorem nanos_readTimeOfDay {t : TimeOfDay} (hitems : .fraction ∉ items)
    (h : readTimeOfDay items cs = .ok t) : t.nanos = 0 ∨ t.nanos = nanosPerSecond := by
  unfold readTimeOfDay at h
  cases hr : readItems {} items cs with
  | error e =>
    rw [hr] at h
    cases h
  | ok g =>
    have hnanos : g.nanos = none := readItems_nanos hitems hr
    rw [hr] at h
    change g.timeOfDay = .ok t at h
    unfold Fields.timeOfDay at h
    split at h
    · rw [hnanos, TimeOfDay.ofParts?] at h
      split at h
      · rename_i hparts
        split at hparts
        · cases hparts
          cases h
          simp only [Option.getD_none]
          split <;> simp
        · cases hparts
      · cases h
    · cases h

end Time

/-- A time of day in a setting has whole seconds, or is the start of a leap second. -/
theorem TimeOfDay.nanos_ofText {s : String} {t : TimeOfDay} (h : ofText s = .ok t) :
    t.nanos = 0 ∨ t.nanos = nanosPerSecond := by
  unfold ofText at h
  split at h
  · rename_i hr
    cases h
    exact Time.nanos_readTimeOfDay (by decide) hr
  · split at h
    · rename_i hr
      cases h
      exact Time.nanos_readTimeOfDay (by decide) hr
    · cases h

end HourlyPrices
