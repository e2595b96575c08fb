import HourlyPrices.Proofs.Zone.Offsets
import Mathlib.Data.List.Chain

/-!
# Transitions

Each change of an offset table replaces the offset before it, and the two together are a
transition. At a transition forward the clock leaves out a stretch of the wall, its gap; a second
that is never shown lies in the gap of some transition (`OffsetTable.exists_transitionFrom`). The
tables of the named zones change at most once an hour, and they never go back into an earlier day
(`Zone.regular`), so local days follow each other in every zone (`Zone.dayAt_le_dayAt`).
-/

namespace HourlyPrices

/-- From the second `since` of UTC on, clocks show another offset than before. -/
structure Transition where
  since : Int
  before : Int
  after : Int
  deriving DecidableEq

namespace Transition

/-- The second of the wall at which the clock is put to another. -/
def leaves (x : Transition) : Int := x.since + x.before

/-- The second of the wall to which the clock is put. -/
def resumes (x : Transition) : Int := x.since + x.after

/-- The clock is not put back into an earlier day. -/
def KeepsDay (x : Transition) : Prop :=
  (x.leaves - 1) / secondsPerDay ≤ x.resumes / secondsPerDay

instance (x : Transition) : Decidable x.KeepsDay := inferInstanceAs (Decidable (_ ≤ _))

end Transition

namespace OffsetTable

variable {z : OffsetTable} {cs : List OffsetChange} {x : Transition} {o l s t : Int}

/-- The transitions of some changes, where `o` is in force before them. -/
def transitionsFrom (o : Int) : List OffsetChange → List Transition
  | [] => []
  | c :: cs => ⟨c.since, o, c.offset⟩ :: transitionsFrom c.offset cs

/-- The transitions of a table, in the order of time. -/
def transitions (z : OffsetTable) : List Transition := transitionsFrom z.initial z.changes

/-- The second of two changes comes an hour after the first, or later. -/
def Spaced (a b : OffsetChange) : Prop := a.since + secondsPerHour ≤ b.since

instance (a b : OffsetChange) : Decidable (Spaced a b) := inferInstanceAs (Decidable (_ ≤ _))

/-- The changes of a table come in order and at most once an hour, and none puts the clock back into
an earlier day. -/
structure Regular (z : OffsetTable) : Prop where
  spaced : z.changes.Pairwise Spaced
  keepsDay : ∀ x ∈ z.transitions, x.KeepsDay

theorem Spaced.lt {a b : OffsetChange} (h : Spaced a b) : a.since < b.since := by
  simp only [Spaced, secondsPerHour] at h
  omega

theorem Regular.sorted (h : z.Regular) : z.Sorted := h.spaced.imp Spaced.lt

theorem offsetFrom_of_forall_lt (h : ∀ c ∈ cs, s < c.since) : offsetFrom o cs s = o := by
  cases cs with
  | nil => rfl
  | cons c cs => exact offsetFrom_cons_of_lt (h c List.mem_cons_self)

theorem exists_change_of_transition (hx : x ∈ transitionsFrom o cs) :
    ∃ c ∈ cs, x.since = c.since := by
  induction cs generalizing o with
  | nil => cases hx
  | cons c cs ih =>
    rcases List.mem_cons.1 hx with rfl | hx
    · exact ⟨c, List.mem_cons_self, rfl⟩
    · obtain ⟨d, hd, hsince⟩ := ih hx
      exact ⟨d, List.mem_cons_of_mem _ hd, hsince⟩

/-- For an hour after a transition its offset is in force. -/
theorem offsetFrom_of_transition (hcs : cs.Pairwise Spaced) (hx : x ∈ transitionsFrom o cs)
    (hfrom : x.since ≤ s) (hto : s < x.since + secondsPerHour) : offsetFrom o cs s = x.after := by
  induction cs generalizing o with
  | nil => cases hx
  | cons c cs ih =>
    obtain ⟨hc, hcs⟩ := List.pairwise_cons.1 hcs
    rcases List.mem_cons.1 hx with rfl | hx
    · rw [offsetFrom_cons_of_le hfrom]
      exact offsetFrom_of_forall_lt fun d hd => Int.lt_of_lt_of_le hto (hc d hd)
    · obtain ⟨d, hd, hsince⟩ := exists_change_of_transition hx
      rw [offsetFrom_cons_of_le (Int.le_trans (Int.le_of_lt (hc d hd).lt) (hsince ▸ hfrom))]
      exact ih hcs hx

/-- A second that the clock never shows lies in the gap of a transition. -/
theorem exists_transitionFrom (hcs : cs.Pairwise Spaced) (h : ∀ s, s + offsetFrom o cs s ≠ l) :
    ∃ x ∈ transitionsFrom o cs, x.leaves ≤ l ∧ l < x.resumes := by
  induction cs generalizing o with
  | nil => exact absurd (Int.sub_add_cancel l o) (h (l - o))
  | cons c cs ih =>
    obtain ⟨hc, hcs⟩ := List.pairwise_cons.1 hcs
    have hleaves : c.since + o ≤ l := by
      by_contra hlt
      have := h (l - o)
      rw [offsetFrom_cons_of_lt (by omega)] at this
      omega
    rcases Int.lt_or_le l (c.since + c.offset) with hgap | hresumes
    · exact ⟨_, List.mem_cons_self, hleaves, hgap⟩
    · obtain ⟨x, hx, hl⟩ := ih (o := c.offset) hcs fun s => by
        rcases Int.lt_or_le s c.since with hs | hs
        · rw [offsetFrom_of_forall_lt fun d hd => Int.lt_trans hs (hc d hd).lt]
          omega
        · rw [← offsetFrom_cons_of_le hs]
          exact h s
      exact ⟨x, List.mem_cons_of_mem _ hx, hl⟩

/-- The day on the wall does not go back. -/
theorem day_mono (hcs : cs.Pairwise Spaced) (hdays : ∀ x ∈ transitionsFrom o cs, x.KeepsDay)
    (h : s ≤ t) :
    (s + offsetFrom o cs s) / secondsPerDay ≤ (t + offsetFrom o cs t) / secondsPerDay := by
  induction cs generalizing o s with
  | nil => exact Int.ediv_le_ediv (by decide) (Int.add_le_add_right h o)
  | cons c cs ih =>
    obtain ⟨hc, hcs⟩ := List.pairwise_cons.1 hcs
    obtain ⟨hday, hdays⟩ := List.forall_mem_cons.1 hdays
    rcases Int.lt_or_le t c.since with ht | ht
    · rw [offsetFrom_cons_of_lt ht, offsetFrom_cons_of_lt (Int.lt_of_le_of_lt h ht)]
      exact Int.ediv_le_ediv (by decide) (Int.add_le_add_right h o)
    rw [offsetFrom_cons_of_le ht]
    rcases Int.lt_or_le s c.since with hs | hs
    · -- Up to the transition one offset is in force, and it does not put the clock back a day.
      calc (s + offsetFrom o (c :: cs) s) / secondsPerDay
          = (s + o) / secondsPerDay := by rw [offsetFrom_cons_of_lt hs]
        _ ≤ (c.since + o - 1) / secondsPerDay := Int.ediv_le_ediv (by decide) (by omega)
        _ ≤ (c.since + c.offset) / secondsPerDay := hday
        _ = (c.since + offsetFrom c.offset cs c.since) / secondsPerDay := by
          rw [offsetFrom_of_forall_lt fun d hd => (hc d hd).lt]
        _ ≤ (t + offsetFrom c.offset cs t) / secondsPerDay := ih hcs hdays ht
    · rw [offsetFrom_cons_of_le hs]
      exact ih hcs hdays h

/-- The tables of the named zones. -/
def named : List OffsetTable :=
  [centralEurope, fixed 0, easternAmerica, india, lordHowe, saoPaulo, apia, fixed (-3600)]

theorem regular_of_mem_named : ∀ y ∈ named, y.Regular := by
  have hchain : ∀ y ∈ named, y.changes.IsChain Spaced := by decide +kernel
  have hdays : ∀ y ∈ named, ∀ x ∈ y.transitions, x.KeepsDay := by decide +kernel
  have : IsTrans OffsetChange Spaced := ⟨fun a b c hab hbc => by
    simp only [Spaced, secondsPerHour] at *
    omega⟩
  exact fun y hy => ⟨(hchain y hy).pairwise, hdays y hy⟩

end OffsetTable

namespace Zone

variable {z : Zone} {t u : Instant}

theorem table_mem_named (z : Zone) : z.table ∈ OffsetTable.named := by
  cases z <;> simp [table, OffsetTable.named]

theorem regular (z : Zone) : z.table.Regular := OffsetTable.regular_of_mem_named _ z.table_mem_named

theorem sorted (z : Zone) : z.table.Sorted := z.regular.sorted

theorem dayAt_le_of_seconds_le (z : Zone) (h : t.seconds ≤ u.seconds) : z.dayAt t ≤ z.dayAt u :=
  OffsetTable.day_mono z.regular.spaced z.regular.keepsDay h

/-- Local days follow each other in the order of time. -/
theorem dayAt_le_dayAt (z : Zone) (h : t ≤ u) : z.dayAt t ≤ z.dayAt u := by
  refine z.dayAt_le_of_seconds_le ?_
  rw [Instant.le_def] at h
  omega

end Zone

end HourlyPrices
