import HourlyPrices.Config.Basic

/-!
# Valid configurations

What the rules of a configuration say of one that keeps them all, and that each of them is broken by
a fault of the configuration (`FailsByConfiguration.validate`).
-/

namespace HourlyPrices

theorem exists_of_bind_eq_ok {ε α β : Type} {x : Except ε α} {f : α → Except ε β} {b : β}
    (h : (x >>= f) = .ok b) : ∃ a, x = .ok a ∧ f a = .ok b := by
  cases x with
  | error e => cases h
  | ok a => exact ⟨a, rfl, h⟩

namespace Config

variable {c : Config} {holds : Bool} {field message : String} {u : Unit}

theorem of_require (h : require holds field message = .ok u) : holds := by
  unfold require at h
  split at h
  · assumption
  · cases h

theorem ne_zero_of_forM {ds : List (String × Nat)}
    (h : (ds.forM fun (field, value) => require (value != 0) field message) = .ok u) :
    ∀ d ∈ ds, d.2 ≠ 0 := by
  induction ds with
  | nil => simp
  | cons d ds ih =>
    obtain ⟨_, hd, hds⟩ := exists_of_bind_eq_ok h
    exact List.forall_mem_cons.2 ⟨by simpa using of_require hd, ih hds⟩

/-- What a valid configuration says of the time of publication and of delays. -/
theorem rules_of_valid (h : c.validate = .ok ()) :
    (∃ time, c.retry.publicationTime = .ok time) ∧ (∀ d ∈ c.delays, d.2 ≠ 0) ∧
      c.retry.failureMinimumDelay ≤ c.retry.failureMaximumDelay := by
  unfold validate at h
  obtain ⟨_, -, h⟩ := exists_of_bind_eq_ok h
  obtain ⟨_, -, h⟩ := exists_of_bind_eq_ok h
  obtain ⟨_, -, h⟩ := exists_of_bind_eq_ok h
  obtain ⟨_, -, h⟩ := exists_of_bind_eq_ok h
  obtain ⟨time, htime, h⟩ := exists_of_bind_eq_ok h
  obtain ⟨_, hdelays, h⟩ := exists_of_bind_eq_ok h
  obtain ⟨_, hle, -⟩ := exists_of_bind_eq_ok h
  exact ⟨⟨time, htime⟩, ne_zero_of_forM hdelays, of_decide_eq_true (of_require hle)⟩

end Config

/-! ## Broken rules -/

/-- If there is no value, the configuration is to blame. -/
def FailsByConfiguration {α : Type} (x : Except Fault α) : Prop :=
  ∀ f, x = .error f → f.kind = .configuration

namespace FailsByConfiguration

variable {α β : Type}

theorem ok (a : α) : FailsByConfiguration (.ok a) := fun _ hf => by cases hf

theorem validation (field message : String) :
    FailsByConfiguration (.error (.validation field message) : Except Fault α) := by
  intro f hf
  cases hf
  rfl

theorem bind {x : Except Fault α} {next : α → Except Fault β} (hx : FailsByConfiguration x)
    (hnext : ∀ a, FailsByConfiguration (next a)) : FailsByConfiguration (x >>= next) := by
  cases x with
  | error f =>
    intro g hg
    cases hg
    exact hx f rfl
  | ok a => exact hnext a

theorem require (holds : Bool) (field message : String) :
    FailsByConfiguration (Config.require holds field message) := by
  unfold Config.require
  split
  · exact ok _
  · exact validation _ _

theorem checkGln (field value : String) :
    FailsByConfiguration (Config.checkGln field value) := by
  unfold Config.checkGln
  split
  · exact ok _
  · exact validation _ _

theorem localZone (c : Config) : FailsByConfiguration c.localZone := by
  unfold Config.localZone Zone.ofText
  split
  · exact ok _
  · exact validation _ _

theorem publicationTime (r : RetrySettings) : FailsByConfiguration r.publicationTime := by
  unfold RetrySettings.publicationTime TimeOfDay.ofText
  split
  · exact ok _
  · split
    · exact ok _
    · exact validation _ _

theorem forM {check : α → Except Fault Unit} (h : ∀ a, FailsByConfiguration (check a))
    (as : List α) : FailsByConfiguration (as.forM check) := by
  induction as with
  | nil => exact ok _
  | cons a as ih => exact (h a).bind fun _ => ih

/-- Every rule of the configuration is broken by a fault of the configuration. -/
theorem validate (c : Config) : FailsByConfiguration c.validate :=
  (require _ _ _).bind fun _ => (checkGln _ _).bind fun _ => (checkGln _ _).bind fun _ =>
    (localZone c).bind fun _ => (publicationTime c.retry).bind fun _ =>
      (forM (fun _ => require _ _ _) _).bind fun _ => (require _ _ _).bind fun _ =>
        (require _ _ _).bind fun _ => require _ _ _

end FailsByConfiguration

end HourlyPrices
