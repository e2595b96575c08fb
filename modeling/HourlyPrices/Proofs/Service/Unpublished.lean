import HourlyPrices.Proofs.Service.Cycle
import HourlyPrices.Proofs.Service.Serving

/-!
# Parts that publish nothing

Downloads, queries and the downloads of a cycle request records and log, and leave all publishing to
the end of a cycle and to ticks.
-/

namespace HourlyPrices

open Activity

namespace Effect

/-- An effect other than a publication. -/
def Unpublished (x : Effect) : Prop := ∀ p, x ≠ publication p

theorem unpublished_request (r : Request) : (request r).Unpublished := nofun

theorem unpublished_log (e : LogEvent) : (log e).Unpublished := nofun

end Effect

open Effect

theorem Download.emits_component (c : Config) (k : Component) :
    (Download.component c k).Emits Unpublished := by
  unfold component
  split
  · unfold spot
    apply Emits.cached_bind
    intro d
    apply Emits.view_bind
    intro v
    apply Emits.lift_bind
    intro history
    apply Emits.ask_bind (unpublished_request _)
    intro answer
    cases answer with
    | error f => exact .pure _
    | ok records =>
      apply Emits.lift_bind
      intro received
      apply Emits.view_bind
      intro v
      apply Emits.cached_bind
      intro d
      exact Emits.log_bind (unpublished_log _) (Emits.store_bind (.pure _))
  · unfold tariff
    split
    · exact Emits.log_bind (unpublished_log _) (.pure _)
    · apply Emits.view_bind
      intro v
      apply Emits.ask_bind (unpublished_request _)
      intro answer
      cases answer with
      | error f => exact .pure _
      | ok records =>
        apply Emits.log_bind (unpublished_log _)
        apply Emits.cached_bind
        intro d
        exact Emits.store_bind (.pure _)

namespace Query

theorem emits_series (c : Config) (k : Component) : (series c k).Emits Unpublished := by
  unfold series
  apply Emits.cached_bind
  intro d
  dsimp only
  split
  · apply (Download.emits_component c k).bind
    intro answer
    cases answer with
    | ok n =>
      apply Emits.cached_bind
      intro e
      apply Emits.view_bind
      intro v
      apply Emits.lift_bind
      intro e'
      exact Emits.store_bind (Emits.cached_bind fun _ => .pure _)
    | error f => exact Emits.log_bind (unpublished_log _) (Emits.cached_bind fun _ => .pure _)
  · exact Emits.cached_bind fun _ => .pure _

theorem emits_sumFrom (c : Config) (total : Series) (ks : List Component) :
    (sumFrom c total ks).Emits Unpublished := by
  induction ks generalizing total with
  | nil => exact .pure _
  | cons k ks ih =>
    rw [sumFrom]
    apply (emits_series c k).bind
    intro s
    apply Emits.lift_bind
    intro total'
    exact ih total'

theorem emits_sum (c : Config) (ks : List Component) : (sum c ks).Emits Unpublished := by
  unfold sum
  split
  · exact Emits.log_bind (unpublished_log _) (.pure _)
  · exact emits_sumFrom c .empty ks

theorem emits_sumNamed (c : Config) (names : String) : (sumNamed c names).Emits Unpublished := by
  unfold sumNamed
  split
  · exact emits_sum c _
  · split
    · exact emits_sum c _
    · exact Emits.log_bind (unpublished_log _) (.pure _)

theorem emits_cost (c : Config) (start stop : Instant) (watts : Decimal) :
    (cost c start stop watts).Emits Unpublished := by
  unfold cost
  apply (emits_sum c _).bind
  intro prices
  apply Emits.lift_bind
  intro amount
  dsimp only
  split
  · exact Emits.emit_bind (unpublished_log _) (.pure _)
  · exact .pure _

end Query

theorem Question.emits_result (c : Config) (q : Question) : (q.result c).Emits Unpublished := by
  cases q with
  | series k => exact (Query.emits_series c k).bind fun _ => .pure _
  | sum ks => exact (Query.emits_sum c ks).bind fun _ => .pure _
  | sumNamed names => exact (Query.emits_sumNamed c names).bind fun _ => .pure _
  | cost start stop watts => exact (Query.emits_cost c start stop watts).bind fun _ => .pure _

namespace Cycle

theorem emits_attempt (c : Config) (context : LogContext) (k : Component) :
    (attempt c context k).Emits Unpublished := by
  unfold attempt
  apply Emits.view_bind
  intro v
  dsimp only
  split
  · exact .pure _
  · apply Emits.cached_bind
    intro d
    apply Emits.lift_bind
    intro due
    split
    · exact Emits.log_bind (unpublished_log _) (.pure _)
    · apply (Download.emits_component c k).bind
      intro answer
      cases answer with
      | ok n => exact Emits.log_bind (unpublished_log _) (.pure _)
      | error f => exact Emits.log_bind (unpublished_log _) (.pure _)

theorem emits_downloads (c : Config) (context : LogContext) (ks : List Component) :
    (downloads c context ks).Emits Unpublished := by
  induction ks with
  | nil => exact .pure _
  | cons k ks ih =>
    rw [downloads_cons]
    exact (emits_attempt c context k).bind fun _ => ih.bind fun _ => .pure _

theorem emits_download (c : Config) (context : LogContext) :
    (download c context).Emits Unpublished := by
  unfold download
  split
  · exact .pure _
  · exact (emits_downloads c context _).bind fun _ => .pure _

theorem emits_noteFault (context : LogContext) (result : Except Fault Unit) :
    (noteFault context result).Emits Unpublished := by
  cases result with
  | ok _ => exact .pure _
  | error f => exact Emits.log_bind (unpublished_log _) (.pure _)

theorem emits_noteShortage (c : Config) (result : Except Fault Unit) (d : Cache) (v : View) :
    (noteShortage c result d v).Emits Unpublished := by
  unfold noteShortage
  split
  · exact Emits.log_bind (unpublished_log _) (.pure _)
  · exact .pure _

end Cycle

end HourlyPrices
