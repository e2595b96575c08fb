import HourlyPrices.Dataset.Client
import HourlyPrices.Proofs.Cache.Coverage
import HourlyPrices.Proofs.Service.Downloads

/-!
# What a download of spot prices leaves

After a download of spot prices there are prices at the hours of the records that have one, and at
past hours that were kept (`Download.mem_hours_spotSeries`). An answer of the server is refused when
it announces or has no records; one that does have records replaces the series, also when none of
them has a price (`Download.spot_download_of_answer`).
-/

namespace HourlyPrices

open Activity

variable {c : Config} {v : View} {source : Source} {d : Cache} {t now : Instant}

namespace SpotRecord

variable {records : List SpotRecord} {currency : Currency} {s : Series}

theorem mem_hours_seriesPerKwh (hs : seriesPerKwh records currency = .ok s) :
    t ∈ s.hours ↔ t ∈ pricedHours records currency := by
  rw [seriesPerKwh_eq] at hs
  cases hs
  rw [mem_hours_ofList, mem_pricedHours]

end SpotRecord

/-! ## Answers of the server -/

deriving instance DecidableEq for Envelope

/-- An answer announces records and has some, which may all be `null`. -/
def Envelope.Announces {α : Type} (e : Envelope α) : Prop := e.total ≠ 0 ∧ e.records ≠ []

/-- The client gets a response to its request for spot prices. -/
structure Client.Receives (cl : Client) (q : SpotQuery) (r : Http.Response) : Prop where
  addressed : (Http.target? (cl.address "Elspotprices") q.parameters).isSome
  waits : cl.waits
  final : r.isFinal

namespace Client

variable {cl : Client} {q : SpotQuery} {r : Http.Response}

/-- What a response to a request for spot prices holds. -/
def spotAnswer (r : Http.Response) : Except Fault (Envelope SpotRecord) :=
  (body r).bind (Envelope.ofBody SpotRecord.ofJson?)

theorem Receives.fetch_result (h : cl.Receives q r) (now : Instant) :
    (cl.fetch now "Elspotprices" q.parameters (.response r)).result = body r := by
  obtain ⟨target, htarget⟩ := Option.isSome_iff_exists.1 h.addressed
  simp only [fetch, htarget, response, h.waits, h.final]
  rfl

theorem Receives.fetchSpot_result (h : cl.Receives q r) (now : Instant) :
    (cl.fetchSpot now q (.response r)).result = (spotAnswer r).bind fun e =>
      if e.total = 0 ∨ e.records.isEmpty then .error (.empty "No records") else .ok e.present := by
  simp only [fetchSpot, h.fetch_result now, spotAnswer]
  cases body r <;> rfl

theorem Receives.fetchSpot_of_fault (h : cl.Receives q r) {f : Fault}
    (hr : spotAnswer r = .error f) (now : Instant) :
    (cl.fetchSpot now q (.response r)).result = .error f := by
  rw [h.fetchSpot_result, hr]
  rfl

theorem Receives.fetchSpot_of_announces (h : cl.Receives q r) {e : Envelope SpotRecord}
    (hr : spotAnswer r = .ok e) (he : e.Announces) (now : Instant) :
    (cl.fetchSpot now q (.response r)).result = .ok e.present := by
  rw [h.fetchSpot_result, hr]
  exact if_neg (by simpa [Envelope.Announces] using he)

theorem Receives.fetchSpot_of_not_announces (h : cl.Receives q r) {e : Envelope SpotRecord}
    (hr : spotAnswer r = .ok e) (he : ¬ e.Announces) (now : Instant) :
    (cl.fetchSpot now q (.response r)).result = .error (.empty "No records") := by
  rw [h.fetchSpot_result, hr]
  exact if_pos (by simpa [Envelope.Announces, or_iff_not_imp_left] using he)

end Client

/-! ## The download -/

namespace Download

/-- Past hours stay when they are kept and have not been asked for. -/
theorem mem_hours_spotSeries {history : Bool} {received cached : Series} :
    t ∈ (spotSeries c history now received cached).hours ↔ t ∈ received.hours ∨
      (c.cache.keepHistoricSpot ∧ history = false ∧ t < now.hourStart ∧ t ∈ cached.hours) := by
  unfold spotSeries
  split
  · rename_i hkeep
    rw [Series.withPast, Series.mem_hours_insertAll, Series.mem_hours_filterHours]
    simp only [Bool.and_eq_true, Bool.not_eq_true'] at hkeep
    simp [hkeep, Series.hours, or_comm]
  · rename_i hkeep
    have hgone : ¬ (c.cache.keepHistoricSpot ∧ history = false) := by simpa using hkeep
    simp [← and_assoc, hgone]

variable {history : Bool} {records : List SpotRecord}

/-- A download that begins with a cache comes to a fault, and the cache stays as it is. -/
structure Refused (o : Outcome (Except Fault Nat)) (d : Cache) (f : Fault) : Prop where
  value : o.value = .ok (.error f)
  cache : o.cache = d

theorem refused_of_fault (hhistory : c.wantsHistory d v.now = .ok history) {f : Fault}
    (hanswer : source (.spot (c.spotQuery history)) = .error f) :
    Refused (run v source (component c .spotPrice) d) d f := by
  rw [component, if_pos rfl, run_spot, hhistory]
  dsimp only
  rw [hanswer]
  exact ⟨rfl, rfl⟩

theorem run_spotPrice_of_records (hhistory : c.wantsHistory d v.now = .ok history)
    (hanswer : source (.spot (c.spotQuery history)) = .ok records) :
    (run v source (component c .spotPrice) d).value = .ok (.ok records.length) ∧
      ∃ received, SpotRecord.seriesPerKwh records c.service.currency = .ok received ∧
        (run v source (component c .spotPrice) d).cache =
          d.put .spotPrice (spotSeries c history v.now received (d.get .spotPrice)) := by
  obtain ⟨received, hreceived⟩ := SpotRecord.exists_seriesPerKwh records c.service.currency
  rw [component, if_pos rfl, run_spot, hhistory]
  dsimp only
  rw [hanswer]
  dsimp only
  rw [hreceived]
  exact ⟨rfl, received, rfl, rfl⟩

/-- Past hours that a download of spot prices leaves. -/
def KeepsPast (c : Config) (history : Bool) (now : Instant) (s : Series) (t : Instant) : Prop :=
  c.cache.keepHistoricSpot ∧ history = false ∧ t < now.hourStart ∧ t ∈ s.hours

/-- The hours that there are after a download of spot prices. -/
theorem mem_hours_run_spotPrice (hhistory : c.wantsHistory d v.now = .ok history)
    (hanswer : source (.spot (c.spotQuery history)) = .ok records) :
    t ∈ ((run v source (component c .spotPrice) d).cache.get .spotPrice).hours ↔
      t ∈ SpotRecord.pricedHours records c.service.currency ∨
        KeepsPast c history v.now (d.get .spotPrice) t := by
  obtain ⟨-, received, hreceived, hcache⟩ := run_spotPrice_of_records hhistory hanswer
  rw [hcache, Cache.get_put_self, mem_hours_spotSeries, SpotRecord.mem_hours_seriesPerKwh hreceived]
  rfl

/-- An answer of the server that announces or has no records, or cannot be read, is refused, and the
cache stays as it is. Any other answer is accepted, whether or not its records have prices: after it
there are prices at the hours of the records with a price in the currency and at the past hours that
are kept. So no price is left exactly when there are no such records and no such hours. -/
theorem spot_download_of_answer (c : Config) (v : View) (source : Source) (d : Cache)
    (history : Bool) (hhistory : c.wantsHistory d v.now = .ok history) (cl : Client)
    (r : Http.Response) (hreceives : cl.Receives (c.spotQuery history) r)
    (hsource : source (.spot (c.spotQuery history)) =
      (cl.fetchSpot v.now (c.spotQuery history) (.response r)).result) :
    (∀ f, Client.spotAnswer r = .error f →
      Refused (run v source (component c .spotPrice) d) d f) ∧
    ∀ e, Client.spotAnswer r = .ok e →
      (¬ e.Announces → Refused (run v source (component c .spotPrice) d) d (.empty "No records")) ∧
      (e.Announces →
        (run v source (component c .spotPrice) d).value = .ok (.ok e.present.length) ∧
        (∀ k, k ≠ .spotPrice →
          (run v source (component c .spotPrice) d).cache.get k = d.get k) ∧
        ∀ t, t ∈ ((run v source (component c .spotPrice) d).cache.get .spotPrice).hours ↔
          t ∈ SpotRecord.pricedHours e.present c.service.currency ∨
            KeepsPast c history v.now (d.get .spotPrice) t) ∧
      ((∃ f, Refused (run v source (component c .spotPrice) d) d f) ↔ ¬ e.Announces) ∧
      ((∃ n, (run v source (component c .spotPrice) d).value = .ok (.ok n)) →
        (((run v source (component c .spotPrice) d).cache.get .spotPrice).isEmpty ↔
          SpotRecord.pricedHours e.present c.service.currency = [] ∧
            ∀ t, ¬ KeepsPast c history v.now (d.get .spotPrice) t)) := by
  constructor
  · intro f hf
    exact refused_of_fault hhistory (hsource.trans (hreceives.fetchSpot_of_fault hf _))
  · intro e he
    have hrefused : ¬ e.Announces →
        Refused (run v source (component c .spotPrice) d) d (.empty "No records") := by
      intro hnone
      apply refused_of_fault hhistory
      exact hsource.trans (hreceives.fetchSpot_of_not_announces he hnone _)
    have hanswer : e.Announces → source (.spot (c.spotQuery history)) = .ok e.present := by
      intro hsome
      exact hsource.trans (hreceives.fetchSpot_of_announces he hsome _)
    refine ⟨hrefused, ?_, ?_, ?_⟩
    · intro hsome
      obtain ⟨hvalue, received, -, hcache⟩ := run_spotPrice_of_records hhistory (hanswer hsome)
      refine ⟨hvalue, ?_, fun t => mem_hours_run_spotPrice hhistory (hanswer hsome)⟩
      intro k hk
      rw [hcache, Cache.get_put_of_ne hk]
    · constructor
      · rintro ⟨f, hf⟩ hsome
        have hvalue := (run_spotPrice_of_records hhistory (hanswer hsome)).1
        rw [hf.value] at hvalue
        cases hvalue
      · intro hnone
        exact ⟨_, hrefused hnone⟩
    · rintro ⟨n, hn⟩
      have hsome : e.Announces := by
        by_contra hnone
        have hvalue := (hrefused hnone).value
        rw [hn] at hvalue
        cases hvalue
      rw [Series.isEmpty_iff_hours, List.eq_nil_iff_forall_not_mem, ← forall_and]
      refine forall_congr' fun t => ?_
      rw [mem_hours_run_spotPrice hhistory (hanswer hsome), not_or]

/-- An answer without records leaves two hours of prices in the cache. -/
theorem spot_download_of_answer_none : ∃ source : Source,
    Refused (run { now := .ofSeconds 1675512000 } source (component {} .spotPrice)
        (Cache.empty.put .spotPrice (.flat (.ofSeconds 1675512000) 2 .one)))
      (Cache.empty.put .spotPrice (.flat (.ofSeconds 1675512000) 2 .one)) (.empty "No records") := by
  obtain ⟨cl, hcl⟩ : ∃ cl : Client, cl = { endpoint := "http://127.0.0.1:8080/", waits := true } :=
    ⟨_, rfl⟩
  obtain ⟨r, hr⟩ : ∃ r : Http.Response, r =
      { body := "\x7b\"total\":0,\"records\":[]\x7d".toUTF8.toList } := ⟨_, rfl⟩
  have hreceives : cl.Receives (({} : Config).spotQuery false) r := by
    subst hcl hr
    exact ⟨by decide +kernel, rfl, by decide +kernel⟩
  obtain ⟨-, hdownload⟩ := spot_download_of_answer {} { now := .ofSeconds 1675512000 }
    (.answering (cl.fetchSpot (.ofSeconds 1675512000) (({} : Config).spotQuery false)
      (.response r)).result (.ok []))
    (Cache.empty.put .spotPrice (.flat (.ofSeconds 1675512000) 2 .one)) false rfl cl r hreceives rfl
  have hanswer : Client.spotAnswer r = .ok {} := by
    subst hr
    decide +kernel
  exact ⟨_, (hdownload {} hanswer).1 fun h => h.1 rfl⟩

/-- An answer whose only record has no price takes the prices from the cache. -/
theorem spot_download_erases : ∃ (cl : Client) (r : Http.Response) (source : Source) (d : Cache)
    (v : View) (e : Envelope SpotRecord),
    r.isSuccess ∧ Client.spotAnswer r = .ok e ∧ SpotRecord.pricedHours e.present .dkk = [] ∧
    source (.spot (({} : Config).spotQuery false)) =
      (cl.fetchSpot v.now (({} : Config).spotQuery false) (.response r)).result ∧
    (run v source (component {} .spotPrice) d).value = .ok (.ok 1) ∧
    ¬ (d.get .spotPrice).isEmpty ∧
    ((run v source (component {} .spotPrice) d).cache.get .spotPrice).isEmpty := by
  refine ⟨{ endpoint := "http://127.0.0.1:8080/", waits := true },
    { body := ("\x7b\"total\":1,\"records\":[\x7b\"HourUTC\":\"2023-02-04T12:00:00\"," ++
      "\"SpotPriceDKK\":null\x7d]\x7d").toUTF8.toList },
    .answering (.ok [{ hour := .ofSeconds 1675512000 }]) (.ok []),
    Cache.empty.put .spotPrice (.flat (.ofSeconds 1675512000) 2 .one),
    { now := .ofSeconds 1675512000 },
    { total := 1, records := [some { hour := .ofSeconds 1675512000 }] },
    rfl, ?_, rfl, ?_, ?_, ?_, ?_⟩
  · decide +kernel
  · decide +kernel
  · rfl
  · decide
  · rfl

end Download

end HourlyPrices
