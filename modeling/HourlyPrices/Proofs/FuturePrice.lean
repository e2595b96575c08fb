import HourlyPrices.Proofs.Time.Text
import HourlyPrices.Service.Query
import Mathlib.Data.List.Forall2

/-!
# Reading the curve of future prices

Whoever reads the published curve has the prices of the cache: a record for each hour of the spot
price, in order, with the digits and the scale of every price (`ofText?_futurePrices`).
-/

namespace HourlyPrices

variable {d : Cache} {currency : Currency}

/-- The key of a component in the object of an hour. -/
def Component.jsonKey : Component → String
  | .spotPrice => "spotPrice"
  | .netTariff => "netTariff"
  | .systemTariff => "systemTariff"
  | .electricityTax => "electricityTax"
  | .transmissionNetTariff => "transmissionNetTariff"

namespace FuturePrice

/-- The price of a component in a record. -/
def get (p : FuturePrice) : Component → Option Decimal
  | .spotPrice => some p.spotPrice
  | .netTariff => p.netTariff
  | .systemTariff => p.systemTariff
  | .electricityTax => p.electricityTax
  | .transmissionNetTariff => p.transmissionNetTariff

/-- A record of an hour has what a cache holds of that hour. -/
structure Shows (d : Cache) (currency : Currency) (hour : Instant) (p : FuturePrice) : Prop where
  hourStart : Instant.ofText? p.hourStart = some hour
  code : p.currency = currency.code
  get_eq : ∀ k, p.get k = (d.get k).get? hour

/-! ## The records -/

theorem get_set {k l : Component} (hk : k.isTariff) (p : FuturePrice) (value : Option Decimal) :
    (p.set k value).get l = if l = k then value else p.get l := by
  cases k with
  | spotPrice => cases hk
  | _ => cases l <;> rfl

theorem get_foldl_set {ks : List Component} (hks : ∀ k ∈ ks, k.isTariff) (p : FuturePrice)
    (value : Component → Option Decimal) (l : Component) :
    (ks.foldl (fun p k => p.set k (value k)) p).get l = if l ∈ ks then value l else p.get l := by
  induction ks generalizing p with
  | nil => rfl
  | cons k ks ih =>
    obtain ⟨hk, hrest⟩ := List.forall_mem_cons.1 hks
    rw [List.foldl_cons, ih hrest, get_set hk]
    by_cases hl : l = k
    · simp [hl]
    · simp [hl]

theorem foldl_set_fixed (ks : List Component) (p : FuturePrice)
    (value : Component → Option Decimal) :
    (ks.foldl (fun p k => p.set k (value k)) p).hourStart = p.hourStart ∧
      (ks.foldl (fun p k => p.set k (value k)) p).currency = p.currency := by
  induction ks generalizing p with
  | nil => exact ⟨rfl, rfl⟩
  | cons k ks ih =>
    obtain ⟨hhour, hcurrency⟩ := ih (p.set k (value k))
    have hset : (p.set k (value k)).hourStart = p.hourStart ∧
        (p.set k (value k)).currency = p.currency := by
      cases k <;> exact ⟨rfl, rfl⟩
    exact ⟨hhour.trans hset.1, hcurrency.trans hset.2⟩

/-- The record of an hour of a cache. -/
def ofEntry (d : Cache) (currency : Currency) (e : Instant × Decimal) : FuturePrice :=
  (Component.all.filter (·.isTariff)).foldl (fun p k => p.set k ((d.get k).get? e.1))
    (ofSpot e.1 e.2 currency)

theorem shows_ofEntry {e : Instant × Decimal} (he : e ∈ d.spotPrice.entries)
    (hnanos : e.1.nanos = 0)
    (hyear : 0 ≤ (LocalTime.ofUtc e.1).date.year ∧ (LocalTime.ofUtc e.1).date.year ≤ 9999) :
    Shows d currency e.1 (ofEntry d currency e) := by
  have htariffs : ∀ k ∈ Component.all.filter (·.isTariff), k.isTariff :=
    fun k hk => (List.mem_filter.1 hk).2
  obtain ⟨hhour, hcurrency⟩ := foldl_set_fixed (Component.all.filter (·.isTariff))
    (ofSpot e.1 e.2 currency) fun k => (d.get k).get? e.1
  refine ⟨?_, hcurrency, fun k => ?_⟩
  · rw [ofEntry, hhour]
    exact Instant.ofText?_toSecondText hnanos hyear
  · rw [ofEntry, get_foldl_set htariffs]
    cases k with
    | spotPrice => exact (Series.mem_entries_iff.1 he).symm
    | _ => rfl

/-! ## Their text -/

theorem ofJson?_priceJson (price : Decimal) : Decimal.ofJson? (priceJson price) = some price :=
  Decimal.ofAnyText?_toText price

theorem nullable?_optionalJson (price : Option Decimal) :
    Json.nullable? Decimal.ofJson? (optionalJson price) = some price := by
  cases price with
  | none => rfl
  | some price => exact congrArg (Option.map some) (ofJson?_priceJson price)

/-- A record is read as it was written. -/
theorem ofJson?_toJson (p : FuturePrice) : ofJson? p.toJson = some p := by
  have hfields : p.toJson.fields? fieldNames = some
      [some (.string p.hourStart), some (priceJson p.spotPrice), some (.string p.currency),
        some (optionalJson p.netTariff), some (optionalJson p.systemTariff),
        some (optionalJson p.electricityTax), some (optionalJson p.transmissionNetTariff)] := rfl
  simp [ofJson?, hfields, Json.required, Json.text?, ofJson?_priceJson, nullable?_optionalJson]

theorem mapM_ofJson?_toJson (ps : List FuturePrice) : (ps.map toJson).mapM ofJson? = some ps := by
  induction ps with
  | nil => rfl
  | cons p ps ih => simp [ofJson?_toJson, ih]

theorem proper_optionalJson (price : Option Decimal) : (optionalJson price).Proper := by
  cases price with
  | none => exact .null
  | some price =>
    refine .number ?_
    rw [Decimal.toText, String.toList_ofList]
    exact price.isNumber_toChars

theorem proper_toJson (p : FuturePrice) : p.toJson.Proper := by
  refine .object ?_
  simp only [List.forall_mem_cons]
  exact ⟨.string _, proper_optionalJson (some p.spotPrice), .string _, proper_optionalJson _,
    proper_optionalJson _, proper_optionalJson _, proper_optionalJson _, nofun⟩

theorem optionalJson_eq_null {price : Option Decimal} :
    optionalJson price = .null ↔ price = none := by
  cases price with
  | none => exact ⟨fun _ => rfl, fun _ => rfl⟩
  | some price => exact ⟨nofun, nofun⟩

/-- The member of a tariff is `null` when the record has none. -/
theorem member?_toJson_eq_null {k : Component} (hk : k.isTariff) (p : FuturePrice) :
    p.toJson.member? k.jsonKey = some .null ↔ p.get k = none := by
  have hmember : p.toJson.member? k.jsonKey = some (optionalJson (p.get k)) := by
    cases k <;> rfl
  rw [hmember, Option.some_inj, optionalJson_eq_null]

end FuturePrice

/-- The text of the curve over hours of UTC, in the years that have four digits, is a JSON array of
which each object is read as a record of an hour of the spot price, in order: it has what the cache
holds of that hour, and a tariff is `null` when the cache holds none. -/
theorem ofText?_futurePrices (c : Config) (d : Cache)
    (h : ∀ t ∈ d.spotPrice.hours, t.IsHour ∧
      0 ≤ (LocalTime.ofUtc t).date.year ∧ (LocalTime.ofUtc t).date.year ≤ 9999) :
    ∃ vs ps, Json.ofText? (c.futurePrices d) = some (.array vs) ∧
      vs.mapM FuturePrice.ofJson? = some ps ∧ d.spotPrice.hours.Pairwise (· < ·) ∧
      List.Forall₂ (FuturePrice.Shows d c.service.currency) d.spotPrice.hours ps ∧
      List.Forall₂ (fun hour v => ∀ k : Component, k.isTariff →
        (v.member? k.jsonKey = some .null ↔ (d.get k).get? hour = none)) d.spotPrice.hours vs := by
  have hshows : ∀ e ∈ d.spotPrice.entries,
      FuturePrice.Shows d c.service.currency e.1 (.ofEntry d c.service.currency e) := by
    intro e he
    obtain ⟨⟨hnanos, -⟩, hyear⟩ := h e.1 (List.mem_map_of_mem he)
    exact FuturePrice.shows_ofEntry he hnanos hyear
  have hproper :
      (Json.array ((FuturePrice.curve d c.service.currency).map FuturePrice.toJson)).Proper := by
    refine .array fun v hv => ?_
    obtain ⟨p, -, rfl⟩ := List.mem_map.1 hv
    exact p.proper_toJson
  refine ⟨_, _, Json.ofText?_toText hproper, FuturePrice.mapM_ofJson?_toJson _,
    List.pairwise_map.2 d.spotPrice.ordered, ?_, ?_⟩
  · rw [Series.hours, List.forall₂_map_left_iff]
    exact List.forall₂_map_right_iff.2 (List.forall₂_same.2 hshows)
  · rw [Series.hours, List.forall₂_map_left_iff, List.forall₂_map_right_iff]
    refine List.forall₂_map_right_iff.2 (List.forall₂_same.2 fun e he k hk => ?_)
    rw [← (hshows e he).get_eq k]
    exact FuturePrice.member?_toJson_eq_null hk _

/-- Two hours, the first with a negative price of 28 fraction digits. A net tariff is known in the
second hour and in one behind it. -/
theorem ofText?_futurePrices_twoHours :
    ∃ d : Cache, d.spotPrice.size = 2 ∧ d.netTariff.size = 2 ∧
      ∃ vs ps, Json.ofText? (Config.futurePrices {} d) = some (.array vs) ∧
        vs.mapM FuturePrice.ofJson? = some ps ∧ d.spotPrice.hours.Pairwise (· < ·) ∧
        List.Forall₂ (FuturePrice.Shows d .dkk) d.spotPrice.hours ps ∧
        List.Forall₂ (fun hour v => ∀ k : Component, k.isTariff →
          (v.member? k.jsonKey = some .null ↔ (d.get k).get? hour = none)) d.spotPrice.hours vs :=
  ⟨{ spotPrice := .ofList
      [(.ofSeconds 1675512000, { num := -1, scale := 28 }), (.ofSeconds 1675515600, .one)]
     netTariff := .ofList [(.ofSeconds 1675515600, .one), (.ofSeconds 1675519200, .one)] },
    by decide, by decide, ofText?_futurePrices {} _ (by decide +kernel)⟩

end HourlyPrices
