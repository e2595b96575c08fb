import HourlyPrices.Config.Basic
import HourlyPrices.Config.Value

/-!
# Reading settings

Settings are records of records. A setting that is missing has its default; a setting that is there
must be of the right kind, and settings without a meaning are skipped.
-/

namespace HourlyPrices

namespace SettingValue

variable {ν : Type} [SettingValue ν]

/-- A setting, or its default. -/
def orDefault {α : Type} (default : α) (read : ν → Option α) : Option ν → Option α
  | none => some default
  | some v => read v

/-- The items of a list, each read. -/
def listOf? {α : Type} (read : ν → Option α) (v : ν) : Option (List α) := do
  (← items? v).mapM read

/-- A value that may be null, read if it is not. -/
def optionOf? {α : Type} (read : ν → Option α) (v : ν) : Option (Option α) := do
  (← nullable? v).mapM read

/-- Counters that fill 64 bits are below this bound. -/
def wideBound : Nat := UInt64.size

/-- Counters that fill 32 bits are below this bound. -/
def narrowBound : Nat := UInt32.size

end SettingValue

open SettingValue

variable {ν : Type} [SettingValue ν]

/-- A currency by its exact code. -/
def Currency.read? (v : ν) : Option Currency := do
  let code ← choice? v
  Currency.all.find? (·.code == code)

/-- A channel by its name. -/
def Channel.read? (v : ν) : Option Channel := do Channel.ofId? (← choice? v)

/-- A component by its name. -/
def Component.read? (v : ν) : Option Component := do (Component.ofName (← text? v)).toOption

/-- The start of a request. -/
def Start.read? (v : ν) : Option Start := do (Start.ofText (← text? v)).toOption

/-- A selection of tariffs. -/
def TariffFilter.read? (v : ν) : Option TariffFilter := do
  match ← fields? ["charge_type_codes", "notes", "start"] v with
  | [codes, notes, start] =>
    return .of (← orDefault [] (listOf? text?) codes) (← orDefault [] (listOf? text?) notes)
      (← orDefault .empty Start.read? start)
  | _ => none

/-- For whom prices are fetched. -/
def ServiceSettings.read? (v : ν) : Option ServiceSettings := do
  let d : ServiceSettings := {}
  match ← fields? ["price_area", "currency", "grid_company_gln", "energinet_gln",
      "net_tariff_filter"] v with
  | [priceArea, currency, gridCompanyGln, energinetGln, netTariffFilter] =>
    return {
      priceArea := ← orDefault d.priceArea text? priceArea
      currency := ← orDefault d.currency Currency.read? currency
      gridCompanyGln := ← orDefault d.gridCompanyGln text? gridCompanyGln
      energinetGln := ← orDefault d.energinetGln text? energinetGln
      netTariffFilter := ← orDefault d.netTariffFilter (optionOf? TariffFilter.read?)
        netTariffFilter }
  | _ => none

/-- Which values are published with value added tax. -/
def VatSettings.read? (v : ν) : Option VatSettings := do
  let d : VatSettings := {}
  match ← fields? ["country", "include_vat"] v with
  | [country, includeVat] =>
    return {
      country := ← orDefault d.country text? country
      includeVat := ← orDefault d.includeVat (listOf? Component.read?) includeVat }
  | _ => none

/-- When prices are refreshed. -/
def RetrySettings.read? (v : ν) : Option RetrySettings := do
  let d : RetrySettings := {}
  match ← fields? ["initial_delay_secs", "daily_publication_time", "minimum_lookahead_hours",
      "configuration_error_delay_secs", "failure_minimum_delay_secs",
      "failure_maximum_delay_secs", "rate_limited_minimum_delay_secs",
      "data_missing_minimum_delay_secs", "jitter_percent"] v with
  | [initial, publication, lookahead, configuration, failureMinimum, failureMaximum, rateLimited,
      dataMissing, jitter] =>
    return {
      initialDelay := ← orDefault d.initialDelay (natural? wideBound) initial
      dailyPublicationTime := ← orDefault d.dailyPublicationTime text? publication
      minimumLookaheadHours := ← orDefault d.minimumLookaheadHours (natural? wideBound) lookahead
      configurationErrorDelay := ←
        orDefault d.configurationErrorDelay (natural? wideBound) configuration
      failureMinimumDelay := ← orDefault d.failureMinimumDelay (natural? wideBound) failureMinimum
      failureMaximumDelay := ← orDefault d.failureMaximumDelay (natural? wideBound) failureMaximum
      rateLimitedMinimumDelay := ←
        orDefault d.rateLimitedMinimumDelay (natural? wideBound) rateLimited
      dataMissingMinimumDelay := ←
        orDefault d.dataMissingMinimumDelay (natural? wideBound) dataMissing
      jitterPercent := ← orDefault d.jitterPercent (natural? narrowBound) jitter }
  | _ => none

/-- How long past hours are kept. -/
def Retention.read? (v : ν) : Option Retention := do
  let d : Retention := {}
  match ← fields? ["historic_hours", "keep_historic_spot"] v with
  | [historicHours, keepHistoricSpot] =>
    return {
      historicHours := ← orDefault d.historicHours (natural? narrowBound) historicHours
      keepHistoricSpot := ← orDefault d.keepHistoricSpot truth? keepHistoricSpot }
  | _ => none

/-- Where records are fetched. -/
def ApiSettings.read? (v : ν) : Option ApiSettings := do
  let d : ApiSettings := {}
  match ← fields? ["endpoint", "timeout_secs"] v with
  | [endpoint, timeout] =>
    return {
      endpoint := ← orDefault d.endpoint text? endpoint
      timeout := ← orDefault d.timeout (natural? wideBound) timeout }
  | _ => none

/-- What is logged. -/
def LogSettings.read? (v : ν) : Option LogSettings := do
  let d : LogSettings := {}
  match ← fields? ["level", "console_level", "file_level", "file", "backup_count",
      "console_output", "json_format"] v with
  | [level, consoleLevel, fileLevel, file, backupCount, consoleOutput, jsonFormat] =>
    return {
      level := ← orDefault d.level text? level
      consoleLevel := ← orDefault d.consoleLevel (optionOf? text?) consoleLevel
      fileLevel := ← orDefault d.fileLevel (optionOf? text?) fileLevel
      file := ← orDefault d.file text? file
      backupCount := ← orDefault d.backupCount (natural? narrowBound) backupCount
      consoleOutput := ← orDefault d.consoleOutput truth? consoleOutput
      jsonFormat := ← orDefault d.jsonFormat truth? jsonFormat }
  | _ => none

/-- All settings. -/
def Config.read? (v : ν) : Option Config := do
  let d : Config := {}
  match ← fields? ["service", "subscriptions", "vat", "retry", "cache", "api", "timezone",
      "logging"] v with
  | [service, subscriptions, vat, retry, cache, api, timezone, logging] =>
    return {
      service := ← orDefault d.service ServiceSettings.read? service
      subscriptions := ← orDefault d.subscriptions (listOf? Channel.read?) subscriptions
      vat := ← orDefault d.vat VatSettings.read? vat
      retry := ← orDefault d.retry RetrySettings.read? retry
      cache := ← orDefault d.cache Retention.read? cache
      api := ← orDefault d.api ApiSettings.read? api
      timezone := ← orDefault d.timezone text? timezone
      logging := ← orDefault d.logging LogSettings.read? logging }
  | _ => none

end HourlyPrices
