import HourlyPrices.Config.Basic
import HourlyPrices.Json.Basic

/-!
# Writing settings

All settings are written, in the order in which they are declared, also those that have their
default.
-/

namespace HourlyPrices

/-- A count. -/
def Json.ofNat (n : Nat) : Json := .number (toString n)

/-- A text, or null. -/
def Json.ofOption : Option String → Json
  | some s => .string s
  | none => .null

/-- Texts. -/
def Json.ofTexts (ss : List String) : Json := .array (ss.map .string)

/-- A selection of tariffs. -/
def TariffFilter.toJson (f : TariffFilter) : Json :=
  .object
    [("charge_type_codes", .ofTexts f.codes.items),
     ("notes", .ofTexts f.notes.items),
     ("start", .string f.start.toText)]

/-- For whom prices are fetched. -/
def ServiceSettings.toJson (s : ServiceSettings) : Json :=
  .object
    [("price_area", .string s.priceArea),
     ("currency", .string s.currency.code),
     ("grid_company_gln", .string s.gridCompanyGln),
     ("energinet_gln", .string s.energinetGln),
     ("net_tariff_filter", match s.netTariffFilter with
       | some f => f.toJson
       | none => .null)]

/-- Which values are published with value added tax. -/
def VatSettings.toJson (s : VatSettings) : Json :=
  .object
    [("country", .string s.country),
     ("include_vat", .ofTexts (s.includeVat.map (·.name)))]

/-- When prices are refreshed. -/
def RetrySettings.toJson (s : RetrySettings) : Json :=
  .object
    [("initial_delay_secs", .ofNat s.initialDelay),
     ("daily_publication_time", .string s.dailyPublicationTime),
     ("minimum_lookahead_hours", .ofNat s.minimumLookaheadHours),
     ("configuration_error_delay_secs", .ofNat s.configurationErrorDelay),
     ("failure_minimum_delay_secs", .ofNat s.failureMinimumDelay),
     ("failure_maximum_delay_secs", .ofNat s.failureMaximumDelay),
     ("rate_limited_minimum_delay_secs", .ofNat s.rateLimitedMinimumDelay),
     ("data_missing_minimum_delay_secs", .ofNat s.dataMissingMinimumDelay),
     ("jitter_percent", .ofNat s.jitterPercent)]

/-- How long past hours are kept. -/
def Retention.toJson (r : Retention) : Json :=
  .object
    [("historic_hours", .ofNat r.historicHours),
     ("keep_historic_spot", .bool r.keepHistoricSpot)]

/-- Where records are fetched. -/
def ApiSettings.toJson (s : ApiSettings) : Json :=
  .object [("endpoint", .string s.endpoint), ("timeout_secs", .ofNat s.timeout)]

/-- What is logged. -/
def LogSettings.toJson (s : LogSettings) : Json :=
  .object
    [("level", .string s.level),
     ("console_level", .ofOption s.consoleLevel),
     ("file_level", .ofOption s.fileLevel),
     ("file", .string s.file),
     ("backup_count", .ofNat s.backupCount),
     ("console_output", .bool s.consoleOutput),
     ("json_format", .bool s.jsonFormat)]

/-- All settings. -/
def Config.toJson (c : Config) : Json :=
  .object
    [("service", c.service.toJson),
     ("subscriptions", .ofTexts (c.subscriptions.map (·.id))),
     ("vat", c.vat.toJson),
     ("retry", c.retry.toJson),
     ("cache", c.cache.toJson),
     ("api", c.api.toJson),
     ("timezone", .string c.timezone),
     ("logging", c.logging.toJson)]

end HourlyPrices
