import HourlyPrices.Cache
import HourlyPrices.Currency
import HourlyPrices.Dataset.Filter
import HourlyPrices.Time.Setting

/-!
# Configuration

The settings of the service with their defaults, and the rules that they have to keep. The rules are
checked in order, and the first one that is broken is reported.
-/

namespace HourlyPrices

/-- For whom prices are fetched. -/
structure ServiceSettings where
  priceArea : String := "DK1"
  currency : Currency := .dkk
  gridCompanyGln : String := ""
  energinetGln : String := Gln.energinet
  netTariffFilter : Option TariffFilter := none
  deriving DecidableEq

/-- Which current values are published with value added tax. -/
structure VatSettings where
  country : String := "DK"
  includeVat : List Component := []
  deriving DecidableEq

/-- When prices are refreshed. Delays are in seconds. -/
structure RetrySettings where
  initialDelay : Nat := 15
  dailyPublicationTime : String := "13:00"
  minimumLookaheadHours : Nat := 13
  configurationErrorDelay : Nat := 3600
  failureMinimumDelay : Nat := 60
  failureMaximumDelay : Nat := 3600
  rateLimitedMinimumDelay : Nat := 1800
  dataMissingMinimumDelay : Nat := 600
  jitterPercent : Nat := 20
  deriving DecidableEq

/-- Where records are fetched. -/
structure ApiSettings where
  endpoint : String := "https://api.energidataservice.dk/"
  timeout : Nat := 30
  deriving DecidableEq

/-- What is logged, and where. -/
structure LogSettings where
  level : String := "INFO"
  consoleLevel : Option String := none
  fileLevel : Option String := none
  file : String := "/tmp/elspot.log"
  backupCount : Nat := 5
  consoleOutput : Bool := true
  jsonFormat : Bool := false
  deriving DecidableEq

/-- All settings. -/
structure Config where
  service : ServiceSettings := {}
  subscriptions : List Channel := Channel.all
  vat : VatSettings := {}
  retry : RetrySettings := {}
  cache : Retention := {}
  api : ApiSettings := {}
  timezone : String := "Europe/Copenhagen"
  logging : LogSettings := {}
  deriving DecidableEq

/-- The time of day at which spot prices are published. -/
def RetrySettings.publicationTime (r : RetrySettings) : Except Fault TimeOfDay :=
  TimeOfDay.ofText r.dailyPublicationTime

namespace Config

/-- The zone in which times are shown. -/
def localZone (c : Config) : Except Fault Zone := Zone.ofText c.timezone

/-- A number of a party may be left out, but not wrong. -/
def checkGln (field value : String) : Except Fault Unit :=
  if value.isEmpty || (Gln.ofText value).isValid then .ok ()
  else .error (.validation field ("'" ++ value ++ "' is not a valid Global Location Number"))

/-- The delays that must not be zero, by the names of their settings. -/
def delays (c : Config) : List (String × Nat) :=
  [("retry.initial_delay_secs", c.retry.initialDelay),
   ("retry.configuration_error_delay_secs", c.retry.configurationErrorDelay),
   ("retry.failure_minimum_delay_secs", c.retry.failureMinimumDelay),
   ("retry.failure_maximum_delay_secs", c.retry.failureMaximumDelay),
   ("retry.rate_limited_minimum_delay_secs", c.retry.rateLimitedMinimumDelay),
   ("retry.data_missing_minimum_delay_secs", c.retry.dataMissingMinimumDelay),
   ("api.timeout_secs", c.api.timeout)]

/-- A rule of the configuration: fails with a wording unless a condition holds. -/
def require (holds : Bool) (field message : String) : Except Fault Unit :=
  if holds then .ok () else .error (.validation field message)

/-- Checks all rules. -/
def validate (c : Config) : Except Fault Unit := do
  require (!Text.isBlankText c.service.priceArea) "service.price_area" "Price area cannot be empty"
  checkGln "service.grid_company_gln" c.service.gridCompanyGln
  checkGln "service.energinet_gln" c.service.energinetGln
  let _ ← c.localZone
  let _ ← c.retry.publicationTime
  c.delays.forM fun (field, value) => require (value != 0) field "Must be greater than 0"
  require (c.retry.failureMinimumDelay ≤ c.retry.failureMaximumDelay)
    "retry.failure_maximum_delay_secs" "Must not be below failure_minimum_delay_secs"
  require (c.retry.jitterPercent ≤ 100) "retry.jitter_percent" "Must be between 0 and 100"
  require (!Text.isBlankText c.api.endpoint) "api.endpoint" "Endpoint cannot be empty"

end Config

end HourlyPrices
