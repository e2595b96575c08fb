import HourlyPrices.Decimal.Text
import HourlyPrices.Text.Blank
import HourlyPrices.Text.Quoted
import HourlyPrices.Text.Uppercase
import HourlyPrices.Time.Text
import HourlyPrices.Zone.Basic
import HourlyPrices.Json.Basic
import HourlyPrices.Json.Token
import HourlyPrices.Json.Reader
import HourlyPrices.Time.Pattern
import HourlyPrices.Fault
import HourlyPrices.Component
import HourlyPrices.Currency
import HourlyPrices.Series
import HourlyPrices.Tariff.Hourly
import HourlyPrices.Cost
import HourlyPrices.Cache
import HourlyPrices.FuturePrice
import HourlyPrices.Dataset.Query
import HourlyPrices.Time.Rfc3339
import HourlyPrices.Time.Setting
import HourlyPrices.Retry.Policy
import HourlyPrices.Config.File
import HourlyPrices.Dataset.Client
import HourlyPrices.Log.Setup
import HourlyPrices.Main
import HourlyPrices.Program.Directory
import HourlyPrices.Program.Transcript
import HourlyPrices.Version
import HourlyPrices.Proofs.Cost.Integral
import HourlyPrices.Proofs.Service.Completion
import HourlyPrices.Proofs.Tariff.LastRecord
import HourlyPrices.Proofs.Zone.CentralEurope
import HourlyPrices.Proofs.Service.Progress
import HourlyPrices.Proofs.Cache.Retention
import HourlyPrices.Proofs.Service.Expiry
import HourlyPrices.Proofs.Cache.Coverage
import HourlyPrices.Proofs.Zone.NextTime
import HourlyPrices.Proofs.Service.Anchor
import HourlyPrices.Proofs.Tariff.Coverage
import HourlyPrices.Proofs.Service.TariffDownload
import HourlyPrices.Proofs.Cost.Missing
import HourlyPrices.Proofs.Series.Sum
import HourlyPrices.Proofs.Service.Costs
import HourlyPrices.Proofs.Service.Freshness
import HourlyPrices.Proofs.Service.SpotDownload
import HourlyPrices.Proofs.Service.HourKeys
import HourlyPrices.Proofs.Service.Serving
import HourlyPrices.Proofs.Service.Abreast
import HourlyPrices.Proofs.Service.Ticks
import HourlyPrices.Proofs.Service.Vat
import HourlyPrices.Proofs.Service.History
import HourlyPrices.Proofs.Component
import HourlyPrices.Proofs.Service.Turns
import HourlyPrices.Proofs.Service.NamedSums
import HourlyPrices.Proofs.Service.Unpublished
import HourlyPrices.Proofs.Service.Loop
import HourlyPrices.Proofs.Service.Traffic
import HourlyPrices.Proofs.Service.Covered
import HourlyPrices.Proofs.Json.RoundTrip
import HourlyPrices.Proofs.Decimal.Text
import HourlyPrices.Proofs.Time.Calendar
import HourlyPrices.Proofs.Time.Text
import HourlyPrices.Proofs.FuturePrice
import HourlyPrices.Proofs.Cost.Touched
import HourlyPrices.Proofs.Service.EndedTariffs
import HourlyPrices.Proofs.Tariff.Disjoint
import HourlyPrices.Proofs.Cost.Linearity
import HourlyPrices.Proofs.Zone.NextShown
import HourlyPrices.Proofs.Retry.Bounds
import HourlyPrices.Proofs.Decimal.Thousandth
import HourlyPrices.Proofs.Dataset.SpotPrices
import HourlyPrices.Proofs.Service.SpotWindow
import HourlyPrices.Proofs.Service.Verdict
import HourlyPrices.Proofs.Dataset.Start
import HourlyPrices.Proofs.Config
import HourlyPrices.Proofs.Gln
import HourlyPrices.Proofs.Dataset.Query
import HourlyPrices.Proofs.Retry.Delays
import HourlyPrices.Proofs.Dataset.TariffRecords
