import HourlyPrices.Decimal.Basic
import HourlyPrices.Fault
import HourlyPrices.Text.Blank
import HourlyPrices.Text.Uppercase

/-!
# Currencies and value added tax

Spot prices are published in two currencies, tariffs in the primary one only. Value added tax is a
factor that depends on the country.
-/

namespace HourlyPrices

/-- A currency of spot prices. -/
inductive Currency where
  | dkk
  | eur
  deriving DecidableEq

namespace Currency

/-- All currencies. -/
def all : List Currency := [dkk, eur]

/-- The code of a currency. -/
def code : Currency → String
  | dkk => "DKK"
  | eur => "EUR"

/-- Whether tariffs are published in the currency. -/
def isPrimary (c : Currency) : Bool := c == dkk

/-- The currency of a code, without regard to case and surrounding blanks. -/
def ofCode (s : String) : Except Fault Currency :=
  let wanted := Text.upper (Text.trim s)
  match all.find? (·.code == wanted) with
  | some c => .ok c
  | none => .error (.validation "service.currency" ("Unsupported currency '" ++ wanted ++ "'"))

end Currency

/-- The factor of value added tax in a country, given by its two-letter code without regard to case
and surrounding blanks; one for countries that are not known. -/
def vatFactor (country : String) : Decimal :=
  let c := Text.upper (Text.trim country)
  if c == "DK" || c == "NO" || c == "SE" then { num := 125, scale := 2 }
  else if c == "DE" then { num := 119, scale := 2 }
  else .one

end HourlyPrices
