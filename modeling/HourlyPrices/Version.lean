import HourlyPrices.Text.Blank

/-!
# The version

The version of the program, and what its build hands on about the revision that is built.
-/

namespace HourlyPrices

/-- The version. -/
def version : String := "0.4.0"

/-- The version with the revision that is built, if one is known. -/
def builtVersion (revision : Option String) : String :=
  match revision.map Text.trim with
  | none | some "" => version
  | some r => version ++ "+" ++ r

/-- What the build announces: the full version, and that it depends on the revision. -/
def buildInstructions (revision : Option String) : List String :=
  ["cargo:rustc-env=APP_VERSION=" ++ builtVersion revision,
   "cargo:rerun-if-env-changed=GIT_SHA"]

end HourlyPrices
