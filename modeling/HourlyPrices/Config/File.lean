import HourlyPrices.Config.Read
import HourlyPrices.Config.Write
import HourlyPrices.Yaml.Writer

/-!
# Configuration files

A configuration is kept in a YAML file. A given path is read as it is; without one, the first of the
usual places that exists is read, and the defaults are taken when there is none.
-/

namespace HourlyPrices

/-- Why a file cannot be read. -/
inductive FileFault where
  | missing
  | notDirectory
  | isDirectory
  | notText
  | other (message : String)
  deriving DecidableEq

/-- The wording of a fault. -/
def FileFault.message : FileFault → String
  | .missing => "No such file or directory (os error 2)"
  | .notDirectory => "Not a directory (os error 20)"
  | .isDirectory => "Is a directory (os error 21)"
  | .notText => "stream did not contain valid UTF-8"
  | .other m => m

/-- Whether something is there that cannot be read. -/
def FileFault.isThere : FileFault → Bool
  | .isDirectory | .notText => true
  | _ => false

namespace Config

/-- The configuration of a YAML text. -/
def ofYaml? (text : String) : Option Config := do
  read? (← Yaml.Document.ofText? text).value

/-- The configuration of what reading a file gave. -/
def ofFile : Except FileFault String → Except Fault Config
  | .error f => .error (.io f.message)
  | .ok text =>
    match ofYaml? text with
    | some c => .ok c
    | none => .error (.serialization "invalid configuration")

/-- The places in which a configuration is looked for. -/
def usualPaths : List String :=
  ["elspot_config.yaml", "/data/elspot_config.yaml", "/etc/elspot/config.yaml"]

/-- Whether reading a path shows that something is there. -/
def isThere : Except FileFault String → Bool
  | .ok _ => true
  | .error f => f.isThere

/-- The configuration of the first of the usual places that is there, given what reading each of
them gives, or the defaults. -/
def load (read : String → Except FileFault String) : Except Fault Config :=
  match usualPaths.find? fun path => isThere (read path) with
  | some path => ofFile (read path)
  | none => .ok {}

/-- The YAML text of a configuration. -/
def toYaml (c : Config) : String :=
  match c.toJson with
  | .object members => Yaml.write members
  | v => v.toText

end Config

end HourlyPrices
