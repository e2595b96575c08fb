import HourlyPrices.Fault

/-!
# The status of the service

Consumers see whether the last refresh succeeded, and if it did not, whether the configuration or
the communication is to blame.
-/

namespace HourlyPrices

/-- What is to blame for a failed refresh. -/
inductive OfflineCause where
  | configuration
  | communication
  deriving DecidableEq

/-- The status as consumers see it. -/
inductive ServiceStatus where
  | unknown
  | online
  | offline (cause : OfflineCause) (message : String)
  deriving DecidableEq

instance : Inhabited ServiceStatus := ⟨.unknown⟩

/-- The name of a cause. -/
def OfflineCause.name : OfflineCause → String
  | configuration => "ConfigurationError"
  | communication => "CommunicationError"

namespace ServiceStatus

/-- The status after a fault. -/
def ofFault (f : Fault) : ServiceStatus :=
  .offline (if f.kind = .configuration then .configuration else .communication) f.message

/-- The status after a refresh. -/
def ofResult : Except Fault Unit → ServiceStatus
  | .ok () => .online
  | .error f => ofFault f

/-- Whether the last refresh succeeded. -/
def isOnline (s : ServiceStatus) : Bool := s == .online

/-- The text of a status. -/
def toText : ServiceStatus → String
  | unknown => "UNKNOWN"
  | online => "ONLINE"
  | offline cause message => "OFFLINE (" ++ cause.name ++ "): " ++ message

end ServiceStatus

end HourlyPrices
