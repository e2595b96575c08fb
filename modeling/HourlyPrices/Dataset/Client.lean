import HourlyPrices.Config.Basic
import HourlyPrices.Dataset.Records
import HourlyPrices.Http.Response
import HourlyPrices.Http.Url
import HourlyPrices.Log.Event
import HourlyPrices.Service.Source
import HourlyPrices.Text.Quoted
import HourlyPrices.Version

/-!
# The client of the data sets

The client asks the server of the data sets for records, and keeps what the server says about the
quota of calls. A request is made of an address and parameters; what comes of it is records or a
fault.
-/

namespace HourlyPrices

/-- The client. -/
structure Client where
  /-- The address below which the data sets are. -/
  endpoint : String
  /-- Whether the client waits for responses at all. -/
  waits : Bool
  usage : ApiUsage := {}

/-- What came of asking for records. -/
structure Fetched (α : Type) where
  /-- The target that was requested, if there was a request. -/
  target : Option String
  result : Except Fault α
  /-- The client afterwards. -/
  client : Client
  logs : List LogEvent

namespace Client

/-- The name with which the client presents itself. -/
def userAgent : String := "elspot/" ++ version

/-- The format that the client asks for. -/
def mediaType : String := "application/json"

/-- The client of some settings. -/
def ofSettings (s : ApiSettings) : Client :=
  let endpoint := Text.trim s.endpoint
  { endpoint := if endpoint.endsWith "/" then endpoint else endpoint ++ "/"
    waits := s.timeout != 0 }

/-- The context of requests in the log. -/
def context : LogContext := { component := "source" }

/-- The address of a data set. -/
def address (c : Client) (dataset : String) : String := c.endpoint ++ "dataset/" ++ dataset

/-- What the client knows of its quota, after the first response. -/
def quota? (c : Client) : Option ApiUsage := if c.usage.lastCall.isSome then some c.usage else none

/-- Takes what a response says about the quota. -/
def note (c : Client) (now : Instant) (r : Http.Response) : Client :=
  { c with usage := {
      remainingCalls := (r.counter? "RemainingCalls").or c.usage.remainingCalls
      totalCalls := (r.counter? "TotalCalls").or c.usage.totalCalls
      lastCall := some now } }

/-- Parameters as they are shown in the log. -/
def parametersText (ps : List Parameter) : String :=
  "[" ++ ", ".intercalate (ps.map fun (k, v) =>
    "(" ++ Text.quoted k ++ ", " ++ Text.quoted v ++ ")") ++ "]"

/-- The body of a response, or why there is none. -/
def body (r : Http.Response) : Except Fault String :=
  if !r.isSuccess then
    .error (.communication (some r.status)
      ("The request failed with HTTP error " ++ Http.statusText r.status))
  else match r.text? with
    | some text => .ok text
    | none => .error (.parse "The response broke off")

/-- The response that came, or why there is none. A client that does not wait gets none. -/
def response (c : Client) (reply : Http.Reply) : Except Fault Http.Response :=
  let late := Fault.timeout "There was no response in time"
  if !c.waits then .error late
  else match reply with
    | .timeout => .error late
    | .closed => .error (.communication none "The connection ended")
    | .response r =>
      if r.isFinal then .ok r else .error (.communication none "The response cannot be read")

/-- Asks for a data set. -/
def fetch (c : Client) (now : Instant) (dataset : String) (parameters : List Parameter)
    (reply : Http.Reply) : Fetched String :=
  let url := c.address dataset
  let asked := context.event .trace
    ("GET request for " ++ url ++ " with " ++ parametersText parameters)
  match Http.target? url parameters with
  | none => ⟨none, .error (.communication none "The address is not valid"), c, [asked]⟩
  | some target =>
    let target := if c.waits then some target else none
    match c.response reply with
    | .error f => ⟨target, .error f, c, [asked]⟩
    | .ok r =>
      let answered := (body r).toOption.toList.map fun text =>
        context.event .trace ("Response content: '" ++ text ++ "'")
      ⟨target, body r, c.note now r, asked :: answered⟩

/-- Asks for spot prices. An answer that announces or holds no records is a fault. -/
def fetchSpot (c : Client) (now : Instant) (q : SpotQuery) (reply : Http.Reply) :
    Fetched (List SpotRecord) :=
  let f := c.fetch now "Elspotprices" q.parameters reply
  { f with result := do
      let e ← Envelope.ofBody SpotRecord.ofJson? (← f.result)
      if e.total = 0 ∨ e.records.isEmpty then .error (.empty "No records")
      else .ok e.present }

/-- Asks for tariffs. An answer that leaves out records is noted in the log. -/
def fetchTariffs (c : Client) (now : Instant) (q : TariffQuery) (reply : Http.Reply) :
    Fetched (List TariffRecord) :=
  let f := c.fetch now "DatahubPricelist" q.parameters reply
  let answer := f.result.bind (Envelope.ofBody TariffRecord.ofJson?)
  { f with
    result := answer.map Envelope.present
    logs := f.logs ++ match answer with
      | .ok e =>
        if e.isTruncated then
          [context.event .warn
            s!"{e.total} price list records available, but only {e.limit} returned."]
        else []
      | .error _ => [] }

end Client

end HourlyPrices
