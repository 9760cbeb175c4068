import LayeredConfig.Environment
import LayeredConfig.Json.Printer
import LayeredConfig.Redaction

/-!
# Resolution events

What is recorded about the requests that are served.  Every event is logged as one entry, a line of JSON.
-/

namespace LayeredConfig

/-- Something that happened to a request. -/
inductive Event where
  | resolved (application profiles : String) (label : Option String) (sources : List String)
  | rendered (format : String) (keys : Nat)
  | failed (message : String)

namespace Event

/-- An event as it is recorded: the secrets in a failure are masked. -/
def recorded : Event → Event
  | .failed message => .failed (String.ofList (Redaction.text message.toList))
  | event => event

/-- The JSON value of an event. -/
def toValue : Event → Value
  | .resolved application profiles label sources =>
    .object [("type", .string "Resolved"), ("application", .string application),
      ("profiles", .string profiles), ("label", Environment.optionalText label),
      ("sources", .array (sources.map Value.string))]
  | .rendered format keys =>
    .object [("type", .string "Rendered"), ("format", .string format),
      ("keys", (Value.ofNat? keys).getD .null)]
  | .failed message => .object [("type", .string "Failed"), ("error_msg", .string message)]

/-- An event as it is logged: for which request and when, both as they are written, and what is recorded of it. -/
structure Entry where
  requestId : String
  timestamp : String
  event : Event

/-- The log entry of an event. -/
def entry (requestId timestamp : String) (event : Event) : Entry := ⟨requestId, timestamp, event.recorded⟩

/-- The fields of a log entry, in order. -/
def entryFields : List String := ["request_id", "timestamp", "event"]

/-- The JSON value of a log entry. -/
def Entry.toValue (e : Entry) : Value :=
  .object (entryFields.zip [.string e.requestId, .string e.timestamp, e.event.toValue])

/-- The text of a log entry. -/
def Entry.text (e : Entry) : List Char := e.toValue.compact

end Event

end LayeredConfig
