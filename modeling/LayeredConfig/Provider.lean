import LayeredConfig.Environment
import LayeredConfig.Failure
import LayeredConfig.Lookup

/-!
# Providers

A provider answers look-ups.  Resolving a request asks it for every look-up of the request in order and
keeps the sources that are not empty.  A look-up that fails is skipped or ends the resolution, as the
provider's policy says.
-/

namespace LayeredConfig

/-- What a provider finds for a look-up. -/
inductive Fetched where
  | source (properties : Properties)
  | absent
  /-- The causes run from the outermost one inwards. -/
  | failed (causes : List String)

/-- A store of properties with its retrieval policy. -/
structure Provider where
  name : String
  fetch : Lookup → Fetched
  failOnError : Bool := true
  configIncomplete : Bool := false
  defaultLabel : String := standardLabel

/-- How the provider expands requests. -/
def Provider.expander (provider : Provider) : Expander :=
  ⟨provider.defaultLabel, provider.configIncomplete⟩

/-- The look-ups made, and what came of them. -/
structure Attempt (α : Type) where
  fetched : List Lookup
  outcome : Except Failure α

namespace Provider

/-- The sources of some look-ups, asked for one after another. -/
def collect (provider : Provider) : List Lookup → Attempt (List PropertySource)
  | [] => ⟨[], .ok []⟩
  | lookup :: rest =>
    match provider.fetch lookup with
    | .source properties =>
      let later := provider.collect rest
      if properties.isEmpty then ⟨lookup :: later.fetched, later.outcome⟩
      else
        ⟨lookup :: later.fetched,
          later.outcome.map (PropertySource.mk lookup.sourceName properties :: ·)⟩
    | .absent =>
      let later := provider.collect rest
      ⟨lookup :: later.fetched, later.outcome⟩
    | .failed causes =>
      if provider.failOnError then ⟨[lookup], .error (.retrieval lookup.sourceName causes)⟩
      else
        let later := provider.collect rest
        ⟨lookup :: later.fetched, later.outcome⟩

end Provider

/-- The environment of a request before any source is found. -/
def Environment.ofRequest (request : Request) : Environment :=
  { name := request.application, profiles := requestedProfiles request.profile, label := request.label }

/-- A provider that is asked for whole requests. -/
structure Aggregator where
  provider : Provider
  /-- Whether a request may find nothing. -/
  acceptEmpty : Bool := true

namespace Aggregator

/-- The candidates of a request. -/
def lookupKeys (aggregator : Aggregator) (request : Request) : Except Failure LookupKeys :=
  (aggregator.provider.expander.keysOf request).mapError .invalidRequest

/-- The sources of a request. -/
def collect (aggregator : Aggregator) (request : Request) : Attempt (List PropertySource) :=
  match aggregator.lookupKeys request with
  | .error failure => ⟨[], .error failure⟩
  | .ok keys =>
    let attempt := aggregator.provider.collect keys.lookups
    { attempt with
      outcome := do
        let sources ← attempt.outcome
        if !aggregator.acceptEmpty && sources.isEmpty then .error (.notFound request)
        else .ok sources }

/-- The environment of a request. -/
def resolve (aggregator : Aggregator) (request : Request) : Attempt Environment :=
  let attempt := aggregator.collect request
  { attempt with
    outcome := attempt.outcome.map fun sources => { Environment.ofRequest request with sources } }

end Aggregator

end LayeredConfig
