import LayeredConfig.Provider

/-!
# Composites

Several aggregators consulted one after another.  Members of a lower order come first, and members of one
order in the sequence in which they were added.
-/

namespace LayeredConfig

/-- An aggregator with its place among others. -/
structure Member where
  order : Int
  aggregator : Aggregator

/-- Aggregators in the order in which they are consulted. -/
structure Composite where
  members : List Member := []
  /-- Whether a request may find nothing in all members together. -/
  acceptEmpty : Bool := true

namespace Composite

/-- Add a member behind all those whose order is not higher. -/
def add (composite : Composite) (member : Member) : Composite :=
  { composite with
    members := composite.members.takeWhile (·.order ≤ member.order) ++
      member :: composite.members.dropWhile (·.order ≤ member.order) }

/-- The candidates of a request for each member, under the name of its provider. -/
def lookupKeys (composite : Composite) (request : Request) :
    Except Failure (List (String × LookupKeys)) :=
  composite.members.mapM fun member => do
    let keys ← member.aggregator.lookupKeys request
    return (member.aggregator.provider.name, keys)

/-- The look-ups made in members one after another, and the sources found. -/
def collect (request : Request) : List Member → Attempt (List PropertySource)
  | [] => ⟨[], .ok []⟩
  | member :: rest =>
    let attempt := member.aggregator.collect request
    match attempt.outcome with
    | .error failure => ⟨attempt.fetched, .error failure⟩
    | .ok sources =>
      let later := collect request rest
      ⟨attempt.fetched ++ later.fetched, later.outcome.map (sources ++ ·)⟩

/-- The environment of a request. -/
def resolve (composite : Composite) (request : Request) : Attempt Environment :=
  let attempt := collect request composite.members
  { attempt with
    outcome := do
      let sources ← attempt.outcome
      if !composite.acceptEmpty && sources.isEmpty then .error (.notFound request)
      else .ok { Environment.ofRequest request with sources } }

end Composite

end LayeredConfig
