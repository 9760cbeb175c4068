import LayeredConfig.Json.Value

/-!
# Properties

Flat properties under distinct keys, and the named sources that a request collects them from.
-/

namespace LayeredConfig

/-- Flat properties in order. -/
abbrev Properties := OrderedMap Value

/-- Properties collected for one look-up, under the name they are reported by. -/
structure PropertySource where
  name : String
  source : Properties

/-- The key that names the active profiles; it is never part of a merged environment. -/
def activeProfilesKey : String := "spring.profiles"

end LayeredConfig
