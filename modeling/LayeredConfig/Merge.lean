import LayeredConfig.Properties
import LayeredConfig.Words

/-!
# Merging

Sources in order of precedence become one flat map.  Plain keys are overridden one by one.  Keys with an
index belong to the family named by the text before their first bracket, and a source that holds any key
of a family replaces the whole family of the sources below it.
-/

namespace LayeredConfig

/-- The family of an indexed key: the text before its first bracket. -/
def familyPrefix? (key : String) : Option String :=
  let s := key.toList
  if s.contains '[' then some (String.ofList (s.takeWhile (· ≠ '['))) else none

namespace Merge

/-- The properties without an index. -/
def plainEntries (entries : List (String × Value)) : List (String × Value) :=
  entries.filter fun e => (familyPrefix? e.1).isNone

/-- The properties of one family. -/
def family (entries : List (String × Value)) (name : String) : List (String × Value) :=
  entries.filter fun e => familyPrefix? e.1 = some name

/-- The families of some properties, by first appearance of their name. -/
def families (entries : List (String × Value)) : List (String × List (String × Value)) :=
  (firstOccurrences (entries.filterMap fun e => familyPrefix? e.1)).map fun name =>
    (name, family entries name)

/-- What has been read from the sources of lowest precedence up. -/
structure Layers where
  plain : List (String × Value)
  families : List (String × List (String × Value))

/-- One more source on top. -/
def Layers.add (layers : Layers) (source : Properties) : Layers :=
  ⟨Entries.putAll layers.plain (plainEntries source.entries),
    Entries.putAll layers.families (Merge.families source.entries)⟩

/-- The layers of sources given in order of precedence. -/
def layers (sources : List Properties) : Layers :=
  sources.foldr (fun source below => below.add source) ⟨[], []⟩

end Merge

/-- The merged properties of sources given in order of precedence: plain keys, then family by family. -/
def merge (sources : List Properties) : Properties :=
  let layers := Merge.layers sources
  (OrderedMap.ofList (layers.plain ++ layers.families.flatMap (·.2))).erase activeProfilesKey

end LayeredConfig
