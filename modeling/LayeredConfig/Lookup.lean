import LayeredConfig.Request

/-!
# Look-up keys

The applications, profiles and labels of a request, as the lists of candidates that providers are asked
for, and the look-ups they make up.  Later names of a request come first, since they override earlier
ones.
-/

namespace LayeredConfig

/-- The application shared by all clients. -/
def sharedApplication : String := "application"

/-- The profile of requests that name none. -/
def defaultProfile : String := "default"

/-- The label of repositories that configure none. -/
def standardLabel : String := "master"

/-- One question to a provider. -/
structure Lookup where
  label : String
  profile : Option String
  application : String
  deriving DecidableEq

namespace Lookup

/-- The name that the properties found are reported under. -/
def sourceName (lookup : Lookup) : String :=
  match lookup.profile with
  | some profile => lookup.application ++ "-" ++ profile
  | none => lookup.application

end Lookup

/-- The candidates of a request, in the order in which they are tried. -/
structure LookupKeys where
  applications : List String
  profiles : List String
  labels : List String
  /-- Whether the profiles of each label are followed by look-ups without a profile. -/
  profilelessFallback : Bool
  deriving DecidableEq

namespace LookupKeys

/-- The profiles of one label, followed by `none` where look-ups without a profile are made. -/
def profileChoices (keys : LookupKeys) : List (Option String) :=
  keys.profiles.map some ++ if keys.profilelessFallback then [none] else []

/-- All look-ups in order: label by label, in each label profile by profile, applications innermost. -/
def lookups (keys : LookupKeys) : List Lookup :=
  keys.labels.flatMap fun label =>
    keys.profileChoices.flatMap fun profile =>
      keys.applications.map fun application => ⟨label, profile, application⟩

end LookupKeys

/-- The profiles as a request names them. -/
def requestedProfiles (profile : String) : List String :=
  match firstOccurrences (commaWords profile) with
  | [] => [defaultProfile]
  | profiles => profiles

/-- How a repository expands requests. -/
structure Expander where
  defaultLabel : String := standardLabel
  /-- An incomplete repository holds no properties without a profile; its default profile stands in. -/
  configIncomplete : Bool := false
  deriving DecidableEq

namespace Expander

/-- The applications of a request, with the shared one first unless it is named. -/
def applications (text : String) : Except Request.Problem (List String) :=
  match commaWords text with
  | [] => .error .blankApplication
  | names =>
    let names := if names.contains sharedApplication then names else sharedApplication :: names
    .ok (firstOccurrences names).reverse

/-- The profiles of a request.  An incomplete repository puts the default profile first, unless the text
starts with it. -/
def profiles (expander : Expander) (text : String) : List String :=
  let text := if isBlankText text then defaultProfile else text
  let text :=
    if expander.configIncomplete && !defaultProfile.toList.isPrefixOf text.toList then
      defaultProfile ++ "," ++ text
    else text
  match firstOccurrences (commaWords text) with
  | [] => [defaultProfile]
  | profiles => profiles.reverse

/-- The labels of a text; only a list with a comma is reversed. -/
def splitLabels (text : String) : List String :=
  if text.toList.contains ',' then (firstOccurrences (commaWords text)).reverse else commaWords text

/-- The labels of a request, or those of the repository. -/
def labels (expander : Expander) (text : String) : Except Request.Problem (List String) :=
  match splitLabels text with
  | [] =>
    match splitLabels expander.defaultLabel with
    | [] => .error .noLabel
    | labels => .ok labels
  | labels => .ok labels

/-- The candidates of the given application, profile and label texts. -/
def expand (expander : Expander) (application profile label : String) :
    Except Request.Problem LookupKeys := do
  let applications ← applications application
  let labels ← expander.labels label
  return {
    applications := applications
    profiles := expander.profiles profile
    labels := labels
    profilelessFallback := !expander.configIncomplete }

/-- The candidates of a request. -/
def keysOf (expander : Expander) (request : Request) : Except Request.Problem LookupKeys :=
  expander.expand request.application request.profile request.labelText

end Expander

end LayeredConfig
