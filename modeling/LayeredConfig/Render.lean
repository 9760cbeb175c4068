import LayeredConfig.Environment
import LayeredConfig.Failure
import LayeredConfig.Placeholder
import LayeredConfig.Yaml.Printer

/-!
# Rendering

An environment as a text of properties, a JSON document or a YAML document.  Placeholders are replaced in
the finished text.
-/

namespace LayeredConfig

/-- The kinds of text that an environment is rendered to. -/
inductive OutputFormat where
  | properties
  | json
  | yaml
  deriving DecidableEq

/-- Why nothing is rendered. -/
inductive RenderFailure where
  | hyphenatedProfiles
  | unsupportedFormat (text : String)
  | failure (cause : Failure)
  deriving DecidableEq

/-- The wording of a failure to render. -/
def RenderFailure.message : RenderFailure → String
  | .hyphenatedProfiles =>
    "Invalid request: properties output not supported for name or profiles containing hyphens"
  | .unsupportedFormat text => "Unsupported output format: " ++ text
  | .failure cause => cause.message

namespace OutputFormat

/-- The name of a format. -/
def name : OutputFormat → String
  | .properties => "properties"
  | .json => "json"
  | .yaml => "yaml"

/-- The format that a text names in any letter case. -/
def parse (text : String) : Except RenderFailure OutputFormat :=
  let lowered := String.ofList (Text.lower text.toList)
  if lowered = "properties" then .ok .properties
  else if lowered = "json" then .ok .json
  else if lowered = "yml" || lowered = "yaml" then .ok .yaml
  else .error (.unsupportedFormat lowered)

end OutputFormat

/-- Choices of rendering. -/
structure RenderOptions where
  /-- Write a YAML document that is wrapped under `document` without its wrapper. -/
  stripDocument : Bool := true
  resolvePlaceholders : Bool := true
  deriving DecidableEq

namespace Render

/-- Profiles stand in one part of a path, so they may not hold hyphens. -/
def checkProfiles (profiles : String) : Except RenderFailure Unit :=
  if profiles.toList.contains '-' then .error .hyphenatedProfiles else .ok ()

/-- The line of one property. -/
def propertyLine (key : String) (value : Value) : List Char :=
  key.toList ++ ':' :: ' ' :: (value.plainText?.getD "null".toList)

/-- One line for each property. -/
def propertiesText (flat : Properties) : List Char :=
  Text.joinWith ['\n'] (flat.entries.map fun e => propertyLine e.1 e.2)

/-- A finished text with its placeholders replaced, if that is wanted. -/
def finish (options : RenderOptions) (flat : Properties) (s : List Char) : List Char :=
  if options.resolvePlaceholders then Placeholder.resolve flat s else s

/-- The text of merged properties.  A YAML document without its wrapper keeps its placeholders. -/
def text (options : RenderOptions) (format : OutputFormat) (flat : Properties) :
    Except Structure.InvalidKey (List Char) :=
  match format with
  | .properties => .ok (finish options flat (propertiesText flat))
  | .json =>
    (Structure.buildRoot false flat).map fun (root, _) => finish options flat root.toValue.compact
  | .yaml =>
    (Structure.buildRoot options.stripDocument flat).map fun (root, stripped) =>
      let text := Yaml.document root.toValue
      if stripped then text else finish options flat text

/-- The text of an environment that was resolved for `profiles`. -/
def environment (options : RenderOptions) (format : OutputFormat) (profiles : String)
    (e : Environment) : Except RenderFailure String := do
  checkProfiles profiles
  let rendered ← (text options format e.merged).mapError fun key => .failure (.invalidKey key)
  return String.ofList rendered

end Render

end LayeredConfig
