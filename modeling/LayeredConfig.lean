import LayeredConfig.CommandLine.Arguments
import LayeredConfig.CommandLine.Check
import LayeredConfig.CommandLine.Run
import LayeredConfig.CommandLine.Settings
import LayeredConfig.Composite
import LayeredConfig.Config
import LayeredConfig.Config.Composite
import LayeredConfig.Config.Load
import LayeredConfig.Config.Record
import LayeredConfig.Config.Report
import LayeredConfig.Config.Substitution
import LayeredConfig.Environment
import LayeredConfig.Event
import LayeredConfig.Failure
import LayeredConfig.Files
import LayeredConfig.Flatten
import LayeredConfig.Json.Pointer
import LayeredConfig.Json.Printer
import LayeredConfig.Json.Reader
import LayeredConfig.Json.Record
import LayeredConfig.Json.Value
import LayeredConfig.Key
import LayeredConfig.Lookup
import LayeredConfig.Main
import LayeredConfig.Merge
import LayeredConfig.Node
import LayeredConfig.Number.Binary64
import LayeredConfig.Number.Shortest
import LayeredConfig.OrderedMap
import LayeredConfig.Path
import LayeredConfig.Placeholder
import LayeredConfig.Proofs.Composite.Consultation
import LayeredConfig.Proofs.Composite.Order
import LayeredConfig.Proofs.Composite.Resolution
import LayeredConfig.Proofs.Composite.Sources
import LayeredConfig.Proofs.Config.Composite
import LayeredConfig.Proofs.Config.DataFiles
import LayeredConfig.Proofs.Config.Defaults
import LayeredConfig.Proofs.Config.Escapes
import LayeredConfig.Proofs.Config.Labels
import LayeredConfig.Proofs.Config.References
import LayeredConfig.Proofs.Config.Report
import LayeredConfig.Proofs.Config.Substitution
import LayeredConfig.Proofs.Document.Alike
import LayeredConfig.Proofs.Document.Flat
import LayeredConfig.Proofs.Document.Indexed
import LayeredConfig.Proofs.Document.NodeMap
import LayeredConfig.Proofs.Document.Normal
import LayeredConfig.Proofs.Document.Overlay
import LayeredConfig.Proofs.Document.Path
import LayeredConfig.Proofs.Document.Regular
import LayeredConfig.Proofs.Document.Scalars
import LayeredConfig.Proofs.Event
import LayeredConfig.Proofs.Json.Leaves
import LayeredConfig.Proofs.Json.Numbers
import LayeredConfig.Proofs.Json.RoundTrip
import LayeredConfig.Proofs.Key.Cursor
import LayeredConfig.Proofs.Key.Grammar
import LayeredConfig.Proofs.Key.Plain
import LayeredConfig.Proofs.Key.Spelling
import LayeredConfig.Proofs.Lookup.DefaultProfile
import LayeredConfig.Proofs.Lookup.Expansion
import LayeredConfig.Proofs.Merge.Documents
import LayeredConfig.Proofs.Merge.Grouping
import LayeredConfig.Proofs.Merge.Layers
import LayeredConfig.Proofs.Merge.Precedence
import LayeredConfig.Proofs.OrderedMap
import LayeredConfig.Proofs.Path
import LayeredConfig.Proofs.Placeholder.Braces
import LayeredConfig.Proofs.Placeholder.Chains
import LayeredConfig.Proofs.Placeholder.Containment
import LayeredConfig.Proofs.Placeholder.Expansion
import LayeredConfig.Proofs.Placeholder.Indirection
import LayeredConfig.Proofs.Placeholder.Passes
import LayeredConfig.Proofs.Placeholder.Quotation
import LayeredConfig.Proofs.Placeholder.Surroundings
import LayeredConfig.Proofs.Redaction.Addresses
import LayeredConfig.Proofs.Redaction.Names
import LayeredConfig.Proofs.Redaction.Secrets
import LayeredConfig.Proofs.Render.Lines
import LayeredConfig.Proofs.Render.Resolution
import LayeredConfig.Proofs.Request.Escapes
import LayeredConfig.Proofs.Request.Rejection
import LayeredConfig.Proofs.Request.Traversal
import LayeredConfig.Proofs.Structure.Clash
import LayeredConfig.Proofs.Structure.Conservation
import LayeredConfig.Proofs.Structure.Displacement
import LayeredConfig.Proofs.Structure.Failure
import LayeredConfig.Proofs.Structure.Guards
import LayeredConfig.Proofs.Structure.Hoist
import LayeredConfig.Proofs.Structure.Insertion
import LayeredConfig.Proofs.Structure.Leaves
import LayeredConfig.Proofs.Structure.Order
import LayeredConfig.Proofs.Structure.Placement
import LayeredConfig.Proofs.Structure.Reordering
import LayeredConfig.Proofs.Structure.RoundTrip
import LayeredConfig.Proofs.Structure.Run
import LayeredConfig.Proofs.Structure.Settled
import LayeredConfig.Proofs.Structure.Shading
import LayeredConfig.Proofs.Structure.Shape
import LayeredConfig.Proofs.Structure.Update
import LayeredConfig.Proofs.Terminal.Layout
import LayeredConfig.Proofs.Terminal.Visible
import LayeredConfig.Proofs.Text.Fields
import LayeredConfig.Proofs.Text.Pieces
import LayeredConfig.Proofs.Text.Runs
import LayeredConfig.Proofs.Words
import LayeredConfig.Properties
import LayeredConfig.Provider
import LayeredConfig.Redaction
import LayeredConfig.Render
import LayeredConfig.Request
import LayeredConfig.Structure
import LayeredConfig.Table
import LayeredConfig.Table.DataFile
import LayeredConfig.Terminal.Grid
import LayeredConfig.Text
import LayeredConfig.Text.GraphemeExtend
import LayeredConfig.Text.Quoted
import LayeredConfig.Text.Unprintable
import LayeredConfig.Words
import LayeredConfig.Yaml.BlockText
import LayeredConfig.Yaml.Character
import LayeredConfig.Yaml.Content
import LayeredConfig.Yaml.Cursor
import LayeredConfig.Yaml.FlowText
import LayeredConfig.Yaml.Node
import LayeredConfig.Yaml.Printer
import LayeredConfig.Yaml.Scalar
import LayeredConfig.Yaml.Tag
import LayeredConfig.Yaml.Token
