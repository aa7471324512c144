import RouteStubs.Main
import RouteStubs.Route.Dispatch
import RouteStubs.Proofs.Ends
import RouteStubs.Proofs.Keyed
import RouteStubs.Proofs.Distinct
import RouteStubs.Proofs.Faults
import RouteStubs.Proofs.FreshName
import RouteStubs.Proofs.Registry
import RouteStubs.Proofs.Resolver
import RouteStubs.Proofs.Part
import RouteStubs.Proofs.Schema.Definitions
import RouteStubs.Proofs.Schema.Rules
import RouteStubs.Proofs.Schema.Reads
import RouteStubs.Proofs.Shape
import RouteStubs.Proofs.Schema.References
import RouteStubs.Proofs.Schema.Walked
import RouteStubs.Proofs.Schema.Course
import RouteStubs.Proofs.Draft.Placed
import RouteStubs.Proofs.Draft.Drafted
import RouteStubs.Proofs.Draft.Hoist
import RouteStubs.Proofs.Draft.Calls
import RouteStubs.Proofs.Draft.Run
import RouteStubs.Proofs.Keys
import RouteStubs.Proofs.Handles
import RouteStubs.Proofs.SelfReference
import RouteStubs.Proofs.Datum
import RouteStubs.Proofs.Schema.Satisfies
import RouteStubs.Proofs.Admits
import RouteStubs.Proofs.Schema.Enumerated
import RouteStubs.Proofs.Schema.Admitted
import RouteStubs.Proofs.Satisfied
import RouteStubs.Proofs.Route.Groups
import RouteStubs.Proofs.Route.Specific
import RouteStubs.Proofs.Routing
import RouteStubs.Proofs.Shadowing
import RouteStubs.Proofs.Schema.Throughout
import RouteStubs.Proofs.Draft.Traced
import RouteStubs.Proofs.ClosedTable
import RouteStubs.Proofs.Schema.Direct
import RouteStubs.Proofs.Schema.Returns
import RouteStubs.Proofs.Schema.Aside
import RouteStubs.Proofs.Discriminators
import RouteStubs.Proofs.Schema.Steady
import RouteStubs.Proofs.ToldApart
import RouteStubs.Proofs.Reading
import RouteStubs.Proofs.Prose
import RouteStubs.Proofs.Written
import RouteStubs.Proofs.TypeText
import RouteStubs.Proofs.Render.Lines
import RouteStubs.Proofs.Render.TypesModule
import RouteStubs.Proofs.Render.RouterModule
import RouteStubs.Proofs.Render.HandlerModule
import RouteStubs.Proofs.Remarks
import RouteStubs.Proofs.Schema.Again
import RouteStubs.Proofs.Schema.Unforeseen
import RouteStubs.Proofs.Alongside
import RouteStubs.Proofs.Hoisting
import RouteStubs.Proofs.Renamed.Walk
import RouteStubs.Proofs.Sharing
import RouteStubs.Proofs.Schema.Ending
import RouteStubs.Proofs.Schema.Foreseen
import RouteStubs.Proofs.Files
import RouteStubs.Proofs.Outcomes
import RouteStubs.Proofs.Bodies
import RouteStubs.Proofs.OneAnswer
import RouteStubs.Proofs.Shape.Merged
import RouteStubs.Proofs.Schema.Required
import RouteStubs.Proofs.Schema.Merges
import RouteStubs.Proofs.Route.Partition
import RouteStubs.Proofs.Paths
import RouteStubs.Proofs.Route.Binding
import RouteStubs.Proofs.Schema.Alternatives
import RouteStubs.Proofs.Draft.Operations
import RouteStubs.Proofs.Draft.Gathered
import RouteStubs.Proofs.Shape.Sole
import RouteStubs.Proofs.Schema.Regulated
import RouteStubs.Proofs.Draft.Faithful
import RouteStubs.Proofs.VariantTables
import RouteStubs.Proofs.HandlerOrder
import RouteStubs.Proofs.Route.Handlers
import RouteStubs.Proofs.Bindings
import RouteStubs.Proofs.ComponentNames
import RouteStubs.Proofs.Resolver.Followed
import RouteStubs.Proofs.Resolver.Designated
import RouteStubs.Proofs.Nameable
import RouteStubs.Proofs.Draft.VariantNames
import RouteStubs.Proofs.Schema.Kept
import RouteStubs.Proofs.Schema.Companion
import RouteStubs.Proofs.Schema.Retried
import RouteStubs.Proofs.Operation.Effective
import RouteStubs.Proofs.Operation.Record
import RouteStubs.Proofs.Margins
import RouteStubs.Proofs.Body.Source
import RouteStubs.Proofs.Body.Suspended
import RouteStubs.Proofs.Body.Tail
import RouteStubs.Proofs.Body.Trailing
import RouteStubs.Proofs.Body.Fences
import RouteStubs.Proofs.Prose.ReadBack
import RouteStubs.Proofs.Prose.Normal
import RouteStubs.Proofs.Resolver.Components
import RouteStubs.Proofs.Inflection
