import WorkspaceBuild.Double.Reader
import WorkspaceBuild.Main
import WorkspaceBuild.Package.Descriptor.Json
import WorkspaceBuild.Proofs.Delta
import WorkspaceBuild.Proofs.Graph.Consistent
import WorkspaceBuild.Settings.Json
import WorkspaceBuild.SourceUnit.Json
import WorkspaceBuild.Proofs.Graph.Rounds
import WorkspaceBuild.Proofs.Graph.Circular
import WorkspaceBuild.Proofs.Graph.Settled
import WorkspaceBuild.Proofs.Disk.Trails
import WorkspaceBuild.Proofs.Disk.Changes
import WorkspaceBuild.Proofs.Snapshot
import WorkspaceBuild.Proofs.Dispatch.BuiltIn
import WorkspaceBuild.Proofs.Types.BackReferences
import WorkspaceBuild.Proofs.Builder.Steps
import WorkspaceBuild.Proofs.Builder.Outputs
import WorkspaceBuild.Proofs.Specifiers
import WorkspaceBuild.Proofs.Looks.Scans
import WorkspaceBuild.Proofs.Json.Decoded
import WorkspaceBuild.Proofs.Manifests.Text
import WorkspaceBuild.Proofs.Disk.Lookups
import WorkspaceBuild.Proofs.Looks.Wildcards
import WorkspaceBuild.Proofs.Looks.Members
import WorkspaceBuild.Proofs.Looks.Walks
import WorkspaceBuild.Proofs.Manifests.Kept
import WorkspaceBuild.Proofs.Types.Nesting
import WorkspaceBuild.Proofs.Manifests.Owners
import WorkspaceBuild.Proofs.Builder.Removals
import WorkspaceBuild.Proofs.Builder.Resumption
import WorkspaceBuild.Proofs.Graph.Closure
import WorkspaceBuild.Proofs.Graph.DepthFirst
import WorkspaceBuild.Proofs.Specifiers.Copied
import WorkspaceBuild.Proofs.Looks.Histories
import WorkspaceBuild.Proofs.Dispatch.Scopes
import WorkspaceBuild.Proofs.Builder.Failures
import WorkspaceBuild.Proofs.Graph.Calls
import WorkspaceBuild.Proofs.Dispatch.Draining
import WorkspaceBuild.Proofs.Looks.Listings
import WorkspaceBuild.Proofs.Dispatch.Placement
import WorkspaceBuild.Proofs.Manifests.Recorded
import WorkspaceBuild.Proofs.Builder.Agreement
import WorkspaceBuild.Proofs.Dispatch.Annotations
import WorkspaceBuild.Proofs.Dispatch.Requests
import WorkspaceBuild.Proofs.Types.Printed
import WorkspaceBuild.Proofs.Settings
import WorkspaceBuild.Proofs.Builder.Artefacts
import WorkspaceBuild.Proofs.Categories
import WorkspaceBuild.Proofs.Path.Climbing
import WorkspaceBuild.Proofs.Manifests.Ordered
import WorkspaceBuild.Proofs.Specifiers.Exact
import WorkspaceBuild.Proofs.Specifiers.Fixed
import WorkspaceBuild.Proofs.Types.Expansions
import WorkspaceBuild.Proofs.Units.Expressions
import WorkspaceBuild.Proofs.Units.Imports
import WorkspaceBuild.Proofs.Specifiers.Identities
import WorkspaceBuild.Proofs.Units.Erased
import WorkspaceBuild.Proofs.Dispatch.Reached
import WorkspaceBuild.Proofs.Dispatch.Kinds
import WorkspaceBuild.Proofs.Builder.Reports
import WorkspaceBuild.Proofs.Manifests.Versions
