import LateBound.Text.Blank
import LateBound.Text.Number
import LateBound.Text.Printable
import LateBound.Text.Quoted
import LateBound.Text.Json
import LateBound.Text.Rows
import LateBound.Text.UpperCase
import LateBound.Double
import LateBound.Double.Text
import LateBound.Power
import LateBound.Interner
import LateBound.Arena
import LateBound.Selector
import LateBound.Selector.Hash
import LateBound.Selector.Table
import LateBound.Encoding
import LateBound.Fault
import LateBound.Journal
import LateBound.Settings
import LateBound.Property
import LateBound.Identity
import LateBound.Value
import LateBound.ResultType
import LateBound.Scalar
import LateBound.Layout
import LateBound.Method
import LateBound.Descriptor
import LateBound.Slots
import LateBound.Pools
import LateBound.World
import LateBound.World.Hierarchy
import LateBound.World.Dispatch
import LateBound.World.Methods
import LateBound.World.Protocols
import LateBound.World.Classes
import LateBound.World.Linking
import LateBound.World.Categories
import LateBound.World.Instances
import LateBound.Script
import LateBound.Report
import LateBound.Session
import LateBound.Session.References
import LateBound.Session.Messages
import LateBound.Session.Threads
import LateBound.Session.View
import LateBound.Session.Scope
import LateBound.Session.Housekeeping
import LateBound.Session.Registration
import LateBound.Session.Inspection
import LateBound.Session.Messaging
import LateBound.Session.Objects
import LateBound.Session.PoolUse
import LateBound.Session.Steps
import LateBound.Session.Bodies
import LateBound.Proofs.World.Ancestry
import LateBound.Proofs.World.Chains
import LateBound.Proofs.World.Linking
import LateBound.Proofs.World.Tables
import LateBound.Proofs.World.Changes
import LateBound.Proofs.World.Coherence
import LateBound.Proofs.Bindings
import LateBound.Proofs.World.Resolution
import LateBound.Proofs.World.Adoption
import LateBound.Proofs.World.Passes
import LateBound.Proofs.Slots
import LateBound.Proofs.Pools
import LateBound.Proofs.World.Effects
import LateBound.Proofs.World.Sound
import LateBound.Proofs.Session.Counts
import LateBound.Proofs.Session.Good
import LateBound.Proofs.Session.Moves
import LateBound.Proofs.Dispatch
import LateBound.Proofs.Kinship
import LateBound.Proofs.Protocols
import LateBound.Proofs.Session.Acts
import LateBound.Proofs.Brackets
import LateBound.Proofs.Session.Course
import LateBound.Proofs.Session.Stakes
import LateBound.Proofs.Session.Lands
import LateBound.Proofs.Session.Touches
import LateBound.Proofs.Session.References
import LateBound.Proofs.Session.Rites
import LateBound.Proofs.Session.Scopes
import LateBound.Proofs.Session.Messages
import LateBound.Proofs.Session.Threads
import LateBound.Proofs.Session.Messaging
import LateBound.Proofs.Session.Objects
import LateBound.Proofs.Session.PoolUse
import LateBound.Proofs.Session.Registries
import LateBound.Proofs.Session.Releases
import LateBound.Proofs.Session.Steps
import LateBound.Proofs.Session.Bodies
import LateBound.Proofs.Session.Fates
import LateBound.Proofs.Session.Programs
import LateBound.Proofs.Destruction
import LateBound.Proofs.Accounts
import LateBound.Proofs.Session.Initialization
import LateBound.Proofs.Beginnings
import LateBound.Proofs.Rebuilding
import LateBound.Proofs.World.Threads
import LateBound.Proofs.World.Instances
import LateBound.Proofs.World.Operations
import LateBound.Proofs.World.Merging
import LateBound.Proofs.World.Queues
import LateBound.Proofs.World.Layouts
import LateBound.Proofs.Scalars
import LateBound.Proofs.Session.Dealings
import LateBound.Proofs.Session.Pervasive
import LateBound.Proofs.Session.Performing
import LateBound.Proofs.Session.Operations
import LateBound.Proofs.Session.Actions
import LateBound.Proofs.Session.Advances
import LateBound.Proofs.Storage
import LateBound.Proofs.Cells
import LateBound.Proofs.Categories
import LateBound.Proofs.Custody
import LateBound.Proofs.World.Answers
import LateBound.Proofs.Replacements
import LateBound.Proofs.World.Abreast
import LateBound.Proofs.World.Parallels
import LateBound.Proofs.Waiting
import LateBound.Proofs.World.Lineages
import LateBound.Proofs.World.Assemblies
import LateBound.Proofs.World.Fading
import LateBound.Proofs.Confluence
import LateBound.Proofs.World.Levels
import LateBound.Proofs.Session.Levels
import LateBound.Proofs.Session.Depths
import LateBound.Proofs.Forwarding
import LateBound.Proofs.Mutations
import LateBound.Proofs.World.Permanence
import LateBound.Proofs.Permanence
import LateBound.Proofs.Handlers
import LateBound.Proofs.Session.Refusals
import LateBound.Proofs.Conventions
import LateBound.Proofs.Distinct
import LateBound.Proofs.Selectors
import LateBound.Proofs.Session.Unwinding
import LateBound.Proofs.Survivors
import LateBound.Proofs.World.Homes
import LateBound.Proofs.World.Confinement
import LateBound.Proofs.World.Results
import LateBound.Proofs.Isolation
import LateBound.Proofs.World.Backgrounds
import LateBound.Proofs.World.Twins
import LateBound.Proofs.Session.Growth
import LateBound.Proofs.Comparison.Worlds
import LateBound.Proofs.Comparison.Acts
import LateBound.Proofs.Comparison.References
import LateBound.Proofs.Comparison.Messages
import LateBound.Proofs.Comparison.Actions
import LateBound.Proofs.Comparison.Bodies
import LateBound.Proofs.Comparison.Reports
import LateBound.Proofs.Comparison.Twins
import LateBound.Proofs.Comparison.Tables
import LateBound.Proofs.Exits
import LateBound.Proofs.Thresholds
import LateBound.Proofs.Registrations
import LateBound.Proofs.World.Encodings
import LateBound.Proofs.World.Faults
import LateBound.Proofs.Encodings
import LateBound.Proofs.World.Files
import LateBound.Proofs.World.Admission
import LateBound.Proofs.LinkPasses
import LateBound.Proofs.Overriding
import LateBound.Proofs.World.Bonds
import LateBound.Proofs.Session.Endurance
import LateBound.Proofs.World.Packing
import LateBound.Proofs.Placement
import LateBound.Proofs.World.Descents
import LateBound.Proofs.World.TableWork
import LateBound.Proofs.Invalidation
import LateBound.Proofs.World.Reach
import LateBound.Proofs.Conformance
import LateBound.Proofs.World.Walks
import LateBound.Proofs.Requirements
import LateBound.Proofs.Arena
import LateBound.Proofs.Interning
import LateBound.Proofs.Signatures
import LateBound.Proofs.Alignment
import LateBound.Proofs.TypedResults
