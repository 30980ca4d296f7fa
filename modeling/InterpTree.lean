import InterpTree.Script.Reference
import InterpTree.Tree.Trust
import InterpTree.Tree.Aliases
import InterpTree.Tree.Policies
import InterpTree.Tree.Share
import InterpTree.Tree.Objects
import InterpTree.Tree.Settings
import InterpTree.Act
import InterpTree.Text.Duration
import InterpTree.Engine.Clock
import InterpTree.Engine.Service
import InterpTree.Engine.Waiting
import InterpTree.Engine.Builtins
import InterpTree.Engine.Guards
import InterpTree.Engine.Control
import InterpTree.Engine.Run
import InterpTree.Worker.Errand
import InterpTree.Yaml
import InterpTree.Yaml.Read
import InterpTree.Manifest
import InterpTree.Manifest.Apply
import InterpTree.Config
import InterpTree.Config.Load
import InterpTree.Repository
import InterpTree.Surroundings
import InterpTree.Manifest.Watch
import InterpTree.Shell.Arguments
import InterpTree.Shell.Sketch
import InterpTree.Shell.Dialogue
import InterpTree.Shell.Launch
import InterpTree.Main
import InterpTree.Text.Letter
import InterpTree.Pattern.Read
import InterpTree.Binary64
import InterpTree.Text.Instant
import InterpTree.Yaml.Datum
import InterpTree.Yaml.Property
import InterpTree.Yaml.Token
import InterpTree.Proofs.Ends
import InterpTree.Proofs.Lasting
import InterpTree.Proofs.Nodes
import InterpTree.Proofs.Waning
import InterpTree.Proofs.Removal
import InterpTree.Proofs.Tables
import InterpTree.Proofs.Edits
import InterpTree.Proofs.Growth
import InterpTree.Proofs.TrustChanges
import InterpTree.Proofs.Course
import InterpTree.Proofs.Acyclic
import InterpTree.Proofs.PathNames
import InterpTree.Proofs.Walks
import InterpTree.Proofs.Paths
import InterpTree.Proofs.Conduct
import InterpTree.Proofs.Regime
import InterpTree.Proofs.Scripts
import InterpTree.Proofs.Loops
import InterpTree.Proofs.Runs
import InterpTree.Proofs.Lifting
import InterpTree.Proofs.Inmates
import InterpTree.Proofs.Sandbox
import InterpTree.Proofs.Scanning
import InterpTree.Proofs.Continuation
import InterpTree.Proofs.ListSpelling
import InterpTree.Proofs.ListReading
import InterpTree.Proofs.ListCommand
import InterpTree.Proofs.Razing
import InterpTree.Proofs.Pruning
import InterpTree.Proofs.Deletion
import InterpTree.Proofs.Weaving
import InterpTree.Proofs.Histories
import InterpTree.Proofs.Integrity
import InterpTree.Proofs.Survival
import InterpTree.Proofs.Upkeep
import InterpTree.Proofs.Orderly
import InterpTree.Proofs.Shims
import InterpTree.Proofs.Distrust
import InterpTree.Proofs.Heredity
import InterpTree.Proofs.Heeding
import InterpTree.Proofs.Deeds
import InterpTree.Proofs.Moments
import InterpTree.Proofs.Freezing
import InterpTree.Proofs.Mediation
import InterpTree.Proofs.CancelHistory
import InterpTree.Proofs.Watchdogs
import InterpTree.Proofs.Leveling
import InterpTree.Proofs.Recursion
import InterpTree.Proofs.WorkerLoop
import InterpTree.Proofs.Schedules
import InterpTree.Proofs.Tallies
import InterpTree.Proofs.Servings
import InterpTree.Proofs.Refusals
import InterpTree.Proofs.Inventory
import InterpTree.Proofs.Custody
import InterpTree.Proofs.Disposal
import InterpTree.Proofs.Forwarding
import InterpTree.Proofs.Verdicts
import InterpTree.Proofs.Furnishing
import InterpTree.Proofs.Establishment
import InterpTree.Proofs.Departures
import InterpTree.Proofs.Inertness
import InterpTree.Proofs.DueEvents
import InterpTree.Proofs.Flushing
import InterpTree.Proofs.Lending
import InterpTree.Proofs.Relays
import InterpTree.Proofs.Origins
import InterpTree.Proofs.LimitCommands
import InterpTree.Proofs.LimitPasses
import InterpTree.Proofs.Leftovers
import InterpTree.Proofs.Delays
import InterpTree.Proofs.Sequencing
import InterpTree.Proofs.Layouts
import InterpTree.Proofs.Brackets
import InterpTree.Proofs.HostCalls
import InterpTree.Proofs.Matching
import InterpTree.Proofs.OptionWords
import InterpTree.Proofs.PathAlgebra
import InterpTree.Proofs.Unhiding
import InterpTree.Proofs.Markers
import InterpTree.Proofs.Kinds
import InterpTree.Proofs.Objections
import InterpTree.Proofs.Numbering
