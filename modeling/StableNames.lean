import StableNames.Main
import StableNames.Proofs.Graph.Arena
import StableNames.Proofs.Graph.Slots
import StableNames.Proofs.Graph.Families
import StableNames.Proofs.Graph.Components
import StableNames.Proofs.Graph.SlotClasses
import StableNames.Proofs.Graph.Signatures
import StableNames.Proofs.Graph.FirstDeclarations
import StableNames.Proofs.Descriptor
import StableNames.Proofs.Descriptor.Types
import StableNames.Proofs.Naming.Resolver
import StableNames.Proofs.Naming.FamilyNames
import StableNames.Proofs.Naming.Candidates
import StableNames.Proofs.Naming.Verdicts
import StableNames.Proofs.Session.Asked
import StableNames.Proofs.Session.Rederiving
import StableNames.Proofs.Snapshot.Grammar
import StableNames.Proofs.Snapshot.RoundTrip
import StableNames.Proofs.Snapshot.Loaded
import StableNames.Proofs.Snapshot.Translation
import StableNames.Proofs.Snapshot.Readers
import StableNames.Proofs.Session.Targets
import StableNames.Proofs.Session.Roster
import StableNames.Proofs.Naming.CleanNames
import StableNames.Proofs.Graph.WellFormed
import StableNames.Proofs.Session.RunRoster
import StableNames.Proofs.Session.Records
import StableNames.Proofs.Session.FixedPoint
import StableNames.Proofs.Graph.Renaming
import StableNames.Proofs.Graph.Versions
import StableNames.Proofs.Session.FirstRun
import StableNames.Proofs.Matches
import StableNames.Proofs.Session.Renamed
import StableNames.Proofs.Session.Update
import StableNames.Proofs.Session.Runs
import StableNames.Proofs.Session.Sources
import StableNames.Proofs.Session.Regeneration
import StableNames.Proofs.Session.Succession
import StableNames.Proofs.Naming.Tagged
import StableNames.Proofs.Session.DistinctTargets
import StableNames.Proofs.Session.Echo
import StableNames.Proofs.Session.IncludePatterns
import StableNames.Proofs.Session.Contested
import StableNames.Proofs.Session.Resumption
import StableNames.Proofs.Session.Preparation
import StableNames.Proofs.Session.FailedPreparation
import StableNames.Proofs.Session.FirstNumbers
import StableNames.Proofs.Naming.Choices
import StableNames.Proofs.Naming.Allocations
import StableNames.Proofs.Session.Markers
import StableNames.Proofs.Files.Paths
import StableNames.Proofs.Files.Places
import StableNames.Proofs.Files.Changes
import StableNames.Proofs.Files.Staging
import StableNames.Proofs.Files.Outcomes
import StableNames.Proofs.Command.Commit
import StableNames.Proofs.Session.Nesting
import StableNames.Proofs.Session.Overrides
import StableNames.Proofs.MatchFile
import StableNames.Proofs.Session.Dialogues
import StableNames.Proofs.Session.Statistics
import StableNames.Proofs.Session.Independent
import StableNames.Proofs.Graph.Loading
import StableNames.Proofs.Json.Written
import StableNames.Proofs.Graph.WrittenDocument
import StableNames.Proofs.Settings.WholeNames
import StableNames.Proofs.Graph.Climbing
import StableNames.Proofs.Reach.Passes
import StableNames.Proofs.Naming.Walks
