import BranchingStory.Main
import BranchingStory.Proofs.Chapter.Routes
import BranchingStory.Proofs.Chapter.Closure
import BranchingStory.Proofs.Chapter.Soundness
import BranchingStory.Proofs.Chapter.Compiled
import BranchingStory.Proofs.Story.Compiled
import BranchingStory.Proofs.Story.Play
import BranchingStory.Proofs.Story.Finishing
import BranchingStory.Proofs.Chapter.DefaultLinks
import BranchingStory.Proofs.Story.DefaultLinks
import BranchingStory.Proofs.Manuscript.Numbers
import BranchingStory.Proofs.Story.Connected
import BranchingStory.Proofs.Loop
import BranchingStory.Proofs.Graph.Paths
import BranchingStory.Proofs.Graph.Search
import BranchingStory.Proofs.Graph.Acyclic
import BranchingStory.Proofs.Graph.Walk
import BranchingStory.Proofs.Graph.Survey
import BranchingStory.Proofs.Puzzle.Compiled
import BranchingStory.Proofs.Puzzle.WellFormed
import BranchingStory.Proofs.Puzzle.Unlocks
import BranchingStory.Proofs.Puzzle.Play
import BranchingStory.Proofs.Puzzle.Verdict
import BranchingStory.Proofs.Manuscript.Loading
import BranchingStory.Proofs.Manuscript.Refused
import BranchingStory.Proofs.Manuscript.Series
import BranchingStory.Proofs.Manuscript.Account
import BranchingStory.Proofs.Manuscript.Reordering
import BranchingStory.Proofs.Translation.Change
import BranchingStory.Proofs.Translation.Independence
import BranchingStory.Proofs.Lookup
import BranchingStory.Proofs.Enumeration
import BranchingStory.Proofs.Locale.Parents
import BranchingStory.Proofs.Locale.Registry
import BranchingStory.Proofs.Locale.Chains
import BranchingStory.Proofs.Locale.Faults
import BranchingStory.Proofs.Locale.Resolution
import BranchingStory.Proofs.Locale.Misses
import BranchingStory.Proofs.Locale.Bundle
import BranchingStory.Proofs.Translation.Slots
import BranchingStory.Proofs.Translation.Keys
import BranchingStory.Proofs.Story.Naming
import BranchingStory.Proofs.Chapter.Labels
import BranchingStory.Proofs.Locale.Audit
import BranchingStory.Proofs.Locale.Transposition
import BranchingStory.Proofs.Translation.Coverage
import BranchingStory.Proofs.Translation.Extraction
import BranchingStory.Proofs.Files.Paths
import BranchingStory.Proofs.Files.Writing
import BranchingStory.Proofs.Files.Listing
import BranchingStory.Proofs.Publication.Manifest
import BranchingStory.Proofs.Publication.Shipping
import BranchingStory.Proofs.Alignment
import BranchingStory.Proofs.Manuscript.Isolation
import BranchingStory.Proofs.Chapter.Slots
import BranchingStory.Proofs.Chapter.WellFormed
import BranchingStory.Proofs.Chapter.Shape
import BranchingStory.Proofs.Chapter.Reported
import BranchingStory.Proofs.Chapter.Authored
import BranchingStory.Proofs.Chapter.Change
import BranchingStory.Proofs.Chapter.Explicit
import BranchingStory.Proofs.Chapter.Editing
import BranchingStory.Proofs.Json.Printing
import BranchingStory.Proofs.Json.Records
import BranchingStory.Proofs.Publication.Rereading
