import NamedRoutes.Main
import NamedRoutes.PublicNames
import NamedRoutes.Proofs.Store.LazyMatcher
import NamedRoutes.Proofs.Regex.Leftovers
import NamedRoutes.Proofs.Regex.Alternatives
import NamedRoutes.Proofs.Regex.Script
import NamedRoutes.Proofs.Regex.Content
import NamedRoutes.Proofs.Regex.Embedding
import NamedRoutes.Proofs.Regex.Reading
import NamedRoutes.Proofs.Regex.Outline
import NamedRoutes.Proofs.Regex.Settling
import NamedRoutes.Proofs.Regex.Parentheses
import NamedRoutes.Proofs.Regex.Pasting
import NamedRoutes.Proofs.Pattern.Fragments
import NamedRoutes.Proofs.Regex.Anchored
import NamedRoutes.Proofs.Regex.Merging
import NamedRoutes.Proofs.Chunk.MergedMatch
import NamedRoutes.Proofs.Chunk.Entries
import NamedRoutes.Proofs.Pattern.OwnMatch
import NamedRoutes.Proofs.Chunk.Splitting
import NamedRoutes.Proofs.Chunk.Search
import NamedRoutes.Proofs.OrderedMap
import NamedRoutes.Proofs.Store.Tables
import NamedRoutes.Proofs.Store.PatternTable
import NamedRoutes.Proofs.Store.LinearScan
import NamedRoutes.Proofs.Store.Decision
import NamedRoutes.Proofs.Store.Refinement
import NamedRoutes.Proofs.Store.RightRoute
import NamedRoutes.Proofs.Pattern.Acceptance
import NamedRoutes.Proofs.Store.Rejection
import NamedRoutes.Proofs.Pattern.Braces
import NamedRoutes.Proofs.Store.Batch
import NamedRoutes.Proofs.Regex.Places
import NamedRoutes.Proofs.Regex.Spans
import NamedRoutes.Proofs.Regex.Tracking
import NamedRoutes.Proofs.Regex.Repetition
import NamedRoutes.Proofs.Regex.Ways
import NamedRoutes.Proofs.Regex.Yields
import NamedRoutes.Proofs.Pattern.Language
import NamedRoutes.Proofs.Pattern.Pieces
import NamedRoutes.Proofs.Pattern.Layout
import NamedRoutes.Proofs.Pattern.Components
import NamedRoutes.Proofs.Pattern.ComponentLanguage
import NamedRoutes.Proofs.Trim
import NamedRoutes.Proofs.Pattern.Seams
import NamedRoutes.Proofs.Pattern.Filling
import NamedRoutes.Proofs.Pattern.Margins
import NamedRoutes.Proofs.Pattern.BuiltText
import NamedRoutes.Proofs.Pattern.WholeParameters
import NamedRoutes.Proofs.Store.Names
import NamedRoutes.Proofs.Store.BuiltPath
import NamedRoutes.Proofs.Store.RebuiltPath
import NamedRoutes.Proofs.Store.Consistency
import NamedRoutes.Proofs.Store.Extension
import NamedRoutes.Proofs.Pattern.Leading
import NamedRoutes.Proofs.Store.Containment
import NamedRoutes.Proofs.Pattern.Opening
import NamedRoutes.Proofs.Store.WrittenNamespace
import NamedRoutes.Proofs.Pattern.Expansion
import NamedRoutes.Proofs.Store.Admission
import NamedRoutes.Proofs.Store.Reordering
import NamedRoutes.Proofs.Store.Reloading
import NamedRoutes.Proofs.Regex.Numbering
import NamedRoutes.Proofs.Chunk.GroupCount
import NamedRoutes.Proofs.Store.GroupBookkeeping
import NamedRoutes.Proofs.Pattern.ReportedMatch
import NamedRoutes.Proofs.Pattern.BoundGroups
import NamedRoutes.Proofs.Store.BoundValues
import NamedRoutes.Proofs.Store.FixedPaths
import NamedRoutes.Proofs.Pattern.ComponentPath
import NamedRoutes.Proofs.Pattern.Alternation
import NamedRoutes.Proofs.Store.SpecifiedPath
import NamedRoutes.Proofs.Pattern.GivenValues
import NamedRoutes.Proofs.Store.ExactBinding
import NamedRoutes.Proofs.Dispatch.OtherHandlers
import NamedRoutes.Proofs.Dispatch.Waiting
import NamedRoutes.Proofs.Pattern.WrittenPath
import NamedRoutes.Proofs.Pattern.ShortcutEnds
import NamedRoutes.Proofs.Store.Listing
import NamedRoutes.Proofs.Chunk.RoundedQuotient
import NamedRoutes.Proofs.Chunk.EvenPieces
import NamedRoutes.Proofs.Store.Releases
