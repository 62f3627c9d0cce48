import UmlDraft.CommandLine.Flag
import UmlDraft.CommandLine.Help
import UmlDraft.CommandLine.Invocation
import UmlDraft.CommandLine.Options
import UmlDraft.CommandLine.Suggestion
import UmlDraft.CommandLine.Words
import UmlDraft.Decimal.Basic
import UmlDraft.Decimal.Binary
import UmlDraft.Diagram.Arrow
import UmlDraft.Diagram.Basic
import UmlDraft.Diagram.Comment
import UmlDraft.Diagram.Header
import UmlDraft.Diagram.Member
import UmlDraft.Diagram.Model
import UmlDraft.Diagram.Outline
import UmlDraft.Diagram.Relationship
import UmlDraft.Diagram.TypeToken
import UmlDraft.Event.Bus
import UmlDraft.Event.Hub
import UmlDraft.Event.Payload
import UmlDraft.File.Disk
import UmlDraft.File.Fault
import UmlDraft.File.Path
import UmlDraft.Json.Parser
import UmlDraft.Json.Printer
import UmlDraft.Json.Rounding
import UmlDraft.Json.Value
import UmlDraft.Log
import UmlDraft.Main
import UmlDraft.Proofs.CommandLine.Consistent
import UmlDraft.Proofs.CommandLine.NamedFile
import UmlDraft.Proofs.CommandLine.Options
import UmlDraft.Proofs.CommandLine.Package
import UmlDraft.Proofs.CommandLine.Showing
import UmlDraft.Proofs.CommandLine.Verdict
import UmlDraft.Proofs.Decimal
import UmlDraft.Proofs.Diagram.AlikeArrow
import UmlDraft.Proofs.Diagram.AlikeMember
import UmlDraft.Proofs.Diagram.AlikeModel
import UmlDraft.Proofs.Diagram.AlikeOutline
import UmlDraft.Proofs.Diagram.ArrowLine
import UmlDraft.Proofs.Diagram.ArrowPlace
import UmlDraft.Proofs.Diagram.ArrowSearch
import UmlDraft.Proofs.Diagram.BlockComment
import UmlDraft.Proofs.Diagram.Clause
import UmlDraft.Proofs.Diagram.Comment
import UmlDraft.Proofs.Diagram.CommentFree
import UmlDraft.Proofs.Diagram.CommentLine
import UmlDraft.Proofs.Diagram.DrawnArrow
import UmlDraft.Proofs.Diagram.EdgeOrder
import UmlDraft.Proofs.Diagram.Header
import UmlDraft.Proofs.Diagram.HeaderLine
import UmlDraft.Proofs.Diagram.Links
import UmlDraft.Proofs.Diagram.ListedMember
import UmlDraft.Proofs.Diagram.Marker
import UmlDraft.Proofs.Diagram.MarkerInsertion
import UmlDraft.Proofs.Diagram.MarkerPlace
import UmlDraft.Proofs.Diagram.Member
import UmlDraft.Proofs.Diagram.MemberGrammar
import UmlDraft.Proofs.Diagram.MemberLine
import UmlDraft.Proofs.Diagram.Occurrence
import UmlDraft.Proofs.Diagram.Outline
import UmlDraft.Proofs.Diagram.ParameterList
import UmlDraft.Proofs.Diagram.PlainType
import UmlDraft.Proofs.Diagram.Print
import UmlDraft.Proofs.Diagram.RelationLine
import UmlDraft.Proofs.Diagram.Relationship
import UmlDraft.Proofs.Diagram.Remains
import UmlDraft.Proofs.Diagram.Repadding
import UmlDraft.Proofs.Diagram.RoundTrip
import UmlDraft.Proofs.Diagram.Seam
import UmlDraft.Proofs.Diagram.Search
import UmlDraft.Proofs.Diagram.TypeToken
import UmlDraft.Proofs.Diagram.WellFormed
import UmlDraft.Proofs.Event.Bracket
import UmlDraft.Proofs.Event.Delivery
import UmlDraft.Proofs.Event.Growing
import UmlDraft.Proofs.Event.History
import UmlDraft.Proofs.Event.Notices
import UmlDraft.Proofs.Event.Payload
import UmlDraft.Proofs.Event.Quiet
import UmlDraft.Proofs.Event.Round
import UmlDraft.Proofs.Event.Scripted
import UmlDraft.Proofs.File.Disk
import UmlDraft.Proofs.File.Growth
import UmlDraft.Proofs.File.Lookup
import UmlDraft.Proofs.File.Repeat
import UmlDraft.Proofs.Json.Listed
import UmlDraft.Proofs.Json.Number
import UmlDraft.Proofs.Json.RoundTrip
import UmlDraft.Proofs.Report.Listing
import UmlDraft.Proofs.Report.Record
import UmlDraft.Proofs.Run.Accounts
import UmlDraft.Proofs.Run.DryRun
import UmlDraft.Proofs.Run.Footprint
import UmlDraft.Proofs.Run.Phases
import UmlDraft.Proofs.Run.Protocol
import UmlDraft.Proofs.Run.Readable
import UmlDraft.Proofs.Run.Reading
import UmlDraft.Proofs.Run.Rendering
import UmlDraft.Proofs.Run.Repeat
import UmlDraft.Proofs.Run.Transform
import UmlDraft.Proofs.Run.Writing
import UmlDraft.Proofs.Setup.Discovery
import UmlDraft.Proofs.Setup.PackageName
import UmlDraft.Proofs.Setup.Settings
import UmlDraft.Proofs.Skeleton.Block
import UmlDraft.Proofs.Skeleton.Constructor
import UmlDraft.Proofs.Skeleton.Imports
import UmlDraft.Proofs.Skeleton.Interface
import UmlDraft.Proofs.Skeleton.Names
import UmlDraft.Proofs.Skeleton.PackageLine
import UmlDraft.Proofs.Skeleton.Padding
import UmlDraft.Proofs.Skeleton.Source
import UmlDraft.Proofs.Table
import UmlDraft.Proofs.Text.Alike
import UmlDraft.Proofs.Text.Braces
import UmlDraft.Proofs.Text.Join
import UmlDraft.Proofs.Text.Repadded
import UmlDraft.Proofs.Text.Runs
import UmlDraft.Proofs.Text.Split
import UmlDraft.Proofs.Text.Trim
import UmlDraft.Report.Complete
import UmlDraft.Report.Listing
import UmlDraft.Report.Record
import UmlDraft.Run.Artifact
import UmlDraft.Run.Outcome
import UmlDraft.Run.Pipeline
import UmlDraft.Run.Sample
import UmlDraft.Run.Source
import UmlDraft.Run.Thrown
import UmlDraft.Setup.Discovery
import UmlDraft.Setup.Load
import UmlDraft.Skeleton.Block
import UmlDraft.Skeleton.Signature
import UmlDraft.Skeleton.Source
import UmlDraft.Table
import UmlDraft.Text.Case
import UmlDraft.Text.CaseTable
import UmlDraft.Text.Classes
import UmlDraft.Text.Scan
import UmlDraft.Text.Units
import UmlDraft.Text.Utf8
