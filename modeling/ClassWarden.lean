import ClassWarden.Main
import ClassWarden.Files.Tree
import ClassWarden.Proofs.Alignment
import ClassWarden.Proofs.Matching
import ClassWarden.Proofs.EditedPattern
import ClassWarden.Proofs.Lifecycle
import ClassWarden.Proofs.Detection
import ClassWarden.Proofs.Settlement
import ClassWarden.Proofs.ArchiveVerdict
import ClassWarden.Proofs.BigEndian
import ClassWarden.Proofs.Decoding
import ClassWarden.ClassFile.Writer
import ClassWarden.Proofs.Reading
import ClassWarden.Proofs.ClassImage
import ClassWarden.Proofs.ClassFile
import ClassWarden.Proofs.Findings
import ClassWarden.Proofs.Persistence
import ClassWarden.Proofs.SkipLimit
import ClassWarden.Proofs.Fieldwise
import ClassWarden.Proofs.Truncation
import ClassWarden.Proofs.SettledSubjects
import ClassWarden.Proofs.TextReport
import ClassWarden.Proofs.ScanVerdict
import ClassWarden.Text.Json.Reader
import ClassWarden.Report.Reader
import ClassWarden.Proofs.JsonText
import ClassWarden.Proofs.JsonReport
import ClassWarden.Proofs.Places
import ClassWarden.Proofs.ShortenedClass
import ClassWarden.Proofs.FindingsTable
import ClassWarden.Proofs.ExtremeLimits
import ClassWarden.Proofs.Visibility
import ClassWarden.Proofs.Aggregation
import ClassWarden.Proofs.LifecycleRuns
import ClassWarden.Proofs.LegalEvents
import ClassWarden.CommandLine.Spelling
import ClassWarden.Proofs.Arguments
import ClassWarden.Proofs.ImplicitScan
import ClassWarden.Proofs.WalkTargets
import ClassWarden.Proofs.ReportLines
import ClassWarden.Proofs.ReferenceTree
import ClassWarden.Proofs.PoolReference
import ClassWarden.Proofs.Forks
import ClassWarden.Proofs.Renumbering
import ClassWarden.Proofs.PoolLayout
import ClassWarden.Proofs.DecodeFrontier
import ClassWarden.Proofs.EndOfData
import ClassWarden.Proofs.DecodedOperands
import ClassWarden.Proofs.CommandPlace
import ClassWarden.Proofs.DecoderRange
import ClassWarden.Proofs.TargetOrder
import ClassWarden.Proofs.HexText
