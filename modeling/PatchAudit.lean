import PatchAudit.Browser.Basic
import PatchAudit.Browser.Layout
import PatchAudit.Browser.ShownLine
import PatchAudit.Browser.TextStyle
import PatchAudit.Browser.View
import PatchAudit.Check.Braces
import PatchAudit.Check.Branding
import PatchAudit.Check.Linter
import PatchAudit.Check.Options
import PatchAudit.Check.Shape
import PatchAudit.Codec.Base85
import PatchAudit.Codec.Inflate
import PatchAudit.Codec.MessagePack
import PatchAudit.Codec.Sha256
import PatchAudit.Command.Basic
import PatchAudit.Command.Check
import PatchAudit.Command.Flag
import PatchAudit.Command.Line
import PatchAudit.Command.Suggestion
import PatchAudit.Diff.BinaryData
import PatchAudit.Diff.Cursor
import PatchAudit.Diff.Epoch
import PatchAudit.Diff.FileName
import PatchAudit.Diff.Fragment
import PatchAudit.Diff.Header
import PatchAudit.Diff.Reader
import PatchAudit.Disk.Basic
import PatchAudit.Disk.Change
import PatchAudit.Disk.Glob
import PatchAudit.Json.Reader
import PatchAudit.Json.Record
import PatchAudit.Json.Value
import PatchAudit.Main
import PatchAudit.Patch.Document
import PatchAudit.Patch.Highlight
import PatchAudit.Patch.Line
import PatchAudit.Patch.Target
import PatchAudit.Path.Basic
import PatchAudit.Path.Pattern
import PatchAudit.Report.BraceListing
import PatchAudit.Report.Format
import PatchAudit.Report.Html
import PatchAudit.Report.Issue
import PatchAudit.Report.Markdown
import PatchAudit.Report.Paint
import PatchAudit.Report.Plain
import PatchAudit.Report.Record
import PatchAudit.Report.Sarif
import PatchAudit.Run.Basic
import PatchAudit.Run.Discover
import PatchAudit.Service.Address
import PatchAudit.Service.Basic
import PatchAudit.Service.Exchange
import PatchAudit.Service.Listen
import PatchAudit.Service.Origin
import PatchAudit.Service.Request
import PatchAudit.Service.Session
import PatchAudit.Settings.Basic
import PatchAudit.Settings.File
import PatchAudit.Sorting.Quicksort
import PatchAudit.Store.Basic
import PatchAudit.Store.Entry
import PatchAudit.Store.Key
import PatchAudit.Text.Blank
import PatchAudit.Text.Bytes
import PatchAudit.Text.CellWidth
import PatchAudit.Text.ControlSequence
import PatchAudit.Text.Csv
import PatchAudit.Text.EditDistance
import PatchAudit.Text.FieldName
import PatchAudit.Text.LowerCase
import PatchAudit.Text.Mark
import PatchAudit.Text.Numeral
import PatchAudit.Text.Percent
import PatchAudit.Text.Pictograph
import PatchAudit.Text.Printable
import PatchAudit.Text.Quoted
import PatchAudit.Text.Truncate
import PatchAudit.Text.Utf8
import PatchAudit.Toml.Reader
import PatchAudit.Toml.Scalar
import PatchAudit.Toml.Tree
import PatchAudit.Toml.Value
import PatchAudit.Proofs.Text
import PatchAudit.Proofs.PathNames
import PatchAudit.Proofs.DiskWalk
import PatchAudit.Proofs.Folders
import PatchAudit.Proofs.StorePaths
import PatchAudit.Proofs.StorePut
import PatchAudit.Proofs.StoredForm
import PatchAudit.Proofs.DiffTotals
import PatchAudit.Proofs.ReportSize
import PatchAudit.Proofs.ReportKey
import PatchAudit.Proofs.SoundStore
import PatchAudit.Proofs.SoundRun
import PatchAudit.Proofs.RunHistory
import PatchAudit.Proofs.PatchOrder
import PatchAudit.Proofs.Schedule
import PatchAudit.Proofs.ScheduledRun
import PatchAudit.Proofs.BraceTrace
import PatchAudit.Proofs.SessionReplies
import PatchAudit.Proofs.BrowserState
import PatchAudit.Proofs.IssueNavigation
import PatchAudit.Proofs.StoreFolder
import PatchAudit.Proofs.StoreMap
import PatchAudit.Proofs.CheckVerdict
import PatchAudit.Proofs.Characters
import PatchAudit.Proofs.Numerals
import PatchAudit.Proofs.JsonText
import PatchAudit.Proofs.RecordReading
import PatchAudit.Proofs.PlainPatch
import PatchAudit.Proofs.PlainPatchReading
import PatchAudit.Proofs.ReadersAgree
import PatchAudit.Proofs.PlainFolder
import PatchAudit.Proofs.PlainIssues
import PatchAudit.Proofs.OneStory
import PatchAudit.Proofs.JsonInMessage
import PatchAudit.Proofs.ServiceAgrees
import PatchAudit.Proofs.BraceWalk
import PatchAudit.Proofs.HighlightedText
import PatchAudit.Proofs.FoundPatches
import PatchAudit.Proofs.NamedTargets
import PatchAudit.Proofs.PlacedSettings
import PatchAudit.Proofs.AtomicPut
import PatchAudit.Proofs.FailedCheck
import PatchAudit.Proofs.SkippedChecks
import PatchAudit.Proofs.ClassifiedLines
import PatchAudit.Proofs.IssuePlaces
import PatchAudit.Proofs.InsertedLine
import PatchAudit.Proofs.BrandedLines
import PatchAudit.Proofs.LineEnds
import PatchAudit.Proofs.InertText
import PatchAudit.Proofs.TaggedText
import PatchAudit.Proofs.PageText
import PatchAudit.Proofs.LocalOrigins
import PatchAudit.Proofs.MarkdownTable
import PatchAudit.Proofs.CleanPaths
import PatchAudit.Proofs.NearestSettings
import PatchAudit.Proofs.CheckCounts
import PatchAudit.Proofs.PatternItems
import PatchAudit.Proofs.UsablePatterns
import PatchAudit.Proofs.WindowLines
import PatchAudit.Proofs.FittingText
import PatchAudit.Proofs.FittedWindow
import PatchAudit.Proofs.NarrowText
import PatchAudit.Proofs.BrowserScreen
import PatchAudit.Proofs.LineKinds
import PatchAudit.Proofs.DealtLines
import PatchAudit.Proofs.RecutTokens
import PatchAudit.Proofs.ShortenedText
