import SnippetTrail.Bytes.Hex
import SnippetTrail.Bytes.Sha224
import SnippetTrail.Config.Basic
import SnippetTrail.Config.Environment
import SnippetTrail.Config.File
import SnippetTrail.Corpus.Basic
import SnippetTrail.Corpus.Sync
import SnippetTrail.Corpus.Watched
import SnippetTrail.Daemon.Options
import SnippetTrail.Daemon.Run
import SnippetTrail.Error
import SnippetTrail.Git.Commit
import SnippetTrail.Git.FileStatus
import SnippetTrail.Git.Hash
import SnippetTrail.Git.History
import SnippetTrail.Git.Reference
import SnippetTrail.Git.Remote
import SnippetTrail.Git.Repository
import SnippetTrail.Git.Series
import SnippetTrail.Host.Basic
import SnippetTrail.Host.Command
import SnippetTrail.Json.Value
import SnippetTrail.Machine.Basic
import SnippetTrail.Machine.FileTree
import SnippetTrail.Main
import SnippetTrail.Path
import SnippetTrail.Rehearsal.Script
import SnippetTrail.Rehearsal.StandIn
import SnippetTrail.Shell.Arithmetic
import SnippetTrail.Shell.Field
import SnippetTrail.Shell.Filter
import SnippetTrail.Shell.Program
import SnippetTrail.Shell.Run
import SnippetTrail.Shell.Script
import SnippetTrail.Shell.State
import SnippetTrail.Shell.Token
import SnippetTrail.Snippet.Basic
import SnippetTrail.Snippet.Catalog
import SnippetTrail.Snippet.Extract
import SnippetTrail.Snippet.Language
import SnippetTrail.Snippet.Metadata
import SnippetTrail.Snippet.Region
import SnippetTrail.Snippet.SourceFile
import SnippetTrail.Table
import SnippetTrail.Text.Blank
import SnippetTrail.Text.CharRange
import SnippetTrail.Text.Hidden
import SnippetTrail.Text.Integer
import SnippetTrail.Text.Lines
import SnippetTrail.Text.Quoted
import SnippetTrail.Text.Scan
import SnippetTrail.Text.Search
import SnippetTrail.Text.System
import SnippetTrail.Text.Uppercase
import SnippetTrail.Text.Utf8
import SnippetTrail.Text.Word
import SnippetTrail.Time.Timestamp
import SnippetTrail.Toml.Document
import SnippetTrail.Toml.Number
import SnippetTrail.Toml.Quoted
import SnippetTrail.Toml.Section
import SnippetTrail.Toml.Value
import SnippetTrail.Tracked.List
import SnippetTrail.Tracked.Repository
import SnippetTrail.Tracked.Url
import SnippetTrail.Yaml.Cursor
import SnippetTrail.Yaml.Document
import SnippetTrail.Yaml.Event
import SnippetTrail.Yaml.Scalar
import SnippetTrail.Yaml.Token
import SnippetTrail.Proofs.Outcome
import SnippetTrail.Proofs.Extraction
import SnippetTrail.Proofs.Trail
import SnippetTrail.Proofs.Step
import SnippetTrail.Proofs.WellFormed
import SnippetTrail.Proofs.Recorded
import SnippetTrail.Proofs.Presence
import SnippetTrail.Proofs.Death
import SnippetTrail.Proofs.Homes
import SnippetTrail.Proofs.Growth
import SnippetTrail.Proofs.Provenance
import SnippetTrail.Proofs.Matching
import SnippetTrail.Proofs.Separation
import SnippetTrail.Proofs.FileOrder
import SnippetTrail.Proofs.Tags
import SnippetTrail.Proofs.HistoryText
import SnippetTrail.Proofs.Act
import SnippetTrail.Proofs.Checkout
import SnippetTrail.Proofs.Update
import SnippetTrail.Proofs.Freshness
import SnippetTrail.Proofs.Interleaving
import SnippetTrail.Proofs.Turns
import SnippetTrail.Proofs.Regions
import SnippetTrail.Proofs.CrossReferences
import SnippetTrail.Proofs.Names
import SnippetTrail.Proofs.HashText
import SnippetTrail.Proofs.ReferenceList
import SnippetTrail.Proofs.Replay
import SnippetTrail.Proofs.FileLanguage
import SnippetTrail.Proofs.LineEndings
import SnippetTrail.Proofs.Sizes
import SnippetTrail.Proofs.MetadataBlock
import SnippetTrail.Proofs.DamagedHistory
import SnippetTrail.Proofs.StatusGrammar
import SnippetTrail.Proofs.RemoteList
import SnippetTrail.Proofs.Utf8Text
import SnippetTrail.Proofs.HashReading
import SnippetTrail.Proofs.UrlSpelling
import SnippetTrail.Proofs.ListReloading
import SnippetTrail.Proofs.HistoryScript
import SnippetTrail.Proofs.DistinctKeys
import SnippetTrail.Proofs.SettingsFile
import SnippetTrail.Proofs.Precedence
import SnippetTrail.Proofs.QuotedText
import SnippetTrail.Proofs.WrittenSections
import SnippetTrail.Proofs.FileStorage
import SnippetTrail.Proofs.SavedSettings
import SnippetTrail.Proofs.Frame
import SnippetTrail.Proofs.Registration
import SnippetTrail.Proofs.ExtractedText
import SnippetTrail.Proofs.SeriesCalls
