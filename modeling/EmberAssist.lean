import EmberAssist.AppModule
import EmberAssist.CommandLine.Argument
import EmberAssist.CommandLine.Command
import EmberAssist.CommandLine.Index
import EmberAssist.CommandLine.Report
import EmberAssist.CommandLine.Run
import EmberAssist.Completion.Candidate
import EmberAssist.Completion.Gather
import EmberAssist.Completion.Keyword
import EmberAssist.Completion.PhraseKey
import EmberAssist.Completion.Ranking
import EmberAssist.Console.Cell
import EmberAssist.Console.Line
import EmberAssist.Console.Markup
import EmberAssist.Console.Table
import EmberAssist.Data.Base64
import EmberAssist.Data.Calendar
import EmberAssist.Data.Fault
import EmberAssist.Data.Json
import EmberAssist.Data.JsonText
import EmberAssist.Data.Numeral
import EmberAssist.Data.Scalar
import EmberAssist.Data.Value
import EmberAssist.Document.Basic
import EmberAssist.Document.Host
import EmberAssist.Document.Language
import EmberAssist.Document.Store
import EmberAssist.Document.Uri
import EmberAssist.FilePath
import EmberAssist.Files.Access
import EmberAssist.Files.Cache
import EmberAssist.Files.Source
import EmberAssist.Files.Tree
import EmberAssist.Files.Watch
import EmberAssist.Layout.Basic
import EmberAssist.Layout.Classic
import EmberAssist.Layout.Classifier
import EmberAssist.Layout.Pod
import EmberAssist.Layout.PodPrefix
import EmberAssist.Main
import EmberAssist.Number.Double
import EmberAssist.Number.Shortest
import EmberAssist.Phrase.Catalogue
import EmberAssist.Phrase.Flatten
import EmberAssist.Position
import EmberAssist.Project.Basic
import EmberAssist.Project.Registry
import EmberAssist.Proofs.CommandLine.Watching
import EmberAssist.Proofs.Cursor
import EmberAssist.Proofs.Completion.Gathering
import EmberAssist.Proofs.Completion.Labels
import EmberAssist.Proofs.Completion.LetterCase
import EmberAssist.Proofs.Completion.Ranking
import EmberAssist.Proofs.Completion.ScriptKeys
import EmberAssist.Proofs.Document.Uri
import EmberAssist.Proofs.Document.Wire
import EmberAssist.Proofs.Files.Forgetting
import EmberAssist.Proofs.Files.Reading
import EmberAssist.Proofs.Files.Table
import EmberAssist.Proofs.Files.Transparency
import EmberAssist.Proofs.Files.Viewing
import EmberAssist.Proofs.Files.Watching
import EmberAssist.Proofs.Layout.Checkout
import EmberAssist.Proofs.Layout.Features
import EmberAssist.Proofs.Layout.Folders
import EmberAssist.Proofs.Layout.TopLevel
import EmberAssist.Proofs.Lines
import EmberAssist.Proofs.Path
import EmberAssist.Proofs.PathName
import EmberAssist.Proofs.Phrase.Faults
import EmberAssist.Proofs.Phrase.Keys
import EmberAssist.Proofs.Phrase.Merging
import EmberAssist.Proofs.Position
import EmberAssist.Proofs.Project.Collecting
import EmberAssist.Proofs.Project.Orderly
import EmberAssist.Proofs.Project.Ownership
import EmberAssist.Proofs.Project.Reading
import EmberAssist.Proofs.Project.Registry
import EmberAssist.Proofs.Project.Relevance
import EmberAssist.Proofs.Project.Watching
import EmberAssist.Proofs.Script.PodPrefix
import EmberAssist.Proofs.Script.Traversal
import EmberAssist.Proofs.Session.Agreement
import EmberAssist.Proofs.Session.Candidates
import EmberAssist.Proofs.Session.Choice
import EmberAssist.Proofs.Session.Effect
import EmberAssist.Proofs.Session.History
import EmberAssist.Proofs.Session.Invariant
import EmberAssist.Proofs.Session.Outcome
import EmberAssist.Proofs.Session.PhraseEdits
import EmberAssist.Proofs.Session.PhraseMerging
import EmberAssist.Proofs.Session.Refresh
import EmberAssist.Proofs.Template.Address
import EmberAssist.Proofs.Template.BlockNames
import EmberAssist.Proofs.Template.BlockParams
import EmberAssist.Proofs.Template.BlockTags
import EmberAssist.Proofs.Template.CursorPlace
import EmberAssist.Proofs.Template.Descent
import EmberAssist.Proofs.Template.Fidelity
import EmberAssist.Proofs.Template.Focusing
import EmberAssist.Proofs.Template.Grammar
import EmberAssist.Proofs.Template.Laminar
import EmberAssist.Proofs.Template.Lexemes
import EmberAssist.Proofs.Template.Lockstep
import EmberAssist.Proofs.Template.Offered
import EmberAssist.Proofs.Template.Origin
import EmberAssist.Proofs.Template.Outcome
import EmberAssist.Proofs.Template.Passages
import EmberAssist.Proofs.Template.Patching
import EmberAssist.Proofs.Template.Placeholder
import EmberAssist.Proofs.Template.Placement
import EmberAssist.Proofs.Template.Progress
import EmberAssist.Proofs.Template.Ranges
import EmberAssist.Proofs.Template.Resolution
import EmberAssist.Proofs.Template.Retyping
import EmberAssist.Proofs.Template.Scoping
import EmberAssist.Proofs.Template.Search
import EmberAssist.Proofs.Template.Simulation
import EmberAssist.Proofs.Template.SimulationBlocks
import EmberAssist.Proofs.Template.SimulationTags
import EmberAssist.Proofs.Template.Strings
import EmberAssist.Proofs.Template.Tiling
import EmberAssist.Proofs.Template.SourceText
import EmberAssist.Proofs.Template.TokenFocus
import EmberAssist.Proofs.Template.TokenSource
import EmberAssist.Proofs.Template.Tokens
import EmberAssist.Proofs.Template.Typing
import EmberAssist.Proofs.Text
import EmberAssist.Proofs.Text.AnyCase
import EmberAssist.Proofs.Text.Segments
import EmberAssist.Readers
import EmberAssist.Readers.Usual
import EmberAssist.Script.Expression
import EmberAssist.Script.Grouping
import EmberAssist.Script.Lexer
import EmberAssist.Script.Lookup
import EmberAssist.Script.Node
import EmberAssist.Script.Parser
import EmberAssist.Script.Token
import EmberAssist.Session.Basic
import EmberAssist.Session.Complete
import EmberAssist.Session.Tool
import EmberAssist.Settings
import EmberAssist.Template.Context
import EmberAssist.Template.Fault
import EmberAssist.Template.Focus
import EmberAssist.Template.Graph
import EmberAssist.Template.Input
import EmberAssist.Template.Layer
import EmberAssist.Template.Lexeme
import EmberAssist.Template.Node
import EmberAssist.Template.Parser
import EmberAssist.Template.Scope
import EmberAssist.Template.Source
import EmberAssist.Template.Trail
import EmberAssist.Text.Blank
import EmberAssist.Text.DecimalDigit
import EmberAssist.Text.Lines
import EmberAssist.Text.Lowercase
import EmberAssist.Text.Printable
import EmberAssist.Text.Quoted
import EmberAssist.Text.RangeTable
import EmberAssist.Text.Search
import EmberAssist.Text.Slice
import EmberAssist.Text.Utf8
import EmberAssist.Text.WordChar
import EmberAssist.Yaml.Composition
import EmberAssist.Yaml.Construction
import EmberAssist.Yaml.Cursor
import EmberAssist.Yaml.Graph
import EmberAssist.Yaml.Lexer
import EmberAssist.Yaml.Property
import EmberAssist.Yaml.Scalar
import EmberAssist.Yaml.Tag
import EmberAssist.Yaml.Token
