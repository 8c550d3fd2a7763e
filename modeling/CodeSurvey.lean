import CodeSurvey.Analysis
import CodeSurvey.Analysis.Reporting
import CodeSurvey.CommandLine
import CodeSurvey.CommandLine.Listing
import CodeSurvey.CommandLine.Usage
import CodeSurvey.Discovery
import CodeSurvey.Discovery.Form
import CodeSurvey.Disk
import CodeSurvey.Disk.Archive
import CodeSurvey.Disk.Database
import CodeSurvey.Disk.Node
import CodeSurvey.Edge
import CodeSurvey.Facts
import CodeSurvey.Facts.Form
import CodeSurvey.Facts.Text
import CodeSurvey.Failure
import CodeSurvey.Go.Block
import CodeSurvey.Go.Header
import CodeSurvey.Go.Line
import CodeSurvey.Go.Scan
import CodeSurvey.Job
import CodeSurvey.Job.Form
import CodeSurvey.Job.Table
import CodeSurvey.Json.Basic
import CodeSurvey.Json.Cursor
import CodeSurvey.Json.Decode
import CodeSurvey.Json.Issue
import CodeSurvey.Json.Pretty
import CodeSurvey.Json.Reader
import CodeSurvey.Language
import CodeSurvey.Main
import CodeSurvey.Path
import CodeSurvey.Proofs.Analysis.Determined
import CodeSurvey.Proofs.Analysis.EarlyFailure
import CodeSurvey.Proofs.Analysis.Expected
import CodeSurvey.Proofs.Analysis.Failing
import CodeSurvey.Proofs.Analysis.JobTotals
import CodeSurvey.Proofs.Analysis.Progress
import CodeSurvey.Proofs.Analysis.Stages
import CodeSurvey.Proofs.Analysis.Standing
import CodeSurvey.Proofs.Analysis.Totals
import CodeSurvey.Proofs.Discovery.Exact
import CodeSurvey.Proofs.Discovery.Totals
import CodeSurvey.Proofs.Disk.Entries
import CodeSurvey.Proofs.Disk.Making
import CodeSurvey.Proofs.Disk.Opening
import CodeSurvey.Proofs.Disk.Order
import CodeSurvey.Proofs.Disk.Path
import CodeSurvey.Proofs.Disk.Resolving
import CodeSurvey.Proofs.Disk.Tree
import CodeSurvey.Proofs.Disk.Unpacking
import CodeSurvey.Proofs.Disk.Way
import CodeSurvey.Proofs.Go.ByOffset
import CodeSurvey.Proofs.Go.Clause
import CodeSurvey.Proofs.Go.Extent
import CodeSurvey.Proofs.Go.Heading
import CodeSurvey.Proofs.Go.Imports
import CodeSurvey.Proofs.Go.Lexical
import CodeSurvey.Proofs.Go.Parameters
import CodeSurvey.Proofs.Go.Pass
import CodeSurvey.Proofs.Go.Receiver
import CodeSurvey.Proofs.Go.Shape
import CodeSurvey.Proofs.Go.Signature
import CodeSurvey.Proofs.Go.Type
import CodeSurvey.Proofs.Go.TypeHeading
import CodeSurvey.Proofs.Job.Begun
import CodeSurvey.Proofs.Job.Events
import CodeSurvey.Proofs.Job.Eviction
import CodeSurvey.Proofs.Job.History
import CodeSurvey.Proofs.Job.Lifecycle
import CodeSurvey.Proofs.Job.Noted
import CodeSurvey.Proofs.Job.Turn
import CodeSurvey.Proofs.Json.Merge
import CodeSurvey.Proofs.Json.ReadBack
import CodeSurvey.Proofs.Json.Records
import CodeSurvey.Proofs.Json.Reordered
import CodeSurvey.Proofs.Python.Block
import CodeSurvey.Proofs.Python.ByOffset
import CodeSurvey.Proofs.Python.Comment
import CodeSurvey.Proofs.Python.Header
import CodeSurvey.Proofs.Python.HeaderByOffset
import CodeSurvey.Proofs.Python.Heading
import CodeSurvey.Proofs.Python.ImportList
import CodeSurvey.Proofs.Python.Imports
import CodeSurvey.Proofs.Python.Line
import CodeSurvey.Proofs.Python.Locality
import CodeSurvey.Proofs.Python.Nesting
import CodeSurvey.Proofs.Python.Parameters
import CodeSurvey.Proofs.Python.Pass
import CodeSurvey.Proofs.Queue.Bell
import CodeSurvey.Proofs.Queue.Dispatch
import CodeSurvey.Proofs.Queue.History
import CodeSurvey.Proofs.Queue.Own
import CodeSurvey.Proofs.Queue.Reports
import CodeSurvey.Proofs.Queue.Run
import CodeSurvey.Proofs.Queue.Shutdown
import CodeSurvey.Proofs.Queue.Slots
import CodeSurvey.Proofs.Queue.Step
import CodeSurvey.Proofs.Queue.Sweeping
import CodeSurvey.Proofs.Queue.Telling
import CodeSurvey.Proofs.Store.Agreement
import CodeSurvey.Proofs.Store.Cascade
import CodeSurvey.Proofs.Store.Change
import CodeSurvey.Proofs.Store.Contents
import CodeSurvey.Proofs.Store.Direct
import CodeSurvey.Proofs.Store.Fair
import CodeSurvey.Proofs.Store.Integrity
import CodeSurvey.Proofs.Store.Kept
import CodeSurvey.Proofs.Store.Lawful
import CodeSurvey.Proofs.Store.Layout
import CodeSurvey.Proofs.Store.Matching
import CodeSurvey.Proofs.Store.Memory
import CodeSurvey.Proofs.Store.Only
import CodeSurvey.Proofs.Store.Ownership
import CodeSurvey.Proofs.Store.Refusal
import CodeSurvey.Proofs.Store.Relational
import CodeSurvey.Proofs.Store.Renaming
import CodeSurvey.Proofs.Store.Replacing
import CodeSurvey.Proofs.Store.Request
import CodeSurvey.Proofs.Store.Rows
import CodeSurvey.Proofs.Store.Sharing
import CodeSurvey.Proofs.Store.Standing
import CodeSurvey.Proofs.Store.Statement
import CodeSurvey.Proofs.Store.Updating
import CodeSurvey.Proofs.Survey.Choice
import CodeSurvey.Proofs.Survey.Docs
import CodeSurvey.Proofs.Survey.Edges
import CodeSurvey.Proofs.Survey.Exports
import CodeSurvey.Proofs.Survey.Facts
import CodeSurvey.Proofs.Survey.Lines
import CodeSurvey.Proofs.Text.Blank
import CodeSurvey.Proofs.Text.Casing
import CodeSurvey.Proofs.Text.Lexemes
import CodeSurvey.Proofs.Text.Lines
import CodeSurvey.Proofs.Text.Name
import CodeSurvey.Proofs.Text.Nested
import CodeSurvey.Proofs.Text.Number
import CodeSurvey.Proofs.Text.Offset
import CodeSurvey.Proofs.Text.Pieces
import CodeSurvey.Proofs.TypeScript.ExportForms
import CodeSurvey.Proofs.TypeScript.Exported
import CodeSurvey.Proofs.TypeScript.Order
import CodeSurvey.Proofs.TypeScript.Piece
import CodeSurvey.Proofs.TypeScript.Preorder
import CodeSurvey.Proofs.TypeScript.Walk
import CodeSurvey.Proofs.Workspace.Apart
import CodeSurvey.Proofs.Workspace.Destination
import CodeSurvey.Proofs.Workspace.Materializing
import CodeSurvey.Proofs.Workspace.Preparing
import CodeSurvey.Python.Block
import CodeSurvey.Python.Header
import CodeSurvey.Python.Line
import CodeSurvey.Python.Scan
import CodeSurvey.Queue
import CodeSurvey.Queue.Settle
import CodeSurvey.Queue.Work
import CodeSurvey.Registry
import CodeSurvey.Registry.Builtin
import CodeSurvey.Repository
import CodeSurvey.Repository.Form
import CodeSurvey.Repository.Source
import CodeSurvey.Settings
import CodeSurvey.Store.Form
import CodeSurvey.Store.Memory
import CodeSurvey.Store.Operation
import CodeSurvey.Store.Record
import CodeSurvey.Store.Relational.Database
import CodeSurvey.Store.Relational.Direct
import CodeSurvey.Store.Relational.Issue
import CodeSurvey.Store.Relational.Row
import CodeSurvey.Store.Relational.Schema
import CodeSurvey.Text.Blank
import CodeSurvey.Text.Casing
import CodeSurvey.Text.Casing.Table
import CodeSurvey.Text.Digest
import CodeSurvey.Text.Encoding
import CodeSurvey.Text.Lines
import CodeSurvey.Text.Name
import CodeSurvey.Text.Nested
import CodeSurvey.Text.Number
import CodeSurvey.Text.Quoted
import CodeSurvey.Text.Quoted.Table
import CodeSurvey.Text.WordChar
import CodeSurvey.Time
import CodeSurvey.TypeScript.Cursor
import CodeSurvey.TypeScript.Dialect
import CodeSurvey.TypeScript.Grammar.Basic
import CodeSurvey.TypeScript.Grammar.Classes
import CodeSurvey.TypeScript.Grammar.Declarations
import CodeSurvey.TypeScript.Grammar.Elements
import CodeSurvey.TypeScript.Grammar.Expressions
import CodeSurvey.TypeScript.Grammar.Literals
import CodeSurvey.TypeScript.Grammar.Patterns
import CodeSurvey.TypeScript.Grammar.Statements
import CodeSurvey.TypeScript.Grammar.Types
import CodeSurvey.TypeScript.Parse
import CodeSurvey.TypeScript.Scan
import CodeSurvey.TypeScript.Tree
import CodeSurvey.Workspace
