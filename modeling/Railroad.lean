import Railroad.Cli.Arguments
import Railroad.Cli.Command
import Railroad.Cli.Report
import Railroad.Decimal.Binary
import Railroad.Decimal.Form
import Railroad.Decimal.General
import Railroad.Decimal.Shortest
import Railroad.Drawing.Call
import Railroad.Drawing.Connector
import Railroad.Drawing.Scene
import Railroad.Drawing.Session
import Railroad.Drawing.Sheet
import Railroad.Drawing.Strokes
import Railroad.Drawing.Style
import Railroad.Ebnf.Lexeme
import Railroad.Ebnf.Reader
import Railroad.Ebnf.Token
import Railroad.Ebnf.Written
import Railroad.Ebnf.Printing
import Railroad.Export.Exporter
import Railroad.Export.Format
import Railroad.Export.Generator
import Railroad.Export.Note
import Railroad.Files.FilePath
import Railroad.Files.FileStore
import Railroad.Files.Folder
import Railroad.Geometry.Arc
import Railroad.Geometry.Box
import Railroad.Geometry.Direction
import Railroad.Geometry.Metrics
import Railroad.Geometry.Point
import Railroad.Grammar.Node
import Railroad.Layout.BoxTable
import Railroad.Layout.Context
import Railroad.Layout.Engine
import Railroad.Layout.Fault
import Railroad.Layout.Placement
import Railroad.Reference.Graph
import Railroad.Reference.Rules
import Railroad.Scalar
import Railroad.Surface.Png
import Railroad.Surface.Recorder
import Railroad.Surface.Reply
import Railroad.Surface.Settings
import Railroad.Surface.Surface
import Railroad.Surface.Svg
import Railroad.Surface.Tikz
import Railroad.Text.Blank
import Railroad.Text.Integer
import Railroad.Text.Lines
import Railroad.Text.LowerCase
import Railroad.Text.Markup
import Railroad.Text.Printable
import Railroad.Text.Quoted
import Railroad.Text.Terminal
import Railroad.Trace.Difference
import Railroad.Trace.Record
import Railroad.Trace.Trace
import Railroad.Main
import Railroad.Proofs.Ebnf.Derivation
import Railroad.Proofs.Ebnf.Reading
import Railroad.Proofs.Ebnf.Soundness
import Railroad.Proofs.Ebnf.Completeness
import Railroad.Proofs.Ebnf.Recognition
import Railroad.Proofs.Grammar.Shape
import Railroad.Proofs.Grammar.Spliced
import Railroad.Proofs.Ebnf.WrittenText
import Railroad.Proofs.Ebnf.Cutting
import Railroad.Proofs.Ebnf.Quotes
import Railroad.Proofs.Ebnf.ReadTrees
import Railroad.Proofs.Ebnf.Spelling
import Railroad.Proofs.Ebnf.Reprinting
import Railroad.Proofs.Grammar.Flat
import Railroad.Proofs.Ebnf.OpenCalls
import Railroad.Proofs.Ebnf.RoundTrip
import Railroad.Proofs.Grammar.Height
import Railroad.Proofs.Layout.Sized
import Railroad.Proofs.Layout.Itinerary
import Railroad.Proofs.Layout.Measured
import Railroad.Proofs.Layout.Run
import Railroad.Proofs.Layout.Filling
import Railroad.Proofs.Layout.SizeProgram
import Railroad.Proofs.Layout.SizePass
import Railroad.Proofs.Layout.Arrangement
import Railroad.Proofs.Grammar.Complete
import Railroad.Proofs.Grammar.Preorder
import Railroad.Proofs.Grammar.Walk
import Railroad.Proofs.Ebnf.Numbering
import Railroad.Proofs.Drawing.Shown
import Railroad.Proofs.Drawing.RenderPass
import Railroad.Proofs.Drawing.Agreement
import Railroad.Proofs.Grammar.Renumbered
import Railroad.Proofs.Layout.Renumbered
import Railroad.Proofs.Drawing.Renumbered
import Railroad.Proofs.Runs
import Railroad.Proofs.Ebnf.AnyStart
import Railroad.Proofs.Export.Alike
import Railroad.Proofs.Export.Redrawing
import Railroad.Proofs.Layout.Success
import Railroad.Proofs.Geometry.Exact
import Railroad.Proofs.Layout.Standing
import Railroad.Proofs.Layout.Spread
import Railroad.Proofs.Layout.Nesting
import Railroad.Proofs.Drawing.Flawless
import Railroad.Proofs.Surface.Answers
import Railroad.Proofs.Drawing.Safety
import Railroad.Proofs.Drawing.Pen
import Railroad.Proofs.Layout.Clearance
import Railroad.Proofs.Drawing.Connectors
import Railroad.Proofs.Surface.Curves
import Railroad.Proofs.Layout.Descent
import Railroad.Proofs.Layout.Order
import Railroad.Proofs.Drawing.ItemRails
import Railroad.Proofs.Drawing.Scopes
import Railroad.Proofs.Drawing.Entrances
import Railroad.Proofs.Drawing.Rails
import Railroad.Proofs.Layout.Rows
import Railroad.Proofs.Layout.Margins
import Railroad.Proofs.Drawing.Places
import Railroad.Proofs.Drawing.Verticals
import Railroad.Proofs.Drawing.RailRuns
import Railroad.Proofs.Drawing.Stubs
import Railroad.Proofs.Drawing.RailLines
import Railroad.Proofs.Drawing.Marks
import Railroad.Proofs.Drawing.Extents
import Railroad.Proofs.Drawing.StrokeExtents
import Railroad.Proofs.Drawing.Zones
import Railroad.Proofs.Drawing.Bounds
import Railroad.Proofs.Layout.Courses
import Railroad.Proofs.Drawing.Leaves
import Railroad.Proofs.Drawing.Texts
import Railroad.Proofs.Drawing.Arrows
import Railroad.Proofs.Surface.Tracing
import Railroad.Proofs.Surface.Documents
import Railroad.Proofs.Surface.Markup
import Railroad.Proofs.Surface.WellFormed
import Railroad.Proofs.Export.Tracing
import Railroad.Proofs.Export.History
import Railroad.Proofs.Export.Stages
import Railroad.Proofs.Export.Links
import Railroad.Proofs.Ebnf.Splitting
import Railroad.Proofs.Ebnf.Respacing
import Railroad.Proofs.Layout.Composition
import Railroad.Proofs.Reference.Growth
import Railroad.Proofs.Reference.Reachability
import Railroad.Proofs.Layout.Lines
import Railroad.Proofs.Ebnf.Whereabouts
import Railroad.Proofs.Ebnf.ErrorPlaces
import Railroad.Proofs.Ebnf.Histories
import Railroad.Proofs.Reference.Circles
import Railroad.Proofs.Ebnf.Leaves
import Railroad.Proofs.Surface.Inside
import Railroad.Proofs.Surface.Failures
import Railroad.Proofs.Geometry.Growth
import Railroad.Proofs.Layout.SavedStates
import Railroad.Proofs.Layout.WriteOnce
import Railroad.Proofs.Export.KeptTraces
import Railroad.Proofs.Layout.Piles
import Railroad.Proofs.Trace.Gaps
import Railroad.Proofs.Surface.Nodes
import Railroad.Proofs.Reference.Exactness
