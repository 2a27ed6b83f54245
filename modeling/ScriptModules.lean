import ScriptModules.Cli.Arguments
import ScriptModules.Cli.Reach
import ScriptModules.Cli.Run
import ScriptModules.Cli.Word
import ScriptModules.Config.Coercion
import ScriptModules.Config.Fault
import ScriptModules.Config.Lax
import ScriptModules.Config.Load
import ScriptModules.Config.Number
import ScriptModules.Config.Options
import ScriptModules.Config.Problem
import ScriptModules.Config.Toml.Document
import ScriptModules.Config.Toml.Reader
import ScriptModules.Config.Toml.Scalar
import ScriptModules.Config.Toml.Section
import ScriptModules.Config.Toml.Text
import ScriptModules.Config.Value
import ScriptModules.Convert
import ScriptModules.Data.KeySet
import ScriptModules.Data.Order
import ScriptModules.Data.Table
import ScriptModules.Disk.Basic
import ScriptModules.Disk.Change
import ScriptModules.Disk.Locate
import ScriptModules.Disk.Read
import ScriptModules.Disk.Step
import ScriptModules.Disk.Write
import ScriptModules.Emit.Document
import ScriptModules.Emit.Module
import ScriptModules.Emit.Report
import ScriptModules.Emit.Write
import ScriptModules.Fault
import ScriptModules.Graph.Cycle
import ScriptModules.Graph.Import
import ScriptModules.Input.CharSet
import ScriptModules.Input.FileList
import ScriptModules.Input.Find
import ScriptModules.Input.Glob
import ScriptModules.Input.Ignore
import ScriptModules.Input.Ignoring
import ScriptModules.Link.Define
import ScriptModules.Link.Fault
import ScriptModules.Link.Ingest
import ScriptModules.Link.State
import ScriptModules.Link.Symbol
import ScriptModules.Log.Book
import ScriptModules.Log.Level
import ScriptModules.Log.Logged
import ScriptModules.Log.Notice
import ScriptModules.Main
import ScriptModules.Merge.Absorb
import ScriptModules.Merge.Circular
import ScriptModules.Merge.Combine
import ScriptModules.Merge.Resolve
import ScriptModules.Names.Registry
import ScriptModules.Path.Basic
import ScriptModules.Path.Specifier
import ScriptModules.Proofs.Config.Confinement
import ScriptModules.Proofs.Config.Layers
import ScriptModules.Proofs.Config.Read
import ScriptModules.Proofs.Convert.Blind
import ScriptModules.Proofs.Convert.Failure
import ScriptModules.Proofs.Convert.Inputs
import ScriptModules.Proofs.Convert.Repeat
import ScriptModules.Proofs.Convert.Stages
import ScriptModules.Proofs.Data.Except
import ScriptModules.Proofs.Data.Group
import ScriptModules.Proofs.Data.Order
import ScriptModules.Proofs.Data.Table
import ScriptModules.Proofs.Data.Unordered
import ScriptModules.Proofs.Disk.Detour
import ScriptModules.Proofs.Disk.Follow
import ScriptModules.Proofs.Disk.Listing
import ScriptModules.Proofs.Disk.Reading
import ScriptModules.Proofs.Disk.Shape
import ScriptModules.Proofs.Disk.Step
import ScriptModules.Proofs.Disk.Writing
import ScriptModules.Proofs.Emit.Imports
import ScriptModules.Proofs.Emit.Planting
import ScriptModules.Proofs.Emit.Rewriting
import ScriptModules.Proofs.Emit.Unordered
import ScriptModules.Proofs.Emit.Written
import ScriptModules.Proofs.Graph.Component
import ScriptModules.Proofs.Graph.Cycle
import ScriptModules.Proofs.Graph.Discovery
import ScriptModules.Proofs.Graph.Import
import ScriptModules.Proofs.Graph.Unordered
import ScriptModules.Proofs.Input.Enumeration
import ScriptModules.Proofs.Input.Finding
import ScriptModules.Proofs.Input.Growth
import ScriptModules.Proofs.Input.Listed
import ScriptModules.Proofs.Link.Acyclic
import ScriptModules.Proofs.Link.Clash
import ScriptModules.Proofs.Link.Ingest
import ScriptModules.Proofs.Link.Linked
import ScriptModules.Proofs.Link.Namespace
import ScriptModules.Proofs.Link.Numbers
import ScriptModules.Proofs.Link.OwnNames
import ScriptModules.Proofs.Link.Ownership
import ScriptModules.Proofs.Link.Partition
import ScriptModules.Proofs.Link.Parts
import ScriptModules.Proofs.Link.Writers
import ScriptModules.Proofs.Merge.Accounting
import ScriptModules.Proofs.Merge.Assignment
import ScriptModules.Proofs.Merge.Circular
import ScriptModules.Proofs.Merge.Conservation
import ScriptModules.Proofs.Merge.Contraction
import ScriptModules.Proofs.Merge.Grouping
import ScriptModules.Proofs.Merge.Journal
import ScriptModules.Proofs.Merge.Order
import ScriptModules.Proofs.Merge.Passes
import ScriptModules.Proofs.Merge.Residual
import ScriptModules.Proofs.Merge.Run
import ScriptModules.Proofs.Merge.Seams
import ScriptModules.Proofs.Merge.Unordered
import ScriptModules.Proofs.Merge.Upkeep
import ScriptModules.Proofs.Names.Registry
import ScriptModules.Proofs.Names.Session
import ScriptModules.Proofs.Path.Retitle
import ScriptModules.Proofs.Path.Specifier
import ScriptModules.Proofs.Source.Cutting
import ScriptModules.Proofs.Source.Overflow
import ScriptModules.Proofs.Source.Packing
import ScriptModules.Proofs.Source.Pieces
import ScriptModules.Proofs.Source.Undivided
import ScriptModules.Proofs.Source.Weaving
import ScriptModules.Proofs.Text.Lowercase
import ScriptModules.Proofs.Text.Utf8
import ScriptModules.Proofs.Tree.Address
import ScriptModules.Proofs.Tree.Binding
import ScriptModules.Proofs.Tree.Comments
import ScriptModules.Proofs.Tree.Flaw
import ScriptModules.Proofs.Tree.Free
import ScriptModules.Proofs.Tree.Report
import ScriptModules.Proofs.Tree.Shared
import ScriptModules.Proofs.Tree.Targets
import ScriptModules.Proofs.Verify
import ScriptModules.Script.Cursor
import ScriptModules.Script.Expression
import ScriptModules.Script.Glyph
import ScriptModules.Script.Lexeme
import ScriptModules.Script.Parse
import ScriptModules.Script.Pattern
import ScriptModules.Script.Statement
import ScriptModules.Source.Partition
import ScriptModules.Source.Strip
import ScriptModules.Text.Blank
import ScriptModules.Text.CaseTable
import ScriptModules.Text.Decimal
import ScriptModules.Text.Lowercase
import ScriptModules.Text.PrintableTable
import ScriptModules.Text.Quoted
import ScriptModules.Text.Utf8
import ScriptModules.Tools
import ScriptModules.Tree.Node
import ScriptModules.Tree.Outline
import ScriptModules.Tree.Scope
import ScriptModules.Verify
