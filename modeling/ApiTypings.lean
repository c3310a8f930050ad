import ApiTypings.CommandLine.Arguments
import ApiTypings.CommandLine.Run
import ApiTypings.Decimal.Shortest
import ApiTypings.Declaration.Basic
import ApiTypings.Declaration.Text
import ApiTypings.Dotted
import ApiTypings.Export
import ApiTypings.File.Access
import ApiTypings.File.Path
import ApiTypings.File.Tree
import ApiTypings.Forest.Build
import ApiTypings.Forest.Classes
import ApiTypings.Generation
import ApiTypings.GenerationError
import ApiTypings.Hierarchy.ClassIndex
import ApiTypings.Hierarchy.Override
import ApiTypings.Json.Basic
import ApiTypings.Json.Number
import ApiTypings.Json.Reader
import ApiTypings.Json.Writer
import ApiTypings.Layout
import ApiTypings.Main
import ApiTypings.Member
import ApiTypings.Method
import ApiTypings.Notice
import ApiTypings.Parameter
import ApiTypings.Proofs.Distinct
import ApiTypings.Proofs.Dotted
import ApiTypings.Proofs.Exports
import ApiTypings.Proofs.File.Writing
import ApiTypings.Proofs.Forest.Built
import ApiTypings.Proofs.Forest.Failure
import ApiTypings.Proofs.Forest.Implied
import ApiTypings.Proofs.Forest.Insertion
import ApiTypings.Proofs.Forest.LeftOut
import ApiTypings.Proofs.Forest.Level
import ApiTypings.Proofs.Forest.Nodes
import ApiTypings.Proofs.Forest.Placement
import ApiTypings.Proofs.Forest.Places
import ApiTypings.Proofs.Forest.Positions
import ApiTypings.Proofs.Forest.Refusal
import ApiTypings.Proofs.Forest.Sorted
import ApiTypings.Proofs.Generation.Cut
import ApiTypings.Proofs.Generation.Definitions
import ApiTypings.Proofs.Generation.Mixed
import ApiTypings.Proofs.Hierarchy.Agreement
import ApiTypings.Proofs.Hierarchy.Chain
import ApiTypings.Proofs.Hierarchy.ClassOrder
import ApiTypings.Proofs.Hierarchy.Coherence
import ApiTypings.Proofs.Hierarchy.Collected
import ApiTypings.Proofs.Hierarchy.Descent
import ApiTypings.Proofs.Hierarchy.Idempotence
import ApiTypings.Proofs.Hierarchy.MemberOrder
import ApiTypings.Proofs.Hierarchy.PlainClasses
import ApiTypings.Proofs.Hierarchy.Reconciled
import ApiTypings.Proofs.Hierarchy.Resolution
import ApiTypings.Proofs.Hierarchy.Suppression
import ApiTypings.Proofs.Hierarchy.TopDown
import ApiTypings.Proofs.Hierarchy.Visibility
import ApiTypings.Proofs.Hierarchy.Worklist
import ApiTypings.Proofs.Layout.Blocks
import ApiTypings.Proofs.Layout.Documentation
import ApiTypings.Proofs.Layout.Lines
import ApiTypings.Proofs.Layout.OneLine
import ApiTypings.Proofs.Layout.WellNested
import ApiTypings.Proofs.Method
import ApiTypings.Proofs.Outcome
import ApiTypings.Proofs.Refusal
import ApiTypings.Proofs.Settings.Replacement
import ApiTypings.Proofs.Settings.Untyped
import ApiTypings.Proofs.Signature.Coverage
import ApiTypings.Proofs.Signature.Equivalence
import ApiTypings.Proofs.Signature.Product
import ApiTypings.Proofs.Signature.Runs
import ApiTypings.Proofs.Text.Order
import ApiTypings.Proofs.Text.Trim
import ApiTypings.Proofs.TypeExpr.Balance
import ApiTypings.Proofs.TypeExpr.Brackets
import ApiTypings.Proofs.TypeExpr.CachedText
import ApiTypings.Proofs.TypeExpr.Excess
import ApiTypings.Proofs.TypeExpr.FixedText
import ApiTypings.Proofs.TypeExpr.Letters
import ApiTypings.Proofs.TypeExpr.Made
import ApiTypings.Proofs.TypeExpr.OpenText
import ApiTypings.Proofs.TypeExpr.OuterBars
import ApiTypings.Proofs.TypeExpr.Pieces
import ApiTypings.Proofs.TypeExpr.Reread
import ApiTypings.Proofs.TypeExpr.RoundTrip
import ApiTypings.Proofs.TypeExpr.SetLaws
import ApiTypings.Proofs.TypeExpr.Spelling
import ApiTypings.Property
import ApiTypings.Record.Error
import ApiTypings.Record.Reader
import ApiTypings.Record.Symbols
import ApiTypings.Report
import ApiTypings.Settings.Basic
import ApiTypings.Settings.Names
import ApiTypings.Settings.Reader
import ApiTypings.Settings.Replacement
import ApiTypings.Signature
import ApiTypings.Symbol
import ApiTypings.Text.Blank
import ApiTypings.Text.Pieces
import ApiTypings.Text.Quoted
import ApiTypings.Text.Unprintable
import ApiTypings.Text.Uppercase
import ApiTypings.Toml.Basic
import ApiTypings.Toml.Datetime
import ApiTypings.Toml.Reader
import ApiTypings.Toml.Scalar
import ApiTypings.TypeExpr.Alternatives
import ApiTypings.TypeExpr.Cached
import ApiTypings.TypeExpr.Set
import ApiTypings.TypeExpr.Term
