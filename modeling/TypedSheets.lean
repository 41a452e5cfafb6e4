import TypedSheets.Call.Parser
import TypedSheets.Call.Prototype
import TypedSheets.Cell
import TypedSheets.Check.All
import TypedSheets.Check.Basic
import TypedSheets.Check.EnumDefinition
import TypedSheets.Check.Key
import TypedSheets.Check.Name
import TypedSheets.Check.Prototype
import TypedSheets.Check.RelationType
import TypedSheets.Check.RelationValue
import TypedSheets.Check.StrongType
import TypedSheets.Chunks
import TypedSheets.Compilation
import TypedSheets.Data.Basic
import TypedSheets.Data.Jobs
import TypedSheets.Decimal.Double
import TypedSheets.Decimal.Shortest
import TypedSheets.Diagnostic
import TypedSheets.Enum.Evaluation
import TypedSheets.Enum.Expression
import TypedSheets.Enum.Registry
import TypedSheets.Enum.Shape
import TypedSheets.Failure
import TypedSheets.Json
import TypedSheets.Keyed
import TypedSheets.Location
import TypedSheets.Moment.DateTime
import TypedSheets.Moment.Duration
import TypedSheets.Pool
import TypedSheets.Position
import TypedSheets.Proofs.Casting.Sound
import TypedSheets.Proofs.Compilation.References
import TypedSheets.Proofs.Compilation.Views
import TypedSheets.Proofs.Session.Requests
import TypedSheets.Proofs.TypeExpr.RoundTrip
import TypedSheets.Proofs.Pool.Interleaving
import TypedSheets.Proofs.Compilation.Running
import TypedSheets.Proofs.Compilation.Targets
import TypedSheets.Proofs.Pool.Pieces
import TypedSheets.Proofs.Session.Transparency
import TypedSheets.Resolution
import TypedSheets.Schema
import TypedSheets.Session.Basic
import TypedSheets.Session.Casting
import TypedSheets.Session.Definitions
import TypedSheets.Session.Memory
import TypedSheets.Session.Number
import TypedSheets.Session.RootType
import TypedSheets.Settings.Basic
import TypedSheets.Settings.Folder
import TypedSheets.Settings.Reading
import TypedSheets.Sheet
import TypedSheets.Sorting
import TypedSheets.Text.Blank
import TypedSheets.Text.Cut
import TypedSheets.Text.Numeral
import TypedSheets.Text.Word
import TypedSheets.Text.WordTable
import TypedSheets.TypeExpr.Basic
import TypedSheets.TypeExpr.Bracket
import TypedSheets.TypeExpr.Naking
import TypedSheets.TypeExpr.Parser
import TypedSheets.Value
import TypedSheets.View
import TypedSheets.Walk
import TypedSheets.Yaml.Basic
import TypedSheets.Yaml.Cursor
import TypedSheets.Yaml.Document
import TypedSheets.Yaml.Parser
import TypedSheets.Yaml.Reading
import TypedSheets.Yaml.Scalar.Block
import TypedSheets.Yaml.Scalar.Gap
import TypedSheets.Yaml.Scalar.Plain
import TypedSheets.Yaml.Scalar.Quoted
import TypedSheets.Yaml.Tag
import TypedSheets.Yaml.Token
import TypedSheets.Yaml.Token.Lexer
import TypedSheets.Proofs.Compilation.Tuning
import TypedSheets.Proofs.TypeExpr.Inner
import TypedSheets.Proofs.Casting.Confined
import TypedSheets.Proofs.Casting.Depth
import TypedSheets.Proofs.Casting.Bound
import TypedSheets.Proofs.Relation.Chains
import TypedSheets.Proofs.Casting.Halting
import TypedSheets.Proofs.Relation.Expansion
import TypedSheets.Proofs.Relation.Cycles
import TypedSheets.Proofs.Compilation.Jobs
import TypedSheets.Proofs.Compilation.Faultless
import TypedSheets.Proofs.Compilation.Rows
import TypedSheets.Proofs.Compilation.Tiers
import TypedSheets.Proofs.Compilation.Columns
import TypedSheets.Proofs.Compilation.Inheritance
import TypedSheets.Proofs.Compilation.Failures
import TypedSheets.Proofs.Relation.Roots
import TypedSheets.Proofs.Relation.Sequences
import TypedSheets.Proofs.Compilation.Owners
import TypedSheets.Proofs.Compilation.Parents
import TypedSheets.Proofs.Text.Numerals
import TypedSheets.Proofs.Moment.Texts
import TypedSheets.Proofs.Casting.Texts
import TypedSheets.Proofs.View.Scopes
import TypedSheets.Proofs.Relation.KeyMarks
import TypedSheets.Proofs.Relation.Terminal
import TypedSheets.Proofs.Session.RootCasts
import TypedSheets.Proofs.Check.Names
import TypedSheets.Proofs.Compilation.Merging
import TypedSheets.Proofs.Check.Spelling
import TypedSheets.Proofs.Pool.Halting
import TypedSheets.Proofs.Enum.Acceptance
import TypedSheets.Proofs.Casting.Grounded
import TypedSheets.Proofs.Casting.Constants
import TypedSheets.Proofs.Moment.RoundTrip
import TypedSheets.Proofs.Enum.Exact
import TypedSheets.Proofs.Casting.Integers
import TypedSheets.Proofs.Enum.Numbered
import TypedSheets.Proofs.Enum.Solutions
import TypedSheets.Proofs.Moment.Grammar
import TypedSheets.Proofs.Check.Defaults
import TypedSheets.Proofs.Check.Mentions
import TypedSheets.Proofs.Check.Duplicates
import TypedSheets.Proofs.Compilation.SameColumns
import TypedSheets.Proofs.Check.EnumKeys
import TypedSheets.Proofs.Call.RoundTrip
import TypedSheets.Proofs.Call.Closing
import TypedSheets.Proofs.Container.Cuts
import TypedSheets.Proofs.Enum.Alternation
import TypedSheets.Proofs.Compilation.Lineage
import TypedSheets.Proofs.TypeExpr.Naked
import TypedSheets.Proofs.TypeExpr.Pairs
import TypedSheets.Proofs.Check.Redeclared
