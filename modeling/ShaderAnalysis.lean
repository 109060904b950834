import ShaderAnalysis.Analysis.Declaration
import ShaderAnalysis.Analysis.Expression
import ShaderAnalysis.Analysis.Statement
import ShaderAnalysis.Analysis.Unit
import ShaderAnalysis.Annotation
import ShaderAnalysis.Binding.Block
import ShaderAnalysis.Binding.Declarator
import ShaderAnalysis.Binding.Function
import ShaderAnalysis.Binding.GeometryInput
import ShaderAnalysis.Binding.Qualify
import ShaderAnalysis.Binding.Struct
import ShaderAnalysis.Builtin.Catalog
import ShaderAnalysis.Builtin.Variables
import ShaderAnalysis.Context
import ShaderAnalysis.Effects
import ShaderAnalysis.Options
import ShaderAnalysis.Problem
import ShaderAnalysis.Proofs.Accesses
import ShaderAnalysis.Proofs.Additions
import ShaderAnalysis.Proofs.Agenda
import ShaderAnalysis.Proofs.Aggregates
import ShaderAnalysis.Proofs.AlikeTrees
import ShaderAnalysis.Proofs.AlikeUnits
import ShaderAnalysis.Proofs.Announcements
import ShaderAnalysis.Proofs.ArithmeticKinds
import ShaderAnalysis.Proofs.ArrayDimensions
import ShaderAnalysis.Proofs.ArrayLengths
import ShaderAnalysis.Proofs.Binding
import ShaderAnalysis.Proofs.BindingOutcomes
import ShaderAnalysis.Proofs.Calls
import ShaderAnalysis.Proofs.Candidates
import ShaderAnalysis.Proofs.Change
import ShaderAnalysis.Proofs.CleanCheck
import ShaderAnalysis.Proofs.CleanState
import ShaderAnalysis.Proofs.CleanSteps
import ShaderAnalysis.Proofs.CleanTypes
import ShaderAnalysis.Proofs.Consistency
import ShaderAnalysis.Proofs.Conversions
import ShaderAnalysis.Proofs.DeclaredNames
import ShaderAnalysis.Proofs.DeclaredTypes
import ShaderAnalysis.Proofs.EffectUnion
import ShaderAnalysis.Proofs.EmbeddedStructs
import ShaderAnalysis.Proofs.Evolution
import ShaderAnalysis.Proofs.ExprVisits
import ShaderAnalysis.Proofs.FatalConditions
import ShaderAnalysis.Proofs.FieldLookup
import ShaderAnalysis.Proofs.Following
import ShaderAnalysis.Proofs.Footprint
import ShaderAnalysis.Proofs.Forest
import ShaderAnalysis.Proofs.Frames
import ShaderAnalysis.Proofs.GeometryInputs
import ShaderAnalysis.Proofs.HookCalls
import ShaderAnalysis.Proofs.InputLayouts
import ShaderAnalysis.Proofs.InterpolationLegality
import ShaderAnalysis.Proofs.Judgement
import ShaderAnalysis.Proofs.LaterSizes
import ShaderAnalysis.Proofs.LayoutOrder
import ShaderAnalysis.Proofs.NewVariables
import ShaderAnalysis.Proofs.NewerVersions
import ShaderAnalysis.Proofs.NodeParts
import ShaderAnalysis.Proofs.NodeIds
import ShaderAnalysis.Proofs.Order
import ShaderAnalysis.Proofs.Overloads
import ShaderAnalysis.Proofs.ParallelRuns
import ShaderAnalysis.Proofs.Performance
import ShaderAnalysis.Proofs.Phrases
import ShaderAnalysis.Proofs.Portrayal
import ShaderAnalysis.Proofs.Provisions
import ShaderAnalysis.Proofs.PureTyping
import ShaderAnalysis.Proofs.RecordLayout
import ShaderAnalysis.Proofs.Redeclarations
import ShaderAnalysis.Proofs.RelabeledRuns
import ShaderAnalysis.Proofs.RelabeledStates
import ShaderAnalysis.Proofs.Relabeling
import ShaderAnalysis.Proofs.Rendering
import ShaderAnalysis.Proofs.ReportedKinds
import ShaderAnalysis.Proofs.Resolution
import ShaderAnalysis.Proofs.Revisits
import ShaderAnalysis.Proofs.Roles
import ShaderAnalysis.Proofs.ScopeRestoration
import ShaderAnalysis.Proofs.Sites
import ShaderAnalysis.Proofs.Snapshots
import ShaderAnalysis.Proofs.StructNesting
import ShaderAnalysis.Proofs.Swizzles
import ShaderAnalysis.Proofs.Upholding
import ShaderAnalysis.Proofs.VoidTypes
import ShaderAnalysis.Proofs.WellFormedStates
import ShaderAnalysis.Proofs.WellFormedSteps
import ShaderAnalysis.Proofs.WellFormedTypes
import ShaderAnalysis.Proofs.WrittenTypes
import ShaderAnalysis.Qualifiers
import ShaderAnalysis.Reflection.Basic
import ShaderAnalysis.Reflection.Text
import ShaderAnalysis.Reported
import ShaderAnalysis.Scopes
import ShaderAnalysis.Signature
import ShaderAnalysis.Table
import ShaderAnalysis.Traversal.Node
import ShaderAnalysis.Traversal.Outline
import ShaderAnalysis.Traversal.Trace
import ShaderAnalysis.Traversal.Walk
import ShaderAnalysis.Tree.Alike
import ShaderAnalysis.Tree.Builder
import ShaderAnalysis.Tree.Expr
import ShaderAnalysis.Tree.Position
import ShaderAnalysis.Tree.Stmt
import ShaderAnalysis.Ty.Basic
import ShaderAnalysis.Ty.Conversion
import ShaderAnalysis.Ty.Definition
import ShaderAnalysis.Ty.Name
import ShaderAnalysis.Ty.Swizzle
import ShaderAnalysis.Typing.Aggregate
import ShaderAnalysis.Typing.Dimensions
import ShaderAnalysis.Typing.Expression
import ShaderAnalysis.Typing.Layout
import ShaderAnalysis.Typing.Specifier
import ShaderAnalysis.Variable
