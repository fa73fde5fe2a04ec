import TypedScript.Type.Hint
import TypedScript.Type.Join
import TypedScript.Type.Arguments
import TypedScript.Text.Quoted
import TypedScript.Text.Integer
import TypedScript.Source.Location
import TypedScript.SharedStack
import TypedScript.Source.Lines
import TypedScript.Report.Style
import TypedScript.Report.Catalogue
import TypedScript.Report.Rendering
import TypedScript.Syntax.Operator
import TypedScript.Typing.Access
import TypedScript.Typing.Literals
import TypedScript.Syntax.Tree
import TypedScript.Syntax.Naming
import TypedScript.Scope.Resolution
import TypedScript.Narrowing.Stack
import TypedScript.Flow.Returns
import TypedScript.Checking.Check
import TypedScript.Checking.Declare
import TypedScript.Checking.Lineage
import TypedScript.Checking.Members
import TypedScript.Checking.Calls
import TypedScript.Checking.Names
import TypedScript.Checking.Expressions
import TypedScript.Checking.Collections
import TypedScript.Checking.Functions
import TypedScript.Checking.Classes
import TypedScript.Checking.Statements
import TypedScript.Syntax.Callables
import TypedScript.Checking.Walk
import TypedScript.Analysis
import TypedScript.Proofs.Stacks
import TypedScript.Proofs.Keeping.Declarations
import TypedScript.Proofs.Assignability
import TypedScript.Proofs.Discipline
import TypedScript.Proofs.Transitivity
import TypedScript.Proofs.Flow.Completion
import TypedScript.Proofs.Flow.Growth
import TypedScript.Proofs.Flow.Construction
import TypedScript.Proofs.Flow.MissingReturns
import TypedScript.Proofs.Values
import TypedScript.Proofs.Narrowing
import TypedScript.Proofs.Lineage.Walks
import TypedScript.Proofs.Lineage.Layers
import TypedScript.Proofs.Lineage.Endings
import TypedScript.Proofs.Bodies
import TypedScript.Proofs.Registration
import TypedScript.Proofs.Canonical.Operations
import TypedScript.Proofs.Canonical.Resolution
import TypedScript.Proofs.Canonical.Sessions
import TypedScript.Proofs.Canonical.Preservation
import TypedScript.Proofs.Lineage.Foundations
import TypedScript.Proofs.Shapes
import TypedScript.Proofs.Canonical.UnionSets
import TypedScript.Proofs.References.Dereferencing
import TypedScript.Proofs.References.Agreement
import TypedScript.Proofs.References.Chains
import TypedScript.Proofs.References.Forward
import TypedScript.Proofs.Relating.Fragments
import TypedScript.Proofs.Relating.Callables
import TypedScript.Proofs.Relating.Tree
import TypedScript.Proofs.Once
import TypedScript.Proofs.Accepted
import TypedScript.Proofs.NullSafety
import TypedScript.Proofs.Annotations
import TypedScript.Proofs.Refinements
import TypedScript.Proofs.Loops
import TypedScript.Proofs.NullRemoval
import TypedScript.Proofs.OptionalTypes
import TypedScript.Proofs.Joins
import TypedScript.Proofs.NumericJoins
import TypedScript.Proofs.Jumps
import TypedScript.Proofs.Flow.FinallyRules
import TypedScript.Proofs.Flow.Finally
import TypedScript.Proofs.Flow.DeadCode
import TypedScript.Proofs.Flow.Unreachable
import TypedScript.Proofs.Flow.Blame
import TypedScript.Proofs.ConditionSpelling
import TypedScript.Proofs.Results.Returns
import TypedScript.Proofs.Results.Pending
import TypedScript.Proofs.Results.Unknowns
import TypedScript.Proofs.Results.Inferred
import TypedScript.Proofs.LexicalScoping
import TypedScript.Proofs.Generics.Bounds
import TypedScript.Proofs.Generics.Inference
import TypedScript.Proofs.Generics.Substitution
import TypedScript.Proofs.Generics.Composition
import TypedScript.Proofs.Generics.Occurrence
import TypedScript.Proofs.Generics.Renaming
import TypedScript.Proofs.Generics.Binders
import TypedScript.Proofs.Numbers.Numerals
import TypedScript.Proofs.Numbers.Enumerations
import TypedScript.Proofs.Numbers.Ranges
import TypedScript.Proofs.Generics.Application
import TypedScript.Proofs.Decoration
