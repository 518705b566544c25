import Sift.Binary64.Basic
import Sift.Binary64.Nearest
import Sift.Binary64.Shortest
import Sift.Catalog
import Sift.ColumnType
import Sift.Decimal
import Sift.Json.Basic
import Sift.Json.Number
import Sift.Json.Printer
import Sift.Json.Reader
import Sift.Json.Token
import Sift.Keyed
import Sift.Limits
import Sift.Operator.Basic
import Sift.Operator.Bounds
import Sift.Operator.Coercion
import Sift.Operator.Conditions
import Sift.Proofs.AddedJoins
import Sift.Proofs.AlikeRules
import Sift.Proofs.AssociationPaths
import Sift.Proofs.BaseRestriction
import Sift.Proofs.BoundValues
import Sift.Proofs.BuiltScopes
import Sift.Proofs.CoercedIntegers
import Sift.Proofs.Complement
import Sift.Proofs.Connectives
import Sift.Proofs.Contributions
import Sift.Proofs.DeclaredFilters
import Sift.Proofs.Delegation
import Sift.Proofs.DirectFilters
import Sift.Proofs.HiddenScopes
import Sift.Proofs.Histories
import Sift.Proofs.InnerScopes
import Sift.Proofs.JoinedConjunctions
import Sift.Proofs.KeptProperties
import Sift.Proofs.LeafRejections
import Sift.Proofs.LeftJoins
import Sift.Proofs.ListedFilters
import Sift.Proofs.MixedBounds
import Sift.Proofs.Narrowing
import Sift.Proofs.NearestDoubles
import Sift.Proofs.NullSides
import Sift.Proofs.Operands
import Sift.Proofs.Outcomes
import Sift.Proofs.Pages
import Sift.Proofs.Parentheses
import Sift.Proofs.Placeholders
import Sift.Proofs.PlainRules
import Sift.Proofs.Qualifiers
import Sift.Proofs.QuerySize
import Sift.Proofs.RangeBounds
import Sift.Proofs.RegisteredNames
import Sift.Proofs.Registrations
import Sift.Proofs.Renaming
import Sift.Proofs.Rows
import Sift.Proofs.RuleBudget
import Sift.Proofs.RuleGrammar
import Sift.Proofs.RuleMeaning
import Sift.Proofs.RuleOrder
import Sift.Proofs.Shapes
import Sift.Proofs.SharedJoins
import Sift.Proofs.Unambiguous
import Sift.Proofs.Unions
import Sift.Proofs.VirtualColumns
import Sift.Proofs.Ways
import Sift.Proofs.WellScopedResults
import Sift.Proofs.WrittenRules
import Sift.Rejection
import Sift.Rule.Basic
import Sift.Rule.Reader
import Sift.Scope.Basic
import Sift.Scope.Joined
import Sift.Sql.Database
import Sift.Sql.Piece
import Sift.Sql.Statement
import Sift.Surface.Association
import Sift.Surface.Basic
import Sift.Surface.Composition
import Sift.Surface.Declaration
import Sift.Surface.Filter
import Sift.Table
import Sift.Text.Blank
import Sift.Text.Identifier
import Sift.Text.Printable
import Sift.Text.Quoted
