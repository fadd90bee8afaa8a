import ScopedSelect.Binary.Format
import ScopedSelect.Clause.Basic
import ScopedSelect.Condition.Basic
import ScopedSelect.Decimal.Notation
import ScopedSelect.Domain.Basic
import ScopedSelect.Domain.State
import ScopedSelect.Error
import ScopedSelect.Json.Basic
import ScopedSelect.Json.Reader
import ScopedSelect.Proofs.Binding.Agreement
import ScopedSelect.Proofs.Binding.Alignment
import ScopedSelect.Proofs.Binding.Completeness
import ScopedSelect.Proofs.Binding.Confinement
import ScopedSelect.Proofs.Binding.Congruence
import ScopedSelect.Proofs.Binding.Filling
import ScopedSelect.Proofs.Binding.Placeholder
import ScopedSelect.Proofs.Binding.Regular
import ScopedSelect.Proofs.Binding.Shape
import ScopedSelect.Proofs.Binding.Sites
import ScopedSelect.Proofs.Condition.Conjunction
import ScopedSelect.Proofs.Condition.Enclosure
import ScopedSelect.Proofs.Condition.Grouping
import ScopedSelect.Proofs.Condition.Joining
import ScopedSelect.Proofs.Condition.Membership
import ScopedSelect.Proofs.Condition.Readability
import ScopedSelect.Proofs.Condition.Series
import ScopedSelect.Proofs.Domain.Writes
import ScopedSelect.Proofs.Domain.Record
import ScopedSelect.Proofs.Failure.Checks
import ScopedSelect.Proofs.Failure.First
import ScopedSelect.Proofs.Json.Document
import ScopedSelect.Proofs.Json.RoundTrip
import ScopedSelect.Proofs.Query.Acceptance
import ScopedSelect.Proofs.Query.Accumulation
import ScopedSelect.Proofs.Query.Columns
import ScopedSelect.Proofs.Query.Edits
import ScopedSelect.Proofs.Query.Qualified
import ScopedSelect.Proofs.Query.Reachable
import ScopedSelect.Proofs.Query.Targets
import ScopedSelect.Proofs.Render.Balance
import ScopedSelect.Proofs.Render.Clauses
import ScopedSelect.Proofs.Render.Composition
import ScopedSelect.Proofs.Render.Factoring
import ScopedSelect.Proofs.Render.Judgement
import ScopedSelect.Proofs.Render.Transaction
import ScopedSelect.Proofs.Scope.Aliases
import ScopedSelect.Proofs.Scope.Apart
import ScopedSelect.Proofs.Scope.Hygiene
import ScopedSelect.Proofs.Scope.Isolation
import ScopedSelect.Proofs.Scope.Names
import ScopedSelect.Proofs.Scope.Nesting
import ScopedSelect.Proofs.Scope.Shown
import ScopedSelect.Proofs.Scope.Soundness
import ScopedSelect.Proofs.Scope.SourceTable
import ScopedSelect.Proofs.Scope.Unqualified
import ScopedSelect.Proofs.Scope.WellScoped
import ScopedSelect.Proofs.Text.Balance
import ScopedSelect.Proofs.Text.Marks
import ScopedSelect.Proofs.Text.Wrapping
import ScopedSelect.Proofs.Tree.Exactness
import ScopedSelect.Proofs.Tree.Occurrence
import ScopedSelect.Proofs.Tree.Traversal
import ScopedSelect.Proofs.Value.Exactness
import ScopedSelect.Proofs.Value.Lexing
import ScopedSelect.Proofs.Value.RoundTrip
import ScopedSelect.Query.Edit
import ScopedSelect.Render.Tree
import ScopedSelect.Shorthand.Basic
import ScopedSelect.Shorthand.Query
import ScopedSelect.Text.Basic
import ScopedSelect.Tree.Basic
import ScopedSelect.Tree.Names
import ScopedSelect.Tree.Construction
import ScopedSelect.Value.Basic
import ScopedSelect.Value.Conversion
import ScopedSelect.Value.Tagged
