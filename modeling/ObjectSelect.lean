import ObjectSelect.ConfigFile
import ObjectSelect.Expr.Render
import ObjectSelect.Lowering
import ObjectSelect.Proofs.Answers
import ObjectSelect.Proofs.AttributeColumns
import ObjectSelect.Proofs.BrokenContracts
import ObjectSelect.Proofs.Cells
import ObjectSelect.Proofs.Clauses
import ObjectSelect.Proofs.Coherence
import ObjectSelect.Proofs.Conformance
import ObjectSelect.Proofs.Contracts
import ObjectSelect.Proofs.Coverage
import ObjectSelect.Proofs.Faults
import ObjectSelect.Proofs.FetchNodes
import ObjectSelect.Proofs.FirstSpec
import ObjectSelect.Proofs.Growth
import ObjectSelect.Proofs.Isolation
import ObjectSelect.Proofs.Objects
import ObjectSelect.Proofs.Ownership
import ObjectSelect.Proofs.PathText
import ObjectSelect.Proofs.QuotedText
import ObjectSelect.Proofs.ReadingFaults
import ObjectSelect.Proofs.Repetition
import ObjectSelect.Proofs.Resolver
import ObjectSelect.Proofs.RowOutcomes
import ObjectSelect.Proofs.SameText
import ObjectSelect.Proofs.ScopedMaps
import ObjectSelect.Proofs.Scopes
import ObjectSelect.Proofs.Sharing
import ObjectSelect.Proofs.Sources
import ObjectSelect.Proofs.Subqueries
import ObjectSelect.Stack.Step
